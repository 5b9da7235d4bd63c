import ManifestLint.Proofs.Yaml.Flow

/-!
Values in block style: mappings with one entry to a line and sequences with one item to a line, in
which every scalar stands plain. A collection that is the value of a key starts on the next line,
further to the right; one that is an item starts behind the dash. Each value has its text, the
tokens of that text, the events and the node.
-/

namespace ManifestLint.Yaml

def bareChars : List Char :=
  ['A', 'B', 'C', 'D', 'E', 'F', 'G', 'H', 'I', 'J', 'K', 'L', 'M', 'N', 'O', 'P', 'Q', 'R', 'S',
    'T', 'U',
   'V', 'W', 'X', 'Y', 'Z', 'a', 'b', 'c', 'd', 'e', 'f', 'g', 'h', 'i', 'j', 'k', 'l', 'm', 'n',
   'o', 'p',
   'q', 'r', 's', 't', 'u', 'v', 'w', 'x', 'y', 'z', '0', '1', '2', '3', '4', '5', '6', '7', '8',
   '9', '_',
   '.', '+', '-']

/-- A text that stands plain on a line of its own. A single dash would start an item. -/
structure Bare where
  text : String
  nonempty : text.toList ≠ []
  dashless : text.toList ≠ ['-']
  chars : ∀ char ∈ text.toList, char ∈ bareChars

def Bare.of (text : String)
    (fits : (text.toList ≠ [] ∧ text.toList ≠ ['-']) ∧
      text.toList.all (bareChars.contains ·) = true := by decide) :
    Bare where
  text := text
  nonempty := fits.1.1
  dashless := fits.1.2
  chars := by simpa using fits.2

structure WordKey where
  text : String
  word : IsWord text
  short : text.length ≤ 100

def WordKey.of (text : String) (fits : IsWord text ∧ text.length ≤ 100 := by decide) : WordKey :=
  ⟨text, fits.1, fits.2⟩

inductive Block where
  | scalar (bare : Bare)
  | sequence (first : Block) (others : List Block)
  | mapping (key : WordKey) (value : Block) (others : List (WordKey × Block))

namespace Block

def blanks (count : Nat) : List Char := List.replicate count ' '

/-- How the text of a key's value starts, and in which column its collection stands. -/
def lead (step column : Nat) : Block → List Char
  | .scalar _ => [' ']
  | _ => '\n' :: blanks (column + step + 1)

mutual

/-- The text of a value in a column. A collection of a key is that many columns and one to the
right. -/
def write (step column : Nat) : Block → List Char
  | .scalar bare => bare.text.toList
  | .sequence first others => '-' :: ' ' ::
      (write step (column + 2) first ++ writeItems step column others)
  | .mapping key value others =>
      key.text.toList ++ ':' :: (lead step column value ++
        (write step (column + step + 1) value ++ writeEntries step column others))

def writeItems (step column : Nat) : List Block → List Char
  | [] => []
  | item :: items =>
      '\n' :: (blanks column ++ '-' :: ' ' ::
        (write step (column + 2) item ++ writeItems step column items))

def writeEntries (step column : Nat) : List (WordKey × Block) → List Char
  | [] => []
  | (key, value) :: entries =>
      '\n' :: (blanks column ++ (key.text.toList ++ ':' :: (lead step column value ++
        (write step (column + step + 1) value ++ writeEntries step column entries))))

end

mutual

def tokens : Block → List Token
  | .scalar bare => [.scalar .plain bare.text]
  | .sequence first others => .blockSequenceStart :: .blockEntry ::
      (tokens first ++ (tokensOfItems others ++ [.blockEnd]))
  | .mapping key value others =>
      .blockMappingStart :: .key :: .scalar .plain key.text :: .value ::
        (tokens value ++ (tokensOfEntries others ++ [.blockEnd]))

def tokensOfItems : List Block → List Token
  | [] => []
  | item :: items => .blockEntry :: (tokens item ++ tokensOfItems items)

def tokensOfEntries : List (WordKey × Block) → List Token
  | [] => []
  | (key, value) :: entries =>
      .key :: .scalar .plain key.text :: .value :: (tokens value ++ tokensOfEntries entries)

end

mutual

def events : Block → List Event
  | .scalar bare => [.scalar .absent .plain bare.text]
  | .sequence first others => .sequenceStart .absent ::
      (events first ++ (eventsOfItems others ++ [.sequenceEnd]))
  | .mapping key value others =>
      .mappingStart .absent :: .scalar .absent .plain key.text ::
        (events value ++ (eventsOfEntries others ++ [.mappingEnd]))

def eventsOfItems : List Block → List Event
  | [] => []
  | item :: items => events item ++ eventsOfItems items

def eventsOfEntries : List (WordKey × Block) → List Event
  | [] => []
  | (key, value) :: entries => .scalar .absent .plain key.text ::
      (events value ++ eventsOfEntries entries)

end

mutual

def node : Block → Node
  | .scalar bare => .scalar ⟨none, none⟩ .plain bare.text
  | .sequence first others => .sequence ⟨none, none⟩ (node first :: nodesOfItems others) true
  | .mapping key value others =>
      .mapping ⟨none, none⟩ ((.scalar ⟨none, none⟩ .plain key.text, node value) :: nodesOfEntries
        others) true

def nodesOfItems : List Block → List Node
  | [] => []
  | item :: items => node item :: nodesOfItems items

def nodesOfEntries : List (WordKey × Block) → List (Node × Node)
  | [] => []
  | (key, value) :: entries => (.scalar ⟨none, none⟩ .plain key.text, node value) ::
      nodesOfEntries entries

end

end Block

end ManifestLint.Yaml
