import ManifestLint.Proofs.Yaml.Quoting
import ManifestLint.Yaml.Event
import ManifestLint.Yaml.Node

/-!
Values in flow style, as they are written on one line: words and quoted texts, sequences in brackets
and mappings in braces. Each has its text, the tokens of that text, the events these make and the
node they build.
-/

namespace ManifestLint.Yaml

def wordChars : List Char := "abcdefghijklmnopqrstuvwxyz_".toList

/-- A text of small letters and underscores, which needs no quotes. -/
def IsWord (text : String) : Prop :=
  text.toList ≠ [] ∧ text.toList.all (wordChars.contains ·) = true

instance (text : String) : Decidable (IsWord text) := inferInstanceAs (Decidable (_ ∧ _))

theorem IsWord.chars {text : String} (word : IsWord text) :
    ∀ char ∈ text.toList, char ∈ wordChars := by
  intro char member
  exact List.contains_iff_mem.1 (List.all_eq_true.1 word.2 char member)

inductive Spelling where
  | plain (text : String) (word : IsWord text)
  | quoted (text : String)

namespace Spelling

def text : Spelling → String
  | .plain text _ => text
  | .quoted text => text

def style : Spelling → Style
  | .plain _ _ => .plain
  | .quoted _ => .doubleQuoted

def write : Spelling → List Char
  | .plain text _ => text.toList
  | .quoted text => quote text

def token (spelling : Spelling) : Token := .scalar spelling.style spelling.text

def event (spelling : Spelling) : Event := .scalar .absent spelling.style spelling.text

def node (spelling : Spelling) : Node := .scalar ⟨none, none⟩ spelling.style spelling.text

end Spelling

/-- A key that is short enough to stand before a colon however it is written. -/
structure Key where
  spelling : Spelling
  short : spelling.text.length ≤ 100

inductive Flow where
  | scalar (spelling : Spelling)
  | sequence (items : List Flow)
  | mapping (entries : List (Key × Flow))

namespace Flow

def separator (first : Bool) : List Char := if first then [] else [',', ' ']

def separatorTokens (first : Bool) : List Token := if first then [] else [.flowEntry]

mutual

def write : Flow → List Char
  | .scalar spelling => spelling.write
  | .sequence items => '[' :: writeItems true items
  | .mapping entries => '\x7b' :: writeEntries true entries

def writeItems (first : Bool) : List Flow → List Char
  | [] => [']']
  | item :: items => separator first ++ (item.write ++ writeItems false items)

def writeEntries (first : Bool) : List (Key × Flow) → List Char
  | [] => ['\x7d']
  | (key, value) :: entries =>
      separator first ++ (key.spelling.write ++
        (':' :: ' ' :: (value.write ++ writeEntries false entries)))

end

mutual

def tokens : Flow → List Token
  | .scalar spelling => [spelling.token]
  | .sequence items => .flowSequenceStart :: tokensOfItems true items
  | .mapping entries => .flowMappingStart :: tokensOfEntries true entries

def tokensOfItems (first : Bool) : List Flow → List Token
  | [] => [.flowSequenceEnd]
  | item :: items => separatorTokens first ++ (item.tokens ++ tokensOfItems false items)

def tokensOfEntries (first : Bool) : List (Key × Flow) → List Token
  | [] => [.flowMappingEnd]
  | (key, value) :: entries =>
      separatorTokens first ++ (.key :: key.spelling.token :: .value ::
        (value.tokens ++ tokensOfEntries false entries))

end

mutual

def events : Flow → List Event
  | .scalar spelling => [spelling.event]
  | .sequence items => .sequenceStart .absent :: (eventsOfItems items ++ [.sequenceEnd])
  | .mapping entries => .mappingStart .absent :: (eventsOfEntries entries ++ [.mappingEnd])

def eventsOfItems : List Flow → List Event
  | [] => []
  | item :: items => item.events ++ eventsOfItems items

def eventsOfEntries : List (Key × Flow) → List Event
  | [] => []
  | (key, value) :: entries => key.spelling.event :: (value.events ++ eventsOfEntries entries)

end

mutual

def node : Flow → Node
  | .scalar spelling => spelling.node
  | .sequence items => .sequence ⟨none, none⟩ (nodesOfItems items) true
  | .mapping entries => .mapping ⟨none, none⟩ (nodesOfEntries entries) true

def nodesOfItems : List Flow → List Node
  | [] => []
  | item :: items => item.node :: nodesOfItems items

def nodesOfEntries : List (Key × Flow) → List (Node × Node)
  | [] => []
  | (key, value) :: entries => (key.spelling.node, value.node) :: nodesOfEntries entries

end

@[simp] theorem nodes_of_items_eq (items : List Flow) : nodesOfItems items = items.map node := by
  induction items with
  | nil => rfl
  | cons item items induction => rw [nodesOfItems, List.map_cons, induction]

mutual

theorem node_is_whole : ∀ flow : Flow, flow.node.isWhole = true
  | .scalar _ => rfl
  | .sequence items => by
      rw [node, Node.isWhole, items_are_whole items]
      rfl
  | .mapping entries => by
      rw [node, Node.isWhole, entries_are_whole entries]
      rfl

theorem items_are_whole : ∀ items : List Flow, Node.areWhole (nodesOfItems items) = true
  | [] => rfl
  | item :: items => by
      rw [nodesOfItems, Node.areWhole, node_is_whole item, items_are_whole items]
      rfl

theorem entries_are_whole :
    ∀ entries : List (Key × Flow), Node.entriesWhole (nodesOfEntries entries) = true
  | [] => rfl
  | (key, value) :: entries => by
      rw [nodesOfEntries, Node.entriesWhole, node_is_whole value, entries_are_whole entries]
      rfl

end

end Flow

def Ink (text : List Char) : Prop :=
  ∃ char rest, text = char :: rest ∧ isSpace char = false ∧ isBreak char = false ∧ char ≠ '#'

theorem of_all_word_chars {Property : Char → Prop} [DecidablePred Property]
    (checked : wordChars.all (fun char => decide (Property char)) = true) :
    ∀ char ∈ wordChars, Property char := by
  intro char member
  exact of_decide_eq_true (List.all_eq_true.1 checked char member)

theorem word_char_facts : ∀ char ∈ wordChars,
    Printable char ∧ isSpace char = false ∧ isBreak char = false ∧ char ≠ '#' := by
  apply of_all_word_chars
  decide

namespace Spelling

theorem ink_write (spelling : Spelling) (rest : List Char) : Ink (spelling.write ++ rest) := by
  cases spelling with
  | plain text word =>
      cases chars : text.toList with
      | nil => exact absurd chars word.1
      | cons char others =>
          have member : char ∈ wordChars := by
            apply word.chars
            rw [chars]
            exact List.mem_cons_self
          rw [write, chars]
          exact ⟨char, others ++ rest, rfl, (word_char_facts char member).2⟩
  | quoted text => exact ⟨'"', _, rfl, by decide, by decide, by decide⟩

theorem printable_write (spelling : Spelling) : ∀ char ∈ spelling.write, Printable char := by
  cases spelling with
  | plain text word =>
      intro char member
      exact (word_char_facts char (word.chars char member)).1
  | quoted text => exact printable_quote text

end Spelling

theorem Key.length_write_le (key : Key) : key.spelling.write.length ≤ 1002 := by
  have short := key.short
  cases spelled : key.spelling with
  | plain text word =>
      rw [spelled, Spelling.text] at short
      rw [Spelling.write, String.length_toList]
      omega
  | quoted text =>
      have bound := length_quote_le text
      rw [spelled, Spelling.text] at short
      rw [Spelling.write]
      omega

end ManifestLint.Yaml
