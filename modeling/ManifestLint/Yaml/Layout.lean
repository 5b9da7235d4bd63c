import ManifestLint.Yaml.Position
import ManifestLint.Yaml.Token

/-!
Layout: which block collections are open in which columns, and where a mapping key may still begin.
A scalar or collection is a key only if a colon follows it on the same line within 1024 characters;
the tokens that announce the key are then put in before it. Inside flow collections columns mean
nothing, and each open flow collection remembers its own possible key.
-/

namespace ManifestLint.Yaml

/-- A possible key: how many tokens lie before it, where it begins, and whether nothing but a key
can stand there. -/
structure Candidate where
  slot : Nat
  position : Position
  required : Bool
deriving DecidableEq, Repr

/-- Tokens read so far, the latest first; the possible key of the collection being read and those of
the collections around its flow collections; the columns of open block collections, the deepest
first; and whether a key may begin here. -/
structure Layout where
  position : Position
  tokens : List Token
  candidate : Option Candidate
  outer : List (Option Candidate)
  columns : List Nat
  keyAllowed : Bool
deriving DecidableEq, Repr

namespace Layout

def start : Layout := ⟨.start, [], none, [], [], true⟩

def inFlow (layout : Layout) : Bool := !layout.outer.isEmpty

def least (layout : Layout) : Nat :=
  match layout.columns with
  | column :: _ => column + 1
  | [] => 0

def emit (layout : Layout) (token : Token) : Layout :=
  { layout with tokens := token :: layout.tokens }

def insert (layout : Layout) (slot : Nat) (token : Token) : Layout :=
  let later := layout.tokens.length - slot
  { layout with tokens := layout.tokens.take later ++ token :: layout.tokens.drop later }

def unrollWhile (deeper : Nat → Bool) (layout : Layout) : Layout :=
  if layout.inFlow then layout
  else
    let ended := layout.columns.takeWhile deeper
    { layout with
      tokens := ended.map (fun _ => Token.blockEnd) ++ layout.tokens
      columns := layout.columns.dropWhile deeper }

def unroll (layout : Layout) : Layout := layout.unrollWhile (layout.position.column < ·)

def unrollAll (layout : Layout) : Layout := layout.unrollWhile fun _ => true

/-- Opens a block collection in a column, unless one as deep is open. -/
def roll (layout : Layout) (column slot : Nat) (token : Token) : Layout :=
  if layout.inFlow || column < layout.least then layout
  else { layout.insert slot token with columns := column :: layout.columns }

def rollHere (layout : Layout) (token : Token) : Option Layout :=
  if layout.inFlow then some layout
  else if layout.keyAllowed then
    some (layout.roll layout.position.column layout.tokens.length token)
  else none

/-- Gives up the possible key; one that is required may not be given up. -/
def dropKey (layout : Layout) : Option Layout :=
  if layout.candidate.any (·.required) then none else some { layout with candidate := none }

def saveKey (layout : Layout) : Option Layout :=
  if layout.keyAllowed then do
    let required := !layout.inFlow && layout.columns.head? == some layout.position.column
    let dropped ← layout.dropKey
    some { dropped with candidate := some ⟨layout.tokens.length, layout.position, required⟩ }
  else some layout

def Candidate.stale (position : Position) (candidate : Candidate) : Bool :=
  candidate.position.line != position.line || candidate.position.index + 1024 < position.index

/-- Gives up every possible key that the text has run past. -/
def refresh (layout : Layout) : Option Layout :=
  let lost := Candidate.stale layout.position
  if (layout.candidate :: layout.outer).any
    (·.any fun candidate => lost candidate && candidate.required)
  then none
  else
    some { layout with
      candidate := layout.candidate.filter (!lost ·)
      outer := layout.outer.map (·.filter (!lost ·)) }

def allowKey (layout : Layout) (allowed : Bool) : Layout := { layout with keyAllowed := allowed }

/-- A colon: what stands before it is a key, or an empty key is. -/
def acceptValue (layout : Layout) : Option Layout :=
  match layout.candidate with
  | some key =>
      let announced := (layout.insert key.slot .key).roll key.position.column key.slot
        .blockMappingStart
      some (({ announced with candidate := none }.allowKey false).emit .value)
  | none => do
      let rolled ← layout.rollHere .blockMappingStart
      some ((rolled.allowKey !rolled.inFlow).emit .value)

def accept (layout : Layout) (token : Token) (endedAfterBreak : Bool) : Option Layout :=
  match token with
  | .versionDirective _ _ | .tagDirective _ _ | .documentStart | .documentEnd => do
      let dropped ← layout.unrollAll.dropKey
      some ((dropped.allowKey false).emit token)
  | .flowSequenceStart | .flowMappingStart => do
      let saved ← layout.saveKey
      some (({ saved with candidate := none, outer := saved.candidate :: saved.outer }.allowKey
        true).emit token)
  | .flowSequenceEnd | .flowMappingEnd => do
      let dropped ← layout.dropKey
      some (({ dropped with
        candidate := dropped.outer.head?.join
        outer := dropped.outer.tail }.allowKey false).emit token)
  | .flowEntry => do
      let dropped ← layout.dropKey
      some ((dropped.allowKey true).emit token)
  | .blockEntry => do
      let rolled ← layout.rollHere .blockSequenceStart
      let dropped ← rolled.dropKey
      some ((dropped.allowKey true).emit token)
  | .key => do
      let rolled ← layout.rollHere .blockMappingStart
      let dropped ← rolled.dropKey
      some ((dropped.allowKey !dropped.inFlow).emit token)
  | .value => layout.acceptValue
  | .scalar .literal _ | .scalar .folded _ => do
      let dropped ← layout.dropKey
      some ((dropped.allowKey true).emit token)
  | token => do
      let saved ← layout.saveKey
      some ((saved.allowKey endedAfterBreak).emit token)

/-- The tokens that no possible key can come before any more, in the order of the text. -/
def settled (layout : Layout) : List Token :=
  let slots := (layout.candidate :: layout.outer).filterMap (·.map (·.slot))
  layout.tokens.reverse.take (slots.foldl min layout.tokens.length)

/-- The tokens of the whole text at its end, unless a required key is left over. -/
def finish (layout : Layout) : Option (List Token) := do
  let ended := { layout with position := layout.position.endLine }.unrollAll
  some ((← ended.dropKey).emit .streamEnd).tokens.reverse

end Layout

end ManifestLint.Yaml
