import ManifestLint.Yaml.Character

/-!
Positions in a stream: how many characters lie before, on which line, in which column.
-/

namespace ManifestLint.Yaml

structure Position where
  index : Nat
  line : Nat
  column : Nat
deriving DecidableEq, Repr

namespace Position

def start : Position := ⟨0, 0, 0⟩

def next (position : Position) (char : Char) : Position :=
  if isBreak char then ⟨position.index + 1, position.line + 1, 0⟩
  else ⟨position.index + 1, position.line, position.column + 1⟩

def after (position : Position) (text : List Char) : Position := text.foldl next position

def upTo (position : Position) (text rest : List Char) : Position :=
  position.after (text.take (text.length - rest.length))

@[simp] theorem after_append (position : Position) (first second : List Char) :
    position.after (first ++ second) = (position.after first).after second := by
  simp [after, List.foldl_append]

@[simp] theorem up_to_append (position : Position) (read rest : List Char) :
    position.upTo (read ++ rest) rest = position.after read := by
  simp [upTo]

/-- At the end of the stream the last line counts as ended. -/
def endLine (position : Position) : Position :=
  if position.column = 0 then position else ⟨position.index, position.line + 1, 0⟩

end Position

end ManifestLint.Yaml
