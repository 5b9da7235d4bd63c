import ManifestLint.Yaml.Supply

/-!
Gaps inside scalars: blanks and line breaks between two runs of text. A gap on one line is kept; of
a gap over several lines only the breaks count, and a single break folds into a blank.
-/

namespace ManifestLint.Yaml

/-- Blanks before the first break, the first break, the breaks after it, and how many blanks lie
behind the last break. -/
structure Gap where
  spaces : List Char
  first : List Char
  more : List Char
  broken : Bool
  column : Nat
deriving DecidableEq, Repr

namespace Gap

def empty : Gap := ⟨[], [], [], false, 0⟩

/-- A break that was escaped: it counts as a line's end and leaves nothing behind. -/
def escaped : Gap := ⟨[], [], [], true, 0⟩

def addSpace (gap : Gap) (char : Char) : Gap :=
  if gap.broken then { gap with column := gap.column + 1 }
  else { gap with spaces := gap.spaces ++ [char] }

def addBreak (gap : Gap) (char : Char) : Gap :=
  if gap.broken then { gap with more := gap.more ++ [char], column := 0 }
  else ⟨[], [char], [], true, 0⟩

/-- Extends a gap to the next text. On a later line, a tab inside the indentation is refused. -/
def take (indentation : Nat) (gap : Gap) : List Char → Option (Gap × List Char)
  | [] => some (gap, [])
  | char :: rest =>
      if isBreak char then take indentation (gap.addBreak char) rest
      else if isSpace char then
        if gap.broken && gap.column < indentation && char == '\t' then none
        else take indentation (gap.addSpace char) rest
      else some (gap, char :: rest)

def fold (gap : Gap) : List Char :=
  if gap.broken then
    if gap.first = ['\n'] then (if gap.more.isEmpty then [' '] else gap.more)
    else gap.first ++ gap.more
  else gap.spaces

def atLineStart (gap : Gap) : Bool := gap.broken && gap.column == 0

theorem length_le_of_take {indentation : Nat} {gap result : Gap} {text rest : List Char}
    (taken : gap.take indentation text = some (result, rest)) : rest.length ≤ text.length := by
  induction text generalizing gap with
  | nil =>
      rw [take] at taken
      cases taken
      exact Nat.le_refl 0
  | cons char text induction =>
      rw [take] at taken
      split at taken
      · exact Nat.le_succ_of_le (induction taken)
      · split at taken
        · split at taken
          · simp at taken
          · exact Nat.le_succ_of_le (induction taken)
        · cases taken
          exact Nat.le_refl _

theorem length_lt_of_take {indentation : Nat} {result : Gap} {char : Char} {text rest : List Char}
    (inside : (isSpace char || isBreak char) = true)
    (taken : empty.take indentation (char :: text) = some (result, rest)) :
    rest.length < (char :: text).length := by
  rw [take] at taken
  split at taken
  · exact Nat.lt_succ_of_le (length_le_of_take taken)
  · split at taken
    · split at taken
      · simp at taken
      · exact Nat.lt_succ_of_le (length_le_of_take taken)
    · next notBreak notSpace =>
        simp only [Bool.or_eq_true] at inside
        exact absurd inside (by simp [notBreak, notSpace])

end Gap

end ManifestLint.Yaml
