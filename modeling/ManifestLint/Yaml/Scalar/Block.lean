import ManifestLint.Yaml.Character

/-!
Block scalars. A header may give the indentation and what becomes of the last line breaks; lines
follow that are indented so far, with blank lines between them. In a literal scalar line breaks
stay; in a folded one a single break between two lines of text becomes a blank.
-/

namespace ManifestLint.Yaml

/-- What becomes of the line breaks behind the text: one stays, none stays, or all stay. -/
inductive Chomping where
  | clip
  | strip
  | keep
deriving DecidableEq, Repr

structure BlockHeader where
  chomping : Chomping
  increment : Option Nat
deriving DecidableEq, Repr

def readChomping : List Char → Option (Chomping × List Char)
  | '+' :: rest => some (.keep, rest)
  | '-' :: rest => some (.strip, rest)
  | _ => none

def readIncrement (text : List Char) : Option (Option Nat × List Char) :=
  match text with
  | char :: rest =>
      if char = '0' then none
      else if char.isDigit then some (some (char.toNat - 48), rest)
      else some (none, text)
  | [] => some (none, [])

def readIndicators (text : List Char) : Option (BlockHeader × List Char) :=
  match readChomping text with
  | some (chomping, rest) => do
      let (increment, rest) ← readIncrement rest
      some (⟨chomping, increment⟩, rest)
  | none => do
      let (increment, rest) ← readIncrement text
      match increment, readChomping rest with
      | some width, some (chomping, rest) => some (⟨chomping, some width⟩, rest)
      | _, _ => some (⟨.clip, increment⟩, rest)

def endOfLine (text : List Char) : Option (List Char) :=
  let rest := text.dropWhile isSpace
  let rest := if startsWith '#' rest then rest.dropWhile (!isBreak ·) else rest
  match rest with
  | [] => some []
  | char :: rest => if isBreak char then some rest else none

/-- Blank lines before a line of text: their breaks, the greatest number of leading blanks seen, the
column reached, and the rest. -/
structure BlankLines where
  breaks : List Char
  deepest : Nat
  column : Nat
  rest : List Char
deriving DecidableEq, Repr

/-- Whether a column still belongs to the indentation; all leading blanks do while it is unknown. -/
def inIndentation (indentation : Option Nat) (column : Nat) : Bool :=
  indentation.all (column < ·)

/-- Reads leading blanks, up to the indentation if it is known, and blank lines. A tab in place of
such a blank is refused. -/
def readBlankLines (indentation : Option Nat) (column deepest : Nat) : List Char → Option BlankLines
  | [] => some ⟨[], max deepest column, column, []⟩
  | char :: rest =>
      if inIndentation indentation column &&
        char == ' ' then readBlankLines indentation (column + 1) deepest rest
      else if inIndentation indentation column && char == '\t' then none
      else if isBreak char then
        (readBlankLines indentation 0 (max deepest column) rest).map fun blank =>
          { blank with breaks := char :: blank.breaks }
      else some ⟨[], max deepest column, column, char :: rest⟩

theorem length_le_of_read_blank_lines {indentation : Option Nat} {column deepest : Nat}
    {text : List Char} {blank : BlankLines}
    (read : readBlankLines indentation column deepest text = some blank) :
    blank.rest.length ≤ text.length := by
  induction text generalizing column deepest blank with
  | nil =>
      rw [readBlankLines] at read
      cases read
      exact Nat.le_refl 0
  | cons char text induction =>
      rw [readBlankLines] at read
      split at read
      · exact Nat.le_succ_of_le (induction read)
      · split at read
        · simp at read
        · split at read
          · simp only [Option.map_eq_some_iff] at read
            obtain ⟨inner, found, same⟩ := read
            have shorter := induction found
            rw [← same]
            exact Nat.le_succ_of_le shorter
          · cases read
            exact Nat.le_refl _

/-- A line of text with its own break, none at the end of the stream, and the breaks of the blank
lines behind it. -/
structure BlockLine where
  text : List Char
  ending : List Char
  blank : List Char
deriving DecidableEq, Repr

def readLines (indentation column : Nat) (text : List Char) :
    Option (List BlockLine × List Char) :=
  if column ≠ indentation ∨ text.isEmpty then some ([], text)
  else
    match _after : text.dropWhile (!isBreak ·) with
    | [] => some ([⟨text, [], []⟩], [])
    | ending :: after =>
        match _blank : readBlankLines (some indentation) 0 0 after with
        | none => none
        | some blank =>
            (readLines indentation blank.column blank.rest).map fun (lines, rest) =>
              (⟨text.takeWhile (!isBreak ·), [ending], blank.breaks⟩ :: lines, rest)
termination_by text.length
decreasing_by
  have shorter := length_le_of_read_blank_lines _blank
  have dropped := (List.dropWhile_sublist (fun char => !isBreak char) (l := text)).length_le
  rw [_after] at dropped
  simp only [List.length_cons] at dropped
  omega

def startsBlank (line : BlockLine) : Bool :=
  match line.text with
  | char :: _ => isSpace char
  | [] => false

theorem length_le_of_end_of_line {text rest : List Char} (read : endOfLine text = some rest) :
    rest.length ≤ text.length := by
  have spaces := (List.dropWhile_sublist isSpace (l := text)).length_le
  have comment := (List.dropWhile_sublist (fun char => !isBreak char)
    (l := text.dropWhile isSpace)).length_le
  simp only [endOfLine] at read
  split at read
  · cases read
    exact Nat.zero_le _
  · next char after shown =>
    split at read
    · cases read
      split at shown
      · rw [shown, List.length_cons] at comment
        omega
      · rw [shown, List.length_cons] at spaces
        omega
    · simp at read

theorem length_le_of_read_indicators {text rest : List Char} {header : BlockHeader}
    (read : readIndicators text = some (header, rest)) : rest.length ≤ text.length := by
  have chomping {text rest : List Char} {found : Chomping}
      (read : readChomping text = some (found, rest)) : rest.length ≤ text.length := by
    unfold readChomping at read
    split at read <;> simp_all
  have increment {text rest : List Char} {found : Option Nat}
      (read : readIncrement text = some (found, rest)) : rest.length ≤ text.length := by
    unfold readIncrement at read
    split at read
    · split at read
      · simp at read
      · split at read
        · cases read
          exact Nat.le_succ _
        · cases read
          exact Nat.le_refl _
    · cases read
      exact Nat.le_refl _
  simp only [readIndicators, Option.bind_eq_bind] at read
  split at read
  · next found after chomped =>
    obtain ⟨⟨width, last⟩, inner, same⟩ := Option.bind_eq_some_iff.1 read
    cases same
    exact Nat.le_trans (increment inner) (chomping chomped)
  · obtain ⟨⟨width, last⟩, inner, same⟩ := Option.bind_eq_some_iff.1 read
    have shorter := increment inner
    split at same
    · next chomped =>
      cases same
      exact Nat.le_trans (chomping chomped) shorter
    · cases same
      exact shorter

theorem length_le_of_read_lines {indentation column : Nat} {text rest : List Char}
    {lines : List BlockLine} (read : readLines indentation column text = some (lines, rest)) :
    rest.length ≤ text.length := by
  fun_induction readLines indentation column text generalizing lines rest with
  | case1 => cases read; exact Nat.le_refl _
  | case2 => cases read; exact Nat.zero_le _
  | case3 => simp at read
  | case4 column text _ ending after dropped blank found induction =>
      simp only [Option.map_eq_some_iff, Prod.mk.injEq] at read
      obtain ⟨⟨inner, last⟩, found, _, same⟩ := read
      have shorter : last.length ≤ blank.rest.length := induction found
      have blankShorter := length_le_of_read_blank_lines ‹readBlankLines _ _ _ _ = _›
      have sublist := (List.dropWhile_sublist (fun char => !isBreak char) (l := text)).length_le
      rw [dropped, List.length_cons] at sublist
      subst same
      show last.length ≤ text.length
      omega

/-- The text of lines that follow a line break, then blank lines, and whose break goes into the text
as the style says. `afterBlank` tells whether the line before them starts with a blank. -/
def joinLines (literal afterBlank : Bool) (ending blank : List Char) : Chomping → List BlockLine →
    List Char
  | .strip, [] => []
  | .clip, [] => ending
  | .keep, [] => ending ++ blank
  | chomping, line :: lines =>
      let between :=
        if !literal && ending == ['\n'] && !afterBlank && !startsBlank line then
          (if blank.isEmpty then [' '] else blank)
        else ending ++ blank
      between ++ line.text ++ joinLines literal (startsBlank line) line.ending line.blank
        chomping lines

/-- A block scalar from behind its indicator. The indentation is at least `least`, which lies one
above the enclosing block, and one; a header's digit counts from the enclosing block. -/
def readBlock (literal : Bool) (least : Nat) (text : List Char) :
    Option (List Char × List Char) := do
  let (header, rest) ← readIndicators text
  let rest ← endOfLine rest
  let given := header.increment.map (least - 1 + ·)
  let blank ← readBlankLines given 0 0 rest
  let indentation := given.getD (max blank.deepest (max least 1))
  let (lines, rest) ← readLines indentation blank.column blank.rest
  some (joinLines literal false [] blank.breaks header.chomping lines, rest)

theorem length_le_of_read_block {literal : Bool} {least : Nat} {text read rest : List Char}
    (result : readBlock literal least text = some (read, rest)) : rest.length ≤ text.length := by
  simp only [readBlock, Option.bind_eq_bind, Option.bind_eq_some_iff] at result
  obtain ⟨⟨header, afterHeader⟩, indicators, afterLine, ended, blank, blankRead,
    ⟨lines, last⟩, linesRead, same⟩ := result
  cases same
  have first := length_le_of_read_indicators indicators
  have second : afterLine.length ≤ afterHeader.length := length_le_of_end_of_line ended
  have third := length_le_of_read_blank_lines blankRead
  have fourth := length_le_of_read_lines linesRead
  show last.length ≤ text.length
  omega

end ManifestLint.Yaml
