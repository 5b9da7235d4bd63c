import ManifestLint.Yaml.Gap

/-!
Quoted scalars. In single quotes only the quote itself is special, and is written twice; in double
quotes a backslash starts an escape. Line breaks inside are folded, and a document marker at the
start of a line is refused.
-/

namespace ManifestLint.Yaml

def simpleEscape : Char → Option Char
  | '0' => some '\x00'
  | 'a' => some '\x07'
  | 'b' => some '\x08'
  | 't' => some '\t'
  | '\t' => some '\t'
  | 'n' => some '\n'
  | 'v' => some '\x0b'
  | 'f' => some '\x0c'
  | 'r' => some '\r'
  | 'e' => some '\x1b'
  | ' ' => some ' '
  | '"' => some '"'
  | '/' => some '/'
  | '\\' => some '\\'
  | 'N' => some '\u0085'
  | '_' => some '\u00A0'
  | 'L' => some '\u2028'
  | 'P' => some '\u2029'
  | _ => none

def escapeWidth : Char → Option Nat
  | 'x' => some 2
  | 'u' => some 4
  | 'U' => some 8
  | _ => none

def hexValue (char : Char) : Option Nat :=
  let code := char.toNat
  if 48 ≤ code ∧ code ≤ 57 then some (code - 48)
  else if 65 ≤ code ∧ code ≤ 70 then some (code - 55)
  else if 97 ≤ code ∧ code ≤ 102 then some (code - 87)
  else none

def hexNumber (value : Nat) : Nat → List Char → Option (Nat × List Char)
  | 0, text => some (value, text)
  | _ + 1, [] => none
  | count + 1, char :: rest => do hexNumber (value * 16 + (← hexValue char)) count rest

def readEscape : List Char → Option (Char × List Char)
  | [] => none
  | mark :: rest =>
      match escapeWidth mark with
      | none => (simpleEscape mark).map (·, rest)
      | some width => do
          let (value, rest) ← hexNumber 0 width rest
          if value.isValidChar then some (Char.ofNat value, rest) else none

theorem length_le_of_hex_number {value count result : Nat} {text rest : List Char}
    (read : hexNumber value count text = some (result, rest)) : rest.length ≤ text.length := by
  induction count generalizing value text with
  | zero =>
      rw [hexNumber] at read
      cases read
      exact Nat.le_refl _
  | succ count induction =>
      cases text with
      | nil => simp [hexNumber] at read
      | cons char text =>
          simp only [hexNumber, Option.bind_eq_bind, Option.bind_eq_some_iff] at read
          obtain ⟨digit, _, read⟩ := read
          exact Nat.le_succ_of_le (induction read)

theorem length_lt_of_read_escape {text rest : List Char} {char : Char}
    (read : readEscape text = some (char, rest)) : rest.length < text.length := by
  cases text with
  | nil => simp [readEscape] at read
  | cons mark text =>
      rw [readEscape] at read
      split at read
      · simp only [Option.map_eq_some_iff, Prod.mk.injEq] at read
        obtain ⟨_, _, _, same⟩ := read
        rw [← same]
        exact Nat.lt_succ_self _
      · simp only [Option.bind_eq_bind, Option.bind_eq_some_iff] at read
        obtain ⟨⟨value, after⟩, number, checked⟩ := read
        simp only [Option.ite_none_right_eq_some, Option.some.injEq, Prod.mk.injEq] at checked
        rw [← checked.2.2]
        exact Nat.lt_succ_of_le (length_le_of_hex_number number)

inductive QuotedPart where
  | close (rest : List Char)
  | char (value : Char) (rest : List Char)
  | gap (text : List Char) (rest : List Char)
deriving Repr

def gapPart (gap : Gap) (text : List Char) : Option QuotedPart := do
  let (gap, rest) ← gap.take 0 text
  if gap.atLineStart && atMarker rest then none else some (.gap gap.fold rest)

def singlePart : List Char → Option QuotedPart
  | [] => none
  | '\'' :: '\'' :: rest => some (.char '\'' rest)
  | '\'' :: rest => some (.close rest)
  | char :: rest =>
      if isSpace char || isBreak char then gapPart .empty (char :: rest)
      else some (.char char rest)

def doublePart : List Char → Option QuotedPart
  | [] => none
  | '"' :: rest => some (.close rest)
  | '\\' :: rest =>
      match rest with
      | [] => none
      | char :: after =>
          if isBreak char then gapPart .escaped after
          else (readEscape rest).map fun (value, rest) => .char value rest
  | char :: rest =>
      if isSpace char || isBreak char then gapPart .empty (char :: rest)
      else some (.char char rest)

def quotedPart (double : Bool) (text : List Char) : Option QuotedPart :=
  if double then doublePart text else singlePart text

def QuotedPart.rest : QuotedPart → List Char
  | .close rest => rest
  | .char _ rest => rest
  | .gap _ rest => rest

theorem length_le_of_gap_part {gap : Gap} {text : List Char} {part : QuotedPart}
    (read : gapPart gap text = some part) : part.rest.length ≤ text.length := by
  simp only [gapPart, Option.bind_eq_bind, Option.bind_eq_some_iff] at read
  obtain ⟨⟨result, rest⟩, taken, checked⟩ := read
  simp only [Option.ite_none_left_eq_some, Option.some.injEq] at checked
  rw [← checked.2]
  exact Gap.length_le_of_take taken

theorem length_lt_of_gap_part {char : Char} {text : List Char} {part : QuotedPart}
    (inside : (isSpace char || isBreak char) = true)
    (read : gapPart .empty (char :: text) = some part) :
    part.rest.length < (char :: text).length := by
  simp only [gapPart, Option.bind_eq_bind, Option.bind_eq_some_iff] at read
  obtain ⟨⟨result, rest⟩, taken, checked⟩ := read
  simp only [Option.ite_none_left_eq_some, Option.some.injEq] at checked
  rw [← checked.2]
  exact Gap.length_lt_of_take inside taken

theorem length_lt_of_quoted_part {double : Bool} {text : List Char} {part : QuotedPart}
    (read : quotedPart double text = some part) : part.rest.length < text.length := by
  rw [quotedPart] at read
  split at read
  · unfold doublePart at read
    split at read
    · simp at read
    · cases read
      exact Nat.lt_succ_self _
    · split at read
      · simp at read
      · split at read
        · have shorter := length_le_of_gap_part read
          simp only [List.length_cons]
          omega
        · simp only [Option.map_eq_some_iff] at read
          obtain ⟨⟨value, rest⟩, escape, same⟩ := read
          have shorter := length_lt_of_read_escape escape
          rw [← same]
          simp only [QuotedPart.rest, List.length_cons] at shorter ⊢
          omega
    · split at read
      · next inside => exact length_lt_of_gap_part inside read
      · cases read
        exact Nat.lt_succ_self _
  · unfold singlePart at read
    split at read
    · simp at read
    · cases read
      simp only [QuotedPart.rest, List.length_cons]
      omega
    · cases read
      exact Nat.lt_succ_self _
    · split at read
      · next inside => exact length_lt_of_gap_part inside read
      · cases read
        exact Nat.lt_succ_self _

/-- The text of a quoted scalar, from behind its opening quote, and what follows its closing one. -/
def readQuoted (double : Bool) (text : List Char) : Option (List Char × List Char) :=
  match _read : quotedPart double text with
  | none => none
  | some (.close rest) => some ([], rest)
  | some (.char value rest) => (readQuoted double rest).map fun (read, rest) =>
    (value :: read, rest)
  | some (.gap folded rest) => (readQuoted double rest).map fun (read, rest) =>
    (folded ++ read, rest)
termination_by text.length
decreasing_by
  all_goals exact length_lt_of_quoted_part _read

theorem length_lt_of_read_quoted {double : Bool} {text read rest : List Char}
    (result : readQuoted double text = some (read, rest)) : rest.length < text.length := by
  fun_induction readQuoted double text generalizing read rest with
  | case1 => simp at result
  | case2 text after part =>
      simp only [Option.some.injEq, Prod.mk.injEq] at result
      rw [← result.2]
      exact length_lt_of_quoted_part part
  | case3 text value after part induction =>
      simp only [Option.map_eq_some_iff, Prod.mk.injEq] at result
      obtain ⟨⟨inner, last⟩, found, _, same⟩ := result
      rw [← same]
      exact Nat.lt_trans (induction found) (length_lt_of_quoted_part part)
  | case4 text folded after part induction =>
      simp only [Option.map_eq_some_iff, Prod.mk.injEq] at result
      obtain ⟨⟨inner, last⟩, found, _, same⟩ := result
      rw [← same]
      exact Nat.lt_trans (induction found) (length_lt_of_quoted_part part)

/-- A quote right behind an escaped line break is taken before what follows it is asked for. -/
def closesAfterBreak : List Char → Bool
  | '\\' :: _ :: '"' :: _ => true
  | _ => false

/-- What is asked for on the way through a quoted scalar: two characters behind a character, and
behind a gap as many as a document marker may take. -/
def quotedDemands (double : Bool) (text : List Char) : List Demand :=
  match _read : quotedPart double text with
  | none | some (.close _) => []
  | some (.char _ rest) => ⟨rest.length, 2⟩ :: quotedDemands double rest
  | some (.gap _ rest) =>
      ⟨rest.length, if double && closesAfterBreak text then 1 else 4⟩ :: quotedDemands double rest
termination_by text.length
decreasing_by
  all_goals exact length_lt_of_quoted_part _read

end ManifestLint.Yaml
