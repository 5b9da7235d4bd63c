import Mathlib.Data.List.Forall2
import ManifestLint.Colour
import ManifestLint.Proofs.Text.Lines

/-!
Colours as an addition to a text. What is coloured is put together of characters that stand for
themselves and of coloured parts, and stays a plain text with codes in it however such texts are
joined: taking the codes out gives the text that is made without colours, and every code that turns
a colour on is followed by the reset before any other code.
-/

namespace ManifestLint

namespace Hue

/-- A text without its colour codes. -/
def strip : List Char → List Char
  | '\x1b' :: '[' :: '3' :: '1' :: 'm' :: rest => strip rest
  | '\x1b' :: '[' :: '3' :: '2' :: 'm' :: rest => strip rest
  | '\x1b' :: '[' :: '3' :: '6' :: 'm' :: rest => strip rest
  | '\x1b' :: '[' :: '2' :: 'm' :: rest => strip rest
  | '\x1b' :: '[' :: '0' :: 'm' :: rest => strip rest
  | char :: rest => char :: strip rest
  | [] => []

/-- Behind every opening code the next code is the reset: no escape stands between them. -/
def Closes (text : List Char) : Prop :=
  ∀ (hue : Hue) (before after : List Char), text = before ++ hue.opening ++ after →
    ∃ inside rest, after = inside ++ reset ++ rest ∧ '\x1b' ∉ inside

@[simp] theorem strip_opening (hue : Hue) (rest : List Char) :
    strip (hue.opening ++ rest) = strip rest := by
  cases hue <;> rfl

@[simp] theorem strip_reset (rest : List Char) : strip (reset ++ rest) = strip rest := rfl

theorem strip_char {char : Char} (plain : char ≠ '\x1b') (rest : List Char) :
    strip (char :: rest) = char :: strip rest := by
  rw [strip] <;> simp [plain]

@[simp] theorem strip_plain {text : List Char} (plain : '\x1b' ∉ text) (rest : List Char) :
    strip (text ++ rest) = text ++ strip rest := by
  induction text with
  | nil => rfl
  | cons char text induction =>
      rw [List.mem_cons, not_or] at plain
      rw [List.cons_append, strip_char (Ne.symm plain.1), induction plain.2, List.cons_append]

/-- A coloured text and the plain one that it shows: characters other than the escape, and parts in
a colour. -/
inductive Paints : List Char → List Char → Prop where
  | nothing : Paints [] []
  | char {char : Char} {coloured text : List Char} (plain : char ≠ '\x1b')
      (behind : Paints coloured text) :
      Paints (char :: coloured) (char :: text)
  | part (hue : Hue) {inside coloured text : List Char} (plain : '\x1b' ∉ inside)
      (behind : Paints coloured text) :
      Paints (hue.opening ++ inside ++ reset ++ coloured) (inside ++ text)

namespace Paints

variable {coloured text : List Char}

theorem append (first : Paints coloured text) {others rest : List Char}
    (second : Paints others rest) :
    Paints (coloured ++ others) (text ++ rest) := by
  induction first with
  | nothing => exact second
  | char plain _ induction => exact .char plain induction
  | part hue plain _ induction =>
      rw [List.append_assoc, List.append_assoc _ _ rest]
      exact .part hue plain induction

theorem of_plain (plain : '\x1b' ∉ text) : Paints text text := by
  induction text with
  | nil => exact .nothing
  | cons char text induction =>
      rw [List.mem_cons, not_or] at plain
      exact .char (Ne.symm plain.1) (induction plain.2)

theorem strip_eq (paints : Paints coloured text) : strip coloured = text := by
  induction paints with
  | nothing => rfl
  | char plain _ induction => rw [strip_char plain, induction]
  | part hue plain _ induction =>
      rw [List.append_assoc, List.append_assoc, strip_opening, strip_plain plain, strip_reset,
        induction]

end Paints

/-- A suffix that starts with an escape does not start inside a text without one. -/
theorem suffix_behind_plain {plain text rest : List Char} (free : '\x1b' ∉ plain)
    (suffix : '\x1b' :: rest <:+ plain ++ text) : '\x1b' :: rest <:+ text := by
  induction plain with
  | nil => exact suffix
  | cons char plain induction =>
      rw [List.mem_cons, not_or] at free
      rw [List.cons_append, List.suffix_cons_iff] at suffix
      rcases suffix with same | behind
      · exact absurd (List.cons.inj same).1 free.1
      · exact induction free.2 behind

def code (hue : Hue) : List Char := hue.opening.tail

theorem opening_eq (hue : Hue) : hue.opening = '\x1b' :: hue.code := by
  cases hue <;> rfl

theorem no_escape_in_code (hue : Hue) : '\x1b' ∉ hue.code := by
  cases hue <;> decide

theorem opening_injective {hue other : Hue} {left right : List Char}
    (same : hue.opening ++ left = other.opening ++ right) : left = right := by
  cases hue <;> cases other <;> simp_all [opening]

theorem opening_is_no_reset {hue : Hue} {left right : List Char} :
    hue.opening ++ left ≠ reset ++ right := by
  cases hue <;> simp [opening, reset]

/-- The induction is on the coloured text. Behind an opening code comes its own part or the code of
a later one, as no code starts inside another one or inside a part. -/
theorem Paints.closes_suffix {coloured text : List Char} (paints : Paints coloured text) {hue : Hue}
    {after : List Char} (suffix : hue.opening ++ after <:+ coloured) :
    ∃ inside rest, after = inside ++ reset ++ rest ∧ '\x1b' ∉ inside := by
  induction paints with
  | nothing =>
      rw [List.suffix_nil, hue.opening_eq] at suffix
      cases suffix
  | char plain _ induction =>
      rw [hue.opening_eq, List.cons_append, List.suffix_cons_iff] at suffix
      rcases suffix with same | behind
      · exact absurd (List.cons.inj same).1.symm plain
      · rw [← List.cons_append, ← hue.opening_eq] at behind
        exact induction behind
  | @part other inside coloured text plain _ induction =>
      rw [List.append_assoc, List.append_assoc, other.opening_eq, List.cons_append,
        List.suffix_cons_iff] at suffix
      rcases suffix with same | behind
      · rw [← List.cons_append, ← other.opening_eq] at same
        exact ⟨inside, coloured, by rw [opening_injective same, List.append_assoc], plain⟩
      · rw [hue.opening_eq, List.cons_append] at behind
        have past := suffix_behind_plain plain (suffix_behind_plain other.no_escape_in_code behind)
        rw [reset, List.cons_append, List.suffix_cons_iff] at past
        rcases past with same | later
        · exact absurd (show hue.opening ++ after =
            reset ++ coloured by rw [hue.opening_eq]; exact same) opening_is_no_reset
        · have last := suffix_behind_plain (show '\x1b' ∉ ['[', '0', 'm'] by decide) later
          rw [← List.cons_append, ← hue.opening_eq] at last
          exact induction last

theorem Paints.closes {coloured text : List Char} (paints : Paints coloured text) :
    Closes coloured := by
  intro hue before after parts
  exact paints.closes_suffix ⟨before, by rw [parts, List.append_assoc]⟩

theorem reopen_plain (hue : Hue) {text : List Char} (plain : '\x1b' ∉ text) :
    hue.reopen text = text := by
  induction text with
  | nil => rfl
  | cons char text induction =>
      rw [List.mem_cons, not_or] at plain
      rw [reopen, induction plain.2]
      intro rest same _
      exact plain.1 same.symm

/-- A coloured text of which the other is the plain one. -/
def Colours (coloured plain : String) : Prop := Paints coloured.toList plain.toList

namespace Colours

theorem append {coloured plain others rest : String} (first : Colours coloured plain)
    (second : Colours others rest) :
    Colours (coloured ++ others) (plain ++ rest) := by
  rw [Colours, String.toList_append, String.toList_append]
  exact Paints.append first second

theorem of_plain {text : String} (plain : '\x1b' ∉ text.toList) : Colours text text :=
  Paints.of_plain plain

/-- The blanks of a column are counted on the plain text and stand inside the colour. -/
theorem column (hue : Hue) (width : Nat) {text : String} (plain : '\x1b' ∉ text.toList) :
    Colours (hue.paintColumn true width text) (hue.paintColumn false width text) := by
  have inside : '\x1b' ∉ Text.padRight width text.toList := by
    rw [Text.padRight, List.mem_append, not_or]
    refine ⟨plain, ?_⟩
    intro blank
    exact absurd (List.eq_of_mem_replicate blank) (by decide)
  have part := Paints.part hue inside .nothing
  rw [List.append_nil, List.append_nil] at part
  rw [Colours, paintColumn, paintColumn, String.toList_ofList, String.toList_ofList,
    hue.reopen_plain plain]
  exact part

theorem paint (hue : Hue) {text : String} (plain : '\x1b' ∉ text.toList) :
    Colours (hue.paint true text) (hue.paint false text) := column hue 0 plain

theorem joined {coloured plain : List String} (each : List.Forall₂ Colours coloured plain) :
    Colours (Text.joinLines coloured) (Text.joinLines plain) := by
  induction each with
  | nil => exact Paints.nothing
  | @cons line text lines texts first others induction =>
      cases others with
      | nil =>
          rw [Text.join_lines_single, Text.join_lines_single]
          exact first
      | cons second others =>
          rw [Text.join_lines_cons, Text.join_lines_cons]
          exact (first.append (of_plain (by decide))).append induction

end Colours

/-- Colour codes are all that a text has more than another one, and each colour ends before the next
one starts. -/
structure AddsCodes (coloured plain : String) : Prop where
  stripped : String.ofList (strip coloured.toList) = plain
  closes : Closes coloured.toList

theorem Colours.adds_codes {coloured plain : String} (colours : Colours coloured plain) :
    AddsCodes coloured plain := by
  refine ⟨?_, Paints.closes colours⟩
  rw [Paints.strip_eq colours, String.ofList_toList]

end Hue

end ManifestLint
