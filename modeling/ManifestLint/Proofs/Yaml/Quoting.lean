import Mathlib.Algebra.Group.Nat.Defs
import ManifestLint.Yaml.Scalar.Quoted

/-!
Writing a text in double quotes. Printable ASCII characters other than the quote and the backslash
stand for themselves, every other character is written by its number, and what is written is read
back as the text.
-/

namespace ManifestLint.Yaml

def Printable (char : Char) : Prop := 0x20 ≤ char.toNat ∧ char.toNat ≤ 0x7E

instance (char : Char) : Decidable (Printable char) := inferInstanceAs (Decidable (_ ∧ _))

def StandsForItself (char : Char) : Prop := Printable char ∧ char ≠ '"' ∧ char ≠ '\\'

instance (char : Char) : Decidable (StandsForItself char) := inferInstanceAs (Decidable (_ ∧ _))

def hexDigit (value : Nat) : Char := Char.ofNat (if value < 10 then 48 + value else 55 + value)

def hexDigits : Nat → Nat → List Char
  | 0, _ => []
  | count + 1, number => hexDigit (number / 16 ^ count % 16) :: hexDigits count number

def quoteChar (char : Char) : List Char :=
  if StandsForItself char then [char] else '\\' :: 'U' :: hexDigits 8 char.toNat

def quote (text : String) : List Char := '"' :: (text.toList.flatMap quoteChar ++ ['"'])

theorem hex_digit_facts : ∀ value : Fin 16,
    hexValue (hexDigit value.val) = some value.val ∧ StandsForItself (hexDigit value.val) := by
  decide

theorem hex_number_digits (before count number : Nat) (rest : List Char) :
    hexNumber before count (hexDigits count number ++ rest) =
      some (before * 16 ^ count + number % 16 ^ count, rest) := by
  induction count generalizing before with
  | zero =>
      rw [hexDigits, hexNumber, Nat.pow_zero, Nat.mod_one, Nat.mul_one]
      rfl
  | succ count induction =>
      have small : number / 16 ^ count % 16 < 16 := Nat.mod_lt _ (by decide)
      have digit := (hex_digit_facts ⟨_, small⟩).1
      rw [hexDigits, List.cons_append, hexNumber]
      dsimp only at digit
      rw [digit]
      change hexNumber (before * 16 + number / 16 ^ count % 16) count _ = _
      rw [induction, Nat.mod_pow_succ, Nat.pow_succ, Nat.add_mul, Nat.mul_assoc, Nat.mul_comm 16,
        Nat.mul_comm (number / 16 ^ count % 16)]
      congr 2
      omega

theorem read_escape_of_number (char : Char) (rest : List Char) :
    readEscape ('U' :: (hexDigits 8 char.toNat ++ rest)) = some (char, rest) := by
  have small : char.toNat < 16 ^ 8 := char.val.toNat_lt
  have valid : char.toNat.isValidChar := char.valid
  have number := hex_number_digits 0 8 char.toNat rest
  rw [Nat.zero_mul, Nat.zero_add, Nat.mod_eq_of_lt small] at number
  change (hexNumber 0 8 (hexDigits 8 char.toNat ++ rest)).bind (fun read =>
    if read.1.isValidChar then some (Char.ofNat read.1, read.2) else none) = _
  rw [number, Option.bind_some, if_pos valid, Char.ofNat_toNat]

theorem printable_is_no_break {char : Char} (printable : Printable char) :
    isBreak char = false := by
  rw [isBreak, Bool.or_eq_false_iff, Bool.or_eq_false_iff, beq_eq_false_iff_ne, beq_eq_false_iff_ne,
    beq_eq_false_iff_ne]
  refine ⟨⟨?_, ?_⟩, ?_⟩
  all_goals
    rintro rfl
    revert printable
    decide

theorem double_part_of_itself {char : Char} (itself : StandsForItself char) (blank : char ≠ ' ')
    (rest : List Char) : doublePart (char :: rest) = some (.char char rest) := by
  have noTab : char ≠ '\t' := by
    rintro rfl
    revert itself
    decide
  have outside : (isSpace char || isBreak char) = false := by
    rw [printable_is_no_break itself.1, Bool.or_false, isSpace]
    simp [blank, noTab]
  rw [doublePart]
  · simp [outside]
  · exact itself.2.1
  · exact itself.2.2

theorem double_part_of_number (char : Char) (rest : List Char) :
    doublePart ('\\' :: 'U' :: (hexDigits 8 char.toNat ++ rest)) = some (.char char rest) := by
  have noBreak : isBreak 'U' = false := by decide
  rw [doublePart, noBreak, read_escape_of_number]
  rfl

theorem double_part_quote_char {char : Char} (blank : char ≠ ' ') (rest : List Char) :
    doublePart (quoteChar char ++ rest) = some (.char char rest) := by
  rw [quoteChar]
  by_cases itself : StandsForItself char
  · rw [if_pos itself]
    exact double_part_of_itself itself blank rest
  · rw [if_neg itself]
    exact double_part_of_number char rest

/-- Where a gap would end: at a character that is no blank and no break. -/
def Solid (text : List Char) : Prop :=
  ∃ char rest, text = char :: rest ∧ isSpace char = false ∧ isBreak char = false

theorem solid_quote_char {char : Char} (blank : char ≠ ' ') (rest : List Char) :
    Solid (quoteChar char ++ rest) := by
  rw [quoteChar]
  by_cases itself : StandsForItself char
  · rw [if_pos itself]
    refine ⟨char, rest, rfl, ?_, printable_is_no_break itself.1⟩
    have noTab : char ≠ '\t' := by
      rintro rfl
      revert itself
      decide
    rw [isSpace]
    simp [blank, noTab]
  · rw [if_neg itself]
    exact ⟨'\\', _, rfl, by decide, by decide⟩

theorem take_blanks {gap : Gap} (unbroken : gap.broken = false) (count : Nat) {text : List Char}
    (solid : Solid text) :
    gap.take 0 (List.replicate count ' ' ++ text) =
      some ({ gap with spaces := gap.spaces ++ List.replicate count ' ' }, text) := by
  induction count generalizing gap with
  | zero =>
      obtain ⟨char, rest, rfl, noSpace, noBreak⟩ := solid
      rw [List.replicate_zero, List.nil_append, List.append_nil, Gap.take]
      simp [noSpace, noBreak]
  | succ count induction =>
      have extended : (gap.addSpace ' ').broken = false := by
        rw [Gap.addSpace, unbroken]
        rfl
      have one := induction extended
      rw [List.replicate_succ, List.cons_append, Gap.take, unbroken]
      change Gap.take 0 (gap.addSpace ' ') _ = _
      rw [one, Gap.addSpace, unbroken]
      simp

theorem read_quoted_of_close {double : Bool} {text rest : List Char}
    (part : quotedPart double text = some (.close rest)) :
    readQuoted double text = some ([], rest) := by
  rw [readQuoted]
  split <;> simp_all

theorem read_quoted_of_char {double : Bool} {text rest : List Char} {value : Char}
    (part : quotedPart double text = some (.char value rest)) :
    readQuoted double text = (readQuoted double rest).map fun (read, rest) =>
      (value :: read, rest) := by
  rw [readQuoted]
  split <;> simp_all

theorem read_quoted_of_gap {double : Bool} {text folded rest : List Char}
    (part : quotedPart double text = some (.gap folded rest)) :
    readQuoted double text = (readQuoted double rest).map fun (read, rest) =>
      (folded ++ read, rest) := by
  rw [readQuoted]
  split <;> simp_all

theorem read_quoted_behind_blanks (count : Nat) {text : List Char} (solid : Solid text) :
    readQuoted true (List.replicate count ' ' ++ text) =
      (readQuoted true text).map fun (read, rest) => (List.replicate count ' ' ++ read, rest) := by
  cases count with
  | zero => simp
  | succ count =>
      apply read_quoted_of_gap
      have taken : Gap.empty.take 0 _ = _ := take_blanks rfl (count + 1) solid
      rw [quotedPart, if_pos rfl, List.replicate_succ, List.cons_append, doublePart]
      · change gapPart .empty (List.replicate (count + 1) ' ' ++ text) = _
        rw [gapPart, taken]
        rfl
      · decide
      · decide

/-- What is written of a text is read back. Blanks that were written are not read by themselves but
together with those behind them, so they are carried along until another character comes. -/
theorem read_quoted_body (count : Nat) (chars rest : List Char) :
    readQuoted true (List.replicate count ' ' ++ (chars.flatMap quoteChar ++ '"' :: rest)) =
      some (List.replicate count ' ' ++ chars, rest) := by
  induction chars generalizing count with
  | nil =>
      have solid : Solid ('"' :: rest) := ⟨'"', rest, rfl, by decide, by decide⟩
      have closed : readQuoted true ('"' :: rest) = some ([], rest) := read_quoted_of_close rfl
      rw [List.flatMap_nil, List.nil_append, read_quoted_behind_blanks count solid, closed]
      rfl
  | cons char chars induction =>
      rw [List.flatMap_cons, List.append_assoc]
      by_cases blank : char = ' '
      · rw [blank]
        have written : quoteChar ' ' = [' '] := by decide
        have more := induction (count + 1)
        rw [List.replicate_succ', List.append_assoc, List.append_assoc] at more
        rw [written]
        exact more
      · have part := double_part_quote_char blank (chars.flatMap quoteChar ++ '"' :: rest)
        have one : readQuoted true _ = _ := read_quoted_of_char part
        have others := induction 0
        rw [List.replicate_zero, List.nil_append, List.nil_append] at others
        rw [read_quoted_behind_blanks count (solid_quote_char blank _), one, others]
        rfl

theorem read_quoted_quote (text : String) (rest : List Char) :
    readQuoted true ((quote text).tail ++ rest) = some (text.toList, rest) := by
  have body := read_quoted_body 0 text.toList rest
  rw [List.replicate_zero, List.nil_append, List.nil_append] at body
  rw [quote, List.tail_cons, List.append_assoc]
  exact body

theorem printable_quote_char (char : Char) : ∀ written ∈ quoteChar char, Printable written := by
  have hex (count number : Nat) : ∀ written ∈ hexDigits count number, Printable written := by
    induction count with
    | zero => simp [hexDigits]
    | succ count induction =>
        have small : number / 16 ^ count % 16 < 16 := Nat.mod_lt _ (by decide)
        have digit := (hex_digit_facts ⟨_, small⟩).2.1
        rw [hexDigits, List.forall_mem_cons]
        exact ⟨digit, induction⟩
  rw [quoteChar]
  by_cases itself : StandsForItself char
  · rw [if_pos itself, List.forall_mem_singleton]
    exact itself.1
  · rw [if_neg itself, List.forall_mem_cons, List.forall_mem_cons]
    exact ⟨by decide, by decide, hex 8 char.toNat⟩

theorem printable_quote (text : String) : ∀ written ∈ quote text, Printable written := by
  rw [quote, List.forall_mem_cons, List.forall_mem_append, List.forall_mem_singleton]
  refine ⟨by decide, ?_, by decide⟩
  intro written member
  obtain ⟨char, _, inside⟩ := List.mem_flatMap.1 member
  exact printable_quote_char char written inside

theorem length_hex_digits (count number : Nat) : (hexDigits count number).length = count := by
  induction count with
  | zero => rfl
  | succ count induction => rw [hexDigits, List.length_cons, induction]

theorem length_quote_char_le (char : Char) : (quoteChar char).length ≤ 10 := by
  rw [quoteChar]
  by_cases itself : StandsForItself char
  · rw [if_pos itself]
    simp
  · have width := length_hex_digits 8 char.toNat
    rw [if_neg itself, List.length_cons, List.length_cons]
    omega

theorem length_quote_le (text : String) : (quote text).length ≤ 10 * text.length + 2 := by
  have body (chars : List Char) : (chars.flatMap quoteChar).length ≤ 10 * chars.length := by
    induction chars with
    | nil => exact Nat.le_refl _
    | cons char chars induction =>
        have one := length_quote_char_le char
        rw [List.flatMap_cons, List.length_append, List.length_cons]
        omega
  have whole := body text.toList
  rw [String.length_toList] at whole
  rw [quote, List.length_cons, List.length_append, List.length_singleton]
  omega

end ManifestLint.Yaml
