import Mathlib.Data.Nat.Digits.Defs
import ManifestLint.Number.Literal
import ManifestLint.Proofs.Number.Overflow

/-!
What number literals are, said without their readers: integers with a sign and a marker of their
radix, and decimals with a sign, a point and an exponent that are below the value at which the range
ends.
-/

namespace ManifestLint.Literal

/-- One or more digits of a radix. -/
def IsNumeral (radix : Nat) (text : List Char) : Prop :=
  text ≠ [] ∧ ∀ char ∈ text, (digitIn radix char).isSome = true

/-- The number that digits write in a radix. -/
def numeralValue (radix : Nat) (text : List Char) : Nat :=
  Nat.ofDigits radix (text.reverse.map fun char => (digitIn radix char).getD 0)

inductive Sign where
  | none
  | plus
  | minus

namespace Sign

def write : Sign → List Char
  | none => []
  | plus => ['+']
  | minus => ['-']

def apply (sign : Sign) (value : Nat) : Int :=
  match sign with
  | none => value
  | plus => value
  | minus => -value

end Sign

inductive Radix where
  | two
  | eight
  | ten
  | sixteen

namespace Radix

def base : Radix → Nat
  | two => 2
  | eight => 8
  | ten => 10
  | sixteen => 16

def marker : Radix → List Char
  | two => ['0', 'b']
  | eight => ['0', 'o']
  | ten => []
  | sixteen => ['0', 'x']

end Radix

def ZeroPadded (text : List Char) : Prop := ∃ rest, text = '0' :: rest ∧ IsNumeral 10 rest

/-- An integer: a sign, the marker of its radix and its digits, decimal ones without a needless
zero. -/
def IsInteger (text : List Char) (value : Int) : Prop :=
  ∃ (sign : Sign) (radix : Radix) (digits : List Char),
    text = sign.write ++ (radix.marker ++ digits) ∧ IsNumeral radix.base digits ∧
      (radix = .ten → ¬ ZeroPadded digits) ∧ value = sign.apply (numeralValue radix.base digits)

/-- What may stand behind the digits of a decimal, and the power of ten that it says. -/
inductive IsExponent : List Char → Int → Prop where
  | absent : IsExponent [] 0
  | marked {mark : Char} {digits : List Char} (letter : mark = 'e' ∨ mark = 'E') (sign : Sign)
      (numeral : IsNumeral 10 digits) :
      IsExponent (mark :: (sign.write ++ digits)) (sign.apply (numeralValue 10 digits))

/-- A decimal without a sign, and its value. -/
inductive IsMagnitude : List Char → ℚ → Prop where
  | whole {digits exponent : List Char} {power : Int} (numeral : IsNumeral 10 digits)
      (scaled : IsExponent exponent power) :
      IsMagnitude (digits ++ exponent) (numeralValue 10 digits * 10 ^ power)
  | pointed {whole fraction exponent : List Char} {power : Int}
      (numeral : IsNumeral 10 (whole ++ fraction))
      (scaled : IsExponent exponent power) :
      IsMagnitude (whole ++ '.' :: (fraction ++ exponent))
        (numeralValue 10 (whole ++ fraction) * 10 ^ (power - fraction.length))

/-- A number that need not be whole: infinity, no number at all, or a decimal that does not
overflow. -/
inductive IsFloat : List Char → Prop where
  | infinity (sign : Sign) {word : List Char} (known : isInfinity word = true) : IsFloat
      (sign.write ++ word)
  | notNumber {word : List Char} (known : isNotNumber word = true) : IsFloat word
  | decimal (sign : Sign) {magnitude : List Char} {value : ℚ}
      (written : IsMagnitude magnitude value)
      (small : value < Binary64.overflow) : IsFloat (sign.write ++ magnitude)

section
variable {radix value : Nat} {text : List Char}

theorem digit_ten_iff (char : Char) : (digitIn 10 char).isSome = true ↔ char.isDigit = true := by
  have digit : char.isDigit = true ↔ 48 ≤ char.toNat ∧ char.toNat ≤ 57 := by
    rw [Char.isDigit, Bool.and_eq_true, decide_eq_true_iff, decide_eq_true_iff, ge_iff_le,
      UInt32.le_iff_toNat_le, UInt32.le_iff_toNat_le]
    rfl
  rw [digit, digitIn]
  split
  · next between => simp [between]; omega
  · next apart =>
    refine iff_of_false ?_ apart
    split
    · rw [if_neg (by omega)]
      exact Bool.false_ne_true
    · split
      · rw [if_neg (by omega)]
        exact Bool.false_ne_true
      · exact Bool.false_ne_true

theorem numeral_ten_iff : IsNumeral 10 text ↔ text ≠ [] ∧ ∀ char ∈ text, char.isDigit = true := by
  simp only [IsNumeral, digit_ten_iff]

theorem numeral_value_cons (radix : Nat) (char : Char) (text : List Char) :
    numeralValue radix (char :: text) =
      (digitIn radix char).getD 0 * radix ^ text.length + numeralValue radix text := by
  rw [numeralValue, List.reverse_cons, List.map_append, Nat.ofDigits_append, List.length_map,
    List.length_reverse, List.map_singleton, Nat.ofDigits_singleton, ← numeralValue]
  ring

theorem digits_from_eq_some_iff (start : Nat) : digitsFrom radix start text = some value ↔
    (∀ char ∈ text, (digitIn radix char).isSome = true) ∧
      value = start * radix ^ text.length + numeralValue radix text := by
  induction text generalizing start with
  | nil =>
      rw [digitsFrom, Option.some.injEq, List.length_nil, pow_zero, mul_one]
      exact ⟨fun same => ⟨fun _ member => (List.not_mem_nil member).elim, same.symm⟩,
        fun found => found.2.symm⟩
  | cons char text induction =>
      rw [digitsFrom, List.forall_mem_cons, numeral_value_cons, List.length_cons]
      cases digit : digitIn radix char with
      | none => simp
      | some found =>
          have unfolded : (start * radix + found) * radix ^ text.length + numeralValue radix text =
              start * radix ^ (text.length + 1) + (found * radix ^ text.length + numeralValue radix
                text) := by ring
          rw [Option.bind_eq_bind, Option.bind_some, induction, Option.getD_some, unfolded]
          simp

theorem natural_eq_some_iff : natural radix text = some value ↔
    IsNumeral radix text ∧ value = numeralValue radix text := by
  rw [natural, IsNumeral]
  cases text with
  | nil => simp
  | cons char text =>
      rw [List.isEmpty_cons, if_neg Bool.false_ne_true, digits_from_eq_some_iff, Nat.zero_mul,
        Nat.zero_add]
      simp

theorem zero_padded_iff : zeroPadded text = true ↔ ZeroPadded text := by
  rw [zeroPadded.eq_def, ZeroPadded]
  split
  · next rest => simp [numeral_ten_iff, List.all_eq_true]
  · next other =>
    refine iff_of_false Bool.false_ne_true ?_
    rintro ⟨rest, same, _⟩
    exact other rest same

theorem unsigned_eq_some_iff : unsigned text = some value ↔
    ∃ (radix : Radix) (digits : List Char), text = radix.marker ++ digits ∧
      IsNumeral radix.base digits ∧
      (radix = .ten → ¬ ZeroPadded digits) ∧ value = numeralValue radix.base digits := by
  constructor
  · intro read
    rw [unsigned.eq_def] at read
    split at read
    · next rest =>
      obtain ⟨numeral, same⟩ := natural_eq_some_iff.mp read
      exact ⟨.sixteen, rest, rfl, numeral, nofun, same⟩
    · next rest =>
      obtain ⟨numeral, same⟩ := natural_eq_some_iff.mp read
      exact ⟨.eight, rest, rfl, numeral, nofun, same⟩
    · next rest =>
      obtain ⟨numeral, same⟩ := natural_eq_some_iff.mp read
      exact ⟨.two, rest, rfl, numeral, nofun, same⟩
    · split at read
      · cases read
      · next bare =>
        obtain ⟨numeral, same⟩ := natural_eq_some_iff.mp read
        exact ⟨.ten, text, rfl, numeral, fun _ padded => bare (zero_padded_iff.mpr padded), same⟩
  · rintro ⟨radix, digits, rfl, numeral, bare, same⟩
    have read := natural_eq_some_iff.mpr ⟨numeral, same⟩
    cases radix with
    | sixteen => exact read
    | eight => exact read
    | two => exact read
    | ten =>
        have unpadded : ¬ zeroPadded digits = true :=
          fun padded => bare rfl (zero_padded_iff.mp padded)
        have digit := (numeral_ten_iff.mp numeral).2
        rw [Radix.marker, List.nil_append, unsigned.eq_def]
        -- The second character of a marked text is no digit, so none of the markers is there.
        split
        · exact absurd (digit 'x' (by simp)) (by decide)
        · exact absurd (digit 'o' (by simp)) (by decide)
        · exact absurd (digit 'b' (by simp)) (by decide)
        · rw [if_neg unpadded]
          exact read

def Unsigned (text : List Char) : Prop := text.head? ≠ some '+' ∧ text.head? ≠ some '-'

theorem unsigned_of_digit {char : Char} (digit : char.isDigit = true) (rest : List Char) :
    Unsigned (char :: rest) := by
  constructor <;>
  · intro same
    cases same
    exact absurd digit (by decide)

theorem Sign.apply_eq (sign : Sign) (value : Nat) :
    sign.apply value = if sign.write == ['-'] then -(value : Int) else value := by
  cases sign <;> rfl

@[simp] theorem split_sign_write (sign : Sign) (bare : Unsigned text) :
    splitSign (sign.write ++ text) = (sign.write == ['-'], text) := by
  cases sign with
  | minus => rfl
  | plus => rfl
  | none =>
      rw [Sign.write, List.nil_append, splitSign.eq_def]
      split
      · exact absurd rfl bare.2
      · exact absurd rfl bare.1
      · rfl

theorem sign_of_split (text : List Char) : ∃ sign : Sign, text = sign.write ++ (splitSign text).2 ∧
    (splitSign text).1 = (sign.write == ['-']) := by
  rw [splitSign.eq_def]
  split
  · exact ⟨.minus, rfl, rfl⟩
  · exact ⟨.plus, rfl, rfl⟩
  · exact ⟨.none, rfl, rfl⟩

theorem IsNumeral.unsigned (numeral : IsNumeral 10 text) (rest : List Char) :
    Unsigned (text ++ rest) := by
  obtain ⟨nonempty, digits⟩ := numeral_ten_iff.mp numeral
  cases text with
  | nil => exact absurd rfl nonempty
  | cons char others => exact unsigned_of_digit (digits char List.mem_cons_self) (others ++ rest)

theorem unsigned_of_marker {radix : Radix} (numeral : IsNumeral radix.base text) :
    Unsigned (radix.marker ++ text) := by
  cases radix with
  | ten =>
      rw [Radix.marker, List.nil_append, ← List.append_nil text]
      exact numeral.unsigned []
  | two => exact unsigned_of_digit (by decide) _
  | eight => exact unsigned_of_digit (by decide) _
  | sixteen => exact unsigned_of_digit (by decide) _

theorem integer_eq_split (text : List Char) : integer text =
    (unsigned (splitSign text).2).map fun (value : Nat) => if (splitSign text).1 then -(value : Int)
      else value := by
  rw [integer.eq_def, splitSign.eq_def]
  split
  · next rest =>
    change _ = (unsigned rest).map _
    cases unsigned rest <;> rfl
  · rfl
  · rfl

theorem exponent_cons {mark : Char} (letter : mark = 'e' ∨ mark = 'E') (rest : List Char) :
    exponent (mark :: rest) = (natural 10 (splitSign rest).2).map fun (value : Nat) =>
      if (splitSign rest).1 then -(value : Int) else value := by
  rw [exponent, if_pos letter]
  dsimp only
  cases natural 10 (splitSign rest).2 <;> rfl

theorem integer_eq_some_iff {value : Int} : integer text = some value ↔ IsInteger text value := by
  rw [integer_eq_split, Option.map_eq_some_iff]
  constructor
  · rintro ⟨size, read, same⟩
    obtain ⟨sign, spelled, negative⟩ := sign_of_split text
    obtain ⟨radix, digits, marked, numeral, bare, rfl⟩ := unsigned_eq_some_iff.mp read
    rw [negative, ← sign.apply_eq] at same
    rw [marked] at spelled
    exact ⟨sign, radix, digits, spelled, numeral, bare, same.symm⟩
  · rintro ⟨sign, radix, digits, rfl, numeral, bare, rfl⟩
    rw [split_sign_write sign (unsigned_of_marker numeral)]
    exact ⟨_, unsigned_eq_some_iff.mpr ⟨radix, digits, rfl, numeral, bare, rfl⟩,
      (sign.apply_eq _).symm⟩

theorem exponent_eq_some_iff {power : Int} :
    exponent text = some power ↔ IsExponent text power := by
  constructor
  · intro read
    cases text with
    | nil =>
        cases read
        exact .absent
    | cons mark rest =>
        by_cases letter : mark = 'e' ∨ mark = 'E'
        · rw [exponent_cons letter] at read
          obtain ⟨size, digits, same⟩ := Option.map_eq_some_iff.mp read
          obtain ⟨sign, spelled, negative⟩ := sign_of_split rest
          obtain ⟨numeral, rfl⟩ := natural_eq_some_iff.mp digits
          rw [negative, ← sign.apply_eq] at same
          rw [spelled, ← same]
          exact .marked letter sign numeral
        · rw [exponent, if_neg letter] at read
          cases read
  · intro written
    cases written with
    | absent => rfl
    | marked letter sign numeral =>
        have bare := numeral.unsigned []
        rw [List.append_nil] at bare
        have digits := natural_eq_some_iff.mpr ⟨numeral, rfl⟩
        rw [exponent_cons letter, split_sign_write sign bare]
        dsimp only
        rw [digits, Option.map_some, sign.apply_eq]

theorem IsExponent.blunt {exponent : List Char} {power : Int} (scaled : IsExponent exponent power) :
    exponent.takeWhile Char.isDigit = [] ∧ exponent.dropWhile Char.isDigit = exponent ∧
      exponent.head? ≠ some '.' := by
  cases scaled with
  | absent => exact ⟨rfl, rfl, nofun⟩
  | marked letter sign numeral => rcases letter with rfl | rfl <;> exact ⟨rfl, rfl, nofun⟩

theorem take_digits {digits : List Char} (numeral : ∀ char ∈ digits, char.isDigit = true)
    {rest : List Char} (blunt : rest.takeWhile Char.isDigit = []) :
    (digits ++ rest).takeWhile Char.isDigit = digits := by
  rw [List.takeWhile_append_of_pos numeral, blunt, List.append_nil]

theorem drop_digits {digits : List Char} (numeral : ∀ char ∈ digits, char.isDigit = true)
    {rest : List Char} (blunt : rest.dropWhile Char.isDigit = rest) :
    (digits ++ rest).dropWhile Char.isDigit = rest := by
  rw [List.dropWhile_append_of_pos numeral, blunt]

theorem decimal_of_whole (negative : Bool) {whole exponent : List Char}
    (taken : text.takeWhile Char.isDigit = whole) (left : text.dropWhile Char.isDigit = exponent)
    (pointless : exponent.head? ≠ some '.') :
    decimal negative text =
      (natural 10 whole).bind fun value =>
        (Literal.exponent exponent).bind (Binary64.ofDecimal negative value) := by
  rw [decimal]
  simp only [taken, left, if_neg pointless]
  split
  · exact absurd rfl pointless
  · simp

theorem decimal_of_pointed (negative : Bool) {whole rest fraction exponent : List Char}
    (taken : text.takeWhile Char.isDigit = whole) (left : text.dropWhile Char.isDigit = '.' :: rest)
    (behind : rest.takeWhile Char.isDigit = fraction)
    (last : rest.dropWhile Char.isDigit = exponent) :
    decimal negative text = (natural 10 (whole ++ fraction)).bind fun value =>
      (Literal.exponent exponent).bind fun power =>
        Binary64.ofDecimal negative value (power - fraction.length) := by
  rw [decimal]
  simp only [taken, left, behind, last]
  rfl

theorem of_decimal_is_some_iff (negative : Bool) (digits : Nat) (power : Int) :
    (Binary64.ofDecimal negative digits power).isSome = true ↔
      (digits : ℚ) * 10 ^ power < Binary64.overflow := by
  rw [Option.isSome_iff_ne_none, ne_eq, Binary64.of_decimal_eq_none_iff, not_le]

theorem magnitude_of_decimal {negative : Bool} {number : Binary64}
    (read : decimal negative text = some number) :
    ∃ value, IsMagnitude text value ∧ value < Binary64.overflow := by
  have parts : text.takeWhile Char.isDigit ++ text.dropWhile Char.isDigit = text :=
    List.takeWhile_append_dropWhile
  by_cases pointed : (text.dropWhile Char.isDigit).head? = some '.'
  · obtain ⟨rest, left⟩ := List.head?_eq_some_iff.mp pointed
    rw [decimal_of_pointed negative rfl left rfl rfl] at read
    obtain ⟨digits, whole, read⟩ := Option.bind_eq_some_iff.mp read
    obtain ⟨power, scaled, read⟩ := Option.bind_eq_some_iff.mp read
    obtain ⟨numeral, rfl⟩ := natural_eq_some_iff.mp whole
    have small := (of_decimal_is_some_iff negative _ _).mp (Option.isSome_of_eq_some read)
    have written := IsMagnitude.pointed numeral (exponent_eq_some_iff.mp scaled)
    rw [List.takeWhile_append_dropWhile, ← left, parts] at written
    exact ⟨_, written, small⟩
  · rw [decimal_of_whole negative rfl rfl pointed] at read
    obtain ⟨digits, whole, read⟩ := Option.bind_eq_some_iff.mp read
    obtain ⟨power, scaled, read⟩ := Option.bind_eq_some_iff.mp read
    obtain ⟨numeral, rfl⟩ := natural_eq_some_iff.mp whole
    have small := (of_decimal_is_some_iff negative _ _).mp (Option.isSome_of_eq_some read)
    have written := IsMagnitude.whole numeral (exponent_eq_some_iff.mp scaled)
    rw [parts] at written
    exact ⟨_, written, small⟩

theorem IsMagnitude.decimal_is_some {value : ℚ} (written : IsMagnitude text value)
    (small : value < Binary64.overflow) (negative : Bool) :
    (decimal negative text).isSome = true := by
  cases written with
  | whole numeral scaled =>
      obtain ⟨blunt, left, pointless⟩ := scaled.blunt
      have digits := natural_eq_some_iff.mpr ⟨numeral, rfl⟩
      have all := (numeral_ten_iff.mp numeral).2
      rw [decimal_of_whole negative (take_digits all blunt) (drop_digits all left) pointless,
        digits, exponent_eq_some_iff.mpr scaled]
      exact (of_decimal_is_some_iff negative _ _).mpr small
  | @pointed whole fraction exponent power numeral scaled =>
      obtain ⟨blunt, left, _⟩ := scaled.blunt
      have digits := natural_eq_some_iff.mpr ⟨numeral, rfl⟩
      have all := (numeral_ten_iff.mp numeral).2
      have front := fun char member => all char (List.mem_append_left fraction member)
      have back := fun char member => all char (List.mem_append_right whole member)
      rw [decimal_of_pointed negative (take_digits front rfl) (drop_digits front rfl)
        (take_digits back blunt)
        (drop_digits back left), digits, exponent_eq_some_iff.mpr scaled]
      exact (of_decimal_is_some_iff negative _ _).mpr small

theorem IsMagnitude.unsigned {value : ℚ} (written : IsMagnitude text value) : Unsigned text := by
  cases written with
  | whole numeral scaled => exact numeral.unsigned _
  | @pointed whole fraction exponent power numeral scaled =>
      cases whole with
      | nil => exact ⟨by simp, by simp⟩
      | cons char whole =>
          have digit := (numeral_ten_iff.mp numeral).2 char List.mem_cons_self
          exact unsigned_of_digit digit _

theorem float_eq (text : List Char) : float text =
    if isInfinity (splitSign text).2 then some (.infinite (splitSign text).1)
    else if isNotNumber text then some .notNumber
    else decimal (splitSign text).1 (splitSign text).2 := rfl

theorem unsigned_of_infinity (known : isInfinity text = true) : Unsigned text := by
  have words := List.contains_iff_mem.mp known
  simp only [List.mem_cons, List.not_mem_nil, or_false] at words
  rcases words with rfl | rfl | rfl <;> exact ⟨by decide, by decide⟩

/-- Behind a sign stands a word for infinity or a decimal, and a word for no number stands alone. -/
theorem float_is_some_iff : (float text).isSome = true ↔ IsFloat text := by
  constructor
  · intro read
    obtain ⟨sign, spelled, _⟩ := sign_of_split text
    rw [float_eq] at read
    split at read
    · next known =>
      rw [spelled]
      exact .infinity sign known
    · split at read
      · next known => exact .notNumber known
      · obtain ⟨number, found⟩ := Option.isSome_iff_exists.mp read
        obtain ⟨value, written, small⟩ := magnitude_of_decimal found
        rw [spelled]
        exact .decimal sign written small
  · intro written
    cases written with
    | infinity sign known =>
        rw [float_eq, split_sign_write sign (unsigned_of_infinity known), if_pos known]
        rfl
    | notNumber known =>
        rw [float_eq, if_pos known]
        split <;> rfl
    | decimal sign written small =>
        rw [float_eq, split_sign_write sign written.unsigned]
        split
        · rfl
        · split
          · rfl
          · exact written.decimal_is_some small _

end

end ManifestLint.Literal
