import Mathlib.Algebra.Order.Field.Power
import Mathlib.Data.Rat.Cast.Order
import Mathlib.Tactic.Linarith
import Mathlib.Tactic.NormNum
import Mathlib.Tactic.Positivity
import Mathlib.Tactic.FieldSimp
import Mathlib.Tactic.Ring
import ManifestLint.Number.Binary64

/-!
Which decimals have a nearest binary number. Half a step beyond the greatest finite number lies the
least value that is rounded away from all of them; a decimal is read exactly when its value is below
that.
-/

namespace ManifestLint.Text

theorem length_digits_pos (number : Nat) : 0 < (digits number).length := by
  rw [digits]
  split <;> simp

/-- A positive number lies between the powers of ten that its digits are counted by. -/
theorem digits_bounds {number : Nat} (positive : 0 < number) :
    10 ^ ((digits number).length - 1) ≤ number ∧ number < 10 ^ (digits number).length := by
  fun_induction digits number with
  | case1 number small =>
      rw [List.length_singleton]
      omega
  | case2 number large induction =>
      have bounds := induction (by omega)
      have shown := length_digits_pos (number / 10)
      rw [List.length_append, List.length_singleton, Nat.add_sub_cancel, Nat.pow_succ]
      have unfolded :
          10 ^ (digits (number / 10)).length = 10 ^ ((digits (number / 10)).length - 1) * 10 := by
        rw [← Nat.pow_succ, Nat.succ_eq_add_one, Nat.sub_add_cancel shown]
      omega

end ManifestLint.Text

namespace ManifestLint.Binary64

def overflow : ℚ := (2 ^ 54 - 1) * 2 ^ 970

theorem one_lt_overflow : 1 < overflow := by
  have power : (1 : ℚ) ≤ 2 ^ 970 := one_le_pow₀ (by norm_num)
  rw [overflow]
  generalize (2 : ℚ) ^ 970 = step at power
  linarith

theorem overflow_le_power : overflow ≤ 2 ^ (1024 : Int) := by
  have power : (2 : ℚ) ^ (1024 : Int) = 2 ^ 54 * 2 ^ 970 := by
    rw [← pow_add, ← zpow_natCast]
    norm_num only
  have positive : (0 : ℚ) < 2 ^ 970 := by positivity
  rw [overflow, power]
  generalize (2 : ℚ) ^ 970 = step at positive
  linarith

theorem scale_value (base numerator denominator : Nat) (exponent : Int) :
    ((scale base numerator denominator exponent).1 : ℚ) / (scale base numerator denominator
      exponent).2 =
      numerator / denominator * (base : ℚ) ^ exponent := by
  rw [scale]
  split
  · next below =>
    have power : exponent = -(exponent.natAbs : Int) := by omega
    rw [power, Int.natAbs_neg, Int.natAbs_natCast, zpow_neg, zpow_natCast, Nat.pow_eq]
    push_cast
    rw [div_mul_eq_div_div, div_eq_mul_inv ((numerator : ℚ) / denominator)]
  · next above =>
    have power : exponent = (exponent.natAbs : Int) := by omega
    rw [power, Int.natAbs_natCast, zpow_natCast, Nat.pow_eq]
    push_cast
    rw [mul_div_right_comm]

theorem scale_positive {base numerator denominator : Nat} (positive : 0 < base)
    (above : 0 < numerator) (below : 0 < denominator) (exponent : Int) :
    0 < (scale base numerator denominator exponent).1 ∧
      0 < (scale base numerator denominator exponent).2 := by
  rw [scale]
  split
  · exact ⟨above, Nat.mul_pos below (Nat.pow_pos positive)⟩
  · exact ⟨Nat.mul_pos above (Nat.pow_pos positive), below⟩

theorem log_bounds {number : Nat} (positive : 0 < number) :
    (2 : ℚ) ^ (number.log2 : Int) ≤ number ∧ (number : ℚ) < 2 ^ (number.log2 + 1 : Int) := by
  have lower := Nat.log2_self_le positive.ne'
  have upper := Nat.lt_log2_self (n := number)
  have whole : (number.log2 + 1 : Int) = ((number.log2 + 1 : Nat) : Int) := by push_cast; rfl
  rw [whole, zpow_natCast, zpow_natCast]
  exact ⟨by exact_mod_cast lower, by exact_mod_cast upper⟩

/-- The first estimate of the logarithm is right or too great by one, and one comparison tells
which. -/
theorem floor_log_bounds {numerator denominator : Nat} (above : 0 < numerator)
    (below : 0 < denominator) :
    (2 : ℚ) ^ floorLog numerator denominator ≤ numerator / denominator ∧
      (numerator / denominator : ℚ) < 2 ^ (floorLog numerator denominator + 1) := by
  obtain ⟨numeratorLow, numeratorHigh⟩ := log_bounds above
  obtain ⟨denominatorLow, denominatorHigh⟩ := log_bounds below
  have positive : (0 : ℚ) < denominator := by exact_mod_cast below
  have two : (2 : ℚ) ≠ 0 := by norm_num
  let estimate : Int := (numerator.log2 : Int) - denominator.log2
  have low : (2 : ℚ) ^ (estimate - 1) ≤ numerator / denominator := by
    rw [le_div_iff₀ positive]
    calc (2 : ℚ) ^ (estimate - 1) * denominator
        ≤ 2 ^ (estimate - 1) * 2 ^ (denominator.log2 + 1 : Int) := by gcongr
      _ = 2 ^ (numerator.log2 : Int) := by rw [← zpow_add₀ two]; congr 1; omega
      _ ≤ numerator := numeratorLow
  have high : (numerator / denominator : ℚ) < 2 ^ (estimate + 1) := by
    rw [div_lt_iff₀ positive]
    calc (numerator : ℚ) < 2 ^ (numerator.log2 + 1 : Int) := numeratorHigh
      _ = 2 ^ (estimate + 1) * 2 ^ (denominator.log2 : Int) := by
        rw [← zpow_add₀ two]; congr 1; omega
      _ ≤ 2 ^ (estimate + 1) * denominator := by gcongr
  have scaled := scale_value 2 numerator denominator (-estimate)
  have unit := (scale_positive (by decide : 0 < 2) above below (-estimate)).2
  have unitPositive : (0 : ℚ) < (scale 2 numerator denominator (-estimate)).2 := by
    exact_mod_cast unit
  have compared : (scale 2 numerator denominator (-estimate)).1 <
      (scale 2 numerator denominator (-estimate)).2 ↔
      (numerator / denominator : ℚ) < 2 ^ estimate := by
    rw [← Nat.cast_lt (α := ℚ), ← div_lt_one unitPositive, scaled, Nat.cast_ofNat, zpow_neg,
      ← div_eq_mul_inv, div_lt_one (zpow_pos (by norm_num) estimate)]
  have unfolded : floorLog numerator denominator =
      if (scale 2 numerator denominator (-estimate)).1 <
      (scale 2 numerator denominator (-estimate)).2
        then estimate - 1 else estimate := rfl
  rw [unfolded]
  split
  · next smaller =>
    rw [Int.sub_add_cancel]
    exact ⟨low, compared.mp smaller⟩
  · next greater =>
    exact ⟨not_lt.mp (greater ∘ compared.mpr), high⟩

/-- Below an even limit, rounding reaches it from half a step before it on. -/
theorem round_even_eq_limit_iff {numerator denominator half : Nat} (below : 0 < denominator)
    (short : numerator < 2 * (half + 1) * denominator) :
    roundEven numerator denominator = 2 * (half + 1) ↔
      (4 * half + 3) * denominator ≤ 2 * numerator := by
  have quotient : numerator / denominator < 2 * (half + 1) :=
    Nat.div_lt_of_lt_mul (by rwa [Nat.mul_comm])
  have divided : denominator * (numerator / denominator) + numerator % denominator = numerator :=
    Nat.div_add_mod numerator denominator
  have remainder : numerator % denominator < denominator := Nat.mod_lt _ below
  rw [roundEven]
  rcases Nat.lt_or_ge (numerator / denominator) (2 * half + 1) with smaller | last
  · have far : denominator * (numerator / denominator) ≤ denominator * (2 * half) :=
      Nat.mul_le_mul_left _ (by omega)
    have spread :
        (4 * half + 3) * denominator = 2 * (denominator * (2 * half)) + 3 * denominator := by ring
    have before : ¬(4 * half + 3) * denominator ≤ 2 * numerator := by omega
    refine iff_of_false ?_ before
    split <;> omega
  · have exact : numerator / denominator = 2 * half + 1 := by omega
    rw [exact] at divided ⊢
    have spread :
        (4 * half + 3) * denominator = 2 * (denominator * (2 * half + 1)) + denominator := by ring
    split <;> omega

/-- With the greatest exponent, half a step beyond the greatest number is half a step before the
mantissa's limit. -/
theorem overflow_le_scaled_iff {top unit : Nat} (positive : 0 < unit) :
    overflow ≤ (top : ℚ) / unit * 2 ^ greatestExponent ↔ 18014398509481983 * unit ≤ 2 * top := by
  have unitPositive : (0 : ℚ) < unit := by exact_mod_cast positive
  have power : (0 : ℚ) < 2 ^ 970 := by positivity
  have greatest : (2 : ℚ) ^ greatestExponent = 2 * 2 ^ 970 := by
    rw [← pow_succ', ← zpow_natCast]
    rfl
  rw [overflow, greatest, div_mul_eq_mul_div, le_div_iff₀ unitPositive, ← Nat.cast_le (α := ℚ)]
  push_cast
  generalize (2 : ℚ) ^ 970 = step at power
  have left : (2 ^ 54 - 1) * step * (unit : ℚ) = 18014398509481983 * unit * step := by ring
  rw [left, mul_left_comm, ← mul_assoc (2 : ℚ), mul_le_mul_iff_left₀ power]

/-- The exponent of the last binary place that is kept of a quotient. -/
def lastPlace (numerator denominator : Nat) : Int :=
  max leastExponent (floorLog numerator denominator - 52)

def inPlaces (numerator denominator : Nat) : Nat × Nat :=
  scale 2 numerator denominator (-lastPlace numerator denominator)

/-- Rounding up to the mantissa's limit moves the last place by one. -/
theorem of_quotient_eq_none_iff_place (negative : Bool) (numerator denominator : Nat) :
    ofQuotient negative numerator denominator = none ↔
      greatestExponent < lastPlace numerator denominator ∨
        greatestExponent = lastPlace numerator denominator ∧
          roundEven (inPlaces numerator denominator).1 (inPlaces numerator denominator).2 =
            mantissaLimit := by
  let mantissa := roundEven (inPlaces numerator denominator).1 (inPlaces numerator denominator).2
  let exponent := lastPlace numerator denominator
  let kept : Nat × Int :=
    if mantissa = mantissaLimit then (mantissa / 2, exponent + 1) else (mantissa, exponent)
  have unfolded : ofQuotient negative numerator denominator =
      if greatestExponent < kept.2 then none else some (.finite negative kept.1 kept.2) := rfl
  have beyond_iff : ofQuotient negative numerator denominator = none ↔
      greatestExponent < kept.2 := by
    rw [unfolded]
    split
    · next beyond => exact iff_of_true rfl beyond
    · next within => exact iff_of_false (Option.some_ne_none _) within
  rw [beyond_iff]
  by_cases reached : mantissa = mantissaLimit
  · have moved : kept.2 = exponent + 1 := congrArg Prod.snd (if_pos reached)
    rw [moved, Int.lt_add_one_iff, le_iff_lt_or_eq]
    exact or_congr_right (and_iff_left reached).symm
  · have same : kept.2 = exponent := congrArg Prod.snd (if_neg reached)
    rw [same]
    exact (or_iff_left fun both => reached both.2).symm

section
variable {numerator denominator : Nat}

theorem in_places_value (numerator denominator : Nat) :
    (numerator / denominator : ℚ) =
      (inPlaces numerator denominator).1 / (inPlaces numerator denominator).2 * 2 ^ lastPlace
        numerator denominator := by
  have two : (2 : ℚ) ≠ 0 := by norm_num
  rw [inPlaces, scale_value, Nat.cast_ofNat, mul_assoc, ← zpow_add₀ two, neg_add_cancel, zpow_zero,
    mul_one]

theorem in_places_unit (above : 0 < numerator) (below : 0 < denominator) :
    0 < (inPlaces numerator denominator).2 :=
  (scale_positive (by decide) above below _).2

theorem in_places_lt (above : 0 < numerator) (below : 0 < denominator) :
    (inPlaces numerator denominator).1 < mantissaLimit * (inPlaces numerator denominator).2 := by
  have two : (2 : ℚ) ≠ 0 := by norm_num
  have unit : (0 : ℚ) < (inPlaces numerator denominator).2 := by
    exact_mod_cast in_places_unit above below
  have places : floorLog numerator denominator + 1 - lastPlace numerator denominator ≤ 53 := by
    rw [lastPlace]
    omega
  rw [← Nat.cast_lt (α := ℚ), Nat.cast_mul, ← div_lt_iff₀ unit, inPlaces, scale_value,
    Nat.cast_ofNat]
  calc (numerator / denominator : ℚ) * 2 ^ (-lastPlace numerator denominator)
      < 2 ^ (floorLog numerator denominator + 1) * 2 ^ (-lastPlace numerator denominator) := by
        gcongr
        exact (floor_log_bounds above below).2
    _ = 2 ^ (floorLog numerator denominator + 1 - lastPlace numerator denominator) := by
        rw [← zpow_add₀ two, Int.sub_eq_add_neg]
    _ ≤ 2 ^ (53 : Int) := zpow_le_zpow_right₀ (by norm_num) places
    _ = (mantissaLimit : ℚ) := by norm_num [mantissaLimit]

theorem lt_overflow_of_place (above : 0 < numerator) (below : 0 < denominator)
    (smaller : lastPlace numerator denominator < greatestExponent) :
    (numerator / denominator : ℚ) < overflow := by
  have unit : (0 : ℚ) < (inPlaces numerator denominator).2 := by
    exact_mod_cast in_places_unit above below
  have least : lastPlace numerator denominator ≤ 970 := by
    rw [greatestExponent] at smaller
    omega
  rw [in_places_value numerator denominator]
  calc ((inPlaces numerator denominator).1 : ℚ) / (inPlaces numerator denominator).2 *
        2 ^ lastPlace numerator denominator
      < mantissaLimit * 2 ^ lastPlace numerator denominator := by
        gcongr
        rw [div_lt_iff₀ unit]
        exact_mod_cast in_places_lt above below
    _ ≤ mantissaLimit * 2 ^ (970 : Int) := by
        gcongr
        norm_num
    _ < overflow := by norm_num [mantissaLimit, overflow]

theorem overflow_le_of_place (above : 0 < numerator) (below : 0 < denominator)
    (greater : greatestExponent < lastPlace numerator denominator) :
    overflow ≤ (numerator / denominator : ℚ) := by
  have logarithm : 1024 ≤ floorLog numerator denominator := by
    rw [greatestExponent, lastPlace, leastExponent] at greater
    omega
  calc overflow ≤ 2 ^ (1024 : Int) := overflow_le_power
    _ ≤ 2 ^ floorLog numerator denominator := zpow_le_zpow_right₀ (by norm_num) logarithm
    _ ≤ numerator / denominator := (floor_log_bounds above below).1

/-- A quotient has no nearest number exactly when it is half a step or more beyond the greatest one.
-/
theorem of_quotient_eq_none_iff (negative : Bool) (above : 0 < numerator)
    (below : 0 < denominator) :
    ofQuotient negative numerator denominator = none ↔
      overflow ≤ (numerator / denominator : ℚ) := by
  rw [of_quotient_eq_none_iff_place]
  rcases lt_trichotomy greatestExponent
    (lastPlace numerator denominator) with greater | last | smaller
  · exact iff_of_true (.inl greater) (overflow_le_of_place above below greater)
  · have unit := in_places_unit above below
    have short := in_places_lt above below
    have half : mantissaLimit = 2 * (4503599627370495 + 1) := rfl
    have tie : 18014398509481983 = 4 * 4503599627370495 + 3 := rfl
    rw [half] at short
    rw [in_places_value, ← last, overflow_le_scaled_iff unit, tie,
      ← round_even_eq_limit_iff unit short, ← half, or_iff_right (lt_irrefl _), and_iff_right rfl]
  · refine iff_of_false ?_ (not_le.mpr (lt_overflow_of_place above below smaller))
    rintro (greater | ⟨last, _⟩)
    · omega
    · omega

end

theorem of_decimal_eq_none_iff (negative : Bool) (digits : Nat) (power : Int) :
    ofDecimal negative digits power = none ↔ overflow ≤ digits * (10 : ℚ) ^ power := by
  have positive : 0 < overflow := by norm_num [overflow]
  have ten : (10 : ℚ) ≠ 0 := by norm_num
  rw [ofDecimal]
  dsimp only
  rcases Nat.eq_zero_or_pos digits with rfl | above
  · rw [if_pos (Or.inl rfl), Nat.cast_zero, zero_mul]
    exact iff_of_false (Option.some_ne_none _) (not_le.mpr positive)
  obtain ⟨low, high⟩ := Text.digits_bounds above
  have shown := Text.length_digits_pos digits
  have least : (10 : ℚ) ^ ((Text.digits digits).length + power - 1) ≤ digits * 10 ^ power := by
    have whole : ((Text.digits digits).length + power - 1) =
        (((Text.digits digits).length - 1 : Nat) : Int) + power := by
      omega
    rw [whole, zpow_add₀ ten, zpow_natCast]
    gcongr
    exact_mod_cast low
  have greatest : (digits : ℚ) * 10 ^ power < 10 ^ ((Text.digits digits).length + power) := by
    rw [zpow_add₀ ten, zpow_natCast]
    gcongr
    exact_mod_cast high
  generalize ((Text.digits digits).length + power : Int) = size at *
  rcases lt_or_ge size (-400) with tiny | small
  · have bounded : (digits : ℚ) * 10 ^ power < overflow :=
      calc (digits : ℚ) * 10 ^ power < 10 ^ size := greatest
        _ ≤ 10 ^ (0 : Int) := zpow_le_zpow_right₀ (by norm_num) (by omega)
        _ < overflow := one_lt_overflow
    rw [if_pos (Or.inr tiny)]
    exact iff_of_false (Option.some_ne_none _) (not_le.mpr bounded)
  rw [if_neg (by omega)]
  rcases lt_or_ge 400 size with huge | medium
  · have beyond : overflow ≤ (digits : ℚ) * 10 ^ power :=
      calc overflow ≤ 2 ^ (1024 : Int) := overflow_le_power
        _ ≤ 2 ^ (3 * 400 : Int) := zpow_le_zpow_right₀ (by norm_num) (by norm_num)
        _ = (2 ^ (3 : Int)) ^ (400 : Int) := zpow_mul 2 3 400
        _ ≤ 10 ^ (400 : Int) := zpow_le_zpow_left₀ (by norm_num) (by norm_num) (by norm_num)
        _ ≤ 10 ^ (size - 1) := zpow_le_zpow_right₀ (by norm_num) (by omega)
        _ ≤ digits * 10 ^ power := least
    rw [if_pos huge]
    exact iff_of_true rfl beyond
  · obtain ⟨scaledAbove, scaledBelow⟩ := scale_positive (by decide : 0 < 10) above Nat.one_pos power
    rw [if_neg (by omega), of_quotient_eq_none_iff negative scaledAbove scaledBelow, scale_value,
      Nat.cast_one, div_one, Nat.cast_ofNat]

end ManifestLint.Binary64
