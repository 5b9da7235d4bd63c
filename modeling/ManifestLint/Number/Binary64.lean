import ManifestLint.Text.Digits

/-!
Binary floating-point numbers of 64 bits: the one nearest to a decimal, and the shortest decimal
that is read back as a given one. A finite number is `mantissa * 2 ^ exponent`, with a mantissa
below `2 ^ 53` and the least exponent possible.
-/

namespace ManifestLint

inductive Binary64 where
  | finite (negative : Bool) (mantissa : Nat) (exponent : Int)
  | infinite (negative : Bool)
  | notNumber
deriving DecidableEq, Repr

namespace Binary64

def mantissaLimit : Nat := 9007199254740992

def leastExponent : Int := -1074

def greatestExponent : Int := 971

/-- The quotient rounded to the nearest natural number, a tie to the even one. -/
def roundEven (numerator denominator : Nat) : Nat :=
  let quotient := numerator / denominator
  let double := 2 * (numerator % denominator)
  if double < denominator ∨ (double = denominator ∧ quotient % 2 = 0) then quotient
  else quotient + 1

def scale (base numerator denominator : Nat) (exponent : Int) : Nat × Nat :=
  if exponent < 0 then (numerator, denominator * base.pow exponent.natAbs)
  else (numerator * base.pow exponent.natAbs, denominator)

def floorLog (numerator denominator : Nat) : Int :=
  let estimate := (numerator.log2 : Int) - denominator.log2
  let (scaled, unit) := scale 2 numerator denominator (-estimate)
  if scaled < unit then estimate - 1 else estimate

def ofQuotient (negative : Bool) (numerator denominator : Nat) : Option Binary64 :=
  let exponent := max leastExponent (floorLog numerator denominator - 52)
  let (scaled, unit) := scale 2 numerator denominator (-exponent)
  let mantissa := roundEven scaled unit
  let (mantissa, exponent) :=
    if mantissa = mantissaLimit then (mantissa / 2, exponent + 1) else (mantissa, exponent)
  if greatestExponent < exponent then none else some (.finite negative mantissa exponent)

/-- The number nearest to `digits * 10 ^ power`. A decimal with its first digit far beyond the range
is settled without computing its power of ten. -/
def ofDecimal (negative : Bool) (digits : Nat) (power : Int) : Option Binary64 :=
  let size := (Text.digits digits).length + power
  if digits = 0 ∨ size < -400 then some (.finite negative 0 leastExponent)
  else if 400 < size then none
  else
    let (numerator, denominator) := scale 10 digits 1 power
    ofQuotient negative numerator denominator

/-- The decimals with one exponent that are read back as a number: those between the bounds, which
belong to the number when its mantissa is even. Bounds and value are over one denominator. -/
structure Interval where
  low : Nat
  value : Nat
  high : Nat
  unit : Nat
  closed : Bool

def interval (mantissa : Nat) (exponent : Int) : Interval :=
  let below := if mantissa * 2 = mantissaLimit ∧ leastExponent < exponent then 1 else 2
  let factor := if exponent < 2 then 1 else Nat.pow 2 (exponent - 2).natAbs
  let unit := if exponent < 2 then Nat.pow 2 (2 - exponent).natAbs else 1
  ⟨(4 * mantissa - below) * factor, 4 * mantissa * factor, (4 * mantissa + 2) * factor, unit,
    mantissa % 2 = 0⟩

def Interval.holds (range : Interval) (numerator denominator : Nat) : Bool :=
  let point := numerator * range.unit
  if range.closed then range.low * denominator ≤ point && point ≤ range.high * denominator
  else range.low * denominator < point && point < range.high * denominator

/-- Of the two multiples of a power of ten around the value, the one inside the interval that is
nearer; the greater one on a tie. -/
def Interval.multiple? (range : Interval) (power : Int) : Option Nat :=
  let (numerator, denominator) := scale 10 1 1 power
  let below := range.value * denominator / (range.unit * numerator)
  let inside (count : Nat) := range.holds (count * numerator) denominator
  let distanceBelow := range.value * denominator - below * numerator * range.unit
  let distanceAbove := (below + 1) * numerator * range.unit - range.value * denominator
  match inside below, inside (below + 1) with
  | true, true => some (if distanceBelow < distanceAbove then below else below + 1)
  | true, false => some below
  | false, true => some (below + 1)
  | false, false => none

def Interval.shortest (range : Interval) : Nat → Int → Nat × Int
  | 0, power => (0, power)
  | steps + 1, power =>
      match range.multiple? power with
      | some count => (count, power)
      | none => range.shortest steps (power - 1)

/-- Digits and power of ten of the shortest decimal that is read back as the number; of the
shortest ones, the nearest. -/
def shortest (mantissa : Nat) (exponent : Int) : Nat × Int :=
  if mantissa = 0 then (0, 0) else (interval mantissa exponent).shortest 640 309

def positional (digits : Nat) (power : Int) : List Char :=
  let shown := Text.digits digits
  let places := power.natAbs
  if 0 ≤ power then shown ++ List.replicate places '0' ++ ['.', '0']
  else if places < shown.length then
    shown.take (shown.length - places) ++ ['.'] ++ shown.drop (shown.length - places)
  else ['0', '.'] ++ List.replicate (places - shown.length) '0' ++ shown

def sign (negative : Bool) : List Char := if negative then ['-'] else []

def text : Binary64 → String
  | .finite negative mantissa exponent =>
      let (digits, power) := shortest mantissa exponent
      String.ofList (sign negative ++ positional digits power)
  | .infinite negative => String.ofList (sign negative ++ ['i', 'n', 'f'])
  | .notNumber => "NaN"

end Binary64

end ManifestLint
