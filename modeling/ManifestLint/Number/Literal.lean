import ManifestLint.Number.Binary64

/-!
Number literals of plain scalars. Integers are decimal without leading zeros, or have one of the
markers `0x`, `0o`, `0b`; a sign may come first. Floating-point literals are decimal, with a point
or an exponent, or one of the words for infinity and for what is no number.
-/

namespace ManifestLint.Literal

def digitIn (radix : Nat) (char : Char) : Option Nat :=
  let code := char.toNat
  let value :=
    if 48 ≤ code ∧ code ≤ 57 then code - 48
    else if 97 ≤ code ∧ code ≤ 122 then code - 87
    else if 65 ≤ code ∧ code ≤ 90 then code - 55
    else radix
  if value < radix then some value else none

def digitsFrom (radix value : Nat) : List Char → Option Nat
  | [] => some value
  | char :: rest => do digitsFrom radix (value * radix + (← digitIn radix char)) rest

def natural (radix : Nat) (text : List Char) : Option Nat :=
  if text.isEmpty then none else digitsFrom radix 0 text

/-- More than one digit, the first of them a zero: such a text is no number. -/
def zeroPadded (text : List Char) : Bool :=
  match text with
  | '0' :: rest => !rest.isEmpty && rest.all Char.isDigit
  | _ => false

def unsigned (text : List Char) : Option Nat :=
  match text with
  | '0' :: 'x' :: rest => natural 16 rest
  | '0' :: 'o' :: rest => natural 8 rest
  | '0' :: 'b' :: rest => natural 2 rest
  | _ => if zeroPadded text then none else natural 10 text

def integer (text : List Char) : Option Int :=
  match text with
  | '-' :: rest => (unsigned rest).map fun value => -(value : Int)
  | '+' :: rest => (unsigned rest).map Int.ofNat
  | _ => (unsigned text).map Int.ofNat

def splitSign : List Char → Bool × List Char
  | '-' :: rest => (true, rest)
  | '+' :: rest => (false, rest)
  | text => (false, text)

def exponent (text : List Char) : Option Int :=
  match text with
  | [] => some 0
  | mark :: rest =>
      if mark = 'e' ∨ mark = 'E' then
        let (negative, digits) := splitSign rest
        (natural 10 digits).map fun value => if negative then -(value : Int) else value
      else none

/-- Digits with at most one point among or around them, then an exponent. -/
def decimal (negative : Bool) (text : List Char) : Option Binary64 := do
  let whole := text.takeWhile Char.isDigit
  let afterWhole := text.dropWhile Char.isDigit
  let pointed := match afterWhole with
    | '.' :: rest => rest
    | _ => []
  let fraction := pointed.takeWhile Char.isDigit
  let rest := if afterWhole.head? = some '.' then pointed.dropWhile Char.isDigit else afterWhole
  let digits ← natural 10 (whole ++ fraction)
  Binary64.ofDecimal negative digits ((← exponent rest) - fraction.length)

def isInfinity (text : List Char) : Bool :=
  [['.', 'i', 'n', 'f'], ['.', 'I', 'n', 'f'], ['.', 'I', 'N', 'F']].contains text

def isNotNumber (text : List Char) : Bool :=
  [['.', 'n', 'a', 'n'], ['.', 'N', 'a', 'N'], ['.', 'N', 'A', 'N']].contains text

/-- A decimal beyond the greatest finite number is no literal. -/
def float (text : List Char) : Option Binary64 :=
  let (negative, magnitude) := splitSign text
  if isInfinity magnitude then some (.infinite negative)
  else if isNotNumber text then some .notNumber
  else decimal negative magnitude

end ManifestLint.Literal
