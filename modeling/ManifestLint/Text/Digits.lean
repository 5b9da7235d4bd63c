/-!
Decimal digits of a natural number, most significant first and without leading zeros; zero is one
digit. Main statement: reading the digits gives the number back.
-/

namespace ManifestLint.Text

def digit (value : Nat) : Char := Char.ofNat (48 + value)

def digitValue (char : Char) : Nat := char.toNat - 48

def digits (number : Nat) : List Char :=
  if number < 10 then [digit number] else digits (number / 10) ++ [digit (number % 10)]
termination_by number

def decimal (number : Nat) : String := String.ofList (digits number)

def readDigits (text : List Char) : Nat :=
  text.foldl (fun value char => 10 * value + digitValue char) 0

@[simp] theorem digit_value_digit (value : Nat) (small : value < 10) :
    digitValue (digit value) = value := by
  have all : ∀ index : Fin 10, digitValue (digit index.val) = index.val := by decide
  exact all ⟨value, small⟩

@[simp] theorem read_digits_digits (number : Nat) : readDigits (digits number) = number := by
  fun_induction digits number with
  | case1 number small => simp [readDigits, digit_value_digit number small]
  | case2 number large induction =>
      rw [readDigits] at induction
      rw [readDigits, List.foldl_append, induction]
      simp only [List.foldl_cons, List.foldl_nil]
      rw [digit_value_digit (number % 10) (by omega)]
      omega

end ManifestLint.Text
