import ManifestLint.Json
import ManifestLint.Yaml.Scalar.Quoted

/-!
Reading JSON. A text is cut into tokens, between which blanks may stand, and the tokens are put
together to one value; strings may use every escape and numbers every part that JSON has. A reader
fails on anything else.
-/

namespace ManifestLint.Json

open Yaml (hexNumber)

/-- A value as it is read. A number is its significand times a power of ten. -/
inductive Value where
  | null
  | boolean (value : Bool)
  | number (significand exponent : Int)
  | string (text : String)
  | array (items : List Value)
  | object (entries : List (String × Value))

inductive Token where
  | openArray
  | closeArray
  | openObject
  | closeObject
  | comma
  | colon
  | null
  | boolean (value : Bool)
  | number (significand exponent : Int)
  | string (text : String)
deriving DecidableEq, Repr

def isBlank (char : Char) : Bool := char == ' ' || char == '\t' || char == '\n' || char == '\r'

def simpleEscape : Char → Option Char
  | '"' => some '"'
  | '\\' => some '\\'
  | '/' => some '/'
  | 'b' => some '\x08'
  | 'f' => some '\x0c'
  | 'n' => some '\n'
  | 'r' => some '\r'
  | 't' => some '\t'
  | _ => none

/-- The character of a numeric escape, from behind its mark. A character beyond four digits takes
two escapes, a high surrogate and a low one; a surrogate alone is no character. -/
def readNumericEscape (text : List Char) : Option (Char × List Char) := do
  let (unit, rest) ← hexNumber 0 4 text
  if unit.isValidChar then return (Char.ofNat unit, rest)
  match rest with
  | '\\' :: 'u' :: rest =>
      let (low, rest) ← hexNumber 0 4 rest
      if unit < 0xDC00 ∧ 0xDC00 ≤ low ∧ low < 0xE000 then
        return (Char.ofNat (0x10000 + 0x400 * (unit - 0xD800) + (low - 0xDC00)), rest)
      else none
  | _ => none

/-- The first character of what is left of a string. Quotes, backslashes and characters below U+0020
do not stand for themselves. -/
def readPiece : List Char → Option (Char × List Char)
  | [] => none
  | '\\' :: rest =>
      match rest with
      | [] => none
      | 'u' :: rest => readNumericEscape rest
      | mark :: rest => (simpleEscape mark).map (·, rest)
  | char :: rest => if char = '"' ∨ char.toNat < 0x20 then none else some (char, rest)

theorem length_le_of_read_numeric_escape {text rest : List Char} {char : Char}
    (read : readNumericEscape text = some (char, rest)) : rest.length ≤ text.length := by
  simp only [readNumericEscape, Option.bind_eq_bind, Option.bind_eq_some_iff] at read
  obtain ⟨⟨unit, after⟩, first, read⟩ := read
  have shorter := Yaml.length_le_of_hex_number first
  dsimp only at read
  split at read
  · cases read
    exact shorter
  · split at read
    · simp only [Option.bind_eq_some_iff] at read
      obtain ⟨⟨low, last⟩, second, read⟩ := read
      have shortest := Yaml.length_le_of_hex_number second
      dsimp only at read
      split at read
      · simp only [Option.pure_def, Option.some.injEq, Prod.mk.injEq] at read
        rw [← read.2]
        simp only [List.length_cons] at shorter
        omega
      · cases read
    · cases read

theorem length_lt_of_read_piece {text rest : List Char} {char : Char}
    (read : readPiece text = some (char, rest)) : rest.length < text.length := by
  unfold readPiece at read
  split at read
  · cases read
  · split at read
    · cases read
    · have shorter := length_le_of_read_numeric_escape read
      simp only [List.length_cons]
      omega
    · simp only [Option.map_eq_some_iff, Prod.mk.injEq] at read
      obtain ⟨_, _, _, rfl⟩ := read
      simp only [List.length_cons]
      omega
  · split at read
    · cases read
    · cases read
      exact Nat.lt_succ_self _

/-- A string from behind its opening quote, and what follows its closing one. -/
def readString (text : List Char) : Option (List Char × List Char) :=
  if text.head? = some '"' then some ([], text.tail)
  else
    match _read : readPiece text with
    | none => none
    | some (char, rest) => (readString rest).map fun (chars, after) => (char :: chars, after)
termination_by text.length
decreasing_by exact length_lt_of_read_piece _read

theorem length_le_of_read_string {text chars rest : List Char}
    (read : readString text = some (chars, rest)) : rest.length ≤ text.length := by
  fun_induction readString text generalizing chars rest with
  | case1 text closed =>
      cases read
      rw [List.length_tail]
      exact Nat.sub_le _ _
  | case2 => cases read
  | case3 text _ char after piece induction =>
      simp only [Option.map_eq_some_iff, Prod.mk.injEq] at read
      obtain ⟨⟨inner, last⟩, found, _, same⟩ := read
      rw [← same]
      exact Nat.le_of_lt (Nat.lt_of_le_of_lt (induction found) (length_lt_of_read_piece piece))

def readRun (text : List Char) : Option (List Char × List Char) :=
  let digits := text.takeWhile Char.isDigit
  if digits.isEmpty then none else some (digits, text.dropWhile Char.isDigit)

theorem length_lt_of_read_run {text digits rest : List Char}
    (read : readRun text = some (digits, rest)) :
    rest.length < text.length := by
  rw [readRun] at read
  split at read
  · cases read
  · next some =>
    cases read
    have whole := congrArg List.length
        (List.takeWhile_append_dropWhile (p := Char.isDigit) (l := text))
    rw [List.length_append] at whole
    rw [List.isEmpty_iff, ← List.length_eq_zero_iff] at some
    omega

def readFraction : List Char → Option (List Char × List Char)
  | '.' :: rest => readRun rest
  | text => some ([], text)

def readSign : List Char → Int × List Char
  | '-' :: rest => (-1, rest)
  | '+' :: rest => (1, rest)
  | text => (1, text)

def readExponent : List Char → Option (Int × List Char)
  | [] => some (0, [])
  | char :: rest =>
      if char = 'e' ∨ char = 'E' then
        let (sign, rest) := readSign rest
        (readRun rest).map fun (digits, rest) => (sign * Text.readDigits digits, rest)
      else some (0, char :: rest)

/-- Only a minus may stand before a number, and no zero before other digits of its whole part. -/
def readNumber (text : List Char) : Option (Token × List Char) := do
  let negative := text.head? == some '-'
  let (whole, rest) ← readRun (if negative then text.tail else text)
  if whole.head? = some '0' ∧ whole ≠ ['0'] then none
  else
    let (fraction, rest) ← readFraction rest
    let (exponent, rest) ← readExponent rest
    let sign : Int := if negative then -1 else 1
    return (.number (sign * Text.readDigits (whole ++ fraction)) (exponent - fraction.length), rest)

theorem length_le_of_read_fraction {text digits rest : List Char}
    (read : readFraction text = some (digits, rest)) : rest.length ≤ text.length := by
  unfold readFraction at read
  split at read
  · exact Nat.le_succ_of_le (Nat.le_of_lt (length_lt_of_read_run read))
  · cases read
    exact Nat.le_refl _

theorem length_le_of_read_sign (text : List Char) : (readSign text).2.length ≤ text.length := by
  unfold readSign
  split
  · exact Nat.le_succ _
  · exact Nat.le_succ _
  · exact Nat.le_refl _

theorem length_le_of_read_exponent {text rest : List Char} {exponent : Int}
    (read : readExponent text = some (exponent, rest)) : rest.length ≤ text.length := by
  unfold readExponent at read
  split at read
  · cases read
    exact Nat.le_refl _
  · next char after =>
    split at read
    · simp only [Option.map_eq_some_iff, Prod.mk.injEq] at read
      obtain ⟨⟨digits, last⟩, run, _, same⟩ := read
      have shorter := length_lt_of_read_run run
      have signed := length_le_of_read_sign after
      rw [← same, List.length_cons]
      dsimp only
      omega
    · cases read
      exact Nat.le_refl _

theorem length_lt_of_read_number {text rest : List Char} {token : Token}
    (read : readNumber text = some (token, rest)) : rest.length < text.length := by
  simp only [readNumber, Option.bind_eq_bind, Option.bind_eq_some_iff] at read
  obtain ⟨⟨whole, afterWhole⟩, run, read⟩ := read
  dsimp only at read
  rw [Option.ite_none_left_eq_some] at read
  obtain ⟨_, ⟨fraction, afterFraction⟩, second, ⟨exponent, afterExponent⟩, third, last⟩ := by
    simpa only [Option.bind_eq_some_iff] using read
  have unsigned : (if text.head? == some '-' then text.tail else text).length ≤ text.length := by
    split
    · rw [List.length_tail]
      exact Nat.sub_le _ _
    · exact Nat.le_refl _
  have first := length_lt_of_read_run run
  have shorter := length_le_of_read_fraction second
  have shortest := length_le_of_read_exponent third
  cases last
  dsimp only at shorter shortest ⊢
  omega

def mark? : Char → Option Token
  | '[' => some .openArray
  | ']' => some .closeArray
  | '\x7b' => some .openObject
  | '\x7d' => some .closeObject
  | ',' => some .comma
  | ':' => some .colon
  | _ => none

def literal? : List Char → Option (Token × List Char)
  | 'n' :: 'u' :: 'l' :: 'l' :: rest => some (.null, rest)
  | 't' :: 'r' :: 'u' :: 'e' :: rest => some (.boolean true, rest)
  | 'f' :: 'a' :: 'l' :: 's' :: 'e' :: rest => some (.boolean false, rest)
  | _ => none

def readToken (char : Char) (rest : List Char) : Option (Token × List Char) :=
  match mark? char with
  | some token => some (token, rest)
  | none =>
      if char = '"' then (readString rest).map fun (text, rest) =>
        (.string (String.ofList text), rest)
      else
        match literal? (char :: rest) with
        | some read => some read
        | none => readNumber (char :: rest)

theorem length_lt_of_literal {text rest : List Char} {token : Token}
    (read : literal? text = some (token, rest)) : rest.length < text.length := by
  unfold literal? at read
  split at read
  · cases read
    simp only [List.length_cons]
    omega
  · cases read
    simp only [List.length_cons]
    omega
  · cases read
    simp only [List.length_cons]
    omega
  · cases read

theorem length_le_of_read_token {char : Char} {text rest : List Char} {token : Token}
    (read : readToken char text = some (token, rest)) : rest.length ≤ text.length := by
  rw [readToken] at read
  split at read
  · cases read
    exact Nat.le_refl _
  · split at read
    · simp only [Option.map_eq_some_iff, Prod.mk.injEq] at read
      obtain ⟨⟨chars, last⟩, found, _, same⟩ := read
      rw [← same]
      exact length_le_of_read_string found
    · split at read
      · next literal =>
        cases read
        exact Nat.le_of_lt_succ (length_lt_of_literal literal)
      · exact Nat.le_of_lt_succ (length_lt_of_read_number read)

def lex : List Char → Option (List Token)
  | [] => some []
  | char :: rest =>
      if isBlank char then lex rest
      else
        match _read : readToken char rest with
        | none => none
        | some (token, after) => (lex after).map (token :: ·)
termination_by text => text.length
decreasing_by
  · exact Nat.lt_succ_self _
  · exact Nat.lt_succ_of_le (length_le_of_read_token _read)

/-- A list or object that is open: the items before, last first, and the key of the entry that is
read. -/
inductive Frame where
  | array (before : List Value)
  | object (before : List (String × Value)) (key : String)

mutual

def start (frames : List Frame) : List Token → Option Value
  | .null :: rest => proceed frames .null rest
  | .boolean value :: rest => proceed frames (.boolean value) rest
  | .number significand exponent :: rest => proceed frames (.number significand exponent) rest
  | .string text :: rest => proceed frames (.string text) rest
  | .openArray :: .closeArray :: rest => proceed frames (.array []) rest
  | .openArray :: rest => start (.array [] :: frames) rest
  | .openObject :: .closeObject :: rest => proceed frames (.object []) rest
  | .openObject :: rest => startEntry [] frames rest
  | _ => none

def startEntry (before : List (String × Value)) (frames : List Frame) : List Token → Option Value
  | .string key :: .colon :: rest => start (.object before key :: frames) rest
  | _ => none

def proceed (frames : List Frame) (value : Value) : List Token → Option Value
  | [] => if frames.isEmpty then some value else none
  | .comma :: rest =>
      match frames with
      | .array before :: frames => start (.array (value :: before) :: frames) rest
      | .object before key :: frames => startEntry ((key, value) :: before) frames rest
      | [] => none
  | .closeArray :: rest =>
      match frames with
      | .array before :: frames => proceed frames (.array (value :: before).reverse) rest
      | _ => none
  | .closeObject :: rest =>
      match frames with
      | .object before key :: frames =>
        proceed frames (.object ((key, value) :: before).reverse) rest
      | _ => none
  | _ => none

end

def read (text : String) : Option Value := (lex text.toList).bind (start [])

end ManifestLint.Json
