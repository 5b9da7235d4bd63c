/-!
UTF-8. A byte sequence is well formed when it is the encoding of some characters: no overlong
forms, no surrogates, nothing above U+10FFFF, nothing cut short. Decoding keeps every character
and refuses a text at the start of its first bad or truncated sequence.
-/

namespace ManifestLint.Text

def encode (text : List Char) : List UInt8 := text.flatMap String.utf8EncodeChar

def byteCount (text : List Char) : Nat := (encode text).length

/-- The characters that take up the first bytes of a text. A number of bytes that goes past the end
of the text or ends inside a character cuts nothing out. -/
def takeBytes : Nat → List Char → Option (List Char)
  | 0, _ => some []
  | _ + 1, [] => none
  | count + 1, char :: rest =>
      if char.utf8Size ≤ count + 1 then (takeBytes (count + 1 - char.utf8Size) rest).map (char :: ·)
      else none

/-- What the first byte of a sequence says: the least scalar value that needs such a sequence, the
value's high bits, and how many bytes follow. -/
structure Lead where
  least : Nat
  bits : Nat
  trailing : Nat

def Lead.ofByte (byte : UInt8) : Option Lead :=
  let value := byte.toNat
  if value < 0x80 then some ⟨0, value, 0⟩
  else if value < 0xC0 then none
  else if value < 0xE0 then some ⟨0x80, value - 0xC0, 1⟩
  else if value < 0xF0 then some ⟨0x800, value - 0xE0, 2⟩
  else if value < 0xF8 then some ⟨0x10000, value - 0xF0, 3⟩
  else none

/-- Each trailing byte `10xxxxxx` adds six bits below the value read so far. -/
def readTrailing (value : Nat) : Nat → List UInt8 → Option (Nat × List UInt8)
  | 0, bytes => some (value, bytes)
  | _ + 1, [] => none
  | count + 1, byte :: rest =>
      if byte.toNat / 64 = 2 then readTrailing (value * 64 + byte.toNat % 64) count rest else none

def decodeNext : List UInt8 → Option (Char × List UInt8)
  | [] => none
  | byte :: bytes => do
      let lead ← Lead.ofByte byte
      let (value, rest) ← readTrailing lead.bits lead.trailing bytes
      if lead.least ≤ value ∧ value.isValidChar then some (Char.ofNat value, rest) else none

theorem length_le_of_read_trailing {value count result : Nat} {bytes rest : List UInt8}
    (read : readTrailing value count bytes = some (result, rest)) : rest.length ≤ bytes.length := by
  induction count generalizing value bytes with
  | zero =>
      simp only [readTrailing, Option.some.injEq, Prod.mk.injEq] at read
      exact Nat.le_of_eq (by rw [read.2])
  | succ count induction =>
      cases bytes with
      | nil => simp [readTrailing] at read
      | cons byte bytes =>
          rw [readTrailing] at read
          split at read
          · exact Nat.le_succ_of_le (induction read)
          · simp at read

theorem length_lt_of_decode_next {bytes rest : List UInt8} {char : Char}
    (decoded : decodeNext bytes = some (char, rest)) : rest.length < bytes.length := by
  cases bytes with
  | nil => simp [decodeNext] at decoded
  | cons byte bytes =>
      simp only [decodeNext, Option.bind_eq_bind, Option.bind_eq_some_iff] at decoded
      obtain ⟨lead, _, ⟨value, after⟩, read, checked⟩ := decoded
      simp only [Option.ite_none_right_eq_some, Option.some.injEq, Prod.mk.injEq] at checked
      have shorter := length_le_of_read_trailing read
      rw [checked.2.2] at shorter
      simpa using Nat.lt_succ_of_le shorter

def decodeFrom (offset : Nat) (bytes : List UInt8) : Except Nat (List Char) :=
  if bytes.isEmpty then .ok []
  else
    match _decoded : decodeNext bytes with
    | none => .error offset
    | some (char, rest) =>
        (decodeFrom (offset + (bytes.length - rest.length)) rest).map (char :: ·)
termination_by bytes.length
decreasing_by exact length_lt_of_decode_next _decoded

def decode (bytes : List UInt8) : Except Nat (List Char) := decodeFrom 0 bytes

end ManifestLint.Text
