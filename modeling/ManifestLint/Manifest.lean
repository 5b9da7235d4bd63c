import ManifestLint.Text.Utf8
import ManifestLint.Text.Digits

/-!
The text of a build manifest. No structure is imposed on it: rules see the whole text, byte order
mark, carriage returns and trailing blanks included.
-/

namespace ManifestLint

structure Manifest where
  text : String
deriving DecidableEq, Repr

inductive ByteFault where
  | malformed (validUpTo : Nat)
  | binary (offset : Nat)
deriving DecidableEq, Repr

def ByteFault.message : ByteFault → String
  | .malformed validUpTo =>
      "manifest is not valid UTF-8 (valid up to byte " ++ Text.decimal validUpTo ++ ")"
  | .binary offset =>
      "manifest contains binary data (NUL byte at offset " ++ Text.decimal offset ++ ")"

namespace Manifest

/-- Malformed bytes are reported before zero bytes, wherever they stand. -/
def ofBytes (bytes : List UInt8) : Except ByteFault Manifest :=
  match Text.decode bytes with
  | .error offset => .error (.malformed offset)
  | .ok chars =>
      match bytes.findIdx? (· == 0) with
      | some offset => .error (.binary offset)
      | none => .ok ⟨String.ofList chars⟩

def size (manifest : Manifest) : Nat := manifest.text.utf8ByteSize

end Manifest

end ManifestLint
