import ManifestLint.Text.Unprintable

/-!
Text in double quotes for messages. Quotes, backslashes and the common controls have short escapes;
any other character that would not show is written with its code point in hexadecimal.
-/

namespace ManifestLint.Text

def hexDigits (number : Nat) : List Char := Nat.toDigits 16 number

def escapeQuoted (char : Char) : List Char :=
  match char with
  | '"' => ['\\', '"']
  | '\\' => ['\\', '\\']
  | '\x00' => ['\\', '0']
  | '\t' => ['\\', 't']
  | '\n' => ['\\', 'n']
  | '\r' => ['\\', 'r']
  | char =>
      if isUnprintable char then ['\\', 'u', '\x7b'] ++ hexDigits char.toNat ++ ['\x7d'] else [char]

def quoted (text : String) : String :=
  String.ofList (['"'] ++ text.toList.flatMap escapeQuoted ++ ['"'])

end ManifestLint.Text
