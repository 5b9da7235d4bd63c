import ManifestLint.Text.Lines
import ManifestLint.Text.Digits

/-!
JSON values and their indented text: two blanks a level, one entry a line, a blank after each
colon, and nothing between the brackets of an empty list or object.
-/

namespace ManifestLint

inductive Json where
  | string (text : String)
  | boolean (value : Bool)
  | number (value : Nat)
  | array (items : List Json)
  | object (entries : List (String × Json))

namespace Json

def hexDigit (value : Nat) : Char := Char.ofNat (if value < 10 then 48 + value else 87 + value)

/-- Quotes, backslashes and the characters below U+0020 are escaped, with a short form where JSON
has one; all other characters stand for themselves. -/
def escape (char : Char) : List Char :=
  match char with
  | '"' => ['\\', '"']
  | '\\' => ['\\', '\\']
  | '\n' => ['\\', 'n']
  | '\r' => ['\\', 'r']
  | '\t' => ['\\', 't']
  | '\x08' => ['\\', 'b']
  | '\x0c' => ['\\', 'f']
  | char =>
      if char.toNat < 0x20 then
        ['\\', 'u', '0', '0', hexDigit (char.toNat / 16), hexDigit (char.toNat % 16)]
      else [char]

def quote (text : String) : List Char := ['"'] ++ text.toList.flatMap escape ++ ['"']

def newline (level : Nat) : List Char := '\n' :: Text.blanks (2 * level)

mutual

def render (level : Nat) : Json → List Char
  | .string text => quote text
  | .boolean true => ['t', 'r', 'u', 'e']
  | .boolean false => ['f', 'a', 'l', 's', 'e']
  | .number value => Text.digits value
  | .array [] => ['[', ']']
  | .array (item :: items) =>
      ['['] ++ newline (level + 1) ++ render (level + 1) item ++ renderItems (level + 1) items
        ++ newline level ++ [']']
  | .object [] => ['\x7b', '\x7d']
  | .object (entry :: entries) =>
      ['\x7b'] ++ newline (level + 1) ++ renderEntry (level + 1) entry
        ++ renderEntries (level + 1) entries ++ newline level ++ ['\x7d']

def renderItems (level : Nat) : List Json → List Char
  | [] => []
  | item :: items => [','] ++ newline level ++ render level item ++ renderItems level items

def renderEntry (level : Nat) : String × Json → List Char
  | (key, value) => quote key ++ [':', ' '] ++ render level value

def renderEntries (level : Nat) : List (String × Json) → List Char
  | [] => []
  | entry :: entries =>
      [','] ++ newline level ++ renderEntry level entry ++ renderEntries level entries

end

def pretty (value : Json) : String := String.ofList (value.render 0)

end Json

end ManifestLint
