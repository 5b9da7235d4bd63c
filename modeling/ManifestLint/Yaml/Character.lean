/-!
Characters of a YAML stream, and what they are to its scanner. Every line break but the line and
paragraph separators is read as a line feed.
-/

namespace ManifestLint.Yaml

def isPermitted (char : Char) : Bool :=
  let code := char.toNat
  code == 0x09 || code == 0x0A || code == 0x0D || (0x20 ≤ code && code ≤ 0x7E) || code == 0x85
    || (0xA0 ≤ code && code ≤ 0xD7FF) || (0xE000 ≤ code && code ≤ 0xFFFD) || 0x10000 ≤ code

/-- Carriage return with line feed, carriage return alone and next line each become a line feed. -/
def normalise : List Char → List Char
  | '\r' :: '\n' :: rest => '\n' :: normalise rest
  | '\r' :: rest => '\n' :: normalise rest
  | '\u0085' :: rest => '\n' :: normalise rest
  | char :: rest => char :: normalise rest
  | [] => []

def isBreak (char : Char) : Bool := char == '\n' || char == '\u2028' || char == '\u2029'

def isSpace (char : Char) : Bool := char == ' ' || char == '\t'

def isWord (char : Char) : Bool := char.isAlphanum || char == '_' || char == '-'

def byteOrderMark : Char := '\uFEFF'

def atGap : List Char → Bool
  | [] => true
  | char :: _ => isSpace char || isBreak char

def startsWith (expected : Char) : List Char → Bool
  | [] => false
  | char :: _ => char == expected

/-- Three times the same character and then a gap: at the start of a line, a document marker. -/
def isMarker (mark : Char) : List Char → Bool
  | first :: second :: third :: rest =>
      first == mark && second == mark && third == mark && atGap rest
  | _ => false

def atMarker (text : List Char) : Bool := isMarker '-' text || isMarker '.' text

end ManifestLint.Yaml
