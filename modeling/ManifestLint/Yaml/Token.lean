/-!
Tokens of a YAML stream. Block collections have tokens for their start and end, which come from
indentation, and each key of a mapping is announced by a token of its own.
-/

namespace ManifestLint.Yaml

inductive Style where
  | plain
  | singleQuoted
  | doubleQuoted
  | literal
  | folded
deriving DecidableEq, Repr

/-- A tag's handle, such as `!` or `!!`, and the octets after it. A tag written out in full has an
empty handle. -/
structure TagName where
  handle : List Char
  suffix : List UInt8
deriving DecidableEq, Repr

inductive Token where
  | versionDirective (major minor : Nat)
  | tagDirective (handle : List Char) (expansion : List UInt8)
  | documentStart
  | documentEnd
  | blockSequenceStart
  | blockMappingStart
  | blockEnd
  | flowSequenceStart
  | flowSequenceEnd
  | flowMappingStart
  | flowMappingEnd
  | blockEntry
  | flowEntry
  | key
  | value
  | alias (name : List Char)
  | anchor (name : List Char)
  | tag (name : TagName)
  | scalar (style : Style) (text : String)
  | streamEnd
deriving DecidableEq, Repr

end ManifestLint.Yaml
