import ManifestLint.Number.Binary64
import ManifestLint.Text.Quoted
import ManifestLint.Yaml.Path

/-!
What can be wrong with a document that is read as a value of a given type.
-/

namespace ManifestLint.Yaml

/-- What a value was found to be. Integers beyond 64 bits are set apart as wide. -/
inductive Shape where
  | unit
  | boolean (value : Bool)
  | integer (value : Int)
  | wide (value : Int)
  | float (value : Binary64)
  | text (value : String)
  | sequence
  | mapping
  | variant
deriving DecidableEq, Repr

def signedDecimal (value : Int) : String :=
  if value < 0 then "-" ++ Text.decimal value.natAbs else Text.decimal value.natAbs

def Shape.describe : Shape → String
  | .unit => "unit value"
  | .boolean value => if value then "boolean `true`" else "boolean `false`"
  | .integer value => "integer `" ++ signedDecimal value ++ "`"
  | .wide value =>
      "integer `" ++ signedDecimal value ++ "` as " ++ (if value < 0 then "i128" else "u128")
  | .float value => "floating point `" ++ value.text ++ "`"
  | .text value => "string " ++ Text.quoted value
  | .sequence => "sequence"
  | .mapping => "map"
  | .variant => "enum"

inductive Issue where
  | missingField (name : String)
  | repeatedField (name : String)
  | unknownVariant (name expected : String)
  | wrongType (found : Shape) (expected : String)
  | wrongValue (found expected : String)
  | wrongLength (found : Nat) (expected : String)
deriving DecidableEq, Repr

def Issue.message : Issue → String
  | .missingField name => "missing field `" ++ name ++ "`"
  | .repeatedField name => "duplicate field `" ++ name ++ "`"
  | .unknownVariant name expected => "unknown variant `" ++ name ++ "`, expected " ++ expected
  | .wrongType found expected => "invalid type: " ++ found.describe ++ ", expected " ++ expected
  | .wrongValue found expected =>
      "invalid value: string " ++ Text.quoted found ++ ", expected " ++ expected
  | .wrongLength found expected =>
      "invalid length " ++ Text.decimal found ++ ", expected " ++ expected

/-- Why no value can be read: the text is no document of nodes that can be followed to their ends,
or the document does not fit the type at some place. -/
inductive ReadFault where
  | malformed
  | mistyped (path : Path) (issue : Issue)
deriving DecidableEq, Repr

def ReadFault.detail : ReadFault → Option String
  | .malformed => none
  | .mistyped path issue => some (path.locate issue.message)

end ManifestLint.Yaml
