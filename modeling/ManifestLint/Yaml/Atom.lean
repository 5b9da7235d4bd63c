import ManifestLint.Number.Literal
import ManifestLint.Text.Utf8
import ManifestLint.Yaml.Issue
import ManifestLint.Yaml.Token

/-!
Values of scalars. A plain scalar without a tag is null, a boolean, a number or a text by its form;
a core tag demands one of these, and any other scalar is a text.
-/

namespace ManifestLint.Yaml

/-- An integer tells whether it was written as a negative one, which zero can be too. -/
inductive Atom where
  | unit
  | boolean (value : Bool)
  | integer (negative : Bool) (value : Int)
  | wide (value : Int)
  | float (value : Binary64)
  | text (value : String)
deriving DecidableEq, Repr

def isNull (text : String) : Bool := ["~", "null", "Null", "NULL"].contains text

def booleanOf? (text : String) : Option Bool :=
  if ["true", "True", "TRUE"].contains text then some true
  else if ["false", "False", "FALSE"].contains text then some false
  else none

namespace Atom

def shape : Atom → Shape
  | .unit => .unit
  | .boolean value => .boolean value
  | .integer _ value => .integer value
  | .wide value => .wide value
  | .float value => .float value
  | .text value => .text value

def hasWidth (bits : Nat) (value : Int) : Bool :=
  -(Nat.pow 2 (bits - 1) : Int) ≤ value && value < (Nat.pow 2 bits : Int)

def ofInteger? (text : String) : Option Atom := do
  let value ← Literal.integer text.toList
  if hasWidth 64 value then some (.integer (text.toList.head? == some '-') value)
  else if hasWidth 128 value then some (.wide value)
  else none

/-- A floating-point literal; digits behind a needless zero are none. -/
def ofFloat? (text : String) : Option Atom :=
  if Literal.zeroPadded (Literal.splitSign text.toList).2 then none
  else (Literal.float text.toList).map .float

def ofPlain (text : String) : Atom :=
  if text.isEmpty || isNull text then .unit
  else
    match booleanOf? text with
    | some value => .boolean value
    | none => ((ofInteger? text).or (ofFloat? text)).getD (.text text)

end Atom

def coreTag (name : String) : List UInt8 := ("tag:yaml.org,2002:" ++ name).toUTF8.toList

def localTag? (tag : Option (List UInt8)) : Option String :=
  match tag with
  | some (mark :: name) =>
      if mark = 33 then
        if name.isEmpty then some "!" else (Text.decode name).toOption.map String.ofList
      else none
  | _ => none

/-- What a scalar is. A core tag that its text does not fit is an issue. -/
def Atom.ofScalar (tag : Option (List UInt8)) (style : Style) (text : String) : Except Issue Atom :=
  match tag with
  | none => .ok (if style = .plain then .ofPlain text else .text text)
  | some tag =>
      if tag = coreTag "bool" then
        ((booleanOf? text).map Atom.boolean).elim (.error (.wrongValue text "a boolean")) .ok
      else if tag = coreTag "int" then
        (Atom.ofInteger? text).elim (.error (.wrongValue text "an integer")) .ok
      else if tag = coreTag "float" then
        ((Literal.float text.toList).map Atom.float).elim (.error (.wrongValue text "a float")) .ok
      else if tag = coreTag "null" then
        if isNull text then .ok .unit else .error (.wrongValue text "null")
      else if tag.head? = some 33 ∧ style = .plain then .ok (.ofPlain text)
      else .ok (.text text)

end ManifestLint.Yaml
