/-!
Formats that a report can be written in.
-/

namespace ManifestLint

inductive OutputFormat where
  | text
  | json
deriving DecidableEq, Repr

namespace OutputFormat

def name : OutputFormat → String
  | .text => "text"
  | .json => "json"

def ofName? (name : String) : Option OutputFormat :=
  if name = "text" then some .text else if name = "json" then some .json else none

/-- On the command line the case of ASCII letters does not matter. -/
def ofText? (text : String) : Option OutputFormat := ofName? (text.map Char.toLower)

def refusal (text : String) : String := s!"Invalid format '{text}'. Use 'text' or 'json'."

@[simp] theorem of_name_name (format : OutputFormat) : ofName? format.name = some format := by
  cases format <;> decide

end OutputFormat

end ManifestLint
