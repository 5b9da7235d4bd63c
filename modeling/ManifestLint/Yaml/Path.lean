import ManifestLint.Text.Digits

/-!
Places in a document: how to get from the root to a node by keys and item numbers.
-/

namespace ManifestLint.Yaml

/-- A step to the value of a key, to an item, or to the value of a key that is no scalar. -/
inductive Step where
  | key (name : String)
  | item (index : Nat)
  | unknown
deriving DecidableEq, Repr

/-- The steps from the root, the last one first. -/
structure Path where
  steps : List Step
deriving DecidableEq, Repr

namespace Path

def root : Path := ⟨[]⟩

def key (path : Path) (name : String) : Path := ⟨.key name :: path.steps⟩

def item (path : Path) (index : Nat) : Path := ⟨.item index :: path.steps⟩

def unknown (path : Path) : Path := ⟨.unknown :: path.steps⟩

def renderSteps : List Step → String
  | [] => "."
  | [.key name] => name
  | [.unknown] => "?"
  | .key name :: steps => renderSteps steps ++ "." ++ name
  | .unknown :: steps => renderSteps steps ++ ".?"
  | .item index :: steps => renderSteps steps ++ "[" ++ Text.decimal index ++ "]"

def render (path : Path) : String := renderSteps path.steps

def locate (path : Path) (message : String) : String :=
  if path.steps.isEmpty then message else path.render ++ ": " ++ message

end Path

end ManifestLint.Yaml
