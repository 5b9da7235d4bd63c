import ManifestLint.Config.Frontmatter
import ManifestLint.Config.LayerEntry

/-!
Config documents: settings in the frontmatter, and any text behind it.
-/

namespace ManifestLint

inductive DocumentFault where
  | noFrontmatter
  | unreadable (fault : Yaml.ReadFault)
deriving DecidableEq, Repr

def DocumentFault.message : DocumentFault → String
  | .noFrontmatter => "Failed to extract frontmatter from config"
  | .unreadable fault =>
      match fault.detail with
      | some detail => "Failed to parse config frontmatter: " ++ detail
      | none => "Failed to parse config frontmatter"

/-- A blank frontmatter sets nothing. -/
def Layer.ofDocument (content : String) : Except DocumentFault Layer :=
  match Frontmatter.ofDocument content with
  | none => .error .noFrontmatter
  | some settings =>
      if Text.Blank settings then .ok .empty
      else (Yaml.readDocumentAs LayerEntry.read settings).mapError .unreadable

inductive ConfigFault where
  | document (fault : DocumentFault)
  | lint (fault : RuleFault)
deriving DecidableEq, Repr

def ConfigFault.message : ConfigFault → String
  | .document fault => fault.message
  | .lint fault => "Invalid lint configuration: " ++ fault.message

namespace Config

def engine (config : Config) : Except RuleFault Engine := Engine.ofSection config.lint

/-- A config is valid when its lint section describes an engine. -/
def checked (config : Config) : Except RuleFault Config := config.engine.map fun _ => config

def ofDocument (content : String) : Except ConfigFault Config := do
  let layer ← (Layer.ofDocument content).mapError .document
  layer.finish.checked.mapError .lint

end Config

end ManifestLint
