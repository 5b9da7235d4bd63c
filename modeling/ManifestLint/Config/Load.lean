import ManifestLint.Config.Document
import ManifestLint.FileTree

/-!
Loading settings from up to three files. A global file and a project file may be absent; a file that
is named explicitly must be there. Later files come over earlier ones, and only the result is
checked.
-/

namespace ManifestLint

inductive TextFault where
  | file (fault : FileFault)
  | notText
deriving DecidableEq, Repr

def TextFault.message : TextFault → String
  | .file fault => fault.message
  | .notText => "stream did not contain valid UTF-8"

def FileTree.readText (tree : FileTree) (path : String) : Except TextFault String := do
  let bytes ← (tree.readFile path).mapError .file
  match Text.decode bytes with
  | .ok chars => return String.ofList chars
  | .error _ => throw .notText

inductive LoadFault where
  | unreadable (path : String) (cause : TextFault)
  | invalid (path : String) (fault : DocumentFault)
  | lint (fault : RuleFault)
deriving DecidableEq, Repr

def LoadFault.message : LoadFault → String
  | .unreadable path cause => s!"Failed to read config from {path}: {cause.message}"
  | .invalid path fault => s!"Invalid config {path}: {fault.message}"
  | .lint fault => (ConfigFault.lint fault).message

structure Sources where
  globalPath : Option String
  projectPath : String
  explicitPath : Option String
deriving DecidableEq, Repr

namespace Sources

def globalIn (home : String) : String :=
  let path := ".config/buildlint/config.md"
  if home.isEmpty then path
  else if home.toList.getLast? = some '/' then home ++ path
  else home ++ "/" ++ path

def ofHome (home explicitPath : Option String) : Sources :=
  ⟨home.map globalIn, ".buildlint.md", explicitPath⟩

end Sources

def Layer.ofFile (tree : FileTree) (path : String) : Except LoadFault Layer := do
  let content ← (tree.readText path).mapError (.unreadable path)
  (Layer.ofDocument content).mapError (.invalid path)

/-- A file that is absent sets nothing. -/
def Layer.ofFileIfPresent (tree : FileTree) (path : String) : Except LoadFault Layer :=
  if tree.holds path then Layer.ofFile tree path else .ok .empty

namespace Config

/-- The layers of all sources, each over those before it. -/
def loadLayer (tree : FileTree) (sources : Sources) : Except LoadFault Layer := do
  let lowest ← sources.globalPath.elim (.ok .empty) (Layer.ofFileIfPresent tree)
  let middle ← Layer.ofFileIfPresent tree sources.projectPath
  let highest ← sources.explicitPath.elim (.ok .empty) (Layer.ofFile tree)
  return highest.above (middle.above lowest)

def load (tree : FileTree) (sources : Sources) : Except LoadFault Config := do
  (← loadLayer tree sources).finish.checked.mapError .lint

end Config

end ManifestLint
