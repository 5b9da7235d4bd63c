import ManifestLint.Config.Load
import ManifestLint.Input
import ManifestLint.Report

/-!
Checking manifests: settings are loaded, arguments become inputs, and every input is linted. The
first fault ends a check, and then there is no report.
-/

namespace ManifestLint

structure Surroundings where
  tree : FileTree
  home : Option String
  stdin : List UInt8
deriving Repr

inductive CheckFault where
  | load (fault : LoadFault)
  | format (text : String)
  | input (fault : InputFault)
  | unreadable (path : String) (fault : FileFault)
  | invalid (source : String) (fault : ByteFault)
deriving DecidableEq, Repr

def CheckFault.message : CheckFault → String
  | .load fault => fault.message
  | .format text => OutputFormat.refusal text
  | .input fault => fault.message
  | .unreadable path fault => s!"Failed to read manifest {path}: {fault.message}"
  | .invalid source fault => s!"Invalid manifest {source}: {fault.message}"

structure Setup where
  config : Config
  engine : Engine
deriving DecidableEq, Repr

namespace Setup

/-- Names to disable are added unless they are there already. -/
def addDisabled (known names : List String) : List String :=
  names.foldl (fun known name => if known.contains name then known else known ++ [name]) known

def load (around : Surroundings) (explicitPath : Option String) (disable : List String) :
    Except CheckFault Setup := do
  let config ← (Config.load around.tree (.ofHome around.home explicitPath)).mapError .load
  let lint := { config.lint with disable := addDisabled config.lint.disable disable }
  let config := { config with lint }
  return ⟨config, ← config.engine.mapError (.load ∘ .lint)⟩

def format (setup : Setup) (given : Option String) : Except CheckFault OutputFormat :=
  match given with
  | none => .ok setup.config.format
  | some text => (OutputFormat.ofText? text).elim (.error (.format text)) .ok

end Setup

def Input.read (around : Surroundings) : Input → Except CheckFault (List UInt8)
  | .stdin => .ok around.stdin
  | .file path => (around.tree.readFile path).mapError (.unreadable path)

def Input.lint (around : Surroundings) (engine : Engine) (input : Input) :
    Except CheckFault ManifestReport := do
  let bytes ← input.read around
  let manifest ← (Manifest.ofBytes bytes).mapError (.invalid input.source)
  return ⟨input.source, engine.findings manifest⟩

/-- What is left of the surroundings when an input was read: standard input is read to its end. -/
def Input.drain (around : Surroundings) : Input → Surroundings
  | .stdin => { around with stdin := [] }
  | .file _ => around

def Report.ofInputs (around : Surroundings) (engine : Engine) :
    List Input → Except CheckFault Report
  | [] => .ok .empty
  | input :: inputs => do
      let entry ← input.lint around engine
      let rest ← Report.ofInputs (input.drain around) engine inputs
      return ⟨entry :: rest.entries⟩

def Setup.check (setup : Setup) (around : Surroundings) (format : Option String)
    (arguments : List String) : Except CheckFault (OutputFormat × Report) := do
  let format ← setup.format format
  let inputs ← (Input.resolve around.tree arguments).mapError .input
  return (format, ← Report.ofInputs around setup.engine inputs)

end ManifestLint
