import ManifestLint.Config.Document
import ManifestLint.Report

/-!
A workbench holds a config, an engine and a report, and each changes by steps of its own. A step
that fails changes nothing. The engine changes only when it is built, so it may lag behind the
config.
-/

namespace ManifestLint

structure Workbench where
  config : Config
  engine : Engine
  report : Report
deriving DecidableEq, Repr

namespace Workbench

def start : Workbench := ⟨.default, .builtin, .empty⟩

inductive Action where
  | replaceConfig (document : String)
  | disable (rule : String)
  | enable (rule : String)
  | addRule (rule : Rule)
  | build
  | lint (source : String) (bytes : List UInt8)
  | clear
  | render (colour : Bool) (time : String)
deriving DecidableEq, Repr

inductive Fault where
  | config (fault : ConfigFault)
  | bytes (fault : ByteFault)
deriving DecidableEq, Repr

def withLint (workbench : Workbench) (change : LintSection → LintSection) : Workbench :=
  { workbench with config.lint := change workbench.config.lint }

def step (workbench : Workbench) : Action → Except Fault Workbench
  | .replaceConfig document => do
      return { workbench with config := ← (Config.ofDocument document).mapError .config }
  | .disable rule =>
      .ok (workbench.withLint fun lint => { lint with disable := lint.disable ++ [rule] })
  | .enable rule =>
      .ok (workbench.withLint fun lint => { lint with disable := lint.disable.filter (· != rule) })
  | .addRule rule =>
      .ok (workbench.withLint fun lint => { lint with rules := lint.rules ++ [rule] })
  | .build => do
      return { workbench with engine := ← workbench.config.engine.mapError (.config ∘ .lint) }
  | .lint source bytes => do
      let manifest ← (Manifest.ofBytes bytes).mapError .bytes
      let entry := ⟨source, workbench.engine.findings manifest⟩
      return { workbench with report := workbench.report.add entry }
  | .clear => .ok { workbench with report := .empty }
  | .render _ _ => .ok workbench

def apply (workbench : Workbench) (action : Action) : Workbench :=
  match workbench.step action with
  | .ok next => next
  | .error _ => workbench

/-- The workbench after some actions; those that fail are passed over. -/
def run (workbench : Workbench) (actions : List Action) : Workbench := actions.foldl apply workbench

end Workbench

end ManifestLint
