import ManifestLint.Program
import ManifestLint.Proofs.Check.Disabling

/-!
The stages of a check, each described without those before it: the layers of settings, the section
that comes of them, the names to disable, the format, the arguments and the inputs. Every stage goes
through its parts in order, so what a check ends in is the fault of the first stage that has one.
-/

namespace ManifestLint

namespace Check

structure Request where
  config : Option String
  disable : List String
  format : Option String
  paths : List String
deriving DecidableEq, Repr

variable (around : Surroundings) (request : Request)

def globalLayer : Except LoadFault Layer :=
  match around.home with
  | none => .ok .empty
  | some home => Layer.ofFileIfPresent around.tree (Sources.globalIn home)

def projectLayer : Except LoadFault Layer := Layer.ofFileIfPresent around.tree ".buildlint.md"

def explicitLayer : Except LoadFault Layer :=
  match request.config with
  | none => .ok .empty
  | some path => Layer.ofFile around.tree path

/-- The settings that the three layers make together. -/
def Loads (settings : Config) : Prop :=
  ∃ lowest middle highest, globalLayer around = .ok lowest ∧ projectLayer around = .ok middle ∧
    explicitLayer around request = .ok highest ∧
    settings = (highest.above (middle.above lowest)).finish

/-- The settings, when they are valid and every name to disable is one of a rule. -/
structure Prepares (settings : Config) : Prop where
  loads : Loads around request settings
  valid : settings.lint.Acceptable
  known : ∀ name ∈ request.disable, settings.lint.Knows name

def engineOf (settings : Config) : Engine :=
  ⟨settings.lint.activeRules.filter fun rule => rule.name ∉ request.disable⟩

/-- The format asked for, or the one of the settings. -/
def Chooses (settings : Config) (format : OutputFormat) : Prop :=
  match request.format with
  | none => format = settings.format
  | some text => OutputFormat.ofText? text = some format

/-- The inputs that the arguments lead to, one after the other; without arguments the usual
manifest. -/
def Resolves (inputs : List Input) : Prop :=
  (request.paths = [] ∧ inputs = [.file "Dockerfile"]) ∨
    (request.paths ≠ [] ∧ ∃ parts, AllSucceed (Input.resolveOne around.tree) request.paths parts ∧
      inputs = parts.flatten)

/-- The manifest that an input holds. -/
def Holds (input : Input) (manifest : Manifest) : Prop :=
  ∃ bytes, input.read around = .ok bytes ∧ Manifest.ofBytes bytes = .ok manifest

/-- The first fault of a check, stage by stage. -/
inductive FirstFault : CheckFault → Prop where
  | globalConfig {fault : LoadFault} (failed : globalLayer around = .error fault) :
      FirstFault (.load fault)
  | projectConfig {lowest : Layer} {fault : LoadFault} (lower : globalLayer around = .ok lowest)
      (failed : projectLayer around = .error fault) : FirstFault (.load fault)
  | explicitConfig {lowest middle : Layer} {fault : LoadFault}
      (lower : globalLayer around = .ok lowest)
      (between : projectLayer around = .ok middle)
      (failed : explicitLayer around request = .error fault) : FirstFault (.load fault)
  | validation {settings : Config} {fault : RuleFault} (loads : Loads around request settings)
      (failed : Engine.ofSection settings.lint = .error fault) : FirstFault (.load (.lint fault))
  | disabling {settings : Config} {fault : RuleFault} (loads : Loads around request settings)
      (valid : settings.lint.Acceptable)
      (failed : FirstFailure settings.lint.recognise request.disable fault) :
      FirstFault (.load (.lint fault))
  | format {settings : Config} {text : String} (ready : Prepares around request settings)
      (given : request.format = some text) (failed : OutputFormat.ofText? text = none) :
      FirstFault (.format text)
  | argument {settings : Config} {format : OutputFormat} {fault : InputFault}
      (ready : Prepares around request settings) (chosen : Chooses request settings format)
      (failed : FirstFailure (Input.resolveOne around.tree) request.paths fault) :
      FirstFault (.input fault)
  | stdin {settings : Config} {format : OutputFormat} {inputs : List Input}
      (ready : Prepares around request settings) (chosen : Chooses request settings format)
      (resolves : Resolves around request inputs) (failed : 1 < inputs.count .stdin) :
      FirstFault (.input .repeatedStdin)
  | input {settings : Config} {format : OutputFormat} {inputs : List Input} {fault : CheckFault}
      (ready : Prepares around request settings) (chosen : Chooses request settings format)
      (resolves : Resolves around request inputs) (once : inputs.count .stdin ≤ 1)
      (failed : FirstFailure (Input.lint around (engineOf request settings)) inputs fault) :
      FirstFault fault

/-- A check in which no stage fails, and the report of its inputs: for each in order, its source and
the findings on the manifest it holds. -/
structure Completes (settings : Config) (format : OutputFormat) (inputs : List Input)
    (report : Report) : Prop where
  ready : Prepares around request settings
  chosen : Chooses request settings format
  resolves : Resolves around request inputs
  once : inputs.count .stdin ≤ 1
  reported : List.Forall₂ (fun input entry => ∃ manifest, Holds around input manifest ∧
    entry = ⟨input.source, (engineOf request settings).findings manifest⟩) inputs report.entries

theorem input_lint_eq_ok_iff (engine : Engine) (input : Input) (entry : ManifestReport) :
    input.lint around engine = .ok entry ↔
      ∃ manifest, Holds around input manifest ∧
        entry = ⟨input.source, engine.findings manifest⟩ := by
  simp only [Input.lint, bind_eq_ok_iff, map_error_eq_ok_iff, pure_eq_ok, Except.ok.injEq, Holds]
  constructor
  · rintro ⟨bytes, read, manifest, decoded, rfl⟩
    exact ⟨manifest, ⟨bytes, read, decoded⟩, rfl⟩
  · rintro ⟨manifest, ⟨bytes, read, decoded⟩, rfl⟩
    exact ⟨bytes, read, manifest, decoded, rfl⟩

/-- Files are read the same whatever standard input holds. -/
theorem report_of_files_eq (engine : Engine) (stdin : List UInt8) {inputs : List Input}
    (files : .stdin ∉ inputs) :
    Report.ofInputs { around with stdin } engine inputs = Report.ofInputs around engine inputs := by
  induction inputs with
  | nil => rfl
  | cons input inputs induction =>
      rw [List.mem_cons, not_or] at files
      cases input with
      | stdin => exact absurd rfl files.1
      | file path =>
          unfold Report.ofInputs
          exact congrArg (bind ((Input.file path).lint around engine)) (funext fun entry =>
            congrArg (bind · _) (induction files.2))

/-- Where standard input is read once at most, every input is linted apart from the others. -/
theorem report_of_inputs_eq (engine : Engine) {inputs : List Input}
    (once : inputs.count .stdin ≤ 1) :
    Report.ofInputs around engine inputs =
      (inputs.mapM (Input.lint around engine)).map Report.mk := by
  induction inputs with
  | nil => rfl
  | cons input inputs induction =>
      have drained : Report.ofInputs (input.drain around) engine inputs =
          Report.ofInputs around engine inputs := by
        cases input with
        | file path => rfl
        | stdin =>
            apply report_of_files_eq
            rw [List.count_cons_self] at once
            exact List.count_eq_zero.1 (Nat.le_zero.1 (Nat.le_of_succ_le_succ once))
      have later : inputs.count .stdin ≤ 1 :=
        Nat.le_trans ((List.sublist_cons_self input inputs).count_le .stdin) once
      rw [Report.ofInputs, List.mapM_cons, drained, induction later]
      cases input.lint around engine with
      | error fault => rfl
      | ok entry =>
          cases inputs.mapM (Input.lint around engine) with
          | error fault => rfl
          | ok entries => rfl

end Check

end ManifestLint
