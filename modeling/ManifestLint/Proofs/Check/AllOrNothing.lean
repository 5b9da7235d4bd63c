import ManifestLint.Proofs.Check.Stages
import ManifestLint.Proofs.Input.Resolution
import ManifestLint.Proofs.Report.Failures

/-!
A check is all or nothing. Whatever the arguments, the files and the standard input are, either some
stage fails, and then a run prints nothing but the first fault, or none does, and then it prints the
whole report.
-/

namespace ManifestLint

namespace Check

variable {around : Surroundings} {request : Request}

def answer (around : Surroundings) (request : Request) :
    Except CheckFault (OutputFormat × Report) := do
  let setup ← Setup.load around request.config request.disable
  setup.check around request.format request.paths

theorem load_layer_eq :
    Config.loadLayer around.tree (.ofHome around.home request.config) = (do
      let lowest ← globalLayer around
      let middle ← projectLayer around
      let highest ← explicitLayer around request
      return highest.above (middle.above lowest)) := by
  rw [Config.loadLayer, globalLayer, projectLayer, explicitLayer]
  cases around.home <;> cases request.config <;> rfl

theorem load_of_loads {settings : Config} (loads : Loads around request settings) :
    Config.load around.tree (.ofHome around.home request.config) =
      settings.checked.mapError .lint := by
  obtain ⟨lowest, middle, highest, lower, between, upper, rfl⟩ := loads
  rw [Config.load, load_layer_eq, lower, between, upper]
  rfl

theorem checked_of_acceptable {settings : Config} (valid : settings.lint.Acceptable) :
    settings.checked = .ok settings := by
  rw [Config.checked, Config.engine, settings.lint.of_section_accepted valid]
  rfl

theorem setup_load_of_valid {settings : Config} (loads : Loads around request settings)
    (valid : settings.lint.Acceptable) :
    Setup.load around request.config request.disable = (do
      let engine ← (Engine.ofSection (settings.lint.disabling request.disable)).mapError
        (.load ∘ .lint)
      return ⟨{ settings with lint := settings.lint.disabling request.disable }, engine⟩) := by
  rw [Setup.load, load_of_loads loads, checked_of_acceptable valid]
  rfl

/-- The settings of a check with the engine they describe, when all is well with them. -/
def setupOf (request : Request) (settings : Config) : Setup :=
  ⟨{ settings with lint := settings.lint.disabling request.disable }, engineOf request settings⟩

theorem setup_load_of_prepares {settings : Config} (ready : Prepares around request settings) :
    Setup.load around request.config request.disable = .ok (setupOf request settings) := by
  have noneUnknown : request.disable.find? (fun name => ¬ settings.lint.Knows name) = none := by
    rw [List.find?_eq_none]
    intro name member
    simpa using ready.known name member
  rw [setup_load_of_valid ready.loads ready.valid,
    settings.lint.of_section_disabling request.disable ready.valid, noneUnknown]
  rfl

theorem format_of_chooses {settings : Config} {format : OutputFormat}
    (chosen : Chooses request settings format) :
    (setupOf request settings).format request.format = .ok format := by
  rw [Chooses] at chosen
  cases given : request.format with
  | none =>
      rw [given] at chosen
      rw [Setup.format, chosen]
      rfl
  | some text =>
      rw [given] at chosen
      dsimp only at chosen
      rw [Setup.format, chosen]
      rfl

theorem resolve_of_resolves {inputs : List Input} (resolves : Resolves around request inputs) :
    Input.resolve around.tree request.paths =
      if 1 < inputs.count .stdin then .error .repeatedStdin else .ok inputs := by
  rcases resolves with ⟨empty, rfl⟩ | ⟨nonempty, parts, resolved, rfl⟩
  · rw [empty]
    rfl
  · have somePath : request.paths.isEmpty = false := by
      simpa using nonempty
    rw [Input.resolve, somePath, Input.resolve_all_eq, map_m_eq_ok_iff.2 resolved]
    rfl

theorem resolve_of_first_failure {fault : InputFault}
    (failed : FirstFailure (Input.resolveOne around.tree) request.paths fault) :
    Input.resolve around.tree request.paths = .error fault := by
  have somePath : request.paths.isEmpty = false := by
    cases paths : request.paths with
    | nil =>
        rw [paths] at failed
        exact absurd failed (no_first_failure_of_nothing _ _)
    | cons path paths => rfl
  rw [Input.resolve, somePath, Input.resolve_all_eq, map_m_eq_error_iff.2 failed]
  rfl

theorem answer_of_prepares {settings : Config} {format : OutputFormat}
    (ready : Prepares around request settings) (chosen : Chooses request settings format) :
    answer around request = (do
      let inputs ← (Input.resolve around.tree request.paths).mapError .input
      let report ← Report.ofInputs around (engineOf request settings) inputs
      return (format, report)) := by
  rw [answer, setup_load_of_prepares ready]
  change (setupOf request settings).check around request.format request.paths = _
  rw [Setup.check, format_of_chooses chosen]
  rfl

theorem answer_of_resolves {settings : Config} {format : OutputFormat} {inputs : List Input}
    (ready : Prepares around request settings) (chosen : Chooses request settings format)
    (resolves : Resolves around request inputs) (once : inputs.count .stdin ≤ 1) :
    answer around request =
      ((inputs.mapM (Input.lint around (engineOf request settings))).map Report.mk).map
        (format, ·) := by
  rw [answer_of_prepares ready chosen, resolve_of_resolves resolves, if_neg (by omega),
    ← report_of_inputs_eq around _ once]
  change (Report.ofInputs around (engineOf request settings) inputs >>= fun report =>
    pure (format, report)) = _
  cases Report.ofInputs around (engineOf request settings) inputs with
  | error fault => rfl
  | ok report => rfl

theorem answer_of_first_fault {fault : CheckFault} (first : FirstFault around request fault) :
    answer around request = .error fault := by
  cases first with
  | globalConfig failed =>
      rw [answer, Setup.load, Config.load, load_layer_eq, failed]
      rfl
  | projectConfig lower failed =>
      rw [answer, Setup.load, Config.load, load_layer_eq, lower, failed]
      rfl
  | explicitConfig lower between failed =>
      rw [answer, Setup.load, Config.load, load_layer_eq, lower, between, failed]
      rfl
  | validation loads failed =>
      rw [answer, Setup.load, load_of_loads loads, Config.checked, Config.engine, failed]
      rfl
  | @disabling settings fault loads valid failed =>
      obtain ⟨name, found, rfl⟩ :=
        (settings.lint.first_failure_recognise_iff request.disable fault).1 failed
      rw [answer, setup_load_of_valid loads valid,
        settings.lint.of_section_disabling request.disable valid, found]
      rfl
  | @format settings text ready given failed =>
      rw [answer, setup_load_of_prepares ready]
      change (setupOf request settings).check around request.format request.paths = _
      rw [Setup.check, given, Setup.format, failed]
      rfl
  | argument ready chosen failed =>
      rw [answer_of_prepares ready chosen, resolve_of_first_failure failed]
      rfl
  | stdin ready chosen resolves failed =>
      rw [answer_of_prepares ready chosen, resolve_of_resolves resolves, if_pos failed]
      rfl
  | input ready chosen resolves once failed =>
      rw [answer_of_resolves ready chosen resolves once, map_m_eq_error_iff.2 failed]
      rfl

theorem answer_of_completes {settings : Config} {format : OutputFormat} {inputs : List Input}
    {report : Report} (completes : Completes around request settings format inputs report) :
    answer around request = .ok (format, report) := by
  have entries : inputs.mapM (Input.lint around (engineOf request settings)) =
      .ok report.entries := by
    rw [map_m_eq_ok_iff, AllSucceed]
    simp only [input_lint_eq_ok_iff]
    exact completes.reported
  rw [answer_of_resolves completes.ready completes.chosen completes.resolves completes.once,
    entries]
  rfl

theorem fault_or_loads (around : Surroundings) (request : Request) :
    (∃ fault, FirstFault around request fault) ∨ ∃ settings, Loads around request settings := by
  cases lower : globalLayer around with
  | error fault => exact .inl ⟨_, .globalConfig lower⟩
  | ok lowest =>
      cases between : projectLayer around with
      | error fault => exact .inl ⟨_, .projectConfig lower between⟩
      | ok middle =>
          cases upper : explicitLayer around request with
          | error fault => exact .inl ⟨_, .explicitConfig lower between upper⟩
          | ok highest => exact .inr ⟨_, lowest, middle, highest, lower, between, upper, rfl⟩

theorem fault_or_prepares {settings : Config} (loads : Loads around request settings) :
    (∃ fault, FirstFault around request fault) ∨ Prepares around request settings := by
  cases built : Engine.ofSection settings.lint with
  | error fault => exact .inl ⟨_, .validation loads built⟩
  | ok engine =>
      have valid := settings.lint.acceptable_of_section built
      cases found : request.disable.find? (fun name => ¬ settings.lint.Knows name) with
      | some name =>
          have failed :=
            (settings.lint.first_failure_recognise_iff request.disable _).2 ⟨name, found, rfl⟩
          exact .inl ⟨_, .disabling loads valid failed⟩
      | none =>
          refine .inr ⟨loads, valid, ?_⟩
          intro name member
          simpa using List.find?_eq_none.1 found name member

theorem fault_or_chooses {settings : Config} (ready : Prepares around request settings) :
    (∃ fault, FirstFault around request fault) ∨ ∃ format, Chooses request settings format := by
  cases given : request.format with
  | none =>
      refine .inr ⟨settings.format, ?_⟩
      rw [Chooses, given]
  | some text =>
      cases read : OutputFormat.ofText? text with
      | none => exact .inl ⟨_, .format ready given read⟩
      | some format =>
          refine .inr ⟨format, ?_⟩
          rw [Chooses, given]
          exact read

theorem fault_or_resolves {settings : Config} {format : OutputFormat}
    (ready : Prepares around request settings) (chosen : Chooses request settings format) :
    (∃ fault, FirstFault around request fault) ∨ ∃ inputs, Resolves around request inputs := by
  by_cases empty : request.paths = []
  · exact .inr ⟨_, .inl ⟨empty, rfl⟩⟩
  · cases resolved : request.paths.mapM (Input.resolveOne around.tree) with
    | error fault => exact .inl ⟨_, .argument ready chosen (map_m_eq_error_iff.1 resolved)⟩
    | ok parts => exact .inr ⟨_, .inr ⟨empty, parts, map_m_eq_ok_iff.1 resolved, rfl⟩⟩

theorem fault_or_reports {settings : Config} {format : OutputFormat} {inputs : List Input}
    (ready : Prepares around request settings) (chosen : Chooses request settings format)
    (resolves : Resolves around request inputs) :
    (∃ fault, FirstFault around request fault) ∨
      ∃ report, Completes around request settings format inputs report := by
  by_cases repeated : 1 < inputs.count .stdin
  · exact .inl ⟨_, .stdin ready chosen resolves repeated⟩
  · have once : inputs.count .stdin ≤ 1 := Nat.le_of_not_lt repeated
    cases linted : inputs.mapM (Input.lint around (engineOf request settings)) with
    | error fault => exact .inl ⟨_, .input ready chosen resolves once (map_m_eq_error_iff.1 linted)⟩
    | ok entries =>
        have reported := map_m_eq_ok_iff.1 linted
        rw [AllSucceed] at reported
        simp only [input_lint_eq_ok_iff] at reported
        exact .inr ⟨⟨entries⟩, ready, chosen, resolves, once, reported⟩

/-- Some stage fails or none does: the stages are gone through in their order. -/
theorem first_fault_or_completes (around : Surroundings) (request : Request) :
    (∃ fault, FirstFault around request fault) ∨
      ∃ settings format inputs report, Completes around request settings format inputs report := by
  rcases fault_or_loads around request with failed | ⟨settings, loads⟩
  · exact .inl failed
  rcases fault_or_prepares loads with failed | ready
  · exact .inl failed
  rcases fault_or_chooses ready with failed | ⟨format, chosen⟩
  · exact .inl failed
  rcases fault_or_resolves ready chosen with failed | ⟨inputs, resolves⟩
  · exact .inl failed
  rcases fault_or_reports ready chosen resolves with failed | ⟨report, completes⟩
  · exact .inl failed
  · exact .inr ⟨settings, format, inputs, report, completes⟩

/-- What is printed of a whole report. A quiet text report without findings has no line at all. -/
def printed (time : String) (colour quiet : Bool) (format : OutputFormat) (report : Report) :
    String :=
  match format, quiet with
  | .json, _ => report.json time ++ "\n"
  | .text, false => report.text colour ++ "\n"
  | .text, true => if report.issueCount = 0 then "" else report.failures colour ++ "\n"

theorem report_text_eq_printed (environment : Environment) (colour quiet : Bool)
    (format : OutputFormat) (report : Report) :
    Program.reportText environment colour quiet format report =
      printed environment.time colour quiet format report := by
  cases format with
  | json => rfl
  | text =>
      cases quiet with
      | false => rfl
      | true =>
          have empty := report.failures_eq_empty_iff colour
          rw [← String.isEmpty_iff] at empty
          simp only [Program.reportText, printed, if_true, empty]

/-- Some rule fires on the manifest of some input. -/
def SomeRuleFires (around : Surroundings) (engine : Engine) (inputs : List Input) : Prop :=
  ∃ input ∈ inputs, ∃ manifest, Holds around input manifest ∧
    ∃ rule ∈ engine.rules, rule.fires manifest = true

theorem findings_ne_nil_iff (engine : Engine) (manifest : Manifest) :
    engine.findings manifest ≠ [] ↔ ∃ rule ∈ engine.rules, rule.fires manifest = true := by
  rw [Engine.findings, ne_eq, List.map_eq_nil_iff, List.filter_eq_nil_iff]
  simp

theorem has_issues_cons (entry : ManifestReport) (entries : List ManifestReport) :
    Report.hasIssues ⟨entry :: entries⟩ = true ↔
      entry.findings ≠ [] ∨ Report.hasIssues ⟨entries⟩ = true := by
  rw [Report.has_issues_iff, Report.has_issues_iff]
  exact List.exists_mem_cons_iff _ _ _

theorem holds_unique {input : Input} {first second : Manifest} (left : Holds around input first)
    (right : Holds around input second) : first = second := by
  obtain ⟨bytes, read, decoded⟩ := left
  obtain ⟨others, again, same⟩ := right
  rw [read] at again
  cases again
  rw [decoded] at same
  exact Except.ok.inj same

theorem some_rule_fires_cons {engine : Engine} {input : Input} {inputs : List Input}
    {manifest : Manifest} (holds : Holds around input manifest) :
    SomeRuleFires around engine (input :: inputs) ↔
      engine.findings manifest ≠ [] ∨ SomeRuleFires around engine inputs := by
  rw [SomeRuleFires, List.exists_mem_cons_iff, findings_ne_nil_iff]
  apply or_congr_left
  constructor
  · rintro ⟨other, held, fires⟩
    rw [holds_unique holds held]
    exact fires
  · intro fires
    exact ⟨manifest, holds, fires⟩

theorem has_issues_of_reported {engine : Engine} {inputs : List Input}
    {entries : List ManifestReport}
    (reported : List.Forall₂ (fun input entry => ∃ manifest, Holds around input manifest ∧
      entry = ⟨input.source, engine.findings manifest⟩) inputs entries) :
    Report.hasIssues ⟨entries⟩ = true ↔ SomeRuleFires around engine inputs := by
  induction reported with
  | nil =>
      rw [Report.has_issues_iff]
      simp [SomeRuleFires]
  | cons first _ induction =>
      obtain ⟨manifest, holds, rfl⟩ := first
      rw [has_issues_cons, some_rule_fires_cons holds, induction]

theorem first_fault_unique {fault other : CheckFault} (first : FirstFault around request fault)
    (second : FirstFault around request other) : other = fault := by
  have left := answer_of_first_fault first
  have right := answer_of_first_fault second
  rw [left] at right
  exact (Except.error.inj right).symm

theorem no_first_fault_of_completes {settings : Config} {format : OutputFormat}
    {inputs : List Input} {report : Report}
    (completes : Completes around request settings format inputs report) (fault : CheckFault) :
    ¬ FirstFault around request fault := by
  intro first
  have left := answer_of_first_fault first
  rw [answer_of_completes completes] at left
  cases left

section
variable {environment : Environment} {invocation : CommandLine.Invocation}
  {paths disable : List String}
  {format : Option String}

def requestOf (invocation : CommandLine.Invocation) (paths : List String) (format : Option String)
    (disable : List String) : Request :=
  ⟨invocation.config, disable, format, paths⟩

theorem run_loaded_of_check (command : invocation.command = .check paths format disable) :
    Program.runLoaded environment around invocation = (do
      let setup ← Setup.load around invocation.config disable
      let (format, report) ← setup.check around format paths
      return Program.reportOutcome environment (Program.usesColour environment invocation setup)
        invocation.quiet format report) := by
  rw [Program.runLoaded, command, Program.disabledBy]
  congr 1
  funext setup
  rw [Program.runWith, command]

theorem run_of_first_fault (command : invocation.command = .check paths format disable)
    {fault : CheckFault}
    (first : FirstFault around (requestOf invocation paths format disable) fault) :
    Program.run environment around invocation = ⟨2, "", some ("Error: " ++ fault.message)⟩ := by
  have answered := answer_of_first_fault first
  have loaded : Program.runLoaded environment around invocation = .error fault := by
    rw [run_loaded_of_check command, bind_eq_error_iff]
    rcases bind_eq_error_iff.1 answered with failed | ⟨setup, succeeded, failed⟩
    · exact .inl failed
    · exact .inr ⟨setup, succeeded, bind_eq_error_iff.2 (.inl failed)⟩
  rw [Program.run, command]
  dsimp only
  rw [loaded]

theorem run_of_completes (command : invocation.command = .check paths format disable)
    {settings : Config} {chosen : OutputFormat} {inputs : List Input} {report : Report}
    (completes : Completes around (requestOf invocation paths format disable) settings chosen inputs
      report) :
    Program.run environment around invocation =
      ⟨if report.hasIssues then 1 else 0,
        printed environment.time (environment.colour && !invocation.noColour && settings.colour)
          invocation.quiet chosen report, none⟩ := by
  have loads := setup_load_of_prepares completes.ready
  have answered := answer_of_completes completes
  rw [answer, loads] at answered
  have loaded : Program.runLoaded environment around invocation = .ok
      (Program.reportOutcome environment
        (environment.colour && !invocation.noColour && settings.colour) invocation.quiet chosen
        report) := by
    rw [run_loaded_of_check command, bind_eq_ok_iff]
    exact ⟨_, loads, bind_eq_ok_iff.2 ⟨_, answered, rfl⟩⟩
  rw [Program.run, command]
  dsimp only
  rw [loaded, Program.reportOutcome, report_text_eq_printed]

/-- The outcome of a check with a fault. Only the first fault is printed. -/
structure FailsWith (around : Surroundings) (request : Request) (outcome : Outcome)
    (fault : CheckFault) : Prop where
  first : FirstFault around request fault
  unique : ∀ other, FirstFault around request other → other = fault
  outcome : outcome = ⟨2, "", some ("Error: " ++ fault.message)⟩

/-- The outcome of a check without a fault. The whole report is printed, and the status tells
whether some rule fires. -/
structure ReportsOn (environment : Environment) (around : Surroundings)
    (invocation : CommandLine.Invocation) (request : Request) (outcome : Outcome)
    (settings : Config) (format : OutputFormat) (inputs : List Input) (report : Report) : Prop where
  completes : Completes around request settings format inputs report
  faultless : ∀ fault, ¬ FirstFault around request fault
  fault : outcome.fault = none
  output : outcome.output = printed environment.time
    (environment.colour && !invocation.noColour && settings.colour) invocation.quiet format report
  status : outcome.status = 0 ∨ outcome.status = 1
  issues : outcome.status = 1 ↔ SomeRuleFires around (engineOf request settings) inputs

theorem fails_with_first_fault (command : invocation.command = .check paths format disable)
    {fault : CheckFault}
    (first : FirstFault around (requestOf invocation paths format disable) fault) :
    FailsWith around (requestOf invocation paths format disable)
      (Program.run environment around invocation) fault := by
  refine ⟨first, ?_, run_of_first_fault command first⟩
  intro other second
  exact first_fault_unique first second

theorem reports_on_completed (command : invocation.command = .check paths format disable)
    {settings : Config} {chosen : OutputFormat} {inputs : List Input} {report : Report}
    (completes : Completes around (requestOf invocation paths format disable) settings chosen inputs
      report) :
    ReportsOn environment around invocation (requestOf invocation paths format disable)
      (Program.run environment around invocation) settings chosen inputs report := by
  have issues := has_issues_of_reported completes.reported
  have ran : Program.run environment around invocation = _ := run_of_completes command completes
  refine ⟨completes, no_first_fault_of_completes completes, ?_, ?_, ?_, ?_⟩
  · rw [ran]
  · rw [ran]
  · rw [ran]
    cases report.hasIssues with
    | false => exact .inl rfl
    | true => exact .inr rfl
  · rw [ran, ← issues]
    cases report.hasIssues with
    | false => exact iff_of_false Nat.zero_ne_one Bool.false_ne_true
    | true => exact iff_of_true rfl rfl

end

/-- Every check either prints nothing but the fault of the first stage that has one, or no stage has
one and it prints the report of all inputs. -/
theorem all_or_nothing (environment : Environment) (around : Surroundings) (arguments : List String)
    (invocation : CommandLine.Invocation) (paths disable : List String) (format : Option String)
    (parsed : CommandLine.parse arguments = .ok invocation)
    (command : invocation.command = .check paths format disable) :
    ∃ outcome,
      (CommandLine.parse arguments).map (Program.run environment around) = .ok outcome ∧
      ((∃ fault, FailsWith around (requestOf invocation paths format disable) outcome fault) ∨
        ∃ settings chosen inputs report,
          ReportsOn environment around invocation
            (requestOf invocation paths format disable) outcome
            settings chosen inputs report) := by
  refine ⟨Program.run environment around invocation, ?_, ?_⟩
  · rw [parsed]
    rfl
  · rcases first_fault_or_completes around (requestOf invocation paths format disable) with
      ⟨fault, first⟩ | ⟨settings, chosen, inputs, report, completes⟩
    · exact .inl ⟨fault, fails_with_first_fault command first⟩
    · exact .inr ⟨settings, chosen, inputs, report, reports_on_completed command completes⟩

/-- A home outside the working directory, with a directory in the place of the settings. -/
def badHome : Surroundings :=
  ⟨⟨.directory
      [("home",
        .directory [(".config", .directory [("buildlint", .directory [("config.md", .empty)])])]),
        ("work", .empty)], ["work"], rfl⟩, some "/home", []⟩

/-- The settings come before the manifest, which is missing too. -/
example : Program.run ⟨⟨"", ""⟩, false, ""⟩ badHome ⟨.check [] none [], false, false, false, none⟩ =
    ⟨2, "", some ("Error: Failed to read config from /home/.config/buildlint/config.md: " ++
      "Is a directory (os error 21)")⟩ := by
  decide +kernel

def nowhere : Surroundings := ⟨.empty, none, []⟩

theorem first_fault_nowhere :
    FirstFault nowhere ⟨none, ["nope"], some "yaml", []⟩ (.load (.lint (.unknown "nope"))) := by
  have loads : Loads nowhere ⟨none, ["nope"], some "yaml", []⟩ ⟨.empty, .text, true⟩ :=
    ⟨.empty, .empty, .empty, rfl, rfl, rfl, rfl⟩
  have built : Engine.ofSection .empty = .ok .builtin := by decide +kernel
  have valid := LintSection.acceptable_of_section .empty built
  refine .disabling loads valid ?_
  rw [LintSection.first_failure_recognise_iff]
  exact ⟨"nope", by decide, rfl⟩

/-- Of an unknown name to disable and an unknown format only the name is told of. -/
theorem unknown_name_before_unknown_format :
    CommandLine.parse ["check", "--format", "yaml", "--disable", "nope"] =
      .ok ⟨.check [] (some "yaml") ["nope"], false, false, false, none⟩ ∧
    (CommandLine.parse ["check", "--format", "yaml", "--disable", "nope"]).map
      (Program.run ⟨⟨"", ""⟩, false, ""⟩ nowhere) =
      .ok
        ⟨2, "", some "Error: Invalid lint configuration: cannot disable unknown rule 'nope'"⟩ := by
  have parsed : CommandLine.parse ["check", "--format", "yaml", "--disable", "nope"] =
      .ok ⟨.check [] (some "yaml") ["nope"], false, false, false, none⟩ := by decide +kernel
  refine ⟨parsed, ?_⟩
  obtain ⟨outcome, ran, ending⟩ :=
    all_or_nothing ⟨⟨"", ""⟩, false, ""⟩ nowhere _ _ _ _ _ parsed rfl
  rw [ran]
  rcases ending with ⟨fault, fails⟩ | ⟨settings, format, inputs, report, reports⟩
  · have same := fails.unique _ first_fault_nowhere
    rw [fails.outcome, ← same]
    decide +kernel
  · exact absurd first_fault_nowhere (reports.faultless _)

end Check

end ManifestLint
