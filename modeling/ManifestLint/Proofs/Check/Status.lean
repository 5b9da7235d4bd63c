import Mathlib.Data.List.TFAE
import ManifestLint.Proofs.Check.AllOrNothing
import ManifestLint.Proofs.Report.Summary

/-!
The status of a check says the same as what is printed, whatever the format. A check with a fault
has a status of its own; it prints nothing, and so does a quiet check that finds nothing.
-/

namespace ManifestLint

namespace Report

theorem status_of_outcome_iff (report : Report) (environment : Environment) (colour quiet : Bool)
    (format : OutputFormat) :
    (Program.reportOutcome environment colour quiet format report).status = 1 ↔
      0 < report.issueCount := by
  rw [← has_issues_iff_count, Program.reportOutcome]
  cases report.hasIssues <;> simp

theorem renderings_agree (report : Report) (environment : Environment) (colour quiet : Bool)
    (format : OutputFormat) :
    List.TFAE [
      report.hasIssues = true,
      0 < report.issueCount,
      report.failures colour ≠ "",
      TellsOfFindings (Text.lastLine (report.text colour)),
      ¬ TellsOfSuccess (Text.lastLine (report.text colour)),
      MarksFailure (report.json environment.time),
      (Program.reportOutcome environment colour quiet format report).status = 1] := by
  have shown : report.failures colour ≠ "" ↔ 0 < report.issueCount := by
    rw [ne_eq, failures_eq_empty_iff, Nat.pos_iff_ne_zero]
  have unsuccessful : ¬ TellsOfSuccess (Text.lastLine (report.text colour)) ↔
      0 < report.issueCount := by
    rw [text_tells_of_success_iff, Nat.pos_iff_ne_zero]
  apply List.tfae_of_forall (0 < report.issueCount)
  rw [List.forall_mem_cons, List.forall_mem_cons, List.forall_mem_cons, List.forall_mem_cons,
    List.forall_mem_cons, List.forall_mem_cons, List.forall_mem_singleton]
  exact ⟨report.has_issues_iff_count, Iff.rfl, shown, report.text_tells_of_findings_iff colour,
    unsuccessful, report.marks_failure_iff environment.time,
    report.status_of_outcome_iff environment colour quiet format⟩

end Report

namespace Check

variable {around : Surroundings} {request : Request}

/-- A format that can be asked for; where none is, the settings tell it. -/
def KnownFormat (format : Option String) : Prop :=
  ∀ text, format = some text → ∃ known, OutputFormat.ofText? text = some known

theorem chooses_of_known (request : Request) (known : KnownFormat request.format)
    (settings : Config) :
    ∃ chosen, Chooses request settings chosen := by
  cases given : request.format with
  | none => exact ⟨settings.format, by rw [Chooses, given]⟩
  | some text =>
      obtain ⟨chosen, read⟩ := known text given
      refine ⟨chosen, ?_⟩
      rw [Chooses, given]
      exact read

theorem chosen_format_unique {settings : Config} {first second : OutputFormat}
    (left : Chooses request settings first) (right : Chooses request settings second) :
    first = second := by
  rw [Chooses] at left right
  cases given : request.format with
  | none =>
      rw [given] at left right
      exact left.trans right.symm
  | some text =>
      rw [given] at left right
      exact Option.some.inj (left.symm.trans right)

/-- Only the format of a completed check depends on the one that was asked for. -/
theorem completes_in_format {settings : Config} {chosen : OutputFormat} {inputs : List Input}
    {report : Report} (completes : Completes around request settings chosen inputs report)
    {format : Option String} (known : KnownFormat format) :
    ∃ other, Completes around { request with format } settings other inputs report := by
  obtain ⟨other, chooses⟩ := chooses_of_known { request with format } known settings
  have ready : Prepares around { request with format } settings :=
    ⟨completes.ready.loads, completes.ready.valid, completes.ready.known⟩
  exact ⟨other, ready, chooses, completes.resolves, completes.once, completes.reported⟩

section
variable {environment other : Environment} {invocation first second : CommandLine.Invocation}
  {paths disable : List String} {format otherFormat : Option String}

theorem status_of_completes (command : invocation.command = .check paths format disable)
    {settings : Config} {chosen : OutputFormat} {inputs : List Input} {report : Report}
    (completes : Completes around (requestOf invocation paths format disable) settings chosen inputs
      report) :
    (Program.run environment around invocation).status = if report.hasIssues then 1 else 0 := by
  rw [run_of_completes command completes]

theorem same_status (left : first.command = .check paths format disable)
    (right : second.command = .check paths otherFormat disable)
    (config : first.config = second.config) (known : KnownFormat format)
    (otherKnown : KnownFormat otherFormat) :
    (Program.run environment around first).status = (Program.run other around second).status := by
  have leftRequest : requestOf first paths format disable =
      { requestOf second paths otherFormat disable with format } := by
    rw [requestOf, requestOf, config]
  have rightRequest : requestOf second paths otherFormat disable =
      { requestOf first paths format disable with format := otherFormat } := by
    rw [requestOf, requestOf, config]
  rcases first_fault_or_completes around (requestOf first paths format disable) with
    ⟨fault, failed⟩ | ⟨settings, chosen, inputs, report, completes⟩
  · rcases first_fault_or_completes around (requestOf second paths otherFormat disable) with
      ⟨otherFault, otherFailed⟩ | ⟨settings, chosen, inputs, report, completes⟩
    · rw [run_of_first_fault left failed, run_of_first_fault right otherFailed]
    · obtain ⟨_, again⟩ := completes_in_format completes known
      rw [← leftRequest] at again
      exact absurd failed (no_first_fault_of_completes again fault)
  · obtain ⟨_, again⟩ := completes_in_format completes otherKnown
    rw [← rightRequest] at again
    rw [status_of_completes left completes, status_of_completes right again]

end

/-- A check whose settings, once they are loaded, leave it the text format. -/
def InTextMode (around : Surroundings) (request : Request) : Prop :=
  ∀ settings, Prepares around request settings → Chooses request settings .text

theorem quiet_output_empty_iff {environment : Environment} {invocation : CommandLine.Invocation}
    {paths disable : List String} {format : Option String}
    (command : invocation.command = .check paths format disable) (quiet : invocation.quiet = true)
    (text : InTextMode around (requestOf invocation paths format disable)) :
    ((Program.run environment around invocation).output = "" ↔
      (Program.run environment around invocation).status ≠ 1) ∧
    ((Program.run environment around invocation).fault = none →
      ((Program.run environment around invocation).output = "" ↔
        (Program.run environment around invocation).status = 0)) := by
  rcases first_fault_or_completes around (requestOf invocation paths format disable) with
    ⟨fault, failed⟩ | ⟨settings, chosen, inputs, report, completes⟩
  · rw [run_of_first_fault command failed]
    simp
  · have plain : chosen = .text :=
      chosen_format_unique completes.chosen (text settings completes.ready)
    have issues := report.has_issues_iff_count
    rw [run_of_completes command completes, quiet, plain]
    by_cases none : report.issueCount = 0
    · have clean : report.hasIssues = false := by
        rw [Bool.eq_false_iff, ne_eq, issues, none]
        exact Nat.lt_irrefl 0
      simp [printed, none, clean]
    · have found : report.hasIssues = true := issues.2 (Nat.pos_of_ne_zero none)
      simp [printed, none, found]

/-- A check that fails has a status of its own and prints nothing. -/
theorem status_of_fault_iff {environment : Environment} {invocation : CommandLine.Invocation}
    {paths disable : List String} {format : Option String}
    (command : invocation.command = .check paths format disable) :
    ((Program.run environment around invocation).fault ≠ none →
      (Program.run environment around invocation).status = 2 ∧
        (Program.run environment around invocation).output = "") ∧
    ((Program.run environment around invocation).fault = none →
      (Program.run environment around invocation).status = 0 ∨
        (Program.run environment around invocation).status = 1) := by
  rcases first_fault_or_completes around (requestOf invocation paths format disable) with
    ⟨fault, failed⟩ | ⟨settings, chosen, inputs, report, completes⟩
  · rw [run_of_first_fault command failed]
    exact ⟨fun _ => ⟨rfl, rfl⟩, nofun⟩
  · have reports :
        ReportsOn environment around invocation (requestOf invocation paths format disable)
        (Program.run environment around invocation) settings chosen inputs report :=
      reports_on_completed command completes
    exact ⟨fun fails => absurd reports.fault fails, fun _ => reports.status⟩

/-- All renderings of a report and the status of a check agree about findings. The format and
quietness of a check do not change its status, and a quiet check in text mode prints nothing unless
something was found. A check that fails ends with a status of its own and prints nothing. -/
theorem renderings_agree_with_status :
    (∀ (report : Report) (environment : Environment) (colour quiet : Bool) (format : OutputFormat),
      List.TFAE [
        report.hasIssues = true,
        0 < report.issueCount,
        report.failures colour ≠ "",
        Report.TellsOfFindings (Text.lastLine (report.text colour)),
        ¬ Report.TellsOfSuccess (Text.lastLine (report.text colour)),
        Report.MarksFailure (report.json environment.time),
        (Program.reportOutcome environment colour quiet format report).status = 1]) ∧
    (∀ (environment other : Environment) (around : Surroundings)
      (first second : CommandLine.Invocation) (paths disable : List String)
      (format otherFormat : Option String),
      first.command = .check paths format disable →
        second.command = .check paths otherFormat disable →
      first.config = second.config → KnownFormat format → KnownFormat otherFormat →
        (Program.run environment around first).status = (Program.run other around second).status) ∧
    (∀ (environment : Environment) (around : Surroundings) (invocation : CommandLine.Invocation)
      (paths disable : List String) (format : Option String),
      invocation.command = .check paths format disable → invocation.quiet = true →
      InTextMode around (requestOf invocation paths format disable) →
        ((Program.run environment around invocation).output = "" ↔
          (Program.run environment around invocation).status ≠ 1) ∧
        ((Program.run environment around invocation).fault = none →
          ((Program.run environment around invocation).output = "" ↔
            (Program.run environment around invocation).status = 0))) ∧
    (∀ (environment : Environment) (around : Surroundings) (invocation : CommandLine.Invocation)
      (paths disable : List String) (format : Option String),
      invocation.command = .check paths format disable →
        ((Program.run environment around invocation).fault ≠ none →
          (Program.run environment around invocation).status = 2 ∧
            (Program.run environment around invocation).output = "") ∧
        ((Program.run environment around invocation).fault = none →
          (Program.run environment around invocation).status = 0 ∨
            (Program.run environment around invocation).status = 1)) := by
  refine ⟨Report.renderings_agree, ?_, ?_, ?_⟩
  · intro environment other around first second paths disable format otherFormat left right config
      known otherKnown
    exact same_status left right config known otherKnown
  · intro environment around invocation paths disable format command quiet text
    exact quiet_output_empty_iff command quiet text
  · intro environment around invocation paths disable format command
    exact status_of_fault_iff command

def oneManifest : Surroundings :=
  ⟨FileTree.empty.addFile "Dockerfile" (Text.encode "FROM scratch".toList), none, []⟩

theorem in_text_mode_of_given (around : Surroundings) {request : Request} {text : String}
    (given : request.format = some text) (read : OutputFormat.ofText? text = some .text) :
    InTextMode around request := by
  intro settings _
  rw [Chooses, given]
  exact read

theorem findings_in_json_and_quietly :
    (Program.run ⟨⟨"", ""⟩, false, ""⟩ oneManifest
      ⟨.check [] (some "json") [], false, false, false, none⟩).status =
      1 ∧
    (Program.run ⟨⟨"", ""⟩, false, ""⟩ oneManifest
      ⟨.check [] (some "Text") [], true, false, false, none⟩).output ≠
      "" := by
  have found : (Program.run ⟨⟨"", ""⟩, false, ""⟩ oneManifest
      ⟨.check [] (some "json") [], false, false, false, none⟩).status = 1 := by decide +kernel
  have agree := renderings_agree_with_status
  have same := agree.2.1 ⟨⟨"", ""⟩, false, ""⟩ ⟨⟨"", ""⟩, false, ""⟩ oneManifest
    ⟨.check [] (some "json") [], false, false, false, none⟩
      ⟨.check [] (some "Text") [], true, false, false, none⟩
    [] [] (some "json") (some "Text") rfl rfl rfl (by rintro _ ⟨⟩; exact ⟨.json, by decide +kernel⟩)
    (by rintro _ ⟨⟩; exact ⟨.text, by decide +kernel⟩)
  have quietly := agree.2.2.1 ⟨⟨"", ""⟩, false, ""⟩ oneManifest
      ⟨.check [] (some "Text") [], true, false, false, none⟩
    [] [] (some "Text") rfl rfl (in_text_mode_of_given oneManifest rfl (by decide +kernel))
  refine ⟨found, ?_⟩
  intro empty
  exact quietly.1.1 empty (same.symm.trans found)

/-- A quiet check prints nothing on standard output either when it ends with a fault. -/
theorem quiet_fault_prints_nothing :
    ¬ ∀ (environment : Environment) (around : Surroundings) (invocation : CommandLine.Invocation)
      (paths disable : List String) (format : Option String),
      invocation.command = .check paths format disable → invocation.quiet = true →
      InTextMode around (requestOf invocation paths format disable) →
        ((Program.run environment around invocation).output = "" ↔
          (Program.run environment around invocation).status = 0) := by
  intro always
  have silent := always ⟨⟨"", ""⟩, false, ""⟩ nowhere
      ⟨.check ["missing"] (some "text") [], true, false, false, none⟩
    ["missing"] [] (some "text") rfl rfl (in_text_mode_of_given nowhere rfl (by decide +kernel))
  revert silent
  decide +kernel

end Check

end ManifestLint
