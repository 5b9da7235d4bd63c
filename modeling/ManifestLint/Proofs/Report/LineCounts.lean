import Mathlib.Algebra.BigOperators.Group.List.Basic
import ManifestLint.Program
import ManifestLint.Proofs.Engine.Construction
import ManifestLint.Proofs.Report.Lines

/-!
How many lines the failures of a report are on. Sources that go over no line end leave one line for
each finding and one more for each line feed in a message. The check of rules lets line feeds into
messages, so only settings without them have as many lines as findings.
-/

namespace ManifestLint

def Engine.report (engine : Engine) (manifests : List (String × Manifest)) : Report :=
  ⟨manifests.map fun item => ⟨item.1, engine.findings item.2⟩⟩

namespace Report

def failureLineCount (report : Report) (colour : Bool) : Nat :=
  (Text.shownLines (report.failures colour)).length

def breakCount (report : Report) : Nat :=
  ((report.entries.flatMap (·.findings)).map fun finding => finding.message.toList.count '\n').sum

def Line.breakCount : Line → Nat
  | .failed _ message => message.toList.count '\n'
  | _ => 0

theorem length_lines_of_failed {source : String} (plain : '\n' ∉ source.toList) (message : String)
    (colour : Bool) :
    (Text.lines ((Line.failed source message).text colour)).length =
      (Line.failed source message).breakCount + 1 := by
  have mark : (Hue.red.paint colour "✗").toList.count '\n' = 0 := by
    cases colour <;> decide
  have within : source.toList.count '\n' = 0 := List.count_eq_zero.2 plain
  rw [Text.length_lines]
  simp [Line.text, Line.breakCount, String.toList_append, List.count_append, mark, within]

theorem sum_of_breaks (report : Report) :
    (report.failedLines.map Line.breakCount).sum = report.breakCount := by
  rw [failed_lines_eq, List.map_flatMap, breakCount, List.map_flatMap]
  apply congrArg List.sum
  apply List.flatMap_congr
  intro entry _
  rw [List.map_map]
  rfl

theorem failure_line_count_eq {report : Report}
    (plain : ∀ entry ∈ report.entries, '\n' ∉ entry.source.toList) (colour : Bool) :
    report.failureLineCount colour = report.issueCount + report.breakCount := by
  have each : ∀ line ∈ report.failedLines,
      (Text.lines (line.text colour)).length = line.breakCount + 1 := by
    intro line failed
    rw [failed_lines_eq] at failed
    obtain ⟨entry, present, told⟩ := List.mem_flatMap.1 failed
    obtain ⟨finding, _, rfl⟩ := List.mem_map.1 told
    exact length_lines_of_failed (plain entry present) finding.message colour
  calc
    report.failureLineCount colour =
        (report.failedLines.map fun line => (Text.lines (line.text colour)).length).sum := by
      rw [failureLineCount, shown_lines_of_failures, List.length_flatMap, List.map_map]
      rfl
    _ = (report.failedLines.map fun line => line.breakCount + 1).sum :=
      congrArg List.sum (List.map_congr_left each)
    _ = (report.failedLines.map Line.breakCount).sum + report.failedLines.length := by
      rw [List.sum_map_add, List.map_const', List.sum_replicate_nat, Nat.mul_one]
    _ = report.issueCount + report.breakCount := by
      rw [sum_of_breaks, length_failed_lines, Nat.add_comm]

theorem break_count_eq_zero_iff (report : Report) :
    report.breakCount = 0 ↔ ∀ entry ∈ report.entries, ∀ finding ∈ entry.findings,
      '\n' ∉ finding.message.toList := by
  rw [breakCount, List.sum_eq_zero_iff_forall_eq_nat]
  simp only [List.forall_mem_map, List.forall_mem_flatMap, List.count_eq_zero]

/-- A quiet check ends every line of the failures. -/
theorem breaks_in_quiet_output (environment : Environment) (report : Report) (colour : Bool) :
    (Program.reportText environment colour true .text report).toList.count '\n' =
      report.failureLineCount colour := by
  rw [failureLineCount, Text.shownLines, Program.reportText]
  by_cases nothing : report.failures colour = ""
  · rw [nothing]
    rfl
  · have some : (report.failures colour).isEmpty = false := by
      rw [← Bool.not_eq_true, String.isEmpty_iff]
      exact nothing
    rw [if_neg nothing, Text.length_lines]
    simp [some, String.toList_append, List.count_append]

end Report

/-- No message of a custom rule goes over the end of a line. -/
def LintSection.OneLine (lint : LintSection) : Prop :=
  ∀ rule ∈ lint.rules, '\n' ∉ rule.message.toList

namespace Engine

variable {lint : LintSection} {engine : Engine}

theorem one_line_of_section (built : ofSection lint = .ok engine) (oneLine : lint.OneLine) :
    ∀ rule ∈ engine.rules, '\n' ∉ rule.message.toList := by
  obtain ⟨_, rfl⟩ := (lint.of_section_eq_ok_iff engine).1 built
  have builtin : ∀ rule ∈ Rule.builtin, '\n' ∉ rule.message.toList := by decide
  intro rule member
  rcases List.mem_append.1 (List.mem_of_mem_filter member) with given | custom
  · exact builtin rule given
  · exact oneLine rule custom

theorem findings_one_line_iff (engine : Engine) (manifests : List (String × Manifest)) :
    (∀ entry ∈ (engine.report manifests).entries, ∀ finding ∈ entry.findings,
      '\n' ∉ finding.message.toList) ↔
      ∀ item ∈ manifests, ∀ rule ∈ engine.rules, rule.fires item.2 = true →
        '\n' ∉ rule.message.toList := by
  simp only [report, findings, List.forall_mem_map, List.mem_filter, and_imp]

/-- Findings and the lines of the failures are as many exactly when no rule that fires has a line
feed in its message, in particular when no custom rule has. Otherwise each of these line feeds makes
a line of its own. -/
theorem failure_lines_of_settings (built : ofSection lint = .ok engine)
    {manifests : List (String × Manifest)} (plain : ∀ item ∈ manifests, '\n' ∉ item.1.toList)
    (environment : Environment) (colour : Bool) :
    (engine.report manifests).failureLineCount colour =
        (engine.report manifests).issueCount + (engine.report manifests).breakCount ∧
      ((engine.report manifests).failureLineCount colour = (engine.report manifests).issueCount ↔
        ∀ item ∈ manifests, ∀ rule ∈ engine.rules, rule.fires item.2 = true →
          '\n' ∉ rule.message.toList) ∧
      (lint.OneLine → (engine.report manifests).failureLineCount colour =
        (engine.report manifests).issueCount) ∧
      (Program.reportText environment colour true .text (engine.report manifests)).toList.count
        '\n' =
        (engine.report manifests).failureLineCount colour := by
  have sources : ∀ entry ∈ (engine.report manifests).entries, '\n' ∉ entry.source.toList := by
    simpa only [report, List.forall_mem_map] using plain
  have count := Report.failure_line_count_eq sources colour
  have same :
      (engine.report manifests).failureLineCount colour = (engine.report manifests).issueCount ↔
      ∀ item ∈ manifests, ∀ rule ∈ engine.rules, rule.fires item.2 = true →
      '\n' ∉ rule.message.toList := by
    rw [count, Nat.add_eq_left, Report.break_count_eq_zero_iff, findings_one_line_iff]
  refine ⟨count, same, ?_, Report.breaks_in_quiet_output environment _ colour⟩
  intro oneLine
  exact same.2 fun _ _ rule member _ => one_line_of_section built oneLine rule member

def addSection : LintSection := ⟨[], [⟨"no-add", "ADD fetches files", .contains "ADD http"⟩]⟩

def brokenSection : LintSection := ⟨[], [⟨"no-add", "ADD fetches\nfiles", .contains "ADD http"⟩]⟩

def addManifest : String × Manifest :=
  ("Dockerfile", ⟨"FROM alpine AS builder\nADD https://example.com/x /x\n"⟩)

theorem one_line_for_one_finding :
    ofSection addSection = .ok ⟨addSection.activeRules⟩ ∧
      (∀ item ∈ [addManifest], '\n' ∉ item.1.toList) ∧
      addSection.OneLine ∧ (report ⟨addSection.activeRules⟩ [addManifest]).issueCount = 1 ∧
      (report ⟨addSection.activeRules⟩ [addManifest]).failureLineCount false = 1 := by
  have built : ofSection addSection = .ok ⟨addSection.activeRules⟩ := by decide
  have plain : ∀ item ∈ [addManifest], '\n' ∉ item.1.toList := by decide
  have oneLine : addSection.OneLine := by
    simp only [LintSection.OneLine, addSection, List.forall_mem_singleton]
    decide
  have issues : (report ⟨addSection.activeRules⟩ [addManifest]).issueCount = 1 := by decide +kernel
  have lines := (failure_lines_of_settings built plain ⟨⟨"", ""⟩, false, ""⟩ false).2.2.1 oneLine
  exact ⟨built, plain, oneLine, issues, lines.trans issues⟩

/-- Accepted settings, one finding and two lines. -/
theorem two_lines_for_one_finding :
    ofSection brokenSection = .ok ⟨brokenSection.activeRules⟩ ∧
      (∀ item ∈ [addManifest], '\n' ∉ item.1.toList) ∧
      (report ⟨brokenSection.activeRules⟩ [addManifest]).failures false =
        "✗ Dockerfile: ADD fetches\nfiles" ∧
      (report ⟨brokenSection.activeRules⟩ [addManifest]).issueCount = 1 ∧
      (report ⟨brokenSection.activeRules⟩ [addManifest]).failureLineCount false = 2 := by
  decide +kernel

end Engine

end ManifestLint
