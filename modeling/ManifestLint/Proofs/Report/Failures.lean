import Mathlib.Algebra.GroupWithZero.Nat
import ManifestLint.Proofs.Text.Lines
import ManifestLint.Report

/-!
Failure lines. There is one for each finding and none is empty, so the failures of a report are the
empty text exactly when the report has no findings.
-/

namespace ManifestLint

theorem join_lines_nonempty {line : String} (shown : line ≠ "") (lines : List String) :
    Text.joinLines (line :: lines) ≠ "" := by
  cases lines with
  | nil =>
      rw [Text.join_lines_single]
      exact shown
  | cons other lines =>
      intro empty
      rw [Text.join_lines_cons, String.append_eq_empty_iff, String.append_eq_empty_iff] at empty
      exact shown empty.1.1

theorem failure_line_nonempty {colour : Bool} {entry : ManifestReport} {line : String}
    (member : line ∈ Report.failureLines colour entry) : line ≠ "" := by
  rw [Report.failureLines, List.mem_map] at member
  obtain ⟨finding, _, rfl⟩ := member
  intro empty
  have blank := congrArg String.toList empty
  simp [String.toList_append] at blank

namespace Report

theorem issue_count_eq_sum (report : Report) :
    report.issueCount = (report.entries.map (·.findings.length)).sum := by
  rw [issueCount, List.length_flatMap]

theorem issue_count_eq_zero_iff (report : Report) :
    report.issueCount = 0 ↔ ∀ entry ∈ report.entries, entry.findings = [] := by
  rw [issueCount, List.length_eq_zero_iff, List.flatMap_eq_nil_iff]

theorem has_issues_iff (report : Report) :
    report.hasIssues = true ↔ ∃ entry ∈ report.entries, entry.findings ≠ [] := by
  simp only [hasIssues, ManifestReport.passed, List.any_eq_true, Bool.not_eq_true', ne_eq,
    ← List.isEmpty_iff, Bool.not_eq_true]

theorem failures_eq_empty_iff (report : Report) (colour : Bool) :
    report.failures colour = "" ↔ report.issueCount = 0 := by
  have lines : report.entries.flatMap (failureLines colour) = [] ↔ report.issueCount = 0 := by
    rw [issue_count_eq_zero_iff, List.flatMap_eq_nil_iff]
    simp only [failureLines, List.map_eq_nil_iff]
  rw [← lines, failures]
  constructor
  · intro empty
    cases found : report.entries.flatMap (failureLines colour) with
    | nil => rfl
    | cons line others =>
        have member : line ∈ report.entries.flatMap (failureLines colour) := by
          rw [found]
          exact List.mem_cons_self
        obtain ⟨entry, _, shown⟩ := List.mem_flatMap.1 member
        rw [found] at empty
        exact absurd empty (join_lines_nonempty (failure_line_nonempty shown) others)
  · intro nothing
    rw [nothing]
    rfl

end Report

end ManifestLint
