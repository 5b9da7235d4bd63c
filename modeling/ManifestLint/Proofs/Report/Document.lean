import Mathlib.Data.List.Basic
import ManifestLint.Report
import ManifestLint.Proofs.Json.Layout

/-!
The document of a report. Reading it gives the report and its time back, whatever characters they
hold, and control characters stand in it as the line feeds of the layout only.
-/

namespace ManifestLint.Report

open Json (Value LaidOut)

def findingValue (finding : Finding) : Value :=
  .object [("rule", .string finding.rule), ("message", .string finding.message)]

def entryValue (entry : ManifestReport) : Value :=
  .object [("source", .string entry.source), ("passed", .boolean (decide (entry.findings = []))),
    ("issues", .array (entry.findings.map findingValue))]

def documentValue (report : Report) (time : String) : Value :=
  .object [("checked_at", .string time), ("manifests", .array (report.entries.map entryValue)),
    ("total_issues", .number (report.entries.flatMap (·.findings)).length 0)]

theorem value_of_finding (finding : Finding) :
    (findingJson finding).value = findingValue finding := by
  simp only [findingJson, Json.value, Json.valuesOfEntries, findingValue]

theorem value_of_entry (entry : ManifestReport) : (entryJson entry).value = entryValue entry := by
  have passed : entry.passed = decide (entry.findings = []) := by
    rw [ManifestReport.passed, Bool.eq_iff_iff, List.isEmpty_iff, decide_eq_true_iff]
  simp [entryJson, Json.value, Json.valuesOfEntries, entryValue, List.map_map, Function.comp_def,
    value_of_finding, passed]

theorem value_of_report (report : Report) (time : String) :
    (report.toJson time).value = report.documentValue time := by
  simp [toJson, Json.value, Json.valuesOfEntries, documentValue, List.map_map, Function.comp_def,
    value_of_entry, issueCount]

theorem finding_value_injective : Function.Injective findingValue := by
  intro left right same
  simp only [findingValue, Value.object.injEq, List.cons.injEq, Prod.mk.injEq, Value.string.injEq,
    true_and, and_true] at same
  cases left
  cases right
  rw [Finding.mk.injEq]
  exact same

theorem entry_value_injective : Function.Injective entryValue := by
  intro left right same
  simp only [entryValue, Value.object.injEq, List.cons.injEq, Prod.mk.injEq, Value.string.injEq,
    Value.array.injEq, true_and, and_true] at same
  cases left
  cases right
  rw [ManifestReport.mk.injEq]
  exact ⟨same.1, List.map_injective_iff.2 finding_value_injective same.2.2⟩

theorem document_value_injective {left right : Report} {time otherTime : String}
    (same : left.documentValue time = right.documentValue otherTime) :
    left = right ∧ time = otherTime := by
  simp only [documentValue, Value.object.injEq, List.cons.injEq, Prod.mk.injEq, Value.string.injEq,
    Value.array.injEq, true_and] at same
  cases left
  cases right
  rw [Report.mk.injEq]
  exact ⟨List.map_injective_iff.2 entry_value_injective same.2.1, same.1⟩

theorem read_document (report : Report) (time : String) :
    Json.read (report.json time) = some (report.documentValue time) := by
  rw [json, Json.read_pretty, value_of_report]

/-- Nothing of a report is lost in its document, so no two reports share one. -/
theorem document_keeps_report (report : Report) (time : String) :
    Json.read (report.json time) = some (report.documentValue time) ∧
      (∀ (other : Report) (otherTime : String), other.json otherTime = report.json time →
        other = report ∧ otherTime = time) ∧
      (∀ text : String, ∀ char ∈ Json.quote text, 0x20 ≤ char.toNat) ∧
      (∀ char ∈ (report.json time).toList, char.toNat < 0x20 → char = '\n') ∧
      LaidOut 0 (report.json time).toList := by
  have unique : ∀ (other : Report) (otherTime : String), other.json otherTime = report.json time →
      other = report ∧ otherTime = time := by
    intro other otherTime same
    have twice := read_document other otherTime
    rw [same, read_document report time] at twice
    exact document_value_injective (Option.some.inj twice).symm
  exact ⟨read_document report time, unique, Json.quote_shows, Json.pretty_controls _,
    Json.laid_out_pretty _⟩

end ManifestLint.Report
