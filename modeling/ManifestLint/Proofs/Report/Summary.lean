import ManifestLint.Proofs.Report.Document
import ManifestLint.Proofs.Report.Failures
import ManifestLint.Proofs.Text.Lines

/-!
What each rendering says about findings. The last line of the text tells of findings or of success,
and the document marks every manifest as passed or not; both say the same as the count of findings.
-/

namespace ManifestLint

namespace Text

/-- What stands behind the last line feed of a text. -/
def lastLine (text : String) : String :=
  String.ofList (text.toList.reverse.takeWhile (· != '\n')).reverse

theorem last_line_of_broken (before : String) {line : String} (single : '\n' ∉ line.toList) :
    lastLine (before ++ "\n" ++ line) = line := by
  have parts : (before ++ "\n" ++ line).toList = before.toList ++ '\n' :: line.toList := by
    simp [String.toList_append]
  have others : ∀ char ∈ line.toList.reverse, (char != '\n') = true := by
    intro char member
    have other : char ≠ '\n' := by
      intro same
      exact single (same ▸ List.mem_reverse.1 member)
    simpa using other
  rw [lastLine, parts, List.reverse_append, List.reverse_cons, List.append_assoc,
    List.takeWhile_append_of_pos others]
  simp

end Text

namespace Report

/-- A summary that tells of findings. -/
def TellsOfFindings (line : String) : Prop :=
  ∃ issues manifests, line = "Found " ++ issues ++ " in " ++ manifests ++ "."

def TellsOfSuccess (line : String) : Prop := ∃ manifests, line = "All " ++ manifests ++ " passed."

theorem not_tells_of_both {line : String} (found : TellsOfFindings line) :
    ¬ TellsOfSuccess line := by
  obtain ⟨issues, manifests, rfl⟩ := found
  rintro ⟨others, same⟩
  have chars := congrArg String.toList same
  simp [String.toList_append] at chars

theorem summary_of_findings {report : Report} (some : 0 < report.issueCount) :
    TellsOfFindings report.summary := by
  refine ⟨counted report.issueCount "issue", counted report.entries.length "manifest", ?_⟩
  rw [summary]
  exact if_neg (Nat.pos_iff_ne_zero.1 some)

theorem summary_of_success {report : Report} (none : report.issueCount = 0) :
    TellsOfSuccess report.summary := by
  refine ⟨counted report.entries.length "manifest", ?_⟩
  rw [summary]
  exact if_pos none

theorem counted_shows {noun : String} (shows : ∀ char ∈ noun.toList, 0x20 ≤ char.toNat)
    (count : Nat) :
    ∀ char ∈ (counted count noun).toList, 0x20 ≤ char.toNat := by
  rw [counted, Text.decimal]
  simp only [String.toList_append, String.toList_ofList, List.forall_mem_append]
  refine ⟨⟨⟨Json.digits_show count, Json.shows_of_all rfl⟩, shows⟩, ?_⟩
  split
  · exact Json.shows_of_all rfl
  · exact Json.shows_of_all rfl

theorem summary_shows (report : Report) : ∀ char ∈ report.summary.toList, 0x20 ≤ char.toNat := by
  have issues : ∀ char ∈ (counted report.issueCount "issue").toList, 0x20 ≤ char.toNat :=
    counted_shows (Json.shows_of_all rfl) report.issueCount
  have manifests : ∀ char ∈ (counted report.entries.length "manifest").toList, 0x20 ≤ char.toNat :=
    counted_shows (Json.shows_of_all rfl) report.entries.length
  rw [summary]
  split
  · simp only [String.toList_append, List.forall_mem_append]
    exact ⟨⟨Json.shows_of_all rfl, manifests⟩, Json.shows_of_all rfl⟩
  · simp only [String.toList_append, List.forall_mem_append]
    exact ⟨⟨⟨⟨Json.shows_of_all rfl, issues⟩, Json.shows_of_all rfl⟩, manifests⟩,
      Json.shows_of_all rfl⟩

theorem no_break_in_summary (report : Report) : '\n' ∉ report.summary.toList := by
  intro member
  exact absurd (report.summary_shows '\n' member) (by decide)

theorem last_line_of_text (report : Report) (colour : Bool) :
    Text.lastLine (report.text colour) = report.summary := by
  have above : report.entries.flatMap (entryLines colour) ++ [""] ≠ [] := by simp
  have ends : report.text colour =
      Text.joinLines (report.entries.flatMap (entryLines colour) ++ [""]) ++ "\n" ++
      report.summary := by
    have joined := Text.join_lines_append above (List.cons_ne_nil report.summary [])
    rwa [List.append_assoc, List.singleton_append, Text.join_lines_single] at joined
  rw [ends]
  exact Text.last_line_of_broken _ report.no_break_in_summary

theorem text_tells_of_findings_iff (report : Report) (colour : Bool) :
    TellsOfFindings (Text.lastLine (report.text colour)) ↔ 0 < report.issueCount := by
  rw [last_line_of_text]
  constructor
  · intro found
    apply Nat.pos_of_ne_zero
    intro none
    exact not_tells_of_both found (summary_of_success none)
  · exact summary_of_findings

theorem text_tells_of_success_iff (report : Report) (colour : Bool) :
    TellsOfSuccess (Text.lastLine (report.text colour)) ↔ report.issueCount = 0 := by
  rw [last_line_of_text]
  constructor
  · intro passed
    apply Nat.eq_zero_of_not_pos
    intro some
    exact not_tells_of_both (summary_of_findings some) passed
  · exact summary_of_success

theorem has_issues_iff_count (report : Report) :
    report.hasIssues = true ↔ 0 < report.issueCount := by
  rw [has_issues_iff, Nat.pos_iff_ne_zero, ne_eq, issue_count_eq_zero_iff]
  simp

end Report

/-- What a reader finds under a key of an object. -/
def Json.Value.field? (key : String) : Json.Value → Option Json.Value
  | .object entries => entries.lookup key
  | _ => none

namespace Report

open Json (Value)

/-- Some manifest of a document is marked as not passed. -/
def MarksFailure (document : String) : Prop :=
  ∃ value manifests manifest, Json.read document = some value ∧
    value.field? "manifests" = some (.array manifests) ∧ manifest ∈ manifests ∧
    manifest.field? "passed" = some (.boolean false)

theorem manifests_of_document (report : Report) (time : String) :
    (report.documentValue time).field? "manifests" =
      some (.array (report.entries.map entryValue)) := rfl

theorem passed_of_entry (entry : ManifestReport) :
    (entryValue entry).field? "passed" = some (.boolean (decide (entry.findings = []))) := rfl

theorem marks_failure_iff (report : Report) (time : String) :
    MarksFailure (report.json time) ↔ 0 < report.issueCount := by
  rw [← has_issues_iff_count, has_issues_iff]
  constructor
  · rintro ⟨value, manifests, manifest, read, listed, member, failed⟩
    rw [read_document] at read
    cases read
    rw [manifests_of_document] at listed
    cases listed
    obtain ⟨entry, present, rfl⟩ := List.mem_map.1 member
    rw [passed_of_entry] at failed
    refine ⟨entry, present, ?_⟩
    simpa using failed
  · rintro ⟨entry, present, some⟩
    refine ⟨report.documentValue time, report.entries.map entryValue, entryValue entry,
      read_document report time, manifests_of_document report time, List.mem_map_of_mem present, ?_⟩
    rw [passed_of_entry, decide_eq_false some]

end Report

end ManifestLint
