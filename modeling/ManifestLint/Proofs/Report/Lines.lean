import ManifestLint.Proofs.Report.Summary
import ManifestLint.Proofs.Text.Lines

/-!
The text of a report line by line. What the lines tell, and in which order, is laid out here without
the texts that they stand for. The text of a report shows its whole layout and the failures those of
its lines that tell of a finding, so the two renderings agree on every finding, and the summary
counts the lines above it.
-/

namespace ManifestLint

namespace Report

/-- What a line tells. -/
inductive Line where
  | passed (source : String)
  | failed (source message : String)
  | gap
  | summary (issues manifests : Nat)
deriving DecidableEq, Repr

namespace Line

def isFailed : Line → Bool
  | .failed _ _ => true
  | _ => false

/-- A number of things. One of them has a noun in the singular. -/
def amount (count : Nat) (one many : String) : String :=
  Text.decimal count ++ " " ++ if count = 1 then one else many

def text (colour : Bool) : Line → String
  | .passed source => Hue.green.paint colour "✓" ++ " " ++ source
  | .failed source message => Hue.red.paint colour "✗" ++ " " ++ source ++ ": " ++ message
  | .gap => ""
  | .summary 0 manifests => "All " ++ amount manifests "manifest" "manifests" ++ " passed."
  | .summary issues manifests =>
      "Found " ++ amount issues "issue" "issues" ++ " in " ++
        amount manifests "manifest" "manifests" ++ "."

end Line

/-- The lines on a manifest: one for each finding, or a single one when there are none. -/
def linesOn (entry : ManifestReport) : List Line :=
  match entry.findings with
  | [] => [.passed entry.source]
  | findings => findings.map fun finding => .failed entry.source finding.message

def failedLines (report : Report) : List Line :=
  (report.entries.flatMap linesOn).filter Line.isFailed

/-- All lines of a report. -/
def layout (report : Report) : List Line :=
  report.entries.flatMap linesOn ++ [.gap, .summary report.failedLines.length report.entries.length]

theorem counted_eq_amount {one many : String} (plural : one ++ "s" = many) (count : Nat) :
    counted count one = Line.amount count one many := by
  rw [counted, Line.amount, ← plural]
  split
  · rw [String.append_empty]
  · rw [String.append_assoc]

theorem summary_eq_text (report : Report) (colour : Bool) :
    report.summary = (Line.summary report.issueCount report.entries.length).text colour := by
  have manifests := counted_eq_amount (show "manifest" ++ "s" = "manifests" by decide)
      report.entries.length
  have issues := counted_eq_amount (show "issue" ++ "s" = "issues" by decide) report.issueCount
  rw [summary, manifests, issues]
  cases report.issueCount with
  | zero => rfl
  | succ issues => rfl

theorem entry_lines_eq (colour : Bool) (entry : ManifestReport) :
    entryLines colour entry = (linesOn entry).map (Line.text colour) := by
  rw [entryLines, ManifestReport.passed, linesOn]
  cases found : entry.findings with
  | nil => rfl
  | cons finding findings =>
      rw [failureLines, found, List.map_map]
      rfl

theorem failed_lines_on (entry : ManifestReport) :
    (linesOn entry).filter Line.isFailed =
      entry.findings.map fun finding => Line.failed entry.source finding.message := by
  rw [linesOn]
  cases entry.findings with
  | nil => rfl
  | cons finding findings =>
      apply List.filter_eq_self.2
      intro line member
      obtain ⟨other, _, rfl⟩ := List.mem_map.1 member
      rfl

theorem failed_lines_eq (report : Report) :
    report.failedLines = report.entries.flatMap fun entry =>
      entry.findings.map fun finding => Line.failed entry.source finding.message := by
  rw [failedLines, List.filter_flatMap]
  apply List.flatMap_congr
  intro entry _
  exact failed_lines_on entry

theorem length_failed_lines (report : Report) : report.failedLines.length = report.issueCount := by
  rw [failed_lines_eq, List.length_flatMap, issue_count_eq_sum]
  simp only [List.length_map]

theorem text_eq_joined (report : Report) (colour : Bool) :
    report.text colour = Text.joinLines (report.layout.map (Line.text colour)) := by
  rw [text, layout, length_failed_lines, List.map_append, List.map_flatMap]
  apply congrArg Text.joinLines
  have manifests : report.entries.flatMap (entryLines colour) =
      report.entries.flatMap fun entry => (linesOn entry).map (Line.text colour) := by
    apply List.flatMap_congr
    intro entry _
    exact entry_lines_eq colour entry
  rw [manifests, summary_eq_text report colour]
  rfl

theorem failures_eq_joined (report : Report) (colour : Bool) :
    report.failures colour = Text.joinLines (report.failedLines.map (Line.text colour)) := by
  rw [failures, failed_lines_eq, List.map_flatMap]
  apply congrArg Text.joinLines
  apply List.flatMap_congr
  intro entry _
  rw [failureLines, List.map_map]
  rfl

/-- What the lines of the failures are, whatever line feeds the messages bring. -/
theorem shown_lines_of_failures (report : Report) (colour : Bool) :
    Text.shownLines (report.failures colour) =
      (report.failedLines.map (Line.text colour)).flatMap Text.lines := by
  rw [Text.shownLines]
  by_cases nothing : report.failures colour = ""
  · have none : report.failedLines = [] := by
      rw [← List.length_eq_zero_iff, length_failed_lines]
      exact (failures_eq_empty_iff report colour).1 nothing
    rw [if_pos nothing, none]
    rfl
  · have some : report.failedLines.map (Line.text colour) ≠ [] := by
      intro empty
      rw [failures_eq_joined, empty] at nothing
      exact nothing rfl
    rw [if_neg nothing, failures_eq_joined, Text.lines_of_joined some]

/-- No source and no message has this character. -/
def Lacks (char : Char) (report : Report) : Prop :=
  ∀ entry ∈ report.entries, char ∉ entry.source.toList ∧ ∀ finding ∈ entry.findings,
    char ∉ finding.message.toList

instance (char : Char) (report : Report) : Decidable (report.Lacks char) :=
  inferInstanceAs (Decidable (∀ entry ∈ report.entries,
    char ∉ entry.source.toList ∧ ∀ finding ∈ entry.findings, char ∉ finding.message.toList))

def Line.Lacks (char : Char) : Line → Prop
  | .passed source => char ∉ source.toList
  | .failed source message => char ∉ source.toList ∧ char ∉ message.toList
  | .gap => True
  | .summary _ _ => True

theorem Lacks.line {char : Char} {report : Report} (lacks : report.Lacks char) {line : Line}
    (member : line ∈ report.layout) : line.Lacks char := by
  rw [layout, List.mem_append] at member
  rcases member with above | below
  · obtain ⟨entry, present, told⟩ := List.mem_flatMap.1 above
    obtain ⟨source, messages⟩ := lacks entry present
    rw [linesOn] at told
    split at told
    · rw [List.mem_singleton.1 told]
      exact source
    · obtain ⟨finding, found, rfl⟩ := List.mem_map.1 told
      exact ⟨source, messages finding found⟩
  · rw [List.mem_cons, List.mem_singleton] at below
    rcases below with rfl | rfl
    · trivial
    · trivial

theorem amount_shows {one many : String} (plural : one ++ "s" = many)
    (shows : ∀ char ∈ one.toList, 0x20 ≤ char.toNat) (count : Nat) :
    ∀ char ∈ (Line.amount count one many).toList, 0x20 ≤ char.toNat := by
  rw [← counted_eq_amount plural]
  exact counted_shows shows count

theorem summary_line_shows (issues manifests : Nat) (colour : Bool) :
    ∀ char ∈ ((Line.summary issues manifests).text colour).toList, 0x20 ≤ char.toNat := by
  have below : ∀ char ∈ (Line.amount manifests "manifest" "manifests").toList, 0x20 ≤ char.toNat :=
    amount_shows (by decide) (Json.shows_of_all rfl) manifests
  cases issues with
  | zero =>
      simp only [Line.text, String.toList_append, List.forall_mem_append]
      exact ⟨⟨Json.shows_of_all rfl, below⟩, Json.shows_of_all rfl⟩
  | succ issues =>
      have above : ∀ char ∈ (Line.amount (issues + 1) "issue" "issues").toList, 0x20 ≤ char.toNat :=
        amount_shows (by decide) (Json.shows_of_all rfl) (issues + 1)
      simp only [Line.text, String.toList_append, List.forall_mem_append]
      exact ⟨⟨⟨⟨Json.shows_of_all rfl, above⟩, Json.shows_of_all rfl⟩, below⟩,
        Json.shows_of_all rfl⟩

theorem no_break_in_line {line : Line} (lacks : line.Lacks '\n') (colour : Bool) :
    '\n' ∉ (line.text colour).toList := by
  have marks : '\n' ∉ (Hue.green.paint colour "✓").toList ∧
      '\n' ∉ (Hue.red.paint colour "✗").toList := by
    cases colour <;> decide
  cases line with
  | passed source =>
      have other : '\n' ∉ source.toList := lacks
      simp [Line.text, String.toList_append, marks.1, other]
  | failed source message => simp [Line.text, String.toList_append, marks.2, lacks.1, lacks.2]
  | gap => exact List.not_mem_nil
  | summary issues manifests =>
      intro member
      exact absurd (summary_line_shows issues manifests colour '\n' member) (by decide)

theorem failed_lines_subset (report : Report) : ∀ line ∈ report.failedLines, line ∈ report.layout :=
  fun _ member => List.mem_append_left _ (List.mem_of_mem_filter member)

/-- The failures of two reports that both have some are joined by a line feed. -/
theorem failures_append {first second : Report} (left : first.hasIssues = true)
    (right : second.hasIssues = true) (colour : Bool) :
    failures ⟨first.entries ++ second.entries⟩ colour =
      first.failures colour ++ "\n" ++ second.failures colour := by
  have some {report : Report} (issues : report.hasIssues = true) :
      report.entries.flatMap (failureLines colour) ≠ [] := by
    intro nothing
    have empty : report.failures colour = "" := by
      rw [failures, nothing]
      rfl
    exact Nat.ne_of_gt ((report.has_issues_iff_count).1 issues)
      ((report.failures_eq_empty_iff colour).1 empty)
  rw [failures, List.flatMap_append, Text.join_lines_append (some left) (some right), failures,
    failures]

/-- Each line of a text report has its place: one or more for every manifest, an empty one and the
summary, whose numbers are those of the manifests and of the lines that tell of a finding. The
failures are just these lines. -/
theorem text_shows_layout (colour : Bool) :
    (∀ report : Report, report.Lacks '\n' →
      Text.lines (report.text colour) = report.layout.map (Line.text colour) ∧
      Text.shownLines (report.failures colour) = report.failedLines.map (Line.text colour) ∧
      (report.failures colour = "" ↔ report.failedLines = [])) ∧
    ∀ first second : Report, first.hasIssues = true → second.hasIssues = true →
      failures ⟨first.entries ++ second.entries⟩ colour =
        first.failures colour ++ "\n" ++ second.failures colour := by
  refine ⟨?_, fun first second left right => failures_append left right colour⟩
  intro report oneLine
  have single : ∀ text ∈ report.layout.map (Line.text colour), '\n' ∉ text.toList := by
    intro text member
    obtain ⟨line, placed, rfl⟩ := List.mem_map.1 member
    exact no_break_in_line (oneLine.line placed) colour
  have some : report.layout.map (Line.text colour) ≠ [] := by simp [layout]
  refine ⟨?_, ?_, ?_⟩
  · rw [text_eq_joined, Text.lines_of_joined some, Text.flat_map_lines single]
  · rw [shown_lines_of_failures, Text.flat_map_lines]
    intro text member
    obtain ⟨line, failed, rfl⟩ := List.mem_map.1 member
    exact no_break_in_line (oneLine.line (report.failed_lines_subset line failed)) colour
  · rw [failures_eq_empty_iff, ← length_failed_lines, List.length_eq_zero_iff]

def mixedReport : Report :=
  ⟨[⟨"app/Dockerfile", []⟩, ⟨"web/Dockerfile",
    [⟨"no-latest", "Image is not pinned"⟩, ⟨"no-root", "Image runs as root"⟩]⟩]⟩

theorem lines_of_mixed_report : mixedReport.Lacks '\n' ∧ mixedReport.hasIssues = true ∧
    Text.lines (mixedReport.text false) =
      ["✓ app/Dockerfile", "✗ web/Dockerfile: Image is not pinned",
        "✗ web/Dockerfile: Image runs as root", "",
        "Found 2 issues in 2 manifests."] ∧
    failures ⟨mixedReport.entries ++ mixedReport.entries⟩ false =
      mixedReport.failures false ++ "\n" ++ mixedReport.failures false := by
  have oneLine : mixedReport.Lacks '\n' := by decide
  have issues : mixedReport.hasIssues = true := by decide
  obtain ⟨lines, _, _⟩ := (text_shows_layout false).1 mixedReport oneLine
  refine ⟨oneLine, issues, ?_, (text_shows_layout false).2 _ _ issues issues⟩
  rw [lines]
  decide +kernel

end Report

end ManifestLint
