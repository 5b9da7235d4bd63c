import ManifestLint.Listing
import ManifestLint.Proofs.Colour.Codes
import ManifestLint.Proofs.Report.Lines

/-!
The coloured renderings. Reports, failures and listings of rules without escapes of their own are
the same with colours and without, but for the codes.
-/

namespace ManifestLint

open Hue (Colours AddsCodes)

namespace Report

theorem colours_line {line : Line} (lacks : line.Lacks '\x1b') :
    Colours (line.text true) (line.text false) := by
  have green : Colours (Hue.green.paint true "✓") (Hue.green.paint false "✓") :=
    .paint .green (by decide)
  have red : Colours (Hue.red.paint true "✗") (Hue.red.paint false "✗") := .paint .red (by decide)
  have blank : Colours " " " " := .of_plain (by decide)
  cases line with
  | passed source => exact (green.append blank).append (.of_plain lacks)
  | failed source message =>
      have behind : Colours ": " ": " := .of_plain (by decide)
      exact (((red.append blank).append (.of_plain lacks.1)).append behind).append
        (.of_plain lacks.2)
  | gap => exact .of_plain List.not_mem_nil
  | summary issues manifests =>
      have same : (Line.summary issues manifests).text true =
          (Line.summary issues manifests).text false := by
        cases issues <;> rfl
      rw [same]
      apply Hue.Colours.of_plain
      intro escape
      exact absurd (summary_line_shows issues manifests false '\x1b' escape) (by decide)

theorem colours_lines {lines : List Line} (lack : ∀ line ∈ lines, line.Lacks '\x1b') :
    Colours (Text.joinLines (lines.map (Line.text true)))
      (Text.joinLines (lines.map (Line.text false))) := by
  apply Hue.Colours.joined
  rw [List.forall₂_map_left_iff, List.forall₂_map_right_iff, List.forall₂_same]
  intro line member
  exact colours_line (lack line member)

variable {report : Report}

theorem colours_text (lacks : report.Lacks '\x1b') :
    Colours (report.text true) (report.text false) := by
  rw [text_eq_joined, text_eq_joined]
  exact colours_lines fun _ placed => lacks.line placed

theorem colours_failures (lacks : report.Lacks '\x1b') :
    Colours (report.failures true) (report.failures false) := by
  rw [failures_eq_joined, failures_eq_joined]
  exact colours_lines fun line failed => lacks.line (report.failed_lines_subset line failed)

end Report

/-- Neither the name nor the message nor a needle of a rule has this character. -/
structure Rule.Lacks (char : Char) (rule : Rule) : Prop where
  name : char ∉ rule.name.toList
  message : char ∉ rule.message.toList
  needles : ∀ needle ∈ rule.condition.needles, char ∉ needle.toList

namespace Listing

theorem no_escape_in_condition {condition : Condition}
    (plain : ∀ needle ∈ condition.needles, '\x1b' ∉ needle.toList) :
    '\x1b' ∉ condition.describe.toList := by
  cases condition with
  | missing needle =>
      change '\x1b' ∉ ("text lacks '" ++ needle ++ "'").toList
      simp only [String.toList_append, List.mem_append, not_or]
      exact ⟨⟨by decide, plain needle List.mem_cons_self⟩, by decide⟩
  | contains needle =>
      change '\x1b' ∉ ("text contains '" ++ needle ++ "'").toList
      simp only [String.toList_append, List.mem_append, not_or]
      exact ⟨⟨by decide, plain needle List.mem_cons_self⟩, by decide⟩
  | containsWithout needle excuse =>
      change '\x1b' ∉ ("text contains '" ++ needle ++ "' but not '" ++ excuse ++ "'").toList
      simp only [String.toList_append, List.mem_append, not_or]
      exact ⟨⟨⟨⟨by decide, plain needle List.mem_cons_self⟩, by decide⟩,
        plain excuse (List.mem_cons_of_mem _ List.mem_cons_self)⟩, by decide⟩

theorem no_escape_in_number (width number : Nat) :
    '\x1b' ∉ Text.padLeft width (Text.digits number) := by
  rw [Text.padLeft, List.mem_append, not_or]
  constructor
  · intro blank
    exact absurd (List.eq_of_mem_replicate blank) (by decide)
  · intro digit
    exact absurd (Json.digits_show number '\x1b' digit) (by decide)

theorem colours_entry {rule : Rule} (lacks : rule.Lacks '\x1b') (width number : Nat) :
    Colours (entry true width number rule) (entry false width number rule) := by
  have start : Colours (String.ofList (Text.padLeft 2 (Text.digits number)))
      (String.ofList (Text.padLeft 2 (Text.digits number))) := by
    apply Hue.Colours.of_plain
    rw [String.toList_ofList]
    exact no_escape_in_number 2 number
  have origin : '\x1b' ∉ (origin rule).toList := by
    rw [Listing.origin]
    split <;> decide
  have name := Hue.Colours.column .cyan width lacks.name
  have arrow : Colours (Hue.cyan.paint true "→") (Hue.cyan.paint false "→") :=
    .paint .cyan (by decide)
  have condition := no_escape_in_condition lacks.needles
  have first := (start.append (.of_plain (show '\x1b' ∉ ". ".toList by decide))).append name
  have told := (first.append (.of_plain (show '\x1b' ∉ "  ".toList by decide))).append
      (.of_plain lacks.message)
  have second := (told.append (.of_plain (show '\x1b' ∉ "\n    ".toList by decide))).append arrow
  have described := (second.append (.of_plain (show '\x1b' ∉ " when ".toList by decide))).append
      (.of_plain condition)
  exact ((described.append (.of_plain (show '\x1b' ∉ " (".toList by decide))).append
    (.of_plain origin)).append
    (.of_plain (show '\x1b' ∉ ")".toList by decide))

/-- The induction is on the rules; their numbers go up and the width stays. -/
theorem colours_entries {rules : List Rule} (lack : ∀ rule ∈ rules, rule.Lacks '\x1b')
    (width number : Nat) :
    List.Forall₂ Colours (entries true width number rules) (entries false width number rules) := by
  induction rules generalizing number with
  | nil => exact .nil
  | cons rule rules induction =>
      rw [List.forall_mem_cons] at lack
      exact .cons (colours_entry lack.1 width number) (induction lack.2 (number + 1))

theorem colours_text {rules : List Rule} (lack : ∀ rule ∈ rules, rule.Lacks '\x1b') :
    Colours (text true rules) (text false rules) := by
  rw [text, text]
  cases rules with
  | nil => exact .paint .dimmed (by decide)
  | cons rule rules => exact .joined (colours_entries lack _ _)

end Listing

/-- In colour, reports and listings have the same characters in the same places as without, and
codes between them. -/
theorem Hue.colour_adds_codes :
    (∀ report : Report, report.Lacks '\x1b' →
      AddsCodes (report.text true) (report.text false) ∧
        AddsCodes (report.failures true) (report.failures false)) ∧
    ∀ rules : List Rule, (∀ rule ∈ rules, rule.Lacks '\x1b') →
      AddsCodes (Listing.text true rules) (Listing.text false rules) := by
  refine ⟨?_, ?_⟩
  · intro report lacks
    exact ⟨(Report.colours_text lacks).adds_codes, (Report.colours_failures lacks).adds_codes⟩
  · intro rules lack
    exact (Listing.colours_text lack).adds_codes

def accentedRules : List Rule := [⟨"né", "No base", .missing "FROM"⟩]

/-- The blank that fills the column stands inside the colour of the name. -/
theorem Hue.accented_listing_in_colour :
    (∀ rule ∈ accentedRules, rule.Lacks '\x1b') ∧
      Listing.text true accentedRules =
        " 1. \x1b[36mné \x1b[0m  No base\n    \x1b[36m→\x1b[0m when text lacks 'FROM' (custom)" ∧
      AddsCodes (Listing.text true accentedRules) (Listing.text false accentedRules) ∧
      Report.mixedReport.Lacks '\x1b' ∧
      AddsCodes (Report.mixedReport.text true) (Report.mixedReport.text false) := by
  have lack : ∀ rule ∈ accentedRules, rule.Lacks '\x1b' := by
    rw [accentedRules, List.forall_mem_singleton]
    exact ⟨by decide, by decide, by decide⟩
  have report : Report.mixedReport.Lacks '\x1b' := by decide
  exact ⟨lack, by decide +kernel, colour_adds_codes.2 accentedRules lack, report,
    (colour_adds_codes.1 Report.mixedReport report).1⟩

end ManifestLint
