import ManifestLint.Proofs.Config.RoundTrip

/-!
One way to write settings down, with every field in its usual place and nothing else. Main
statement: every valid lint section can be written down with every choice of output settings, and
whatever document it is written down in is read back as just these settings.
-/

namespace ManifestLint

open Yaml

namespace Yaml

def Key.word (name : String) (word : IsWord name := by decide)
    (short : name.length ≤ 100 := by decide) : Key :=
  ⟨.plain name word, short⟩

def Flow.word (name : String) (word : IsWord name := by decide) : Flow := .scalar (.plain name word)

theorem Flow.is_record_of_entries {names : List String} {others : Flow → Prop}
    {fields : List (String × (Flow → Prop))} {entries : List (Key × Flow)}
    (spelled : List.Forall₂ (fun entry field => entry.1.spelling.text = field.1 ∧
      field.2 entry.2) entries
      fields) : HasFields names others fields entries := by
  refine ⟨entries, [], ?_, spelled, fun _ member => absurd member List.not_mem_nil⟩
  rw [List.append_nil]

end Yaml

def Condition.flow : Condition → Flow
  | .missing needle => .mapping [(.word "type", .word "missing"), (.word "needle", .quoted needle)]
  | .contains needle => .mapping
      [(.word "type", .word "contains"), (.word "needle", .quoted needle)]
  | .containsWithout needle excuse =>
      .mapping [(.word "type", .word "contains_without"), (.word "needle", .quoted needle),
        (.word "unless", .quoted excuse)]

def Rule.flow (rule : Rule) : Flow :=
  .mapping [(.word "name", .quoted rule.name), (.word "message", .quoted rule.message),
    (.word "when", rule.condition.flow)]

def LintSection.flow (lint : LintSection) : Flow :=
  .mapping [(.word "disable", .sequence (lint.disable.map .quoted)),
    (.word "rules", .sequence (lint.rules.map Rule.flow))]

def OutputFormat.flow : OutputFormat → Flow
  | .text => .word "text"
  | .json => .word "json"

def colourFlow : Bool → Flow
  | true => .word "true"
  | false => .word "false"

def Layer.outputFlow (format : Option OutputFormat) (colour : Option Bool) : Flow :=
  .mapping (format.toList.map (fun format => (.word "format", format.flow)) ++
    colour.toList.map fun colour => (.word "color", colourFlow colour))

/-- A document with the given settings. -/
def Config.write (lint : LintSection) (format : Option OutputFormat) (colour : Option Bool) :
    String :=
  String.ofList (Frontmatter.fence ++ '\n' ::
    (Flow.writeLines [(.word "lint", lint.flow),
      (.word "output", Layer.outputFlow format colour)] ++
      (Frontmatter.fence ++ ['\n'])))

theorem Condition.written_as_flow (condition : Condition) : condition.WrittenAs condition.flow := by
  cases condition with
  | missing needle =>
      refine ⟨_, rfl, Flow.is_record_of_entries ?_⟩
      exact .cons ⟨rfl, _, rfl, rfl⟩ (.cons ⟨rfl, rfl⟩ .nil)
  | contains needle =>
      refine ⟨_, rfl, Flow.is_record_of_entries ?_⟩
      exact .cons ⟨rfl, _, rfl, rfl⟩ (.cons ⟨rfl, rfl⟩ .nil)
  | containsWithout needle excuse =>
      refine ⟨_, rfl, Flow.is_record_of_entries ?_⟩
      exact .cons ⟨rfl, _, rfl, rfl⟩ (.cons ⟨rfl, rfl⟩ (.cons ⟨rfl, rfl⟩ .nil))

theorem Rule.written_as_flow (rule : Rule) : rule.WrittenAs rule.flow := by
  refine ⟨_, rfl, Flow.is_record_of_entries ?_⟩
  exact .cons ⟨rfl, rfl⟩ (.cons ⟨rfl, rfl⟩ (.cons ⟨rfl, rule.condition.written_as_flow⟩ .nil))

theorem LintSection.written_as_flow (lint : LintSection) : lint.WrittenAs lint.flow := by
  have rules : lint.RulesWrittenAs (.sequence (lint.rules.map Rule.flow)) := by
    refine ⟨_, rfl, ?_⟩
    rw [List.forall₂_map_right_iff, List.forall₂_same]
    exact fun rule _ => rule.written_as_flow
  refine ⟨_, rfl, Flow.is_record_of_entries ?_⟩
  exact .cons ⟨rfl, rfl⟩ (.cons ⟨rfl, rules⟩ .nil)

theorem Layer.output_written_as_flow (format : Option OutputFormat) (colour : Option Bool) :
    OutputWrittenAs format colour (outputFlow format colour) := by
  refine ⟨_, rfl, Flow.is_record_of_entries (List.rel_append ?_ ?_)⟩
  · rw [List.forall₂_map_left_iff, List.forall₂_map_right_iff, List.forall₂_same]
    intro format _
    cases format with
    | text => exact ⟨rfl, _, rfl, rfl⟩
    | json => exact ⟨rfl, _, rfl, rfl⟩
  · rw [List.forall₂_map_left_iff, List.forall₂_map_right_iff, List.forall₂_same]
    intro colour _
    cases colour with
    | true => exact ⟨rfl, _, rfl, rfl, rfl⟩
    | false => exact ⟨rfl, _, rfl, rfl, rfl⟩

namespace Config

variable (lint : LintSection) (format : Option OutputFormat) (colour : Option Bool)

theorem written_in_write : WrittenIn lint format colour (write lint format colour) := by
  refine ⟨[], _, ['\n'], fun _ member => absurd member List.not_mem_nil, ⟨_, ?_, .inl rfl⟩,
    .inr ⟨[], rfl⟩, String.toList_ofList⟩
  apply Flow.is_record_of_entries
  exact .cons ⟨rfl, lint.written_as_flow⟩
    (.cons ⟨rfl, Layer.output_written_as_flow format colour⟩ .nil)

/-- Every valid lint section can be written down, and every document that it is written in gives it
back with the output settings written there or the usual ones. -/
theorem written_settings_are_read_back (valid : ∃ engine, Engine.ofSection lint = .ok engine) :
    (∃ document, WrittenIn lint format colour document) ∧
      ∀ document, WrittenIn lint format colour document →
        ofDocument document = .ok ⟨lint, format.getD .text, colour.getD true⟩ := by
  refine ⟨⟨_, written_in_write lint format colour⟩, ?_⟩
  intro document written
  obtain ⟨engine, built⟩ := valid
  have layer := Layer.of_document_written written
  have accepted : checked ⟨lint, format.getD .text, colour.getD true⟩ =
      .ok ⟨lint, format.getD .text, colour.getD true⟩ := by
    rw [checked, Config.engine, built]
    rfl
  rw [ofDocument, layer]
  change (checked ⟨lint, format.getD .text, colour.getD true⟩).mapError ConfigFault.lint = _
  rw [accepted]
  rfl

end Config

namespace Yaml.Flow

def backwards (known extra : List (Key × Flow)) : List (Key × Flow) := (known ++ extra).reverse

theorem has_fields_backwards {names : List String} {others : Flow → Prop}
    {fields : List (String × (Flow → Prop))} {known extra : List (Key × Flow)}
    (spelled : List.Forall₂ (fun entry field => entry.1.spelling.text = field.1 ∧
      field.2 entry.2) known
      fields)
    (foreign : ∀ entry ∈ extra, entry.1.spelling.style = .doubleQuoted ∧
      entry.1.spelling.text ∉ names ∧ others entry.2) :
    HasFields names others fields (backwards known extra) :=
  ⟨known, extra, List.reverse_perm _, spelled, foreign⟩

end Yaml.Flow

namespace Config

/-- A rule whose texts can only be written by numbers, in a section that disables another. -/
def controlSection : LintSection :=
  ⟨["multi-stage-build"], [⟨"a", "b", .containsWithout "\u0000" "\n"⟩]⟩

def controlCondition : Flow :=
  .mapping (Flow.backwards
    [(.word "type", .word "contains_without"), (.word "needle", .quoted "\u0000"),
      (.word "unless", .quoted "\n")]
    [(⟨.quoted "z", by decide⟩, .mapping [])])

def controlRule : Flow :=
  .mapping (Flow.backwards
    [(.word "name", .quoted "a"), (.word "message", .quoted "b"),
      (.word "when", controlCondition)] [])

def controlLint : Flow :=
  .mapping (Flow.backwards
    [(.word "disable", .sequence [.quoted "multi-stage-build"]),
      (.word "rules", .sequence [controlRule])]
    [])

def controlEntries : List (Key × Flow) :=
  Flow.backwards [(.word "lint", controlLint), (.word "output", Layer.outputFlow none (some false))]
    [(⟨.quoted "x", by decide⟩, .sequence [.quoted "y"])]

/-- The section with all entries the other way round, and with entries of unknown names. -/
def controlDocument : String :=
  " \n---\n\"x\": [\"y\"]\noutput: \x7bcolor: false\x7d\n" ++
    "lint: \x7brules: [\x7bwhen: \x7b\"z\": \x7b\x7d, unless: \"\\U0000000A\", " ++
    "needle: \"\\U00000000\", type: contains_without\x7d, message: \"b\", name: \"a\"\x7d], " ++
    "disable: [\"multi-stage-build\"]\x7d\n---\nbody"

theorem control_condition_written :
    Condition.WrittenAs (.containsWithout "\u0000" "\n") controlCondition := by
  refine ⟨_, rfl, ?_⟩
  apply Flow.has_fields_backwards
  · exact .cons ⟨rfl, _, rfl, rfl⟩ (.cons ⟨rfl, rfl⟩ (.cons ⟨rfl, rfl⟩ .nil))
  · rw [List.forall_mem_singleton]
    exact ⟨rfl, by decide, trivial, by decide⟩

theorem control_rule_written :
    Rule.WrittenAs ⟨"a", "b", .containsWithout "\u0000" "\n"⟩ controlRule := by
  refine ⟨_, rfl, ?_⟩
  apply Flow.has_fields_backwards
  · exact .cons ⟨rfl, rfl⟩ (.cons ⟨rfl, rfl⟩ (.cons ⟨rfl, control_condition_written⟩ .nil))
  · exact fun _ member => absurd member List.not_mem_nil

theorem control_lint_written : controlSection.WrittenAs controlLint := by
  have rules : controlSection.RulesWrittenAs (.sequence [controlRule]) :=
    ⟨_, rfl, .cons control_rule_written .nil⟩
  refine ⟨_, rfl, ?_⟩
  apply Flow.has_fields_backwards
  · exact .cons ⟨rfl, rfl⟩ (.cons ⟨rfl, rules⟩ .nil)
  · exact fun _ member => absurd member List.not_mem_nil

theorem control_document_written : WrittenIn controlSection none (some false) controlDocument := by
  have blank : ∀ char ∈ [' ', '\n'], Text.isBlank char = true := List.all_eq_true.1 (by decide)
  refine ⟨[' ', '\n'], controlEntries, "\nbody".toList, blank, ⟨_, ?_, .inl rfl⟩,
    .inr ⟨"body".toList, by decide⟩, by decide +kernel⟩
  apply Flow.has_fields_backwards
  · exact .cons ⟨rfl, control_lint_written⟩
      (.cons ⟨rfl, Layer.output_written_as_flow none (some false)⟩ .nil)
  · rw [List.forall_mem_singleton]
    exact ⟨rfl, by decide, rfl, trivial⟩

theorem control_document_is_read_back :
    Engine.ofSection controlSection = .ok ⟨Rule.builtin.tail ++ controlSection.rules⟩ ∧
      ofDocument controlDocument = .ok ⟨controlSection, .text, false⟩ := by
  have built :
      Engine.ofSection controlSection = .ok ⟨Rule.builtin.tail ++ controlSection.rules⟩ := by
    decide +kernel
  exact ⟨built, (written_settings_are_read_back controlSection none (some false) ⟨_, built⟩).2
    controlDocument control_document_written⟩

end Config

end ManifestLint
