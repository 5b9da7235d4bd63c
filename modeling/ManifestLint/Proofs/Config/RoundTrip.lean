import ManifestLint.Proofs.Config.Conditions
import ManifestLint.Proofs.Config.Fences

/-!
Settings that are written down are read back: rules, lint sections, output settings and whole
documents.
-/

namespace ManifestLint

open Yaml

namespace RuleEntry

theorem read_written {rule : Rule} {flow : Flow} (written : rule.WrittenAs flow) (path : Path) :
    read LayerEntry.conditionRoom path flow.node = pure rule := by
  have sets : List.Forall₂ (Sets (fields LayerEntry.conditionRoom path))
      [("name", (· = .quoted rule.name)), ("message", (· = .quoted rule.message)),
       ("when", rule.condition.WrittenAs)]
      [fun parts => { parts with name := some rule.name },
       fun parts => { parts with message := some rule.message },
       fun parts => { parts with condition := some rule.condition }] := by
    refine .cons ⟨_, rfl, ?_⟩ (.cons ⟨_, rfl, ?_⟩ (.cons ⟨_, rfl, ?_⟩ .nil))
    · rintro place flow rfl record
      rfl
    · rintro place flow rfl record
      rfl
    · intro place flow described record
      have condition := ConditionEntry.read_written described path place
      dsimp only
      rw [condition, pure_bind]
  have distinct : ["name", "message", "when"].Nodup := by decide
  have record :
      readRecord "struct Rule" (fields LayerEntry.conditionRoom path) ⟨none, none, none⟩ path
      flow.node = pure ⟨some rule.name, some rule.message, some rule.condition⟩ := by
    apply read_record_of_fields written rfl sets distinct
    intro first firstMember second secondMember record
    simp only [List.mem_cons, List.not_mem_nil, or_false] at firstMember secondMember
    rcases firstMember with rfl | rfl | rfl <;> rcases secondMember with rfl | rfl | rfl <;> rfl
  rw [read, record, pure_bind]
  rfl

end RuleEntry

namespace LayerEntry

theorem read_disable_written (names : List String) (path : Path) :
    readSequence readText path (Flow.sequence (names.map .quoted)).node = pure names := by
  apply read_sequence_of_reads
  rw [List.forall₂_map_left_iff, List.forall₂_same]
  intro name _ path
  rfl

theorem read_rules_written {lint : LintSection} {flow : Flow} (written : lint.RulesWrittenAs flow)
    (path : Path) :
    readSequence (RuleEntry.read conditionRoom) path flow.node = pure lint.rules := by
  obtain ⟨items, rfl, rules⟩ := written
  apply read_sequence_of_reads
  exact rules.flip.imp fun _ _ => RuleEntry.read_written

theorem read_lint_written {lint : LintSection} {flow : Flow} (written : lint.WrittenAs flow)
    (path : Path) : readLint path flow.node = pure lint := by
  have sets : List.Forall₂ (Sets lintFields)
      [("disable", (· = .sequence (lint.disable.map .quoted))), ("rules", lint.RulesWrittenAs)]
      [fun before => { before with disable := lint.disable },
       fun before => { before with rules := lint.rules }] := by
    refine .cons ⟨_, rfl, ?_⟩ (.cons ⟨_, rfl, ?_⟩ .nil)
    · rintro place flow rfl record
      have names := read_disable_written lint.disable place
      dsimp only
      rw [names, pure_bind]
    · intro place flow described record
      have rules := read_rules_written described place
      dsimp only
      rw [rules, pure_bind]
  have distinct : ["disable", "rules"].Nodup := by decide
  apply read_record_of_fields written rfl sets distinct
  intro first firstMember second secondMember record
  simp only [List.mem_cons, List.not_mem_nil, or_false] at firstMember secondMember
  rcases firstMember with rfl | rfl <;> rcases secondMember with rfl | rfl <;> rfl

theorem read_optional_mapping {Value : Type} {reader : Reader Value} {entries : List (Key × Flow)}
    {value : Value} {path : Path} (around : Path)
    (read : reader path (Flow.mapping entries).node = pure value) :
    readOptional around reader path (Flow.mapping entries).node = pure (some value) := by
  change (reader path (Flow.mapping entries).node >>= fun value => pure (some value)) = _
  rw [read, pure_bind]

/-- A scalar without quotes could be null. -/
theorem read_optional_spelling {Value : Type} {reader : Reader Value} {spelling : Spelling}
    {value : Value} {path : Path} (around : Path)
    (present : (spelling.text.isEmpty || isNull spelling.text) = false)
    (read : reader path spelling.node = pure value) :
    readOptional around reader path spelling.node = pure (some value) := by
  cases spelling with
  | quoted text =>
      change (reader path (Spelling.quoted text).node >>= fun value => pure (some value)) = _
      rw [read, pure_bind]
  | plain text word =>
      have untagged : ¬ (none : Option (List UInt8)) = some (coreTag "null") := by
        intro same
        cases same
      rw [Spelling.text] at present
      change (if (none : Option (List UInt8)) = some (coreTag "null") then
          (if isNull text = true then pure none else fail around (.wrongValue text "null"))
        else if (true && (text.isEmpty || isNull text)) = true then pure none
        else reader path (Spelling.plain text word).node >>= fun value => pure (some value)) = _
      rw [if_neg untagged, present, if_neg (by decide), read, pure_bind]

theorem read_format_spelling {spelling : Spelling} {format : OutputFormat}
    (named : spelling.text = format.name) (around path : Path) :
    readFormat around path spelling.node = pure format := by
  have known : OutputFormat.ofName? spelling.text = some format := by
    simp [named]
  unfold readFormat
  change pure spelling.node >>= _ = _
  rw [pure_bind]
  dsimp only [Spelling.node]
  rw [known]
  rfl

theorem read_boolean_spelling {spelling : Spelling} {colour : Bool}
    (plain : spelling.style = .plain) (named : spelling.text = if colour then "true" else "false")
    (path : Path) :
    readBoolean path spelling.node = pure colour := by
  rw [readBoolean, Spelling.node, plain, named]
  cases colour with
  | true => rfl
  | false => rfl

theorem sets_format (path : Path) (format : OutputFormat) :
    Sets (outputFields path) ("format", Flow.Spells format.name)
      fun layer => { layer with format := some format } := by
  refine ⟨_, rfl, ?_⟩
  rintro place _ ⟨spelling, rfl, named⟩ record
  have present : (spelling.text.isEmpty || isNull spelling.text) = false := by
    rw [named]
    cases format <;> decide
  have read := read_optional_spelling path present (read_format_spelling named path place)
  dsimp only [Flow.node]
  rw [read, pure_bind]

theorem sets_colour (path : Path) (colour : Bool) :
    Sets (outputFields path) ("color", ColourWrittenAs colour)
      fun layer => { layer with colour := some colour } := by
  refine ⟨_, rfl, ?_⟩
  rintro place _ ⟨spelling, rfl, plain, named⟩ record
  have present : (spelling.text.isEmpty || isNull spelling.text) = false := by
    rw [named]
    cases colour <;> decide
  have read := read_optional_spelling path present (read_boolean_spelling plain named place)
  dsimp only [Flow.node]
  rw [read, pure_bind]

def outputUpdates (format : Option OutputFormat) (colour : Option Bool) : List (Layer → Layer) :=
  format.toList.map (fun format layer => { layer with format := some format }) ++
    colour.toList.map fun colour layer => { layer with colour := some colour }

theorem read_output_written {format : Option OutputFormat} {colour : Option Bool} {flow : Flow}
    (written : Layer.OutputWrittenAs format colour flow) (path : Path) :
    readOutput path flow.node = pure ⟨none, format, colour⟩ := by
  have sets : List.Forall₂ (Sets (outputFields path)) (Layer.outputFields format colour)
      (outputUpdates format colour) := by
    apply List.rel_append
    · rw [List.forall₂_map_left_iff, List.forall₂_map_right_iff, List.forall₂_same]
      exact fun format _ => sets_format path format
    · rw [List.forall₂_map_left_iff, List.forall₂_map_right_iff, List.forall₂_same]
      exact fun colour _ => sets_colour path colour
  have distinct : ((Layer.outputFields format colour).map (·.1)).Nodup := by
    cases format <;> cases colour <;> simp [Layer.outputFields]
  have commute : ∀ first ∈ outputUpdates format colour, ∀ second ∈ outputUpdates format colour,
      ∀ record, second (first record) = first (second record) := by
    cases format <;> cases colour <;>
      simp [outputUpdates]
  have read : readOutput path flow.node = pure ((outputUpdates format colour).foldl
      (fun layer update => update layer) Layer.empty) :=
    read_record_of_fields written rfl sets distinct commute Layer.empty
  rw [read]
  cases format <;> cases colour <;> rfl

theorem sets_lint (lint : LintSection) :
    Sets layerFields ("lint", lint.WrittenAs) fun layer => { layer with lint := some lint } := by
  refine ⟨_, rfl, ?_⟩
  intro place flow written record
  have read := read_lint_written written place
  obtain ⟨entries, rfl, _⟩ := written
  have present := read_optional_mapping .root read
  dsimp only
  rw [present, pure_bind]

theorem sets_output (format : Option OutputFormat) (colour : Option Bool) :
    Sets layerFields ("output", Layer.OutputWrittenAs format colour)
      fun layer => { layer with format, colour } := by
  refine ⟨_, rfl, ?_⟩
  intro place flow written record
  have read := read_output_written written place
  obtain ⟨entries, rfl, _⟩ := written
  have present := read_optional_mapping .root read
  dsimp only
  rw [present, pure_bind]
  rfl

/-- The entries of a settings document give back what was written. -/
theorem read_layer_written {lint : LintSection} {format : Option OutputFormat}
    {colour : Option Bool} {entries : List (Key × Flow)}
    (written : Layer.WrittenIn lint format colour entries) (path : Path) :
    read path (Flow.mapping entries).node = pure ⟨some lint, format, colour⟩ := by
  obtain ⟨output, has, given⟩ := written
  have written : (Flow.mapping entries).IsRecord ["lint", "output"] Flow.AllQuoted
      (("lint", lint.WrittenAs) :: output) := ⟨entries, rfl, has⟩
  rcases given with rfl | ⟨rfl, rfl, rfl⟩
  · have sets : List.Forall₂ (Sets layerFields)
        [("lint", lint.WrittenAs), ("output", Layer.OutputWrittenAs format colour)]
        [fun layer => { layer with lint := some lint },
          fun layer => { layer with format, colour }] :=
      .cons (sets_lint lint) (.cons (sets_output format colour) .nil)
    have distinct : ["lint", "output"].Nodup := by decide
    apply read_record_of_fields written rfl sets distinct
    intro first firstMember second secondMember record
    simp only [List.mem_cons, List.not_mem_nil, or_false] at firstMember secondMember
    rcases firstMember with rfl | rfl <;> rcases secondMember with rfl | rfl <;> rfl
  · have sets : List.Forall₂ (Sets layerFields) [("lint", lint.WrittenAs)]
        [fun layer => { layer with lint := some lint }] := .cons (sets_lint lint) .nil
    have distinct : ["lint"].Nodup := by decide
    apply read_record_of_fields written rfl sets distinct
    intro first firstMember second secondMember record
    rw [List.mem_singleton.1 firstMember, List.mem_singleton.1 secondMember]

end LayerEntry

namespace Layer

section
variable {lint : LintSection} {format : Option OutputFormat} {colour : Option Bool}
  {entries : List (Key × Flow)}

theorem ends_itself_of_record {names : List String} {others : Flow → Prop}
    {fields : List (String × (Flow → Prop))} {flow : Flow}
    (written : flow.IsRecord names others fields) :
    flow.EndsItself := by
  obtain ⟨entries, rfl, _⟩ := written
  intro spelling same
  cases same

theorem ends_itself_of_quoted {flow : Flow} (quoted : flow.AllQuoted) : flow.EndsItself := by
  rintro spelling rfl plain
  rw [Flow.AllQuoted, plain] at quoted
  cases quoted

theorem entries_end_themselves (written : WrittenIn lint format colour entries) :
    ∀ entry ∈ entries, entry.2.EndsItself := by
  obtain ⟨output, ⟨known, extra, order, spelled, others⟩, given⟩ := written
  intro entry member
  rcases List.mem_append.1 (order.mem_iff.1 member) with own | other
  · cases spelled with
    | cons first rest =>
        rcases List.mem_cons.1 own with rfl | later
        · exact ends_itself_of_record first.2
        · rcases given with rfl | ⟨rfl, _⟩
          · cases rest with
            | cons second none =>
                cases none
                rw [List.mem_singleton.1 later]
                exact ends_itself_of_record second.2
          · cases rest
            cases later
  · exact ends_itself_of_quoted (others entry other).2.2

theorem entries_nonempty (written : WrittenIn lint format colour entries) : entries ≠ [] := by
  obtain ⟨output, ⟨known, extra, order, spelled, _⟩, _⟩ := written
  rintro rfl
  cases spelled with
  | cons first rest => cases List.nil_perm.1 order

theorem read_lines_written (written : WrittenIn lint format colour entries) :
    readDocumentAs LayerEntry.read (String.ofList (Flow.writeLines entries)) =
      .ok ⟨some lint, format, colour⟩ := by
  have ends := entries_end_themselves written
  have read := LayerEntry.read_layer_written written .root
  cases entries with
  | nil => exact absurd rfl (entries_nonempty written)
  | cons entry entries =>
      obtain ⟨count, document⟩ := Flow.document_of_lines entry entries ends
      rw [Flow.node] at read
      rw [readDocumentAs, document]
      dsimp only
      rw [read]
      rfl

theorem of_document_written {document : String}
    (written : Config.WrittenIn lint format colour document) :
    ofDocument document = .ok ⟨some lint, format, colour⟩ := by
  obtain ⟨blanks, entries, body, blank, settings, ends, same⟩ := written
  have fenced := Frontmatter.of_document_of_lines entries blank ends same
  have read := read_lines_written settings
  have shown : ¬ Text.Blank (String.ofList (Flow.writeLines entries)) = true := by
    cases entries with
    | nil => exact absurd rfl (entries_nonempty settings)
    | cons entry entries => exact lines_are_not_blank entry entries
  rw [ofDocument, fenced]
  dsimp only
  rw [if_neg shown, read]
  rfl

end

end Layer

end ManifestLint
