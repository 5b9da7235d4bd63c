import ManifestLint.Proofs.Config.PaddedConditions

/-!
Settings in padded trees, from the rules up to the root.
-/

namespace ManifestLint

open Yaml

section
variable {trees : Triple Node} {keys : List String} {whole first second : Node}

theorem fields_keep {Record : Type} {role : Role} {fields : List (FieldReader Record)}
    (keep : ∀ field ∈ fields, ∀ ⦃whole first second : Node⦄,
      Padded trees.whole keys (role.under field.name) whole first second →
      ∀ (path : Path) (record other : Record),
      KeepsTo trees keys (· = ·) (field.read path whole record)
        (field.read path first other) (field.read path second record)) :
        FieldsKeep trees keys role fields := by
  intro name field found
  have same := List.find?_some found
  rw [beq_iff_eq] at same
  rw [← same]
  exact keep field (List.mem_of_find?_eq_some found)

namespace RuleEntry

theorem rule_fields_keep (room : Nat) (around : Path) :
    FieldsKeep trees keys .rule (fields room around) := by
  apply fields_keep
  simp only [fields, List.forall_mem_cons]
  refine ⟨?_, ?_, ?_, List.forall_mem_nil _⟩
  · intro whole first second padded path record other
    exact (keeps_to_text padded "a string" path).map fun _ _ same => by rw [same]
  · intro whole first second padded path record other
    exact (keeps_to_text padded "a string" path).map fun _ _ same => by rw [same]
  · intro whole first second padded path record other
    exact (ConditionEntry.keeps_to_condition padded room around path).map fun _ _ same => by
      rw [same]

theorem keeps_to_rule (padded : Padded trees.whole keys .rule whole first second) (room : Nat)
    (path : Path) :
    KeepsTo trees keys (· = ·) (read room path whole) (read room path first)
      (read room path second) := by
  have record := keeps_to_record (rule_fields_keep room path) (rule_fields_plain room path) rfl
    "struct Rule" ⟨none, none, none⟩ padded path
  refine record.bind fun parts _ _ same _ => ?_
  subst same
  apply KeepsTo.of_steady
  refine (steady_require path "name" parts.name).bind fun name => ?_
  refine (steady_require path "message" parts.message).bind fun message => ?_
  exact (steady_require path "when" parts.condition).bind fun condition => steady_pure _

end RuleEntry

namespace LayerEntry

theorem lint_fields_keep : FieldsKeep trees keys .lint lintFields := by
  apply fields_keep
  simp only [lintFields, List.forall_mem_cons]
  refine ⟨?_, ?_, List.forall_mem_nil _⟩
  · intro whole first second padded path record other
    have texts := keeps_to_sequence padded (fun item => keeps_to_text item "a string") path
    exact texts.map fun _ _ same => by rw [same]
  · intro whole first second padded path record other
    have rules := keeps_to_sequence padded
        (fun item => RuleEntry.keeps_to_rule item conditionRoom) path
    exact rules.map fun _ _ same => by rw [same]

theorem keeps_to_lint (padded : Padded trees.whole keys .lint whole first second) (path : Path) :
    KeepsTo trees keys (· = ·) (readLint path whole) (readLint path first) (readLint path second) :=
  keeps_to_record lint_fields_keep lint_fields_plain rfl "struct LintConfig" .empty padded path

theorem output_fields_keep (around : Path) :
    FieldsKeep trees keys .output (outputFields around) := by
  apply fields_keep
  simp only [outputFields, List.forall_mem_cons]
  refine ⟨?_, ?_, List.forall_mem_nil _⟩
  · intro whole first second padded path record other
    have format := keeps_to_optional padded (fun like => keeps_to_format like around path) around
    exact format.map fun _ _ same => by rw [same]
  · intro whole first second padded path record other
    have colour := keeps_to_optional padded (fun like => keeps_to_boolean like path) around
    exact colour.map fun _ _ same => by rw [same]

theorem keeps_to_output (padded : Padded trees.whole keys .output whole first second)
    (path : Path) :
    KeepsTo trees keys (· = ·) (readOutput path whole) (readOutput path first)
      (readOutput path second) :=
  keeps_to_record (output_fields_keep path) (output_fields_plain path) rfl
    "struct PartialOutputConfig" .empty padded path

theorem layer_fields_keep : FieldsKeep trees keys .settings layerFields := by
  apply fields_keep
  simp only [layerFields, List.forall_mem_cons]
  refine ⟨?_, ?_, List.forall_mem_nil _⟩
  · intro whole first second padded path record other
    have lint := keeps_to_optional padded (fun like => keeps_to_lint like path) .root
    exact lint.map fun _ _ same => by rw [same]
  · intro whole first second padded path record other
    have output := keeps_to_optional padded (fun like => keeps_to_output like path) .root
    exact output.map fun _ _ same => by rw [same]

/-- Padded settings are read as the settings without the spare entries, or one of these is refused.
-/
theorem keeps_to_layer (padded : Padded trees.whole keys .settings whole first second)
    (path : Path) :
    KeepsTo trees keys (· = ·) (read path whole) (read path first) (read path second) :=
  keeps_to_record layer_fields_keep layer_fields_plain rfl "struct PartialConfig" .empty padded path

end LayerEntry

end

end ManifestLint
