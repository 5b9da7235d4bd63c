import ManifestLint.Proofs.Engine.Construction

/-!
Lists of rules in another order, or with some of the rules left out. An accepted list stays
accepted, and what each rule finds stays as it was: the findings follow the rules. A refused list
stays refused, if for another fault.
-/

namespace ManifestLint

namespace Engine

section
variable {rules others : List Rule}

/-- Some of the rules of an accepted list are accepted in any order, as long as none comes twice. -/
theorem of_rules_among (among : ∀ rule ∈ others, rule ∈ rules)
    (distinct : (others.map (·.name)).Nodup) (accepted : ofRules rules = .ok ⟨rules⟩) :
    ofRules others = .ok ⟨others⟩ := by
  obtain ⟨_, formed, _⟩ := (of_rules_accepts_iff rules _).1 accepted
  refine (of_rules_accepts_iff others _).2 ⟨rfl, ?_, distinct⟩
  intro rule member
  exact formed rule (among rule member)

theorem of_rules_permuted (same : others.Perm rules) (accepted : ofRules rules = .ok ⟨rules⟩) :
    ofRules others = .ok ⟨others⟩ := by
  obtain ⟨_, _, distinct⟩ := (of_rules_accepts_iff rules _).1 accepted
  exact of_rules_among (fun _ member => same.mem_iff.1 member) ((same.map _).nodup_iff.2 distinct)
    accepted

theorem of_rules_sublist (chosen : others.Sublist rules) (accepted : ofRules rules = .ok ⟨rules⟩) :
    ofRules others = .ok ⟨others⟩ := by
  obtain ⟨_, _, distinct⟩ := (of_rules_accepts_iff rules _).1 accepted
  exact of_rules_among (fun _ member => chosen.subset member) (distinct.sublist (chosen.map _))
    accepted

theorem engine_of_rules {engine : Engine} (accepted : ofRules rules = .ok engine) :
    engine = ⟨rules⟩ :=
  ((of_rules_accepts_iff rules engine).1 accepted).1

theorem refused_permuted (same : others.Perm rules) {fault : RuleFault}
    (refused : ofRules rules = .error fault) :
    ∃ other, ofRules others = .error other := by
  cases answer : ofRules others with
  | error other => exact ⟨other, rfl⟩
  | ok engine =>
      rw [engine_of_rules answer] at answer
      rw [of_rules_permuted same.symm answer] at refused
      cases refused

end

theorem find_of_distinct {findings : List Finding} (distinct : (findings.map (·.rule)).Nodup)
    {finding : Finding} (member : finding ∈ findings) :
    findings.find? (fun other => other.rule == finding.rule) = some finding := by
  cases found : findings.find? (fun other => other.rule == finding.rule) with
  | none => exact absurd (List.find?_eq_none.1 found finding member) (by simp)
  | some other =>
      have named : other.rule = finding.rule := by simpa using List.find?_some found
      rw [List.inj_on_of_nodup_map distinct (List.mem_of_find?_eq_some found) member named]

/-- What an engine finds under the name of one of its rules. -/
theorem find_under_name {engine : Engine} (distinct : engine.names.Nodup) {rule : Rule}
    (member : rule ∈ engine.rules) (manifest : Manifest) :
    (engine.findings manifest).find? (fun finding => finding.rule == rule.name) =
      if rule.fires manifest then some ⟨rule.name, rule.message⟩ else none := by
  by_cases fires : rule.fires manifest = true
  · rw [if_pos fires]
    have reported : (⟨rule.name, rule.message⟩ : Finding) ∈ engine.findings manifest :=
      List.mem_map_of_mem (List.mem_filter.2 ⟨member, fires⟩)
    exact find_of_distinct (findings_distinct distinct manifest) reported
  · rw [if_neg fires, List.find?_eq_none]
    intro finding found named
    obtain ⟨other, fired, rfl⟩ := List.mem_map.1 found
    rw [List.mem_filter] at fired
    have equal :
        other = rule := List.inj_on_of_nodup_map distinct fired.1 member (by simpa using named)
    exact fires (equal ▸ fired.2)

/-- Findings in the order of some rules. A finding of none of them is left out. -/
def arrange (rules : List Rule) (findings : List Finding) : List Finding :=
  rules.filterMap fun rule => findings.find? fun finding => finding.rule == rule.name

/-- The rules of an engine, or some of them in any order, find what the engine finds of them. -/
theorem findings_eq_arrange {engine : Engine} (distinct : engine.names.Nodup) {rules : List Rule}
    (subset : ∀ rule ∈ rules, rule ∈ engine.rules) (manifest : Manifest) :
    findings ⟨rules⟩ manifest = arrange rules (engine.findings manifest) := by
  rw [arrange, findings, ← List.filterMap_eq_filter, List.map_filterMap]
  apply List.filterMap_congr
  intro rule member
  rw [find_under_name distinct (subset rule member), Option.guard]
  cases rule.fires manifest <;> rfl

theorem findings_permuted {rules others : List Rule} (same : others.Perm rules)
    (manifest : Manifest) :
    (findings ⟨others⟩ manifest).Perm (findings ⟨rules⟩ manifest) :=
  (same.filter _).map _

theorem kept_of_sublist {rules chosen : List Rule} (some : chosen.Sublist rules)
    (distinct : (rules.map (·.name)).Nodup) :
    rules.filter (fun rule => rule.name ∈ chosen.map (·.name)) = chosen := by
  induction some with
  | slnil => rfl
  | @cons chosen rules rule some induction =>
      rw [List.map_cons, List.nodup_cons] at distinct
      have left : rule.name ∉ chosen.map (·.name) :=
        fun named => distinct.1 ((some.map _).subset named)
      rw [List.filter_cons_of_neg (by simpa using left), induction distinct.2]
  | @cons_cons chosen rules rule some induction =>
      rw [List.map_cons, List.nodup_cons] at distinct
      rw [List.filter_cons_of_pos (by simp)]
      congr 1
      calc
        rules.filter (fun other => other.name ∈ (rule :: chosen).map (·.name)) =
            rules.filter (fun other => other.name ∈ chosen.map (·.name)) := by
          apply List.filter_congr
          intro other member
          have unlike : other.name ≠ rule.name :=
            fun same => distinct.1 (same ▸ List.mem_map_of_mem member)
          simp only [List.map_cons, List.mem_cons, unlike, false_or]
        _ = chosen := induction distinct.2

theorem findings_of_sublist {rules chosen : List Rule} (some : chosen.Sublist rules)
    (distinct : (rules.map (·.name)).Nodup) (manifest : Manifest) :
    findings ⟨chosen⟩ manifest =
      (findings ⟨rules⟩ manifest).filter fun finding => finding.rule ∈ chosen.map (·.name) := by
  have kept := findings_of_kept rules (fun name => decide (name ∈ chosen.map (·.name))) manifest
  rwa [kept_of_sublist some distinct] at kept

/-- The order of rules is the order of findings and nothing else. Only the fault for which rules are
refused depends on it too, as the last part shows by two rules of one name. -/
theorem findings_follow_rules (rules : List Rule) :
    (∀ engine, ofRules rules = .ok engine →
      (∀ permuted, permuted.Perm rules → ofRules permuted = .ok ⟨permuted⟩ ∧ ∀ manifest,
        findings ⟨permuted⟩ manifest = arrange permuted (engine.findings manifest) ∧
          (findings ⟨permuted⟩ manifest).Perm (engine.findings manifest) ∧
            (findings ⟨permuted⟩ manifest).Nodup) ∧
      (∀ chosen, chosen.Sublist rules → ofRules chosen = .ok ⟨chosen⟩ ∧ ∀ manifest,
        findings ⟨chosen⟩ manifest =
          (engine.findings manifest).filter fun finding => finding.rule ∈ chosen.map (·.name))) ∧
    (∀ fault, ofRules rules = .error fault → ∀ permuted, permuted.Perm rules →
      ∃ other, ofRules permuted = .error other) ∧
    ∃ bad swapped fault other, swapped.Perm bad ∧ ofRules bad = .error fault ∧
      ofRules swapped = .error other ∧
      fault ≠ other := by
  refine ⟨?_, fun fault refused permuted same => refused_permuted same refused, ?_⟩
  · intro engine accepted
    obtain ⟨rfl, _, distinct⟩ := (of_rules_accepts_iff rules engine).1 accepted
    refine ⟨?_, ?_⟩
    · intro permuted same
      refine ⟨of_rules_permuted same accepted, fun manifest => ?_⟩
      have reordered := findings_permuted same manifest
      refine ⟨findings_eq_arrange distinct (fun rule member => same.mem_iff.1 member) manifest,
        reordered, ?_⟩
      exact reordered.nodup_iff.2 (findings_distinct distinct manifest).of_map
    · intro chosen some
      exact ⟨of_rules_sublist some accepted, findings_of_sublist some distinct⟩
  · refine ⟨[⟨"", "m", .contains "x"⟩, ⟨"n", "", .contains "x"⟩],
      [⟨"n", "", .contains "x"⟩, ⟨"", "m", .contains "x"⟩],
      .blankName, .blankMessage "n", .swap _ _ _, by decide, by decide, by decide⟩

def pinningRules : List Rule :=
  [⟨"no-latest", "Image is not pinned", .contains ":latest"⟩,
    ⟨"no-root", "Image runs as root", .missing "USER "⟩]

theorem findings_of_swapped_rules :
    ofRules pinningRules = .ok ⟨pinningRules⟩ ∧ pinningRules.reverse.Perm pinningRules ∧
      ofRules pinningRules.reverse = .ok ⟨pinningRules.reverse⟩ ∧
      findings ⟨pinningRules.reverse⟩ ⟨"FROM node:latest"⟩ =
        [⟨"no-root", "Image runs as root"⟩, ⟨"no-latest", "Image is not pinned"⟩] := by
  have accepted : ofRules pinningRules = .ok ⟨pinningRules⟩ := by decide
  have same : pinningRules.reverse.Perm pinningRules := List.reverse_perm _
  obtain ⟨again, found⟩ := ((findings_follow_rules pinningRules).1 _ accepted).1 _ same
  refine ⟨accepted, same, again, ?_⟩
  rw [(found _).1]
  decide

end Engine

end ManifestLint
