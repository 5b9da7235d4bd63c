import Mathlib.Algebra.GroupWithZero.Nat
import ManifestLint.Workbench
import ManifestLint.Proofs.Engine.Construction
import ManifestLint.Proofs.Report.Failures

/-!
Whole sessions at a workbench. Whatever is done in them, the engine comes from the last build that
succeeded and the report holds what was linted since it was last cleared, also while the settings
describe no engine. Actions that fail could as well have been left out.
-/

namespace ManifestLint

namespace Engine

/-- An engine that is built in or comes from a lint section. -/
def Described (engine : Engine) : Prop := engine = .builtin ∨ ∃ lint, ofSection lint = .ok engine

/-- Custom rules are behind the built-in ones and none bears the name of one. -/
theorem Described.rules {engine : Engine} (described : engine.Described) :
    (∀ rule ∈ engine.rules, rule.WellFormed) ∧ engine.names.Nodup ∧
      ∀ rule ∈ engine.rules, rule.name ∈ Rule.builtinNames → rule ∈ Rule.builtin := by
  obtain rfl | ⟨lint, built⟩ := described
  · exact ⟨builtin_rules_well_formed, builtin_names_distinct, fun rule member _ => member⟩
  · obtain ⟨valid, rfl⟩ := (lint.of_section_eq_ok_iff engine).1 built
    have accepted := lint.of_active_rules valid.wellFormed valid.distinct valid.unshadowed
    have checked := (of_rules_accepts_iff _ _).1 accepted
    refine ⟨checked.2.1, checked.2.2, ?_⟩
    intro rule member named
    rcases List.mem_append.1 (List.mem_of_mem_filter member) with builtin | custom
    · exact builtin
    · exact absurd named (valid.unshadowed rule custom)

theorem Described.findings_distinct {engine : Engine} (described : engine.Described)
    (manifest : Manifest) :
    ((engine.findings manifest).map (·.rule)).Nodup :=
  Engine.findings_distinct described.rules.2.1 manifest

end Engine

namespace Workbench

variable {workbench next : Workbench} {action : Action}

theorem apply_of_ok (succeeded : workbench.step action = .ok next) :
    workbench.apply action = next := by
  rw [apply, succeeded]

theorem apply_of_error {fault : Fault} (failed : workbench.step action = .error fault) :
    workbench.apply action = workbench := by
  rw [apply, failed]

@[simp] theorem run_cons (workbench : Workbench) (action : Action) (actions : List Action) :
    workbench.run (action :: actions) = (workbench.apply action).run actions := rfl

@[simp] theorem run_append (workbench : Workbench) (first second : List Action) :
    workbench.run (first ++ second) = (workbench.run first).run second := List.foldl_append

/-- What a build does, and that nothing else touches the engine. -/
theorem engine_of_apply (workbench : Workbench) (action : Action) :
    (action = .build ∧ workbench.config.engine = .ok (workbench.apply action).engine) ∨
      (workbench.apply action).engine = workbench.engine ∧
        (action = .build → ∃ fault, workbench.config.engine = .error fault) := by
  cases action with
  | build =>
      cases built : workbench.config.engine with
      | ok engine =>
          have done : workbench.step .build = .ok { workbench with engine } := by
            rw [step, built]
            rfl
          exact .inl ⟨rfl, by rw [apply_of_ok done]⟩
      | error fault =>
          have failed : workbench.step .build = .error (.config (.lint fault)) := by
            rw [step, built]
            rfl
          exact .inr ⟨by rw [apply_of_error failed], fun _ => ⟨fault, rfl⟩⟩
  | replaceConfig document =>
      refine .inr ⟨?_, fun other => nomatch other⟩
      rw [apply, step]
      cases Config.ofDocument document <;> rfl
  | lint source bytes =>
      refine .inr ⟨?_, fun other => nomatch other⟩
      rw [apply, step]
      cases Manifest.ofBytes bytes <;> rfl
  | disable | enable | addRule | clear | render => exact .inr ⟨rfl, fun other => nomatch other⟩

def entryOf (workbench : Workbench) : Action → Option ManifestReport
  | .lint source bytes =>
      (Manifest.ofBytes bytes).toOption.map fun manifest =>
        ⟨source, workbench.engine.findings manifest⟩
  | _ => none

theorem entries_of_apply (workbench : Workbench) (action : Action) :
    (workbench.apply action).report.entries =
      if action = .clear then [] else workbench.report.entries ++
        (workbench.entryOf action).toList := by
  cases action with
  | clear => rfl
  | lint source bytes =>
      rw [if_neg (fun same => nomatch same), apply, step, entryOf]
      cases Manifest.ofBytes bytes with
      | error fault => exact (List.append_nil _).symm
      | ok manifest => rfl
  | replaceConfig document =>
      rw [if_neg (fun same => nomatch same), apply, step]
      cases Config.ofDocument document <;> exact (List.append_nil _).symm
  | build =>
      rw [if_neg (fun same => nomatch same), apply, step]
      cases workbench.config.engine <;> exact (List.append_nil _).symm
  | disable | enable | addRule | render =>
      rw [if_neg (fun same => nomatch same)]
      exact (List.append_nil _).symm

/-- Every entry of the report comes from an engine of its time. -/
structure Sound (workbench : Workbench) : Prop where
  engine : workbench.engine.Described
  entries : ∀ entry ∈ workbench.report.entries, (entry.findings.map (·.rule)).Nodup

theorem sound_start : start.Sound := ⟨.inl rfl, fun _ member => nomatch member⟩

theorem entry_of_sound (sound : workbench.Sound) {entry : ManifestReport}
    (added : workbench.entryOf action = some entry) : (entry.findings.map (·.rule)).Nodup := by
  cases action with
  | lint source bytes =>
      obtain ⟨manifest, _, rfl⟩ := Option.map_eq_some_iff.1 added
      exact sound.engine.findings_distinct manifest
  | replaceConfig | build | disable | enable | addRule | clear | render => cases added

theorem sound_apply (sound : workbench.Sound) (action : Action) :
    (workbench.apply action).Sound := by
  constructor
  · obtain ⟨_, built⟩ | ⟨same, _⟩ := workbench.engine_of_apply action
    · exact .inr ⟨workbench.config.lint, built⟩
    · rw [same]
      exact sound.engine
  · rw [entries_of_apply]
    intro entry member
    split at member
    · exact nomatch member
    · rcases List.mem_append.1 member with old | added
      · exact sound.entries entry old
      · exact entry_of_sound sound (Option.mem_toList.1 added)

theorem sound_run (sound : workbench.Sound) (actions : List Action) :
    (workbench.run actions).Sound := by
  induction actions generalizing workbench with
  | nil => exact sound
  | cons action actions induction => exact induction (sound_apply sound action)

def NoneBuilds (workbench : Workbench) (actions : List Action) : Prop :=
  ∀ before after, actions = before ++ .build :: after →
    ∃ fault, Engine.ofSection (workbench.run before).config.lint = .error fault

theorem none_builds_cons {actions : List Action}
    (first : action = .build → ∃ fault, Engine.ofSection workbench.config.lint = .error fault)
    (others : (workbench.apply action).NoneBuilds actions) :
    workbench.NoneBuilds (action :: actions) := by
  intro before after parts
  cases before with
  | nil =>
      cases parts
      exact first rfl
  | cons earlier before =>
      cases parts
      exact others before after rfl

/-- The last build of some actions that succeeds, if one does, makes their engine. -/
theorem engine_of_run (workbench : Workbench) (actions : List Action) :
    (workbench.NoneBuilds actions ∧ (workbench.run actions).engine = workbench.engine) ∨
      ∃ before after, actions = before ++ .build :: after ∧
        Engine.ofSection (workbench.run before).config.lint = .ok (workbench.run actions).engine ∧
        ((workbench.run before).apply .build).NoneBuilds after := by
  induction actions generalizing workbench with
  | nil =>
      refine .inl ⟨?_, rfl⟩
      intro before after parts
      simp at parts
  | cons action actions induction =>
      rw [run_cons]
      rcases induction (workbench.apply action) with ⟨noneBuilds, kept⟩ | ⟨before, after, rfl,
        built, later⟩
      · obtain ⟨rfl, built⟩ | ⟨same, first⟩ := workbench.engine_of_apply action
        · refine .inr ⟨[], actions, rfl, ?_, noneBuilds⟩
          rw [kept]
          exact built
        · exact .inl ⟨none_builds_cons first noneBuilds, kept.trans same⟩
      · exact .inr ⟨action :: before, after, rfl, built, later⟩

def linted (workbench : Workbench) : List Action → List ManifestReport
  | [] => []
  | action :: actions => (workbench.entryOf action).toList ++
      (workbench.apply action).linted actions

theorem entries_of_run (workbench : Workbench) {actions : List Action}
    (uncleared : .clear ∉ actions) :
    (workbench.run actions).report.entries =
      workbench.report.entries ++ workbench.linted actions := by
  induction actions generalizing workbench with
  | nil => exact (List.append_nil _).symm
  | cons action actions induction =>
      rw [List.mem_cons, not_or] at uncleared
      simp [induction (workbench.apply action) uncleared.2, entries_of_apply,
        if_neg (Ne.symm uncleared.1), linted, List.append_assoc]

theorem last_clear (actions : List Action) :
    ∃ before after, actions = before ++ after ∧
      (before = [] ∨ ∃ earlier, before = earlier ++ [.clear]) ∧
      .clear ∉ after := by
  induction actions with
  | nil => exact ⟨[], [], rfl, .inl rfl, List.not_mem_nil⟩
  | cons action actions induction =>
      obtain ⟨before, after, rfl, rfl | ⟨earlier, rfl⟩, uncleared⟩ := induction
      · by_cases clears : action = .clear
        · exact ⟨[action], after, rfl, .inr ⟨[], by rw [clears]; rfl⟩, uncleared⟩
        · refine ⟨[], action :: after, rfl, .inl rfl, ?_⟩
          rw [List.mem_cons, not_or]
          exact ⟨Ne.symm clears, uncleared⟩
      · exact ⟨action :: (earlier ++ [.clear]), after, rfl, .inr ⟨action :: earlier, rfl⟩,
          uncleared⟩

/-- The report of a session holds what was linted since it was last cleared. -/
theorem report_of_session (actions : List Action) :
    ∃ before after, actions = before ++ after ∧
      (before = [] ∨ ∃ earlier, before = earlier ++ [.clear]) ∧
      .clear ∉ after ∧
      (start.run actions).report.entries = (start.run before).linted after ∧
      (start.run actions).report.issueCount =
        (((start.run before).linted after).map (·.findings.length)).sum := by
  obtain ⟨before, after, rfl, cleared, uncleared⟩ := last_clear actions
  have empty : (start.run before).report.entries = [] := by
    obtain rfl | ⟨earlier, rfl⟩ := cleared
    · rfl
    · rw [run_append]
      rfl
  have entries :
      (start.run (before ++ after)).report.entries = (start.run before).linted after := by
    simp [entries_of_run _ uncleared, empty, List.nil_append]
  refine ⟨before, after, rfl, cleared, uncleared, entries, ?_⟩
  rw [Report.issue_count_eq_sum, entries]

/-- What each of some actions comes to: the workbench after it, or its fault. -/
def outcomes (workbench : Workbench) : List Action → List (Except Fault Workbench)
  | [] => []
  | action :: actions => workbench.step action :: (workbench.apply action).outcomes actions

def kept (workbench : Workbench) (actions : List Action) : List Action :=
  ((actions.zip (workbench.outcomes actions)).filter (·.2.isOk)).map (·.1)

theorem kept_of_ok (succeeded : workbench.step action = .ok next) (actions : List Action) :
    workbench.kept (action :: actions) = action :: next.kept actions := by
  rw [kept, outcomes, succeeded, apply_of_ok succeeded]
  rfl

theorem kept_of_error {fault : Fault} (failed : workbench.step action = .error fault)
    (actions : List Action) :
    workbench.kept (action :: actions) = workbench.kept actions := by
  rw [kept, outcomes, failed, apply_of_error failed]
  rfl

/-- Without the actions that fail a session ends in the same state, and what is left comes to the
same. -/
theorem run_kept (workbench : Workbench) (actions : List Action) :
    workbench.run (workbench.kept actions) = workbench.run actions ∧
      workbench.outcomes (workbench.kept actions) =
        (workbench.outcomes actions).filter (·.isOk) := by
  induction actions generalizing workbench with
  | nil => exact ⟨rfl, rfl⟩
  | cons action actions induction =>
      cases done : workbench.step action with
      | ok next =>
          rw [kept_of_ok done, run_cons, run_cons, outcomes, outcomes, done, apply_of_ok done]
          obtain ⟨same, left⟩ := induction next
          exact ⟨same, congrArg (Except.ok next :: ·) left⟩
      | error fault =>
          rw [kept_of_error done, run_cons, outcomes, done, apply_of_error done]
          exact induction workbench

/-- What holds after any actions at a new workbench. -/
theorem session_invariants (actions : List Action) :
    ((start.NoneBuilds actions ∧ (start.run actions).engine = .builtin) ∨
      ∃ before after, actions = before ++ .build :: after ∧
        Engine.ofSection (start.run before).config.lint = .ok (start.run actions).engine ∧
        ((start.run before).apply .build).NoneBuilds after) ∧
    (∀ rule ∈ (start.run actions).engine.rules, rule.WellFormed) ∧
    (start.run actions).engine.names.Nodup ∧
    (∀ rule ∈ (start.run actions).engine.rules, rule.name ∈ Rule.builtinNames →
      rule ∈ Rule.builtin) ∧
    (∀ entry ∈ (start.run actions).report.entries, (entry.findings.map (·.rule)).Nodup) ∧
    (∃ before after, actions = before ++ after ∧
      (before = [] ∨ ∃ earlier, before = earlier ++ [.clear]) ∧
      .clear ∉ after ∧
      (start.run actions).report.entries = (start.run before).linted after ∧
      (start.run actions).report.issueCount =
        (((start.run before).linted after).map (·.findings.length)).sum) ∧
    start.run (start.kept actions) = start.run actions ∧
    start.outcomes (start.kept actions) = (start.outcomes actions).filter (·.isOk) := by
  have sound := sound_run sound_start actions
  obtain ⟨formed, distinct, genuine⟩ := sound.engine.rules
  exact ⟨engine_of_run start actions, formed, distinct, genuine, sound.entries,
    report_of_session actions,
    run_kept start actions⟩

end Workbench

end ManifestLint
