import ManifestLint.Check
import ManifestLint.Proofs.Engine.Construction

/-!
Disabling more rules of valid settings. Names are added to those of the lint section unless they are
there already, and the only thing that can be wrong then is that one of them is no rule's name.
-/

namespace ManifestLint

theorem add_disabled_cons (known names : List String) (name : String) :
    Setup.addDisabled known (name :: names) =
      Setup.addDisabled (if known.contains name then known else known ++ [name]) names := rfl

theorem mem_add_disabled_iff (known names : List String) (name : String) :
    name ∈ Setup.addDisabled known names ↔ name ∈ known ∨ name ∈ names := by
  induction names generalizing known with
  | nil => simp [Setup.addDisabled]
  | cons other names induction =>
      rw [add_disabled_cons, induction, List.mem_cons]
      split
      · next present =>
        have member : other ∈ known := by simpa using present
        constructor
        · rintro (old | later)
          · exact .inl old
          · exact .inr (.inr later)
        · rintro (old | rfl | later)
          · exact .inl old
          · exact .inl member
          · exact .inr later
      · rw [List.mem_append, List.mem_singleton, or_assoc]

/-- A name that was there already hides none of the later ones from a search. -/
theorem find_add_disabled (sought : String → Bool) (known names : List String) :
    (Setup.addDisabled known names).find? sought =
      (known.find? sought).or (names.find? sought) := by
  induction names generalizing known with
  | nil => simp [Setup.addDisabled]
  | cons name names induction =>
      rw [add_disabled_cons, induction, List.find?_cons]
      by_cases found : sought name = true
      · rw [found]
        by_cases member : name ∈ known
        · have present : (known.find? sought).isSome := by
            rw [List.find?_isSome]
            exact ⟨name, member, found⟩
          obtain ⟨first, same⟩ := Option.isSome_iff_exists.1 present
          simp [member, same]
        · simp [member, found, List.find?_append]
      · rw [Bool.not_eq_true] at found
        rw [found]
        by_cases member : name ∈ known
        · simp [member]
        · simp [member, found, List.find?_append]

namespace LintSection

variable (lint : LintSection)

def Knows (name : String) : Prop := name ∈ Rule.builtinNames ∨ name ∈ lint.rules.map (·.name)

instance (name : String) : Decidable (lint.Knows name) :=
  inferInstanceAs (Decidable (name ∈ Rule.builtinNames ∨ name ∈ lint.rules.map (·.name)))

def recognise (name : String) : Except RuleFault Unit :=
  if lint.Knows name then .ok () else .error (.unknown name)

def disabling (names : List String) : LintSection :=
  { lint with disable := Setup.addDisabled lint.disable names }

theorem first_failure_recognise_iff (names : List String) (fault : RuleFault) :
    FirstFailure lint.recognise names fault ↔
      ∃ name, names.find? (fun name => ¬ lint.Knows name) = some name ∧ fault = .unknown name := by
  induction names with
  | nil => simp [no_first_failure_of_nothing]
  | cons name names induction =>
      rw [first_failure_cons_iff, induction, List.find?_cons, recognise]
      by_cases known : lint.Knows name
      · simp [known]
      · simp [known, eq_comm]

theorem first_unknown_disabling (names : List String) (valid : lint.Acceptable) :
    firstUnknown (lint.disabling names) = names.find? (fun name => ¬ lint.Knows name) := by
  have old : lint.firstUnknown = none := (first_unknown_eq_none_iff lint).2 valid.known
  have test : (fun name => decide (name ∉ Rule.builtinNames ∧ name ∉ lint.rules.map (·.name))) =
      fun name => decide (¬ lint.Knows name) := by
    funext name
    rw [decide_eq_decide, Knows, not_or]
  rw [firstUnknown, test] at old
  rw [firstUnknown]
  change (Setup.addDisabled lint.disable names).find?
    (fun name => decide (name ∉ Rule.builtinNames ∧ name ∉ lint.rules.map (·.name))) = _
  rw [test, find_add_disabled, old, Option.none_or]

theorem active_rules_disabling (names : List String) :
    (lint.disabling names).activeRules = lint.activeRules.filter fun rule => rule.name ∉ names := by
  rw [activeRules, activeRules, List.filter_filter]
  congr 1
  funext rule
  simp only [disabling, mem_add_disabled_iff, not_or, Bool.decide_and, Bool.and_comm]

/-- What the engine is when more names are disabled in a section that describes one. -/
theorem of_section_disabling (names : List String) (valid : lint.Acceptable) :
    Engine.ofSection (lint.disabling names) =
      match names.find? (fun name => ¬ lint.Knows name) with
      | some name => .error (.unknown name)
      | none => .ok ⟨lint.activeRules.filter fun rule => rule.name ∉ names⟩ := by
  have checked : Engine.checkRules [] (lint.disabling names).rules = .ok () := by
    rw [check_rules_accepts_iff]
    exact ⟨valid.wellFormed, valid.distinct, fun _ _ seen => absurd seen List.not_mem_nil⟩
  have shadow : (lint.disabling names).firstShadow = none :=
    (first_shadow_eq_none_iff _).2 valid.unshadowed
  have active := of_active_rules (lint.disabling names) valid.wellFormed valid.distinct
    valid.unshadowed
  rw [of_section_checks, checked, shadow, first_unknown_disabling lint names valid]
  rw [active_rules_disabling] at active ⊢
  cases names.find? (fun name => decide (¬ lint.Knows name)) with
  | some name => rfl
  | none => exact active

end LintSection

end ManifestLint
