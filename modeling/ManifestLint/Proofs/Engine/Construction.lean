import Mathlib.Data.List.Nodup
import ManifestLint.Config.Document
import ManifestLint.Proofs.Faults

/-!
What a lint section means. The rules that are refused are named apart from the order of the checks,
and so are the sections that describe an engine. The checks of a section leave nothing for the check
of the engine's own rules to refuse.
-/

namespace ManifestLint

/-- The code points with the Unicode property White_Space. -/
def Text.whiteSpace : List Nat :=
  [0x09, 0x0A, 0x0B, 0x0C, 0x0D, 0x20, 0x85, 0xA0, 0x1680, 0x2000, 0x2001, 0x2002, 0x2003, 0x2004,
    0x2005, 0x2006, 0x2007, 0x2008, 0x2009, 0x200A, 0x2028, 0x2029, 0x202F, 0x205F, 0x3000]

theorem is_blank_iff_white_space (char : Char) :
    Text.isBlank char = true ↔ char.toNat ∈ Text.whiteSpace := by
  have bound (code : UInt32) : char.val ≤ code ↔ char.toNat ≤ code.toNat := Iff.rfl
  have lower (code : UInt32) : code ≤ char.val ↔ code.toNat ≤ char.toNat := Iff.rfl
  have same (code : UInt32) : char.val = code ↔ char.toNat = code.toNat := UInt32.toNat_inj.symm
  simp only [Text.isBlank, Bool.or_eq_true, Bool.and_eq_true, decide_eq_true_eq, beq_iff_eq,
    bound, lower, same, Text.whiteSpace, List.mem_cons, List.not_mem_nil, or_false]
  simp only [UInt32.reduceToNat]
  omega

/-- A text that holds a character that is no white space. -/
def Text.Shows (text : String) : Prop := ∃ char ∈ text.toList, char.toNat ∉ Text.whiteSpace

theorem blank_eq_false_iff_shows (text : String) : Text.Blank text = false ↔ Text.Shows text := by
  rw [Text.Blank, List.all_eq_false, Text.Shows]
  simp only [is_blank_iff_white_space]

/-- A rule that can be reported meaningfully. -/
structure Rule.WellFormed (rule : Rule) : Prop where
  nameShows : Text.Shows rule.name
  messageShows : Text.Shows rule.message
  needlesFilled : ∀ needle ∈ rule.condition.needles, needle ≠ ""

theorem rule_check_accepts_iff (rule : Rule) : rule.check = .ok () ↔ rule.WellFormed := by
  have needles : rule.condition.needles.any String.isEmpty = false ↔
      ∀ needle ∈ rule.condition.needles, needle ≠ "" := by
    simp only [List.any_eq_false, String.isEmpty_iff, ne_eq]
  constructor
  · intro accepted
    simp only [Rule.check] at accepted
    split at accepted
    · simp at accepted
    · split at accepted
      · simp at accepted
      · split at accepted
        · simp at accepted
        · next name message filled =>
          simp only [Bool.not_eq_true] at name message filled
          exact ⟨(blank_eq_false_iff_shows _).1 name, (blank_eq_false_iff_shows _).1 message,
            needles.1 filled⟩
  · intro formed
    have name := (blank_eq_false_iff_shows _).2 formed.nameShows
    have message := (blank_eq_false_iff_shows _).2 formed.messageShows
    have filled := needles.2 formed.needlesFilled
    simp only [Rule.check, name, message, filled, Bool.false_eq_true, if_false]

def Rule.builtinNames : List String := Rule.builtin.map (·.name)

theorem is_builtin_iff (name : String) : Rule.isBuiltin name = true ↔ name ∈ Rule.builtinNames := by
  simp only [Rule.isBuiltin, Rule.builtinNames, List.any_eq_true, beq_iff_eq, List.mem_map]

theorem builtin_rules_well_formed (rule : Rule) (member : rule ∈ Rule.builtin) :
    rule.WellFormed := by
  rw [← rule_check_accepts_iff]
  simp only [Rule.builtin, List.mem_cons, List.not_mem_nil, or_false] at member
  rcases member with rfl | rfl <;> decide

theorem builtin_names_distinct : Rule.builtinNames.Nodup := by decide

theorem check_rules_step (seen : List String) (rule : Rule) (rules : List Rule) :
    Engine.checkRules seen (rule :: rules) = .ok () ↔
      rule.check = .ok () ∧ rule.name ∉ seen ∧
        Engine.checkRules (rule.name :: seen) rules = .ok () := by
  rw [Engine.checkRules, bind_eq_ok_iff]
  by_cases repeated : rule.name ∈ seen
  · simp [repeated, bind, Except.bind, throw, throwThe, MonadExceptOf.throw]
  · have fresh : seen.contains rule.name = false := by simpa using repeated
    simp only [fresh, Bool.false_eq_true, if_false, repeated, not_false_eq_true, true_and]
    constructor
    · rintro ⟨⟨⟩, checked, others⟩
      exact ⟨checked, others⟩
    · rintro ⟨checked, others⟩
      exact ⟨(), checked, others⟩

/-- The induction is on the rules; what it carries is the list of names seen before them. -/
theorem check_rules_accepts_iff (seen : List String) (rules : List Rule) :
    Engine.checkRules seen rules = .ok () ↔
      (∀ rule ∈ rules, rule.WellFormed) ∧ (rules.map (·.name)).Nodup ∧
        ∀ rule ∈ rules, rule.name ∉ seen := by
  induction rules generalizing seen with
  | nil => simp [Engine.checkRules]
  | cons rule rules induction =>
      rw [check_rules_step, rule_check_accepts_iff, induction]
      rw [List.forall_mem_cons, List.forall_mem_cons, List.map_cons, List.nodup_cons]
      constructor
      · rintro ⟨formed, fresh, othersFormed, distinct, others⟩
        refine ⟨⟨formed, othersFormed⟩, ⟨?_, distinct⟩, fresh, ?_⟩
        · intro member
          obtain ⟨other, otherMember, same⟩ := List.mem_map.1 member
          apply others other otherMember
          exact List.mem_cons.2 (.inl same)
        · intro other member repeated
          exact others other member (List.mem_cons_of_mem _ repeated)
      · rintro ⟨⟨formed, othersFormed⟩, ⟨unlike, distinct⟩, fresh, others⟩
        refine ⟨formed, fresh, othersFormed, distinct, ?_⟩
        intro other member repeated
        rcases List.mem_cons.1 repeated with same | before
        · exact unlike (List.mem_map.2 ⟨other, member, same⟩)
        · exact others other member before

theorem of_rules_accepts_iff (rules : List Rule) (engine : Engine) :
    Engine.ofRules rules = .ok engine ↔
      engine = ⟨rules⟩ ∧ (∀ rule ∈ rules, rule.WellFormed) ∧ (rules.map (·.name)).Nodup := by
  rw [Engine.ofRules, bind_eq_ok_iff]
  constructor
  · rintro ⟨_, checked, same⟩
    cases same
    have accepted := (check_rules_accepts_iff [] rules).1 checked
    exact ⟨rfl, accepted.1, accepted.2.1⟩
  · rintro ⟨rfl, formed, distinct⟩
    refine ⟨(), (check_rules_accepts_iff [] rules).2 ⟨formed, distinct, ?_⟩, rfl⟩
    intro rule _ seen
    exact absurd seen List.not_mem_nil

namespace Engine

theorem rules_of_findings (engine : Engine) (manifest : Manifest) :
    ((engine.findings manifest).map (·.rule)).Sublist engine.names := by
  rw [findings, List.map_map]
  exact List.filter_sublist.map _

theorem findings_distinct {engine : Engine} (distinct : engine.names.Nodup) (manifest : Manifest) :
    ((engine.findings manifest).map (·.rule)).Nodup :=
  distinct.sublist (engine.rules_of_findings manifest)

/-- Rules that are kept by their names keep their findings. -/
theorem findings_of_kept (rules : List Rule) (keep : String → Bool) (manifest : Manifest) :
    findings ⟨rules.filter fun rule => keep rule.name⟩ manifest =
      (findings ⟨rules⟩ manifest).filter fun finding => keep finding.rule := by
  rw [findings, findings, List.filter_map, List.filter_filter, List.filter_filter]
  simp only [Function.comp_def, Bool.and_comm]

end Engine

namespace LintSection

/-- A lint section that describes an engine. Disabled rules must be well formed and distinct too. -/
structure Acceptable (lint : LintSection) : Prop where
  wellFormed : ∀ rule ∈ lint.rules, rule.WellFormed
  distinct : (lint.rules.map (·.name)).Nodup
  unshadowed : ∀ rule ∈ lint.rules, rule.name ∉ Rule.builtinNames
  known : ∀ name ∈ lint.disable, name ∈ Rule.builtinNames ∨ name ∈ lint.rules.map (·.name)

/-- Built-in rules, then custom rules in their order, without the disabled ones. -/
def activeRules (lint : LintSection) : List Rule :=
  (Rule.builtin ++ lint.rules).filter fun rule => rule.name ∉ lint.disable

variable (lint : LintSection)

theorem all_names_distinct (distinct : (lint.rules.map (·.name)).Nodup)
    (unshadowed : ∀ rule ∈ lint.rules, rule.name ∉ Rule.builtinNames) :
    ((Rule.builtin ++ lint.rules).map (·.name)).Nodup := by
  rw [List.map_append, List.nodup_append]
  refine ⟨builtin_names_distinct, distinct, ?_⟩
  rintro name builtin custom member rfl
  obtain ⟨rule, ruleMember, rfl⟩ := List.mem_map.1 member
  exact unshadowed rule ruleMember builtin

/-- Neither joining the rules with the built-in ones nor leaving some out makes two names equal, so
the check of the rules that are left never refuses any. -/
theorem of_active_rules (wellFormed : ∀ rule ∈ lint.rules, rule.WellFormed)
    (distinct : (lint.rules.map (·.name)).Nodup)
    (unshadowed : ∀ rule ∈ lint.rules, rule.name ∉ Rule.builtinNames) :
    Engine.ofRules lint.activeRules = .ok ⟨lint.activeRules⟩ := by
  rw [of_rules_accepts_iff]
  refine ⟨rfl, ?_, ?_⟩
  · intro rule member
    have present := List.mem_append.1 (List.mem_of_mem_filter member)
    rcases present with builtin | custom
    · exact builtin_rules_well_formed rule builtin
    · exact wellFormed rule custom
  · have sublist : lint.activeRules.Sublist (Rule.builtin ++ lint.rules) := List.filter_sublist
    exact (lint.all_names_distinct distinct unshadowed).sublist (sublist.map _)

def firstUnknown (lint : LintSection) : Option String :=
  lint.disable.find? fun name => name ∉ Rule.builtinNames ∧ name ∉ lint.rules.map (·.name)

def firstShadow (lint : LintSection) : Option Rule :=
  lint.rules.find? fun rule => rule.name ∈ Rule.builtinNames

theorem of_section_checks :
    Engine.ofSection lint =
      match Engine.checkRules [] lint.rules, lint.firstUnknown, lint.firstShadow with
      | .error fault, _, _ => .error fault
      | .ok (), some name, _ => .error (.unknown name)
      | .ok (), none, some rule => .error (.repeated rule.name)
      | .ok (), none, none => Engine.ofRules lint.activeRules := by
  have unknown : lint.disable.find? (fun name =>
      !(Rule.isBuiltin name || lint.rules.any (·.name == name))) = lint.firstUnknown := by
    rw [firstUnknown]
    congr 1
    funext name
    rw [Bool.eq_iff_iff]
    simp only [Bool.not_eq_true', Bool.or_eq_false_iff, decide_eq_true_eq]
    simp only [← Bool.not_eq_true, is_builtin_iff, List.any_eq_true, beq_iff_eq, List.mem_map]
  have shadow : lint.rules.find? (fun rule => Rule.isBuiltin rule.name) = lint.firstShadow := by
    rw [firstShadow]
    congr 1
    funext rule
    rw [Bool.eq_iff_iff, is_builtin_iff, decide_eq_true_eq]
  have active : (Rule.builtin ++ lint.rules).filter (fun rule => !lint.disable.contains rule.name) =
      lint.activeRules := by
    rw [activeRules]
    congr 1
    funext rule
    simp
  rw [Engine.ofSection]
  dsimp only
  rw [unknown, shadow, active]
  cases Engine.checkRules [] lint.rules with
  | error fault => rfl
  | ok _ =>
      cases lint.firstUnknown with
      | some name => rfl
      | none =>
          cases lint.firstShadow with
          | some rule => rfl
          | none => rfl

theorem first_unknown_eq_none_iff :
    lint.firstUnknown = none ↔
      ∀ name ∈ lint.disable, name ∈ Rule.builtinNames ∨ name ∈ lint.rules.map (·.name) := by
  rw [firstUnknown, List.find?_eq_none]
  simp only [decide_eq_true_eq, not_and_or, not_not]

theorem first_shadow_eq_none_iff :
    lint.firstShadow = none ↔ ∀ rule ∈ lint.rules, rule.name ∉ Rule.builtinNames := by
  rw [firstShadow, List.find?_eq_none]
  simp only [decide_eq_true_eq]

theorem of_section_accepted (acceptable : lint.Acceptable) :
    Engine.ofSection lint = .ok ⟨lint.activeRules⟩ := by
  have checked : Engine.checkRules [] lint.rules = .ok () := by
    rw [check_rules_accepts_iff]
    exact ⟨acceptable.wellFormed, acceptable.distinct, fun _ _ seen => absurd seen List.not_mem_nil⟩
  rw [of_section_checks, checked, (first_unknown_eq_none_iff lint).2 acceptable.known,
    (first_shadow_eq_none_iff lint).2 acceptable.unshadowed]
  exact lint.of_active_rules acceptable.wellFormed acceptable.distinct acceptable.unshadowed

theorem acceptable_of_section {engine : Engine} (built : Engine.ofSection lint = .ok engine) :
    lint.Acceptable := by
  rw [of_section_checks] at built
  split at built
  · simp at built
  · simp at built
  · simp at built
  · next checked unknown shadow =>
    have accepted := (check_rules_accepts_iff [] lint.rules).1 checked
    exact ⟨accepted.1, accepted.2.1, (first_shadow_eq_none_iff lint).1 shadow,
      (first_unknown_eq_none_iff lint).1 unknown⟩

theorem of_section_eq_ok_iff (engine : Engine) :
    Engine.ofSection lint = .ok engine ↔ lint.Acceptable ∧ engine = ⟨lint.activeRules⟩ := by
  constructor
  · intro built
    have acceptable := lint.acceptable_of_section built
    rw [lint.of_section_accepted acceptable] at built
    exact ⟨acceptable, (Except.ok.inj built).symm⟩
  · rintro ⟨acceptable, rfl⟩
    exact lint.of_section_accepted acceptable

variable {lint}

theorem active_rules_of_same_names {disable : List String}
    (same : ∀ name, name ∈ disable ↔ name ∈ lint.disable) :
    activeRules { lint with disable } = lint.activeRules := by
  rw [activeRules, activeRules]
  congr 1
  funext rule
  simp only [same]

/-- Of the disabled names only the set counts, apart from which of several unknown ones is reported.
-/
theorem of_section_of_same_names {disable : List String}
    (same : ∀ name, name ∈ disable ↔ name ∈ lint.disable) :
    Engine.ofSection { lint with disable } = Engine.ofSection lint ∨
      ∃ reported other, lint.firstUnknown = some reported ∧
        firstUnknown { lint with disable } = some other ∧
        Engine.ofSection lint = .error (.unknown reported) ∧
        Engine.ofSection { lint with disable } = .error (.unknown other) := by
  have known : firstUnknown { lint with disable } = none ↔ lint.firstUnknown = none := by
    rw [first_unknown_eq_none_iff, first_unknown_eq_none_iff]
    simp only [same]
  have shadow : firstShadow { lint with disable } = lint.firstShadow := rfl
  rw [of_section_checks, of_section_checks lint, shadow, active_rules_of_same_names same]
  cases checked : Engine.checkRules [] lint.rules with
  | error fault => exact .inl rfl
  | ok _ =>
      cases found : lint.firstUnknown with
      | none =>
          rw [known.2 found]
          exact .inl rfl
      | some reported =>
          cases otherFound : firstUnknown { lint with disable } with
          | none =>
              rw [known.1 otherFound] at found
              cases found
          | some other => exact .inr ⟨reported, other, rfl, rfl, rfl, rfl⟩

/-- The exact meaning of a lint section. The third part is about the second check of rules, which
finds nothing to refuse whenever it is reached, and the last about the config around the section. -/
theorem exact_meaning (lint : LintSection) :
    ((∃ engine, Engine.ofSection lint = .ok engine) ↔ lint.Acceptable) ∧
      (∀ engine, Engine.ofSection lint = .ok engine →
        engine.rules = lint.activeRules ∧ engine.names.Nodup) ∧
      (Engine.checkRules [] lint.rules = .ok () → lint.firstShadow = none →
        Engine.checkRules [] lint.activeRules = .ok ()) ∧
      (∀ disable, (∀ name, name ∈ disable ↔ name ∈ lint.disable) →
        Engine.ofSection { lint with disable } = Engine.ofSection lint ∨
          ∃ reported other, lint.firstUnknown = some reported ∧
            firstUnknown { lint with disable } = some other ∧
            Engine.ofSection lint = .error (.unknown reported) ∧
            Engine.ofSection { lint with disable } = .error (.unknown other)) ∧
      (∀ config : Config, config.lint = lint →
        ((∃ valid, config.checked = .ok valid) ↔ lint.Acceptable) ∧
          ((∃ engine, config.engine = .ok engine) ↔ lint.Acceptable)) := by
  have described : (∃ engine, Engine.ofSection lint = .ok engine) ↔ lint.Acceptable := by
    constructor
    · rintro ⟨engine, built⟩
      exact acceptable_of_section lint built
    · intro acceptable
      exact ⟨_, of_section_accepted lint acceptable⟩
  refine ⟨described, ?_, ?_, ?_, ?_⟩
  · intro engine built
    obtain ⟨acceptable, rfl⟩ := (of_section_eq_ok_iff lint engine).1 built
    have accepted := of_active_rules lint acceptable.wellFormed acceptable.distinct
        acceptable.unshadowed
    exact ⟨rfl, ((of_rules_accepts_iff _ _).1 accepted).2.2⟩
  · intro checked unshadowed
    have custom := (check_rules_accepts_iff [] lint.rules).1 checked
    have accepted := of_active_rules lint custom.1 custom.2.1
      ((first_shadow_eq_none_iff lint).1 unshadowed)
    obtain ⟨_, active, _⟩ := bind_eq_ok_iff.1 accepted
    exact active
  · intro disable same
    exact of_section_of_same_names same
  · rintro config rfl
    refine ⟨?_, described⟩
    rw [← described, Config.checked, Config.engine]
    cases Engine.ofSection config.lint with
    | error fault => simp [Except.map]
    | ok engine => simp [Except.map]

/-- Two orders of the same disabled names, none of which is there, are refused for different names.
-/
theorem order_of_unknown_names_matters :
    ¬ ∀ (lint : LintSection) (disable : List String),
        (∀ name, name ∈ disable ↔ name ∈ lint.disable) →
          Engine.ofSection { lint with disable } = Engine.ofSection lint := by
  intro always
  have swapped := always ⟨["x", "y"], []⟩ ["y", "x"] (by simp [or_comm])
  revert swapped
  decide

end LintSection

end ManifestLint
