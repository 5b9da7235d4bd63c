import Mathlib.Data.Nat.Find
import ManifestLint.Proofs.Check.Filtering

/-!
Which fault a list of rules or a lint section is refused for. A rule can be bad in itself or because
a rule before it has its name. Rules are refused for the first bad one among them, and in a section
the rules are looked at before the names to disable, and these before the built-in names.
-/

namespace ManifestLint

/-- What is wrong with a rule that comes behind others. Of several faults it is the first in this
order. -/
inductive Rule.FaultBehind (earlier : List Rule) (rule : Rule) : RuleFault → Prop where
  | blankName (unnamed : ¬ Text.Shows rule.name) : FaultBehind earlier rule .blankName
  | blankMessage (named : Text.Shows rule.name) (mute : ¬ Text.Shows rule.message) :
      FaultBehind earlier rule (.blankMessage rule.name)
  | emptyNeedle (named : Text.Shows rule.name) (telling : Text.Shows rule.message)
      (empty : "" ∈ rule.condition.needles) : FaultBehind earlier rule (.emptyNeedle rule.name)
  | repeated (formed : rule.WellFormed) (taken : rule.name ∈ earlier.map (·.name)) :
      FaultBehind earlier rule (.repeated rule.name)

def Rule.BadBehind (earlier : List Rule) (rule : Rule) : Prop :=
  ¬ Text.Shows rule.name ∨ ¬ Text.Shows rule.message ∨ "" ∈ rule.condition.needles ∨
    rule.name ∈ earlier.map (·.name)

section
variable {earlier : List Rule} {rule : Rule}

theorem needles_filled_iff : (∀ needle ∈ rule.condition.needles, needle ≠ "") ↔
    "" ∉ rule.condition.needles := by
  constructor
  · intro filled empty
    exact filled "" empty rfl
  · intro filled needle member same
    exact filled (same ▸ member)

theorem bad_behind_iff_fault :
    rule.BadBehind earlier ↔ ∃ fault, rule.FaultBehind earlier fault := by
  constructor
  · intro bad
    by_cases named : Text.Shows rule.name
    · by_cases telling : Text.Shows rule.message
      · by_cases empty : "" ∈ rule.condition.needles
        · exact ⟨_, .emptyNeedle named telling empty⟩
        · have taken : rule.name ∈ earlier.map (·.name) := by
            rcases bad with unnamed | mute | hollow | taken
            · exact absurd named unnamed
            · exact absurd telling mute
            · exact absurd hollow empty
            · exact taken
          exact ⟨_, .repeated ⟨named, telling, needles_filled_iff.2 empty⟩ taken⟩
      · exact ⟨_, .blankMessage named telling⟩
    · exact ⟨_, .blankName named⟩
  · rintro ⟨fault, wrong⟩
    cases wrong with
    | blankName unnamed => exact .inl unnamed
    | blankMessage _ mute => exact .inr (.inl mute)
    | emptyNeedle _ _ empty => exact .inr (.inr (.inl empty))
    | repeated _ taken => exact .inr (.inr (.inr taken))

theorem not_bad_behind_iff :
    ¬ rule.BadBehind earlier ↔ rule.WellFormed ∧ rule.name ∉ earlier.map (·.name) := by
  constructor
  · intro good
    obtain ⟨named, telling, filled, fresh⟩ : Text.Shows rule.name ∧ Text.Shows rule.message ∧
        "" ∉ rule.condition.needles ∧ rule.name ∉ earlier.map (·.name) := by
      simpa only [Rule.BadBehind, not_or, not_not] using good
    exact ⟨⟨named, telling, needles_filled_iff.2 filled⟩, fresh⟩
  · rintro ⟨⟨named, telling, filled⟩, fresh⟩ (unnamed | mute | empty | taken)
    · exact unnamed named
    · exact mute telling
    · exact needles_filled_iff.1 filled empty
    · exact fresh taken

namespace Engine

theorem check_rules_of_fault {seen : List String}
    (known : ∀ name, name ∈ seen ↔ name ∈ earlier.map (·.name)) {fault : RuleFault}
    (wrong : rule.FaultBehind earlier fault) (rest : List Rule) :
    checkRules seen (rule :: rest) = .error fault := by
  have shown {text : String} (shows : Text.Shows text) : Text.Blank text = false :=
    (blank_eq_false_iff_shows text).2 shows
  have blank {text : String} (hidden : ¬ Text.Shows text) : Text.Blank text = true := by
    rwa [← blank_eq_false_iff_shows, Bool.not_eq_false] at hidden
  rw [checkRules, bind_eq_error_iff]
  cases wrong with
  | blankName unnamed =>
      left
      rw [Rule.check, blank unnamed]
      rfl
  | blankMessage named mute =>
      left
      rw [Rule.check, shown named, blank mute]
      rfl
  | emptyNeedle named telling empty =>
      have hollow : rule.condition.needles.any String.isEmpty = true :=
        List.any_eq_true.2 ⟨"", empty, rfl⟩
      left
      rw [Rule.check, shown named, shown telling, hollow]
      rfl
  | repeated formed taken =>
      refine .inr ⟨(), (rule_check_accepts_iff rule).2 formed, ?_⟩
      rw [List.contains_iff_mem.2 ((known _).2 taken)]
      rfl

theorem check_rules_of_good {seen : List String}
    (known : ∀ name, name ∈ seen ↔ name ∈ earlier.map (·.name)) (good : ¬ rule.BadBehind earlier)
    (rest : List Rule) :
    checkRules seen (rule :: rest) = checkRules (rule.name :: seen) rest := by
  obtain ⟨formed, fresh⟩ := not_bad_behind_iff.1 good
  have unseen : seen.contains rule.name = false := by
    rw [← Bool.not_eq_true, List.contains_iff_mem, known]
    exact fresh
  rw [checkRules, (rule_check_accepts_iff rule).2 formed, unseen]
  rfl

end Engine

end

namespace Engine

/-- The fault of the rule at an index. -/
def FaultAt (rules : List Rule) (index : Nat) (fault : RuleFault) : Prop :=
  ∃ rule, rules[index]? = some rule ∧ rule.FaultBehind (rules.take index) fault

/-- At an index there is a rule with a blank name, a blank message, an empty needle, or the name of
an earlier rule. -/
def BadAt (rules : List Rule) (index : Nat) : Prop :=
  ∃ rule, rules[index]? = some rule ∧ rule.BadBehind (rules.take index)

/-- The fault at the least bad index. -/
def LeastFault (rules : List Rule) (fault : RuleFault) : Prop :=
  ∃ index, FaultAt rules index fault ∧ ∀ lower < index, ¬ BadAt rules lower

section
variable {earlier rest : List Rule} {rule : Rule}

theorem bad_at_iff_fault {rules : List Rule} {index : Nat} :
    BadAt rules index ↔ ∃ fault, FaultAt rules index fault := by
  simp only [BadAt, FaultAt, bad_behind_iff_fault]
  constructor
  · rintro ⟨rule, found, fault, wrong⟩
    exact ⟨fault, rule, found, wrong⟩
  · rintro ⟨fault, rule, found, wrong⟩
    exact ⟨rule, found, fault, wrong⟩

theorem bad_at_append {index : Nat} (inside : index < earlier.length) :
    BadAt (earlier ++ rest) index ↔ BadAt earlier index := by
  unfold BadAt
  rw [List.getElem?_append_left inside, List.take_append_of_le_length (Nat.le_of_lt inside)]

theorem bad_at_next : BadAt (earlier ++ rule :: rest) earlier.length ↔ rule.BadBehind earlier := by
  unfold BadAt
  rw [List.getElem?_append_right (Nat.le_refl _), Nat.sub_self, List.take_left]
  simp

theorem fault_at_next {fault : RuleFault} :
    FaultAt (earlier ++ rule :: rest) earlier.length fault ↔ rule.FaultBehind earlier fault := by
  unfold FaultAt
  rw [List.getElem?_append_right (Nat.le_refl _), Nat.sub_self, List.take_left]
  simp

theorem not_bad_past_end {rules : List Rule} {index : Nat} (past : rules.length ≤ index) :
    ¬ BadAt rules index := by
  rintro ⟨rule, found, _⟩
  rw [List.getElem?_eq_none past] at found
  cases found

theorem not_bad_at_concat (sound : ∀ index, ¬ BadAt earlier index)
    (good : ¬ rule.BadBehind earlier) :
    ∀ index, ¬ BadAt (earlier ++ [rule]) index := by
  intro index bad
  rcases Nat.lt_trichotomy index earlier.length with inside | same | past
  · exact sound index ((bad_at_append inside).1 bad)
  · rw [same] at bad
    exact good (bad_at_next.1 bad)
  · refine not_bad_past_end ?_ bad
    rw [List.length_append]
    exact past

theorem fault_behind_unique {fault other : RuleFault} (one : rule.FaultBehind earlier fault)
    (another : rule.FaultBehind earlier other) : fault = other :=
  Except.error.inj ((check_rules_of_fault (fun _ => Iff.rfl) one []).symm.trans
    (check_rules_of_fault (fun _ => Iff.rfl) another []))

/-- Behind good rules the first bad one has the least bad index. -/
theorem least_fault_of_next (sound : ∀ index, ¬ BadAt earlier index) {fault : RuleFault}
    (wrong : rule.FaultBehind earlier fault) (told : RuleFault) :
    LeastFault (earlier ++ rule :: rest) told ↔ fault = told := by
  have bad : BadAt (earlier ++ rule :: rest) earlier.length :=
    bad_at_next.2 (bad_behind_iff_fault.2 ⟨fault, wrong⟩)
  constructor
  · rintro ⟨index, found, least⟩
    rcases Nat.lt_trichotomy index earlier.length with inside | same | past
    · have early := bad_at_iff_fault.2 ⟨told, found⟩
      rw [bad_at_append inside] at early
      exact absurd early (sound index)
    · rw [same, fault_at_next] at found
      exact fault_behind_unique wrong found
    · exact absurd bad (least _ past)
  · rintro rfl
    refine ⟨earlier.length, fault_at_next.2 wrong, ?_⟩
    intro lower inside
    rw [bad_at_append inside]
    exact sound lower

end

/-- The induction is on the rules that are left; those before them are good, and their names are the
ones seen. -/
theorem check_rules_eq_error_iff {earlier : List Rule} {seen : List String}
    (known : ∀ name, name ∈ seen ↔ name ∈ earlier.map (·.name))
    (sound : ∀ index, ¬ BadAt earlier index) (rest : List Rule) (fault : RuleFault) :
    checkRules seen rest = .error fault ↔ LeastFault (earlier ++ rest) fault := by
  induction rest generalizing earlier seen with
  | nil =>
      rw [checkRules, List.append_nil]
      constructor
      · intro failed
        cases failed
      · rintro ⟨index, found, _⟩
        exact absurd (bad_at_iff_fault.2 ⟨fault, found⟩) (sound index)
  | cons rule rest induction =>
      by_cases bad : rule.BadBehind earlier
      · obtain ⟨first, wrong⟩ := bad_behind_iff_fault.1 bad
        rw [check_rules_of_fault known wrong, least_fault_of_next sound wrong, Except.error.injEq]
      · have grown : ∀ name, name ∈ rule.name :: seen ↔
            name ∈ (earlier ++ [rule]).map (·.name) := by
          intro name
          rw [List.mem_cons, known, List.map_append, List.mem_append, or_comm, List.map_singleton,
            List.mem_singleton]
        rw [check_rules_of_good known bad, induction grown (not_bad_at_concat sound bad),
          List.append_assoc, List.singleton_append]

theorem no_rule_is_bad (index : Nat) : ¬ BadAt [] index := not_bad_past_end (Nat.zero_le index)

theorem check_eq_error_iff (rules : List Rule) (fault : RuleFault) :
    checkRules [] rules = .error fault ↔ LeastFault rules fault :=
  check_rules_eq_error_iff (fun _ => Iff.rfl) no_rule_is_bad rules fault

theorem of_rules_eq_error_iff (rules : List Rule) (fault : RuleFault) :
    ofRules rules = .error fault ↔ LeastFault rules fault := by
  rw [ofRules, bind_eq_error_iff, ← check_eq_error_iff]
  simp [pure, Except.pure]

theorem least_fault_exists_iff (rules : List Rule) :
    (∃ fault, LeastFault rules fault) ↔ ∃ index, BadAt rules index := by
  classical
  constructor
  · rintro ⟨fault, index, found, _⟩
    exact ⟨index, bad_at_iff_fault.2 ⟨fault, found⟩⟩
  · intro bad
    obtain ⟨fault, found⟩ := bad_at_iff_fault.1 (Nat.find_spec bad)
    exact ⟨fault, Nat.find bad, found, fun lower below => Nat.find_min bad below⟩

theorem check_eq_ok_iff (rules : List Rule) :
    checkRules [] rules = .ok () ↔ ∀ index, ¬ BadAt rules index := by
  rw [← not_exists, ← least_fault_exists_iff]
  simp only [← check_eq_error_iff]
  cases checkRules [] rules with
  | ok _ => simp
  | error fault => simp

end Engine

namespace LintSection

variable (lint : LintSection)

/-- The first custom rule with a built-in name. -/
def FirstShadow (rule : Rule) : Prop :=
  ∃ before after, lint.rules = before ++ rule :: after ∧
    (∀ earlier ∈ before, earlier.name ∉ Rule.builtinNames) ∧
    rule.name ∈ Rule.builtinNames

/-- What a section is refused for: its rules, or else the first name to disable that is no rule's,
or else the first custom rule with a built-in name. -/
inductive RefusedFor : RuleFault → Prop where
  | rules {fault : RuleFault} (first : Engine.LeastFault lint.rules fault) : RefusedFor fault
  | unknown {name : String} (sound : ∀ index, ¬ Engine.BadAt lint.rules index)
      (first : lint.FirstUnknown lint.disable name) : RefusedFor (.unknown name)
  | shadow {rule : Rule} (sound : ∀ index, ¬ Engine.BadAt lint.rules index)
      (known : ∀ name ∈ lint.disable, lint.Knows name)
      (first : lint.FirstShadow rule) : RefusedFor (.repeated rule.name)

theorem first_unknown_eq :
    lint.firstUnknown = lint.disable.find? fun name => ¬ lint.Knows name := by
  simp only [firstUnknown, Knows, not_or]

theorem first_shadow_eq_some_iff (rule : Rule) :
    lint.firstShadow = some rule ↔ lint.FirstShadow rule := by
  rw [firstShadow, List.find?_eq_some_iff_append, FirstShadow]
  simp only [decide_eq_true_eq, Bool.not_eq_true', decide_eq_false_iff_not]
  constructor
  · rintro ⟨built, before, after, parts, earlier⟩
    exact ⟨before, after, parts, earlier, built⟩
  · rintro ⟨before, after, parts, earlier, built⟩
    exact ⟨built, before, after, parts, earlier⟩

theorem first_unknown_eq_some_iff (name : String) :
    lint.firstUnknown = some name ↔ lint.FirstUnknown lint.disable name := by
  rw [first_unknown_eq, find_unknown_eq_some_iff]

/-- Good rules are refused for the names to disable and the built-in names alone. -/
theorem refused_for_of_sound (sound : ∀ index, ¬ Engine.BadAt lint.rules index)
    (fault : RuleFault) :
    lint.RefusedFor fault ↔ (∃ name, lint.firstUnknown = some name ∧ fault = .unknown name) ∨
      lint.firstUnknown = none ∧
        ∃ rule, lint.firstShadow = some rule ∧ fault = .repeated rule.name := by
  constructor
  · intro refused
    cases refused with
    | rules first =>
        exact absurd ((Engine.least_fault_exists_iff _).1 ⟨fault, first⟩) (not_exists.2 sound)
    | unknown _ first => exact .inl ⟨_, (lint.first_unknown_eq_some_iff _).2 first, rfl⟩
    | shadow _ known first =>
        exact .inr ⟨lint.first_unknown_eq_none_iff.2 known, _,
          (lint.first_shadow_eq_some_iff _).2 first, rfl⟩
  · rintro (⟨name, found, rfl⟩ | ⟨known, rule, found, rfl⟩)
    · exact .unknown sound ((lint.first_unknown_eq_some_iff name).1 found)
    · exact .shadow sound (lint.first_unknown_eq_none_iff.1 known)
        ((lint.first_shadow_eq_some_iff rule).1 found)

theorem of_section_eq_error_iff (fault : RuleFault) :
    Engine.ofSection lint = .error fault ↔ lint.RefusedFor fault := by
  rw [of_section_checks]
  cases checked : Engine.checkRules [] lint.rules with
  | error first =>
      have least := (Engine.check_eq_error_iff lint.rules first).1 checked
      have bad := (Engine.least_fault_exists_iff _).1 ⟨first, least⟩
      rw [Except.error.injEq]
      constructor
      · rintro rfl
        exact .rules least
      · intro refused
        cases refused with
        | rules other =>
            exact Except.error.inj
              (checked.symm.trans ((Engine.check_eq_error_iff lint.rules fault).2 other))
        | unknown sound => exact absurd bad (not_exists.2 sound)
        | shadow sound => exact absurd bad (not_exists.2 sound)
  | ok _ =>
      have sound := (Engine.check_eq_ok_iff lint.rules).1 checked
      rw [lint.refused_for_of_sound sound]
      cases unknown : lint.firstUnknown with
      | some name => simp [eq_comm]
      | none =>
          cases shadow : lint.firstShadow with
          | some rule => simp [eq_comm]
          | none =>
              obtain ⟨formed, distinct, _⟩ := (check_rules_accepts_iff [] lint.rules).1 checked
              simp [lint.of_active_rules formed distinct (lint.first_shadow_eq_none_iff.1 shadow)]

end LintSection

/-- A list of rules is refused just when some index is bad, for the fault at the least of them. A
section is refused for that fault whatever else is wrong with it. -/
theorem Engine.refused_for_first_fault :
    (∀ rules : List Rule, ((∃ fault, ofRules rules = .error fault) ↔ ∃ index, BadAt rules index) ∧
      ∀ fault, ofRules rules = .error fault ↔ LeastFault rules fault) ∧
    ∀ (lint : LintSection) (fault : RuleFault), ofSection lint = .error fault ↔
      lint.RefusedFor fault := by
  refine ⟨?_, ?_⟩
  · intro rules
    refine ⟨?_, of_rules_eq_error_iff rules⟩
    simp only [of_rules_eq_error_iff, least_fault_exists_iff]
  · intro lint fault
    exact lint.of_section_eq_error_iff fault

example : Engine.ofSection ⟨["absent"], [⟨"multi-stage-build", " ", .missing ""⟩]⟩ =
    .error (.blankMessage "multi-stage-build") := by decide

end ManifestLint
