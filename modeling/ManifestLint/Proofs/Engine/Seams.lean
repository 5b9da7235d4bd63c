import ManifestLint.Proofs.Engine.Construction
import ManifestLint.Proofs.Text.Lines

/-!
Verdicts on texts that are put together. Text around another one can bring needles in and takes none
away. Where two texts meet at a line feed no needle without a line feed lies across, so that rules
with such needles can be told line by line.
-/

namespace ManifestLint

namespace Text

theorem prefix_before_break {needle : List Char} (plain : '\n' ∉ needle)
    (first second : List Char) :
    needle <+: first ++ '\n' :: second ↔ needle <+: first := by
  induction first generalizing needle with
  | nil =>
      cases needle with
      | nil => simp
      | cons char needle =>
          rw [List.mem_cons, not_or] at plain
          simp [Ne.symm plain.1]
  | cons char first induction =>
      cases needle with
      | nil => simp
      | cons other needle =>
          rw [List.mem_cons, not_or] at plain
          rw [List.cons_append, List.cons_prefix_cons, List.cons_prefix_cons, induction plain.2]

/-- A needle without a line feed does not lie across one. -/
theorem infix_of_lines_iff {needle : List Char} (plain : '\n' ∉ needle) (first second : List Char) :
    needle <:+: first ++ '\n' :: second ↔ needle <:+: first ∨ needle <:+: second := by
  induction first with
  | nil =>
      have start := prefix_before_break plain [] second
      rw [List.nil_append] at start ⊢
      rw [List.infix_cons_iff, start, List.prefix_nil, List.infix_nil]
  | cons char first induction =>
      have start := prefix_before_break plain (char :: first) second
      rw [List.cons_append] at start ⊢
      rw [List.infix_cons_iff, start, induction, List.infix_cons_iff, or_assoc]

theorem infix_of_joined_iff {needle : List Char} (plain : '\n' ∉ needle) {lines : List (List Char)}
    (some : lines ≠ []) :
    needle <:+: List.intercalate ['\n'] lines ↔ ∃ line ∈ lines, needle <:+: line := by
  induction lines with
  | nil => exact absurd rfl some
  | cons line lines induction =>
      cases lines with
      | nil => simp
      | cons next lines =>
          rw [List.intercalate_cons_cons, List.append_assoc, List.singleton_append,
            infix_of_lines_iff plain, induction (List.cons_ne_nil _ _)]
          exact (List.exists_mem_cons_iff _ _ _).symm

theorem occurs_iff_on_line {needle : String} (plain : '\n' ∉ needle.toList) (text : String) :
    needle.toList <:+: text.toList ↔ ∃ line ∈ lines text, needle.toList <:+: line.toList := by
  have whole : List.intercalate ['\n'] (text.toList.splitOn '\n') = text.toList :=
    List.intercalate_splitOn '\n'
  have some : text.toList.splitOn '\n' ≠ [] := List.splitOnP_ne_nil _ _
  rw [← whole, infix_of_joined_iff plain some, lines]
  simp only [List.mem_map, exists_exists_and_eq_and, String.toList_ofList]

end Text

namespace Condition

theorem holds_missing_iff (needle text : String) :
    (missing needle).holds text = true ↔ ¬ needle.toList <:+: text.toList := by
  rw [holds, Bool.not_eq_true', ← Bool.not_eq_true, Text.occurs_in_iff]

theorem holds_contains_iff (needle text : String) :
    (contains needle).holds text = true ↔ needle.toList <:+: text.toList := by
  rw [holds, Text.occurs_in_iff]

theorem holds_contains_without_iff (needle excuse text : String) :
    (containsWithout needle excuse).holds text = true ↔
      needle.toList <:+: text.toList ∧ ¬ excuse.toList <:+: text.toList := by
  rw [holds, Bool.and_eq_true, Bool.not_eq_true', ← Bool.not_eq_true, Text.occurs_in_iff,
    Text.occurs_in_iff]

/-- What a condition says of lines that are looked at one by one. -/
def HoldsByLine (lines : List String) : Condition → Prop
  | .missing needle => ∀ line ∈ lines, (missing needle).holds line = true
  | .contains needle => ∃ line ∈ lines, (contains needle).holds line = true
  | .containsWithout needle excuse =>
      (∃ line ∈ lines, (contains needle).holds line = true) ∧ ∀ line ∈ lines,
        (missing excuse).holds line = true

instance (lines : List String) (condition : Condition) : Decidable (condition.HoldsByLine lines) :=
  match condition with
  | .missing needle => inferInstanceAs
      (Decidable (∀ line ∈ lines, (missing needle).holds line = true))
  | .contains needle => inferInstanceAs
      (Decidable (∃ line ∈ lines, (contains needle).holds line = true))
  | .containsWithout needle excuse => inferInstanceAs (Decidable
      ((∃ line ∈ lines, (contains needle).holds line = true) ∧ ∀ line ∈ lines,
        (missing excuse).holds line = true))

/-- Needles that lie on one line wherever they occur. -/
def OnOneLine (condition : Condition) : Prop := ∀ needle ∈ condition.needles, '\n' ∉ needle.toList

theorem holds_iff_by_line {condition : Condition} (oneLine : condition.OnOneLine) (text : String) :
    condition.holds text = true ↔ condition.HoldsByLine (Text.lines text) := by
  have occurs {needle : String} (member : needle ∈ condition.needles) :=
    Text.occurs_iff_on_line (oneLine needle member) text
  cases condition with
  | missing needle =>
      simp only [HoldsByLine, holds_missing_iff, occurs List.mem_cons_self, not_exists, not_and]
  | contains needle => simp only [HoldsByLine, holds_contains_iff, occurs List.mem_cons_self]
  | containsWithout needle excuse =>
      simp only [HoldsByLine, holds_contains_without_iff, holds_contains_iff, holds_missing_iff,
        occurs List.mem_cons_self, occurs (List.mem_cons_of_mem _ List.mem_cons_self), not_exists,
        not_and]

end Condition

namespace Engine

/-- Whether a rule is among the findings on a text. -/
def Reports (engine : Engine) (text : String) (rule : Rule) : Prop :=
  rule.name ∈ (engine.findings ⟨text⟩).map (·.rule)

instance (engine : Engine) (text : String) (rule : Rule) : Decidable (engine.Reports text rule) :=
  inferInstanceAs (Decidable (rule.name ∈ (engine.findings ⟨text⟩).map (·.rule)))

/-- Names are distinct, so a name among the findings is that of one rule. -/
theorem reports_iff_fires {rules : List Rule} {engine : Engine}
    (accepted : ofRules rules = .ok engine) {rule : Rule} (member : rule ∈ engine.rules)
    (text : String) : engine.Reports text rule ↔ rule.fires ⟨text⟩ = true := by
  obtain ⟨rfl, _, distinct⟩ := (of_rules_accepts_iff _ _).1 accepted
  rw [Reports, findings, List.map_map, List.mem_map]
  constructor
  · rintro ⟨other, fired, same⟩
    rw [List.mem_filter] at fired
    have equal : other = rule := List.inj_on_of_nodup_map distinct fired.1 member same
    rw [← equal]
    exact fired.2
  · intro fires
    exact ⟨rule, List.mem_filter.2 ⟨member, fires⟩, rfl⟩

theorem infix_amid {needle : List Char} (before : String) {text : String} (after : String)
    (occurs : needle <:+: text.toList) : needle <:+: (before ++ text ++ after).toList := by
  rw [String.toList_append, String.toList_append]
  exact occurs.trans (List.infix_append _ _ _)

theorem infix_of_two_lines_iff {needle : String} (plain : '\n' ∉ needle.toList)
    (first second : String) :
    needle.toList <:+: (first ++ "\n" ++ second).toList ↔
      needle.toList <:+: first.toList ∨ needle.toList <:+: second.toList := by
  rw [String.toList_append, String.toList_append, List.append_assoc]
  exact Text.infix_of_lines_iff plain first.toList second.toList

/-- More text can only quieten a rule for what is missing, can only call up one for what is there,
and quietens one with an excuse only by the excuse. Two lines, and so all lines of a text, are
judged by what is on each of them. -/
theorem verdict_on_joined_texts {rules : List Rule} {engine : Engine}
    (accepted : ofRules rules = .ok engine) :
    (∀ rule ∈ engine.rules, ∀ before text after : String,
      match rule.condition with
      | .missing _ => engine.Reports (before ++ text ++ after) rule → engine.Reports text rule
      | .contains _ => engine.Reports text rule → engine.Reports (before ++ text ++ after) rule
      | .containsWithout _ excuse => engine.Reports text rule →
          (¬ engine.Reports (before ++ text ++ after) rule ↔
            excuse.toList <:+: (before ++ text ++ after).toList)) ∧
    (∀ rule : Rule, rule.condition.OnOneLine → ∀ first second : String,
      match rule.condition with
      | .missing _ => rule.fires ⟨first ++ "\n" ++ second⟩ = true ↔
      rule.fires ⟨first⟩ = true ∧ rule.fires ⟨second⟩ = true
      | .contains _ => rule.fires ⟨first ++ "\n" ++ second⟩ = true ↔
      rule.fires ⟨first⟩ = true ∨ rule.fires ⟨second⟩ = true
      | .containsWithout needle excuse => rule.fires ⟨first ++ "\n" ++ second⟩ = true ↔
          (needle.toList <:+: first.toList ∨ needle.toList <:+: second.toList) ∧
            ¬ excuse.toList <:+: first.toList ∧ ¬ excuse.toList <:+: second.toList) ∧
    ((∀ rule ∈ engine.rules, rule.condition.OnOneLine) → ∀ text : String,
      engine.findings ⟨text⟩ =
        (engine.rules.filter fun rule => rule.condition.HoldsByLine (Text.lines text)).map
          fun rule => ⟨rule.name, rule.message⟩) := by
  refine ⟨?_, ?_, ?_⟩
  · intro rule member before text after
    rw [reports_iff_fires accepted member, reports_iff_fires accepted member, Rule.fires,
      Rule.fires]
    cases rule.condition with
    | missing needle =>
        simp only [Condition.holds_missing_iff]
        exact mt (infix_amid before after)
    | contains needle =>
        simp only [Condition.holds_contains_iff]
        exact infix_amid before after
    | containsWithout needle excuse =>
        simp only [Condition.holds_contains_without_iff, not_and, not_not]
        rintro ⟨occurs, _⟩
        exact ⟨fun excused => excused (infix_amid before after occurs), fun excused _ => excused⟩
  · intro rule oneLine first second
    have across {needle : String} (member : needle ∈ rule.condition.needles) :=
      infix_of_two_lines_iff (oneLine needle member) first second
    simp only [Rule.fires]
    cases condition : rule.condition with
    | missing needle =>
        rw [condition] at across
        simp only [Condition.holds_missing_iff, across List.mem_cons_self, not_or]
    | contains needle =>
        rw [condition] at across
        simp only [Condition.holds_contains_iff, across List.mem_cons_self]
    | containsWithout needle excuse =>
        rw [condition] at across
        simp only [Condition.holds_contains_without_iff, across List.mem_cons_self,
          across (List.mem_cons_of_mem _ List.mem_cons_self), not_or]
  · intro oneLine text
    rw [findings]
    congr 1
    apply List.filter_congr
    intro rule member
    rw [Bool.eq_iff_iff, decide_eq_true_eq]
    exact Condition.holds_iff_by_line (oneLine rule member) text

def installRules : List Rule :=
  [⟨"dev-deps", "Installs everything", .containsWithout "npm install" "--production"⟩]

theorem verdict_on_two_installs :
    ofRules installRules = .ok ⟨installRules⟩ ∧ (∀ rule ∈ installRules, rule.condition.OnOneLine) ∧
      Engine.Reports ⟨installRules⟩ "npm install" ⟨"dev-deps", "Installs everything",
        .containsWithout "npm install" "--production"⟩ ∧
      Engine.findings ⟨installRules⟩ ⟨"npm install\nnpm install --production"⟩ = [] := by
  have accepted : ofRules installRules = .ok ⟨installRules⟩ := by decide
  have oneLine : ∀ rule ∈ installRules, rule.condition.OnOneLine := by
    simp only [installRules, List.forall_mem_singleton, Condition.OnOneLine, Condition.needles,
      List.forall_mem_cons]
    decide
  refine ⟨accepted, oneLine, by decide, ?_⟩
  rw [(verdict_on_joined_texts accepted).2.2 oneLine]
  decide +kernel

end Engine

end ManifestLint
