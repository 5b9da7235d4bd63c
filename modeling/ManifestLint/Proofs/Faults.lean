import Mathlib.Data.List.Forall2

/-!
Computations that end in a value or a fault. A sequence of steps ends in a value exactly when every
step does, and otherwise in the fault of its first step that has one.
-/

namespace ManifestLint

section
variable {Fault Other Item Value Result : Type}

@[simp] theorem bind_eq_ok_iff {first : Except Fault Value} {next : Value → Except Fault Result}
    {result : Result} :
    first >>= next = .ok result ↔ ∃ value, first = .ok value ∧ next value = .ok result := by
  cases first with
  | error fault =>
      change Except.error fault = Except.ok result ↔ _
      simp
  | ok value =>
      change next value = .ok result ↔ _
      simp

@[simp] theorem bind_eq_error_iff {first : Except Fault Value} {next : Value → Except Fault Result}
    {fault : Fault} :
    first >>= next = .error fault ↔
      first = .error fault ∨ ∃ value, first = .ok value ∧ next value = .error fault := by
  cases first with
  | error other =>
      change Except.error other = Except.error fault ↔ _
      simp
  | ok value =>
      change next value = .error fault ↔ _
      simp

@[simp] theorem pure_eq_ok (value : Value) : (pure value : Except Fault Value) = .ok value := rfl

@[simp] theorem map_eq_ok_iff {first : Except Fault Value} {change : Value → Result}
    {result : Result} :
    first.map change = .ok result ↔ ∃ value, first = .ok value ∧ change value = result := by
  cases first with
  | error fault => simp [Except.map]
  | ok value => simp [Except.map]

@[simp] theorem map_error_eq_ok_iff {first : Except Fault Value} {rename : Fault → Other}
    {value : Value} :
    first.mapError rename = .ok value ↔ first = .ok value := by
  cases first with
  | error fault => simp [Except.mapError]
  | ok other => simp [Except.mapError]

@[simp] theorem map_error_eq_error_iff {first : Except Fault Value} {rename : Fault → Other}
    {other : Other} :
    first.mapError rename = .error other ↔
      ∃ fault, first = .error fault ∧ other = rename fault := by
  cases first with
  | error fault => simp [Except.mapError, eq_comm]
  | ok value => simp [Except.mapError]

/-- The fault of the first item of a list on which an attempt fails. -/
def FirstFailure (attempt : Item → Except Fault Value) (items : List Item) (fault : Fault) : Prop :=
  ∃ before item after, items = before ++ item :: after ∧
    (∀ earlier ∈ before, ∃ value, attempt earlier = .ok value) ∧ attempt item = .error fault

def AllSucceed (attempt : Item → Except Fault Value) (items : List Item)
    (values : List Value) : Prop :=
  List.Forall₂ (fun item value => attempt item = .ok value) items values

theorem no_first_failure_of_nothing (attempt : Item → Except Fault Value) (fault : Fault) :
    ¬ FirstFailure attempt [] fault := by
  rintro ⟨before, item, after, same, _⟩
  simp at same

theorem first_failure_cons_iff {attempt : Item → Except Fault Value} {item : Item}
    {items : List Item} {fault : Fault} :
    FirstFailure attempt (item :: items) fault ↔
      attempt item = .error fault ∨
        ∃ value, attempt item = .ok value ∧ FirstFailure attempt items fault := by
  constructor
  · rintro ⟨before, failing, after, same, earlier, failed⟩
    cases before with
    | nil =>
        cases same
        exact .inl failed
    | cons first before =>
        cases same
        obtain ⟨value, succeeded⟩ := earlier item List.mem_cons_self
        refine .inr ⟨value, succeeded, before, failing, after, rfl, ?_, failed⟩
        intro other member
        exact earlier other (List.mem_cons_of_mem _ member)
  · rintro (failed | ⟨value, succeeded, before, failing, after, rfl, earlier, failed⟩)
    · exact ⟨[], item, items, rfl, fun _ member => absurd member List.not_mem_nil, failed⟩
    · refine ⟨item :: before, failing, after, rfl, ?_, failed⟩
      intro other member
      rcases List.mem_cons.1 member with rfl | later
      · exact ⟨value, succeeded⟩
      · exact earlier other later

theorem map_m_eq_ok_iff {attempt : Item → Except Fault Value} {items : List Item}
    {values : List Value} : items.mapM attempt = .ok values ↔ AllSucceed attempt items values := by
  induction items generalizing values with
  | nil =>
      rw [List.mapM_nil, pure_eq_ok, AllSucceed, List.forall₂_nil_left_iff, Except.ok.injEq]
      exact eq_comm
  | cons item items induction =>
      rw [List.mapM_cons, bind_eq_ok_iff, AllSucceed, List.forall₂_cons_left_iff]
      simp only [bind_eq_ok_iff, pure_eq_ok, Except.ok.injEq, induction, AllSucceed]
      constructor
      · rintro ⟨value, found, others, succeeded, rfl⟩
        exact ⟨value, others, found, succeeded, rfl⟩
      · rintro ⟨value, others, found, succeeded, rfl⟩
        exact ⟨value, found, others, succeeded, rfl⟩

theorem all_succeed_append_iff {attempt : Item → Except Fault Value} {first second : List Item}
    {values : List Value} :
    AllSucceed attempt (first ++ second) values ↔
      ∃ left right, AllSucceed attempt first left ∧ AllSucceed attempt second right ∧
        values = left ++ right := by
  simp only [← map_m_eq_ok_iff, List.mapM_append, bind_eq_ok_iff, pure_eq_ok, Except.ok.injEq]
  constructor
  · rintro ⟨left, before, right, behind, same⟩
    exact ⟨left, right, before, behind, same.symm⟩
  · rintro ⟨left, right, before, behind, same⟩
    exact ⟨left, before, right, behind, same.symm⟩

theorem AllSucceed.item_of_value {attempt : Item → Except Fault Value} {items : List Item}
    {values : List Value} (succeed : AllSucceed attempt items values) {value : Value}
    (member : value ∈ values) :
    ∃ item ∈ items, attempt item = .ok value := by
  induction succeed with
  | nil => cases member
  | cons found _ induction =>
      rcases List.mem_cons.1 member with rfl | behind
      · exact ⟨_, List.mem_cons_self, found⟩
      · obtain ⟨item, later, succeeded⟩ := induction behind
        exact ⟨item, List.mem_cons_of_mem _ later, succeeded⟩

theorem map_m_eq_error_iff {attempt : Item → Except Fault Value} {items : List Item}
    {fault : Fault} : items.mapM attempt = .error fault ↔ FirstFailure attempt items fault := by
  induction items with
  | nil =>
      rw [List.mapM_nil, pure_eq_ok, iff_false_intro (no_first_failure_of_nothing attempt fault)]
      simp
  | cons item items induction =>
      rw [List.mapM_cons, bind_eq_error_iff, first_failure_cons_iff]
      simp [induction, reduceCtorEq, and_false, or_false]

end

end ManifestLint
