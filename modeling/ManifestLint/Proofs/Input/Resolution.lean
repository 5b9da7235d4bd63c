import ManifestLint.Input
import ManifestLint.Proofs.Faults

/-!
Arguments are resolved one by one. Each has its inputs or its fault whatever the other arguments
are, and all that is left to look at when they are put together is how often standard input is among
them.
-/

namespace ManifestLint.Input

variable (tree : FileTree)

theorem resolve_all_eq (arguments : List String) :
    resolveAll tree arguments = (arguments.mapM (resolveOne tree)).map List.flatten := by
  induction arguments with
  | nil => rfl
  | cons argument arguments induction =>
      rw [resolveAll, List.mapM_cons, induction]
      cases resolveOne tree argument with
      | error fault => rfl
      | ok inputs =>
          cases arguments.mapM (resolveOne tree) with
          | error fault => rfl
          | ok others => rfl

theorem resolve_of_argument (first : String) (others : List String) :
    resolve tree (first :: others) = (do
      let inputs ← resolveAll tree (first :: others)
      if 1 < inputs.count .stdin then throw .repeatedStdin
      return inputs) := rfl

theorem count_stdin_of_files (paths : List String) : (paths.map Input.file).count .stdin = 0 := by
  rw [List.count_eq_zero, List.mem_map]
  rintro ⟨path, _, same⟩
  cases same

/-- A dash is standard input, and no other argument leads there. -/
theorem resolve_one_stdin : resolveOne tree "-" = .ok [.stdin] := rfl

theorem resolve_one_literal {argument : String} (other : argument ≠ "-")
    (literal : hasWildcard argument = false ∨ tree.hasFile argument = true) :
    resolveOne tree argument = .ok [.file argument] := by
  rw [resolveOne, if_neg other, if_pos]
  rcases literal with plain | present
  · rw [plain]
    rfl
  · rw [present, Bool.or_true]

theorem resolve_one_eq_ok {argument : String} {inputs : List Input} (other : argument ≠ "-")
    (resolved : resolveOne tree argument = .ok inputs) :
    ∃ paths, paths ≠ [] ∧ inputs = paths.map .file := by
  rw [resolveOne, if_neg other] at resolved
  split at resolved
  · cases resolved
    exact ⟨[argument], List.cons_ne_nil _ _, rfl⟩
  · cases found : Glob.files tree argument with
    | error fault =>
        rw [found] at resolved
        cases resolved
    | ok paths =>
        rw [found] at resolved
        cases paths with
        | nil => cases resolved
        | cons path paths =>
            cases resolved
            exact ⟨path :: paths, List.cons_ne_nil _ _, rfl⟩

theorem resolve_one_nonempty {argument : String} {inputs : List Input}
    (resolved : resolveOne tree argument = .ok inputs) : inputs ≠ [] := by
  by_cases dash : argument = "-"
  · rw [dash, resolve_one_stdin] at resolved
    cases resolved
    exact List.cons_ne_nil _ _
  · obtain ⟨paths, nonempty, rfl⟩ := resolve_one_eq_ok tree dash resolved
    exact mt List.map_eq_nil_iff.1 nonempty

theorem count_stdin_of_one {argument : String} {inputs : List Input}
    (resolved : resolveOne tree argument = .ok inputs) :
    inputs.count .stdin = if argument = "-" then 1 else 0 := by
  split
  · next dash =>
    rw [dash, resolve_one_stdin] at resolved
    cases resolved
    rfl
  · next other =>
    obtain ⟨paths, _, rfl⟩ := resolve_one_eq_ok tree other resolved
    exact count_stdin_of_files paths

theorem resolve_one_not_repeated (argument : String) :
    resolveOne tree argument ≠ .error .repeatedStdin := by
  rw [resolveOne]
  split
  · nofun
  · split
    · nofun
    · split <;> nofun

/-- An argument that stands alone gives standard input once at most. -/
theorem resolve_alone (argument : String) : resolve tree [argument] = resolveOne tree argument := by
  rw [resolve_of_argument, resolve_all_eq, List.mapM_cons, List.mapM_nil]
  cases resolved : resolveOne tree argument with
  | error fault => rfl
  | ok inputs =>
      have once : inputs.count .stdin ≤ 1 := by
        rw [count_stdin_of_one tree resolved]
        split <;> omega
      change (if 1 < (inputs ++ []).count Input.stdin then _ else Except.ok (inputs ++ [])) =
        Except.ok inputs
      rw [List.append_nil, if_neg (Nat.not_lt.2 once)]

/-- The inputs of some arguments, each of which is resolved alone, one after the other. -/
def Resolves (arguments : List String) (inputs : List Input) : Prop :=
  ∃ parts, AllSucceed (fun argument => resolve tree [argument]) arguments parts ∧
    inputs = parts.flatten

theorem resolve_all_eq_ok_iff {arguments : List String} {inputs : List Input} :
    resolveAll tree arguments = .ok inputs ↔ Resolves tree arguments inputs := by
  rw [resolve_all_eq, map_eq_ok_iff]
  simp only [Resolves, resolve_alone, map_m_eq_ok_iff, eq_comm (a := inputs)]

theorem resolve_all_eq_error_iff {arguments : List String} {fault : InputFault} :
    resolveAll tree arguments = .error fault ↔
      FirstFailure (fun argument => resolve tree [argument]) arguments fault := by
  simp only [resolve_alone]
  rw [← map_m_eq_error_iff, resolve_all_eq]
  cases arguments.mapM (resolveOne tree) <;> simp [Except.map]

section
variable {tree} {arguments : List String} {inputs : List Input}

theorem resolves_cons_iff {argument : String} :
    Resolves tree (argument :: arguments) inputs ↔
      ∃ first others, resolve tree [argument] = .ok first ∧ Resolves tree arguments others ∧
        inputs = first ++ others := by
  unfold Resolves AllSucceed
  constructor
  · rintro ⟨parts, succeed, rfl⟩
    obtain ⟨first, others, alone, behind, rfl⟩ := List.forall₂_cons_left_iff.1 succeed
    exact ⟨first, others.flatten, alone, ⟨others, behind, rfl⟩, List.flatten_cons⟩
  · rintro ⟨first, _, alone, ⟨others, behind, rfl⟩, rfl⟩
    exact ⟨first :: others, .cons alone behind, List.flatten_cons.symm⟩

@[simp] theorem resolves_nil_iff : Resolves tree [] inputs ↔ inputs = [] := by
  unfold Resolves AllSucceed
  simp only [List.forall₂_nil_left_iff, exists_eq_left, List.flatten_nil]

theorem resolves_append_iff {first second : List String} :
    Resolves tree (first ++ second) inputs ↔
      ∃ left right, Resolves tree first left ∧ Resolves tree second right ∧
        inputs = left ++ right := by
  constructor
  · rintro ⟨parts, succeed, rfl⟩
    obtain ⟨left, right, before, behind, rfl⟩ := all_succeed_append_iff.1 succeed
    exact ⟨left.flatten, right.flatten, ⟨left, before, rfl⟩, ⟨right, behind, rfl⟩,
      List.flatten_append⟩
  · rintro ⟨_, _, ⟨left, before, rfl⟩, ⟨right, behind, rfl⟩, rfl⟩
    exact ⟨left ++ right, all_succeed_append_iff.2 ⟨left, right, before, behind, rfl⟩,
      List.flatten_append.symm⟩

theorem resolves_exists_iff :
    (∃ inputs, Resolves tree arguments inputs) ↔
      ∀ argument ∈ arguments, ∃ inputs, resolve tree [argument] = .ok inputs := by
  induction arguments with
  | nil => simp [resolves_nil_iff]
  | cons argument arguments induction =>
      rw [List.forall_mem_cons, ← induction]
      simp only [resolves_cons_iff]
      constructor
      · rintro ⟨_, first, others, alone, behind, rfl⟩
        exact ⟨⟨first, alone⟩, others, behind⟩
      · rintro ⟨⟨first, alone⟩, others, behind⟩
        exact ⟨_, first, others, alone, behind, rfl⟩

theorem Resolves.count_stdin (resolved : Resolves tree arguments inputs) :
    inputs.count .stdin = arguments.count "-" := by
  induction arguments generalizing inputs with
  | nil =>
      rw [resolves_nil_iff.1 resolved]
      rfl
  | cons argument arguments induction =>
      obtain ⟨first, others, alone, behind, rfl⟩ := resolves_cons_iff.1 resolved
      rw [resolve_alone] at alone
      rw [List.count_append, count_stdin_of_one tree alone, induction behind, List.count_cons,
        Nat.add_comm]
      simp only [beq_iff_eq]

theorem Resolves.nonempty (resolved : Resolves tree arguments inputs) (some : arguments ≠ []) :
    inputs ≠ [] := by
  obtain ⟨argument, others, rfl⟩ := List.exists_cons_of_ne_nil some
  obtain ⟨first, behind, alone, _, rfl⟩ := resolves_cons_iff.1 resolved
  rw [resolve_alone] at alone
  exact List.append_ne_nil_of_left_ne_nil (resolve_one_nonempty tree alone) behind

/-- Standard input stands where its argument does. -/
theorem Resolves.stdin_in_place {before after : List String}
    (resolved : Resolves tree (before ++ "-" :: after) inputs) :
    ∃ left right, Resolves tree before left ∧ Resolves tree after right ∧
      inputs = left ++ .stdin :: right := by
  obtain ⟨left, _, first, second, rfl⟩ := resolves_append_iff.1 resolved
  obtain ⟨dash, right, alone, behind, rfl⟩ := resolves_cons_iff.1 second
  cases alone
  exact ⟨left, right, first, behind, rfl⟩

theorem resolve_of_resolves (some : arguments ≠ []) (resolved : Resolves tree arguments inputs) :
    resolve tree arguments = if 1 < arguments.count "-" then .error .repeatedStdin
      else .ok inputs := by
  obtain ⟨first, others, rfl⟩ := List.exists_cons_of_ne_nil some
  rw [resolve_of_argument, (resolve_all_eq_ok_iff tree).2 resolved, ← resolved.count_stdin]
  rfl

theorem resolve_of_failure {fault : InputFault}
    (failed : FirstFailure (fun argument => resolve tree [argument]) arguments fault) :
    resolve tree arguments = .error fault := by
  cases arguments with
  | nil => exact absurd failed (no_first_failure_of_nothing _ _)
  | cons first others =>
      rw [resolve_of_argument, (resolve_all_eq_error_iff tree).2 failed]
      rfl

theorem resolves_or_fails (tree : FileTree) (arguments : List String) :
    (∃ inputs, Resolves tree arguments inputs) ∨
      ∃ fault, FirstFailure (fun argument => resolve tree [argument]) arguments fault := by
  cases resolved : resolveAll tree arguments with
  | ok inputs => exact .inl ⟨inputs, (resolve_all_eq_ok_iff tree).1 resolved⟩
  | error fault => exact .inr ⟨fault, (resolve_all_eq_error_iff tree).1 resolved⟩

theorem resolve_eq_ok_iff (some : arguments ≠ []) :
    resolve tree arguments = .ok inputs ↔
      Resolves tree arguments inputs ∧ arguments.count "-" ≤ 1 := by
  constructor
  · intro resolved
    rcases resolves_or_fails tree arguments with ⟨others, apart⟩ | ⟨fault, failed⟩
    · rw [resolve_of_resolves some apart] at resolved
      split at resolved
      · cases resolved
      · next once =>
        cases resolved
        exact ⟨apart, Nat.not_lt.1 once⟩
    · cases (resolve_of_failure failed).symm.trans resolved
  · rintro ⟨apart, once⟩
    rw [resolve_of_resolves some apart, if_neg (Nat.not_lt.2 once)]

/-- Standard input that is named again is a fault only where no argument has one. -/
theorem resolve_eq_error_iff (some : arguments ≠ []) {fault : InputFault} :
    resolve tree arguments = .error fault ↔
      FirstFailure (fun argument => resolve tree [argument]) arguments fault ∨
        (∀ argument ∈ arguments, ∃ inputs, resolve tree [argument] = .ok inputs) ∧
          1 < arguments.count "-" ∧
          fault = .repeatedStdin := by
  constructor
  · intro refused
    rcases resolves_or_fails tree arguments with ⟨inputs, apart⟩ | ⟨first, failed⟩
    · rw [resolve_of_resolves some apart] at refused
      split at refused
      · next repeated =>
        cases refused
        exact .inr ⟨resolves_exists_iff.1 ⟨inputs, apart⟩, repeated, rfl⟩
      · cases refused
    · cases (resolve_of_failure failed).symm.trans refused
      exact .inl failed
  · rintro (failed | ⟨each, repeated, rfl⟩)
    · exact resolve_of_failure failed
    · obtain ⟨inputs, apart⟩ := resolves_exists_iff.2 each
      rw [resolve_of_resolves some apart, if_pos repeated]

end

/-- Arguments are resolved each by itself and in their order. The inputs are those of the first
argument, then those of the second, and so on, with standard input where its argument stands; the
fault is that of the first argument that has one. Only when there is none can standard input be
named too often. A path of a file and an argument without wildcards stand for themselves. -/
theorem arguments_resolve_apart (tree : FileTree) (arguments : List String)
    (some : arguments ≠ []) :
    ((∃ inputs, resolve tree arguments = .ok inputs) ↔
      (∀ argument ∈ arguments, ∃ inputs, resolve tree [argument] = .ok inputs) ∧
        arguments.count "-" ≤ 1) ∧
    (∀ inputs, resolve tree arguments = .ok inputs →
      Resolves tree arguments inputs ∧ inputs ≠ [] ∧ inputs.count .stdin = arguments.count "-" ∧
        inputs.count .stdin ≤ 1 ∧
        ∀ before after, arguments = before ++ "-" :: after →
          ∃ left right, Resolves tree before left ∧ Resolves tree after right ∧
            inputs = left ++ .stdin :: right) ∧
    (∀ fault, resolve tree arguments = .error fault ↔
      FirstFailure (fun argument => resolve tree [argument]) arguments fault ∨
        (∀ argument ∈ arguments, ∃ inputs, resolve tree [argument] = .ok inputs) ∧
          1 < arguments.count "-" ∧
          fault = .repeatedStdin) ∧
    (resolve tree arguments = .error .repeatedStdin →
      ∀ argument ∈ arguments, ∃ inputs, resolve tree [argument] = .ok inputs) ∧
    ∀ argument, argument ≠ "-" → hasWildcard argument = false ∨ tree.hasFile argument = true →
      resolve tree [argument] = .ok [.file argument] := by
  refine ⟨?_, ?_, ?_, ?_, ?_⟩
  · simp only [resolve_eq_ok_iff some, exists_and_right, resolves_exists_iff]
  · intro inputs resolved
    obtain ⟨apart, once⟩ := (resolve_eq_ok_iff some).1 resolved
    refine ⟨apart, apart.nonempty some, apart.count_stdin, apart.count_stdin ▸ once, ?_⟩
    rintro before after rfl
    exact apart.stdin_in_place
  · intro fault
    exact resolve_eq_error_iff some
  · intro refused
    rcases (resolve_eq_error_iff some).1 refused with ⟨_, argument, _, _, _, failed⟩ | ⟨each, _⟩
    · exact absurd ((resolve_alone tree argument).symm.trans failed)
        (resolve_one_not_repeated tree argument)
    · exact each
  · intro argument other literal
    rw [resolve_alone]
    exact resolve_one_literal tree other literal

def bracketedFile : FileTree := FileTree.empty.addFile "svc[1]/Dockerfile" []

/-- The pattern that nothing matches is told of before the second dash. -/
theorem resolve_bracketed_file :
    ["/work/svc[1]/Dockerfile", "-", "absent", "-", "*.lock"] ≠ [] ∧
      resolve bracketedFile ["/work/svc[1]/Dockerfile", "-", "absent", "-", "*.lock"] =
        .error (.noMatch "*.lock") ∧
      resolve bracketedFile ["/work/svc[1]/Dockerfile"] =
        .ok [.file "/work/svc[1]/Dockerfile"] := by
  have some : ["/work/svc[1]/Dockerfile", "-", "absent", "-", "*.lock"] ≠ [] := List.cons_ne_nil _ _
  obtain ⟨_, _, refused, _, literal⟩ := arguments_resolve_apart bracketedFile _ some
  have present : bracketedFile.hasFile "/work/svc[1]/Dockerfile" = true := by decide
  refine ⟨some, (refused _).2 (.inl ?_),
    literal "/work/svc[1]/Dockerfile" (by decide) (.inr present)⟩
  refine ⟨["/work/svc[1]/Dockerfile", "-", "absent", "-"], "*.lock", [], rfl, ?_, by decide +kernel⟩
  intro argument member
  simp only [List.mem_cons, List.not_mem_nil, or_false] at member
  rcases member with rfl | rfl | rfl | rfl
  · exact ⟨_, literal _ (by decide) (.inr present)⟩
  · exact ⟨_, rfl⟩
  · exact ⟨_, literal "absent" (by decide) (.inl (by decide))⟩
  · exact ⟨_, rfl⟩

end ManifestLint.Input
