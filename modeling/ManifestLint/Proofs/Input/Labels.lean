import ManifestLint.Proofs.Glob.Located
import ManifestLint.Proofs.Input.Resolution

/-!
Inputs as arguments. What a report calls a file is an argument for that very file: a path found by a
pattern is there, so that it stands for itself even where its name looks like a pattern.
-/

namespace ManifestLint.Input

def argument : Input → String
  | .stdin => "-"
  | .file path => (Input.file path).source

def Named (tree : FileTree) (input : Input) : Prop := resolve tree [input.argument] = .ok [input]

section
variable {tree : FileTree}

theorem named_stdin : Named tree .stdin := rfl

theorem named_literal {path : String} (other : path ≠ "-")
    (literal : hasWildcard path = false ∨ tree.hasFile path = true) : Named tree (.file path) := by
  rw [Named, resolve_alone]
  exact resolve_one_literal tree other literal

/-- All inputs of an argument but a file called like standard input are named by their own
arguments. -/
theorem named_of_one (formed : tree.root.WellFormed) {argument : String} {inputs : List Input}
    (resolved : resolveOne tree argument = .ok inputs) {input : Input} (member : input ∈ inputs)
    (other : input ≠ .file "-") : Named tree input := by
  rw [resolveOne] at resolved
  split at resolved
  · cases resolved
    rw [List.mem_singleton.1 member]
    exact named_stdin
  · next dash =>
    split at resolved
    · next literal =>
      cases resolved
      rw [List.mem_singleton.1 member]
      rw [Bool.or_eq_true, Bool.not_eq_true'] at literal
      exact named_literal dash literal
    · next wild =>
      split at resolved
      · cases resolved
      · cases resolved
      · next paths _ listed =>
        cases resolved
        obtain ⟨path, found, rfl⟩ := List.mem_map.1 member
        have some : argument ≠ "" := by
          rintro rfl
          exact wild rfl
        apply named_literal
        · rintro rfl
          exact other rfl
        · exact .inr (Glob.file_of_listed formed some listed found)

theorem Resolves.named (formed : tree.root.WellFormed) {arguments : List String}
    {inputs : List Input} (resolved : Resolves tree arguments inputs)
    (others : .file "-" ∉ inputs) : ∀ input ∈ inputs, Named tree input := by
  induction arguments generalizing inputs with
  | nil =>
      rw [resolves_nil_iff.1 resolved]
      exact List.forall_mem_nil _
  | cons argument arguments induction =>
      obtain ⟨first, behind, alone, apart, rfl⟩ := resolves_cons_iff.1 resolved
      rw [List.mem_append, not_or] at others
      rw [resolve_alone] at alone
      intro input member
      rcases List.mem_append.1 member with found | found
      · apply named_of_one formed alone found
        rintro rfl
        exact others.1 found
      · exact induction apart others.2 input found

theorem resolves_of_named {inputs : List Input} (named : ∀ input ∈ inputs, Named tree input) :
    Resolves tree (inputs.map argument) inputs := by
  induction inputs with
  | nil => exact resolves_nil_iff.2 rfl
  | cons input inputs induction =>
      rw [List.forall_mem_cons] at named
      exact resolves_cons_iff.2 ⟨[input], inputs, named.1, induction named.2, rfl⟩

/-- The default manifest is named like any other input. -/
theorem named_of_resolve (formed : tree.root.WellFormed) {arguments : List String}
    {inputs : List Input} (resolved : resolve tree arguments = .ok inputs)
    (others : .file "-" ∉ inputs) :
    inputs ≠ [] ∧ inputs.count .stdin ≤ 1 ∧ ∀ input ∈ inputs, Named tree input := by
  by_cases nothing : arguments = []
  · rw [nothing] at resolved
    cases resolved
    refine ⟨List.cons_ne_nil _ _, by decide, List.forall_mem_singleton.2 ?_⟩
    exact named_literal (by decide) (.inl (by decide))
  · obtain ⟨apart, once⟩ := (resolve_eq_ok_iff nothing).1 resolved
    exact ⟨apart.nonempty nothing, apart.count_stdin ▸ once, apart.named formed others⟩

end

/-- Inputs that were found are found again, in their order, by the arguments that name them. -/
theorem inputs_resolve_to_themselves {tree : FileTree} (formed : tree.root.WellFormed)
    {arguments : List String} {inputs : List Input} (resolved : resolve tree arguments = .ok inputs)
    (others : .file "-" ∉ inputs) :
    resolve tree (inputs.map argument) = .ok inputs := by
  obtain ⟨nonempty, once, named⟩ := named_of_resolve formed resolved others
  have apart := resolves_of_named named
  rw [resolve_eq_ok_iff (mt List.map_eq_nil_iff.1 nonempty), ← apart.count_stdin]
  exact ⟨apart, once⟩

/-- A file whose name looks like a pattern is found by patterns, and then taken for itself. -/
theorem bracketed_file_resolves_to_itself :
    bracketedFile.root.WellFormed ∧
      resolve bracketedFile ["-", "svc*/Dockerfile", "/work/svc?*/Dockerfile"] =
        .ok [.stdin, .file "svc[1]/Dockerfile", .file "/work/svc[1]/Dockerfile"] ∧
      Input.file "-" ∉ [.stdin, .file "svc[1]/Dockerfile", .file "/work/svc[1]/Dockerfile"] ∧
      resolve bracketedFile ["-", "svc[1]/Dockerfile", "/work/svc[1]/Dockerfile"] =
        .ok [.stdin, .file "svc[1]/Dockerfile", .file "/work/svc[1]/Dockerfile"] := by
  have formed : bracketedFile.root.WellFormed :=
    FileTree.add_file_well_formed FileTree.empty_well_formed (by decide) []
  have resolved : resolve bracketedFile ["-", "svc*/Dockerfile", "/work/svc?*/Dockerfile"] =
      .ok [.stdin, .file "svc[1]/Dockerfile", .file "/work/svc[1]/Dockerfile"] := by decide +kernel
  have others :
      Input.file "-" ∉ [.stdin, .file "svc[1]/Dockerfile", .file "/work/svc[1]/Dockerfile"] := by
        decide
  exact ⟨formed, resolved, others, inputs_resolve_to_themselves formed resolved others⟩

end ManifestLint.Input
