import Mathlib.Data.List.Lex
import Mathlib.Data.String.Basic
import Mathlib.Order.WithBot
import ManifestLint.Glob.Expansion
import ManifestLint.Proofs.FileTree.Paths

/-!
The order of paths. Paths are compared part by part, with the directory above before all names, so
that any paths can be sorted. Of paths through proper names the order is that of the lists of their
names.
-/

namespace ManifestLint.Glob

-- The two lemmas of the library are about another instance of the order of lists.
theorem nil_lt_cons {Key : Type} [LinearOrder Key] (first : Key) (firsts : List Key) :
    [] < first :: firsts :=
  List.nil_lt_cons first firsts

theorem cons_le_cons_iff {Key : Type} [LinearOrder Key] {first second : Key}
    {firsts seconds : List Key} :
    first :: firsts ≤ second :: seconds ↔ first < second ∨ first = second ∧ firsts ≤ seconds := by
  have strict : first :: firsts < second :: seconds ↔
      first < second ∨ first = second ∧ firsts < seconds :=
    List.cons_lt_cons_iff
  rw [le_iff_lt_or_eq, le_iff_lt_or_eq, strict, List.cons.injEq]
  tauto

/-- Parts in a row are compared as their keys are when a key tells each part from the others. -/
theorem parts_le_iff_keys {Key : Type} [LinearOrder Key] (key : String → Key)
    {firsts seconds : List String} (tells : ∀ first ∈ firsts, ∀ second ∈ seconds,
      (partLe first second = true ↔ key first ≤ key second) ∧
      (key first = key second → first = second)) :
    partsLe firsts seconds = true ↔ firsts.map key ≤ seconds.map key := by
  induction firsts generalizing seconds with
  | nil =>
      rw [partsLe, List.map_nil]
      cases seconds with
      | nil => simp
      | cons second seconds => simp [le_of_lt (nil_lt_cons (key second) (seconds.map key))]
  | cons first firsts induction =>
      cases seconds with
      | nil =>
          rw [partsLe, List.map_nil, List.map_cons]
          simp [not_le_of_gt (nil_lt_cons (key first) (firsts.map key))]
      | cons second seconds =>
          have behind := induction fun other member after later =>
            tells other (List.mem_cons_of_mem _ member) after (List.mem_cons_of_mem _ later)
          have here := tells first List.mem_cons_self second List.mem_cons_self
          rw [List.map_cons, List.map_cons, cons_le_cons_iff, partsLe]
          split
          · next same =>
            rw [behind, same]
            simp
          · next different =>
            have differ : key first ≠ key second := fun same => different (here.2 same)
            rw [here.1, le_iff_lt_or_eq]
            simp [differ]

def rank (part : String) : WithBot String := if part = ".." then ⊥ else part

theorem rank_tells (first second : String) :
    (partLe first second = true ↔ rank first ≤ rank second) ∧
      (rank first = rank second → first = second) := by
  rw [partLe, rank, rank]
  split <;> split <;> simp_all

theorem parts_le_iff_ranks {firsts seconds : List String} :
    partsLe firsts seconds = true ↔ firsts.map rank ≤ seconds.map rank :=
  parts_le_iff_keys rank fun first _ second _ => rank_tells first second

theorem path_le_total (first second : String) :
    (pathLe first second || pathLe second first) = true := by
  rw [Bool.or_eq_true, pathLe, pathLe, parts_le_iff_ranks, parts_le_iff_ranks]
  exact le_total _ _

theorem path_le_trans (first second third : String) (before : pathLe first second = true)
    (behind : pathLe second third = true) : pathLe first third = true := by
  rw [pathLe, parts_le_iff_ranks] at before behind ⊢
  exact le_trans before behind

theorem sorted_paths (paths : List String) :
    (paths.mergeSort pathLe).Pairwise fun first second => pathLe first second = true :=
  List.pairwise_mergeSort path_le_trans path_le_total paths

theorem names_of_proper {path : String} (proper : ∀ name ∈ segments path, ProperName name) :
    FileTree.names path = segments path := by
  rw [FileTree.names, List.filter_eq_self]
  intro name member
  have found := proper name member
  rw [Bool.and_eq_true, bne_iff_ne, bne_iff_ne]
  exact ⟨found.nonempty, found.below.1⟩

/-- Paths through proper names are compared name by name. -/
theorem path_le_iff_segments {first second : String}
    (firsts : ∀ name ∈ segments first, ProperName name)
    (seconds : ∀ name ∈ segments second, ProperName name) :
    pathLe first second = true ↔ segments first ≤ segments second := by
  rw [pathLe, names_of_proper firsts, names_of_proper seconds, parts_le_iff_keys id, List.map_id,
    List.map_id]
  intro name member other behind
  refine ⟨?_, id⟩
  simp [partLe, (firsts name member).below.2, (seconds other behind).below.2]

end ManifestLint.Glob
