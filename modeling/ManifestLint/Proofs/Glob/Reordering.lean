import Mathlib.Data.List.Forall2
import ManifestLint.Input
import ManifestLint.Proofs.FileTree.Reordering
import ManifestLint.Proofs.Glob.Expanding

/-!
Patterns in trees whose directories list their entries in different orders. A directory is taken in
the order of names, so that patterns expand to the same paths one by one, and arguments name the
same inputs.
-/

namespace ManifestLint

namespace Glob

namespace Site

structure Reordered (site other : Site) : Prop where
  path : site.path = other.path
  place : site.place.Reordered other.place

def SameNamed {Value Other : Type} (related : Value → Other → Prop) (first : String × Value)
    (second : String × Other) : Prop :=
  first.1 = second.1 ∧ related first.2 second.2

theorem same_named_of_names {Value Other : Type} {related : Value → Other → Prop}
    {values : List (String × Value)} {others : List (String × Other)}
    (names : values.map (·.1) = others.map (·.1))
    (alike : ∀ first ∈ values, ∀ second ∈ others, first.1 = second.1 → related first.2 second.2) :
    List.Forall₂ (SameNamed related) values others := by
  induction values generalizing others with
  | nil =>
      rw [List.map_nil, eq_comm, List.map_eq_nil_iff] at names
      rw [names]
      exact .nil
  | cons first values induction =>
      cases others with
      | nil => cases names
      | cons second others =>
          rw [List.map_cons, List.map_cons, List.cons.injEq] at names
          apply List.Forall₂.cons
          · exact ⟨names.1, alike first List.mem_cons_self second List.mem_cons_self names.1⟩
          · apply induction names.2
            intro value member other behind
            exact alike value (List.mem_cons_of_mem _ member) other (List.mem_cons_of_mem _ behind)

theorem name_le_trans {Value : Type} (first second third : String × Value)
    (before : decide (first.1 ≤ second.1) = true) (behind : decide (second.1 ≤ third.1) = true) :
    decide (first.1 ≤ third.1) = true := by
  rw [decide_eq_true_iff] at before behind ⊢
  exact String.le_trans before behind

theorem name_le_total {Value : Type} (first second : String × Value) :
    (decide (first.1 ≤ second.1) || decide (second.1 ≤ first.1)) = true := by
  rw [Bool.or_eq_true, decide_eq_true_iff, decide_eq_true_iff]
  exact String.le_total first.1 second.1

theorem by_name_sorted {Value : Type} (values : List (String × Value)) :
    ((byName values).map (·.1)).Pairwise (· ≤ ·) := by
  rw [byName, List.pairwise_map]
  exact (List.pairwise_mergeSort name_le_trans name_le_total values).imp of_decide_eq_true

/-- Values with the same names in any order become the same names in order. -/
theorem by_name_alike {Value Other : Type} {related : Value → Other → Prop}
    {values : List (String × Value)} {others : List (String × Other)}
    (names : (values.map (·.1)).Perm (others.map (·.1)))
    (alike : ∀ first ∈ values, ∀ second ∈ others, first.1 = second.1 → related first.2 second.2) :
    List.Forall₂ (SameNamed related) (byName values) (byName others) := by
  have first := (List.mergeSort_perm values fun first second => decide (first.1 ≤ second.1)).map
      (·.1)
  have second := (List.mergeSort_perm others fun first second => decide (first.1 ≤ second.1)).map
      (·.1)
  apply same_named_of_names
  · apply List.Perm.eq_of_pairwise
    · intro name other _ _ before behind
      exact String.le_antisymm before behind
    · exact by_name_sorted values
    · exact by_name_sorted others
    · exact first.trans (names.trans second.symm)
  · intro value member other behind
    exact alike value (List.mem_mergeSort.1 member) other (List.mem_mergeSort.1 behind)

theorem by_name_made_alike {Value Other : Type} {related : Value → Other → Prop}
    {entries others : List (String × Entry)} (names : (entries.map (·.1)).Perm (others.map (·.1)))
    (make : String → Entry → Value) (remake : String → Entry → Other)
    (alike : ∀ name entry other, (name, entry) ∈ entries → (name, other) ∈ others →
      related (make name entry) (remake name other)) :
    List.Forall₂ (SameNamed related)
      (byName (entries.map fun child => (child.1, make child.1 child.2)))
      (byName (others.map fun child => (child.1, remake child.1 child.2))) := by
  apply by_name_alike
  · rw [List.map_map, List.map_map]
    exact names
  · rw [List.forall_mem_map]
    intro first member
    rw [List.forall_mem_map]
    intro second behind same
    obtain ⟨name, entry⟩ := first
    obtain ⟨otherName, other⟩ := second
    cases same
    exact alike name entry other member behind

variable {site other : Site}

theorem Reordered.child {entry otherEntry : Entry} (reordered : site.Reordered other)
    (name : String) (entries : entry.Reordered otherEntry) :
    (site.child name entry).Reordered (other.child name otherEntry) := by
  rw [Site.child, Site.child, reordered.path]
  exact ⟨rfl, entries, .cons reordered.place.entry reordered.place.above⟩

theorem Reordered.stay (reordered : site.Reordered other) : site.stay.Reordered other.stay := by
  rw [Site.stay, Site.stay, reordered.path]
  exact ⟨rfl, reordered.place⟩

theorem Reordered.up (reordered : site.Reordered other) : site.up.Reordered other.up := by
  rw [Site.up, Site.up, reordered.path]
  exact ⟨rfl, reordered.place.parent⟩

theorem Reordered.follow (reordered : site.Reordered other) (name : String) :
    Option.Rel Reordered (site.follow name) (other.follow name) := by
  rw [Site.follow, Site.follow, reordered.place.entry.kind.1]
  split
  · exact .none
  split
  · exact .some reordered.stay
  split
  · exact .some reordered.up
  split
  · rw [reordered.path]
    split
    · exact .none
    · exact .some ⟨rfl, reordered.place⟩
  · have children := reordered.place.entry.child name
    generalize site.place.entry.child? name = here at children ⊢
    generalize other.place.entry.child? name = there at children ⊢
    cases children with
    | none => exact .none
    | some entries => exact .some (reordered.child name entries)

theorem Reordered.children (reordered : site.Reordered other) :
    List.Forall₂ (SameNamed Reordered) site.children other.children := by
  apply by_name_made_alike reordered.place.entry.names site.child other.child
  intro name entry otherEntry member behind
  exact reordered.child name (reordered.place.entry.listed member behind)

/-- Below entries that differ only in their order lie the same names in order. -/
theorem descendants_reordered {entry otherEntry : Entry} (reordered : entry.Reordered otherEntry)
    (path : String) {above otherAbove : List Entry}
    (aboves : List.Forall₂ Entry.Reordered above otherAbove) :
    List.Forall₂ (SameNamed Reordered) (descendants path above entry)
      (descendants path otherAbove otherEntry) := by
  induction reordered generalizing path above otherAbove with
  | file =>
      rw [descendants, descendants]
      exact .nil
  | directory names alike induction =>
      have inside := List.Forall₂.cons (.directory names alike) aboves
      rw [descendants, descendants, descendants_in_eq, descendants_in_eq]
      apply List.rel_flatMap (R := SameNamed (List.Forall₂ (SameNamed Reordered)))
      · apply by_name_made_alike names (withDescendants path _) (withDescendants path _)
        intro name entry otherEntry member behind
        apply List.Forall₂.cons
        · exact ⟨rfl, rfl, alike name entry otherEntry member behind, inside⟩
        · exact induction name entry otherEntry member behind (join path name) inside
      · intro first second same
        exact same.2

theorem Reordered.specials (reordered : site.Reordered other) (pieces : List Piece) :
    List.Forall₂ Reordered (site.specials pieces) (other.specials pieces) := by
  rw [Site.specials, Site.specials, reordered.place.entry.kind.1]
  split
  · apply List.rel_append
    · split
      · exact .cons reordered.up .nil
      · exact .nil
    · split
      · exact .cons reordered.stay .nil
      · exact .nil
  · exact .nil

end Site

theorem flat_map_same_named (fits : String → Bool) {change : Site → List Site}
    {candidates others : List (String × Site)}
    (alike : List.Forall₂ (Site.SameNamed Site.Reordered) candidates others)
    (changed : ∀ {site other : Site}, site.Reordered other →
      List.Forall₂ Site.Reordered (change site) (change other)) :
    List.Forall₂ Site.Reordered
      (candidates.flatMap fun candidate => if fits candidate.1 then change candidate.2 else [])
      (others.flatMap fun candidate => if fits candidate.1 then change candidate.2 else []) := by
  apply List.rel_flatMap alike
  intro first second same
  simp only [same.1]
  split
  · exact changed same.2
  · exact .nil

/-- Parts of a pattern lead on alike, from alike places and from alike entries below a place. -/
theorem expand_reordered (parts : List Component) :
    (∀ {site other : Site}, site.Reordered other →
      List.Forall₂ Site.Reordered (expand parts site) (expand parts other)) ∧
    ∀ {candidates others : List (String × Site)},
      List.Forall₂ (Site.SameNamed Site.Reordered) candidates others →
      List.Forall₂ Site.Reordered (expandAmong parts candidates) (expandAmong parts others) := by
  induction parts with
  | nil =>
      constructor
      · intro site other reordered
        rw [expand, expand]
        exact .cons reordered .nil
      · intro candidates others _
        rw [expandAmong, expandAmong]
        exact .nil
  | cons part parts induction =>
      obtain ⟨along, among⟩ := induction
      cases part with
      | name text =>
          constructor
          · intro site other reordered
            have follow := reordered.follow (String.ofList text)
            rw [expand, expand]
            generalize site.follow (String.ofList text) = here at follow ⊢
            generalize other.follow (String.ofList text) = there at follow ⊢
            cases follow with
            | none => exact .nil
            | some behind => exact along behind
          · intro candidates others alike
            rw [expandAmong, expandAmong]
            exact flat_map_same_named (fun name => (Component.name text).fits name) alike along
      | wild pieces =>
          constructor
          · intro site other reordered
            rw [expand, expand]
            apply List.rel_append
            · exact List.rel_flatMap (reordered.specials pieces) fun _ _ => along
            · exact flat_map_same_named (fun name => fits pieces name.toList)
                reordered.children along
          · intro candidates others alike
            rw [expandAmong, expandAmong]
            exact flat_map_same_named (fun name => (Component.wild pieces).fits name) alike along
      | anyDirectories =>
          constructor
          · intro site other reordered
            rw [expand, expand, reordered.path]
            exact among (Site.descendants_reordered reordered.place.entry other.path
              reordered.place.above)
          · intro candidates others alike
            rw [expandAmong, expandAmong]
            exact among alike

theorem paths_of_files {sites others : List Site} (alike : List.Forall₂ Site.Reordered sites others)
    (wanted : Bool) :
    (sites.filter fun site => site.place.entry.isFile && wanted).map (·.path) =
      (others.filter fun site => site.place.entry.isFile && wanted).map (·.path) := by
  induction alike with
  | nil => rfl
  | cons first _ induction =>
      rw [List.filter_cons, List.filter_cons, first.place.entry.kind.2]
      split
      · rw [List.map_cons, List.map_cons, first.path, induction]
      · exact induction

end Glob

section
variable {tree other : FileTree} (reordered : tree.Reordered other)

include reordered

theorem Glob.files_reordered (pattern : String) :
    Glob.files tree pattern = Glob.files other pattern := by
  rw [files, files]
  cases components pattern with
  | error fault => rfl
  | ok parts =>
      have start :
          Site.Reordered ⟨if FileTree.isAbsolute pattern then "/" else "", tree.start pattern⟩
          ⟨if FileTree.isAbsolute pattern then "/" else "", other.start pattern⟩ :=
        ⟨rfl, reordered.start pattern⟩
      have paths := paths_of_files ((expand_reordered parts).1 start) (!wantsDirectory pattern)
      exact congrArg (fun paths => Except.ok (paths.mergeSort pathLe)) paths

theorem Input.resolve_one_reordered (argument : String) :
    Input.resolveOne tree argument = Input.resolveOne other argument := by
  rw [resolveOne, resolveOne, reordered.has_file, Glob.files_reordered reordered]

theorem Input.resolve_all_reordered (arguments : List String) :
    Input.resolveAll tree arguments = Input.resolveAll other arguments := by
  induction arguments with
  | nil => rfl
  | cons argument arguments induction =>
      rw [resolveAll, resolveAll, resolve_one_reordered reordered, induction]

/-- Which inputs arguments name does not depend on the order in which directories list their
entries. -/
theorem Input.resolve_reordered (arguments : List String) :
    Input.resolve tree arguments = Input.resolve other arguments := by
  rw [resolve, resolve, resolve_all_reordered reordered]

end

end ManifestLint
