import Mathlib.Data.List.Forall2
import Mathlib.Data.Option.Basic
import ManifestLint.Proofs.FileTree.Paths

/-!
Trees that differ in nothing but the order in which their directories list the entries. The same
paths lead through them to files.
-/

namespace ManifestLint

/-- The same entry, where directories list what is in them in any order. -/
inductive Entry.Reordered : Entry → Entry → Prop where
  | file (bytes : List UInt8) : Reordered (.file bytes) (.file bytes)
  | directory {entries others : List (String × Entry)}
      (names : (entries.map (·.1)).Perm (others.map (·.1)))
      (alike : ∀ name entry other, (name, entry) ∈ entries → (name, other) ∈ others →
        Reordered entry other) :
      Reordered (.directory entries) (.directory others)

theorem mem_of_lookup {Value : Type} {name : String} {values : List (String × Value)}
    {value : Value} (found : values.lookup name = some value) : (name, value) ∈ values := by
  obtain ⟨before, behind, same, _⟩ := List.lookup_eq_some_iff.1 found
  rw [same]
  exact List.mem_append_right _ List.mem_cons_self

theorem lookup_eq_none_iff_names {Value : Type} {name : String} {values : List (String × Value)} :
    values.lookup name = none ↔ name ∉ values.map (·.1) := by
  rw [List.lookup_eq_none_iff, List.mem_map]
  simp only [bne_iff_ne, not_exists, not_and]
  constructor
  · intro different value member same
    exact different value member same.symm
  · intro different value member same
    exact different value member same.symm

namespace Entry.Reordered

variable {entry other : Entry}

theorem kind (reordered : entry.Reordered other) :
    entry.isDirectory = other.isDirectory ∧ entry.isFile = other.isFile := by
  cases reordered <;> exact ⟨rfl, rfl⟩

theorem names (reordered : entry.Reordered other) :
    (entry.children.map (·.1)).Perm (other.children.map (·.1)) := by
  cases reordered with
  | file => exact .refl []
  | directory names => exact names

theorem listed (reordered : entry.Reordered other) {name : String} {child otherChild : Entry}
    (first : (name, child) ∈ entry.children) (second : (name, otherChild) ∈ other.children) :
    child.Reordered otherChild := by
  cases reordered with
  | file => cases first
  | directory _ alike => exact alike name child otherChild first second

theorem child (reordered : entry.Reordered other) (name : String) :
    Option.Rel Entry.Reordered (entry.child? name) (other.child? name) := by
  cases reordered with
  | file => exact .none
  | @directory entries others names alike =>
      rw [child?, child?]
      cases found : entries.lookup name with
      | none =>
          have missing : others.lookup name = none := by
            rw [lookup_eq_none_iff_names, ← names.mem_iff]
            exact lookup_eq_none_iff_names.1 found
          rw [missing]
          exact .none
      | some entry =>
          cases again : others.lookup name with
          | none =>
              rw [lookup_eq_none_iff_names, ← names.mem_iff] at again
              rw [lookup_eq_none_iff_names.2 again] at found
              cases found
          | some other =>
            exact .some (alike name entry other (mem_of_lookup found) (mem_of_lookup again))

end Entry.Reordered

namespace Place

structure Reordered (place other : Place) : Prop where
  entry : place.entry.Reordered other.entry
  above : List.Forall₂ Entry.Reordered place.above other.above

theorem Reordered.of_root {root other : Entry} (reordered : root.Reordered other) :
    (ofRoot root).Reordered (ofRoot other) :=
  ⟨reordered, .nil⟩

variable {place other : Place}

theorem Reordered.parent (reordered : place.Reordered other) :
    place.parent.Reordered other.parent := by
  obtain ⟨entry, above⟩ := place
  obtain ⟨otherEntry, otherAbove⟩ := other
  cases reordered.above with
  | nil => exact reordered
  | cons first rest => exact ⟨first, rest⟩

theorem Reordered.child (reordered : place.Reordered other) (name : String) :
    Option.Rel Reordered (place.child? name) (other.child? name) := by
  have children := reordered.entry.child name
  rw [child?, child?]
  generalize place.entry.child? name = here at children ⊢
  generalize other.entry.child? name = there at children ⊢
  cases children with
  | none => exact .none
  | some child => exact .some ⟨child, .cons reordered.entry reordered.above⟩

theorem Reordered.descend (reordered : place.Reordered other) (names : List String) :
    Option.Rel Reordered (place.descend names) (other.descend names) := by
  induction names generalizing place other with
  | nil => exact .some reordered
  | cons name names induction =>
      have children := reordered.child name
      rw [Place.descend, Place.descend]
      generalize place.child? name = here at children ⊢
      generalize other.child? name = there at children ⊢
      cases children with
      | none => exact .none
      | some child => exact induction child

inductive SameEnd : Except FileFault Place → Except FileFault Place → Prop where
  | fault (fault : FileFault) : SameEnd (.error fault) (.error fault)
  | place {place other : Place} (reordered : place.Reordered other) : SameEnd (.ok place)
      (.ok other)

theorem Reordered.step (reordered : place.Reordered other) (segment : String) :
    SameEnd (place.step segment) (other.step segment) := by
  rw [Place.step, Place.step, reordered.entry.kind.1]
  split
  · exact .fault _
  split
  · exact .place reordered
  split
  · exact .place reordered.parent
  · have children := reordered.child segment
    generalize place.child? segment = here at children ⊢
    generalize other.child? segment = there at children ⊢
    cases children with
    | none => exact .fault _
    | some child => exact .place child

theorem Reordered.walk (reordered : place.Reordered other) (segments : List String) :
    SameEnd (place.walk segments) (other.walk segments) := by
  induction segments generalizing place other with
  | nil => exact .place reordered
  | cons segment segments induction =>
      have step := reordered.step segment
      rw [Place.walk, Place.walk]
      generalize place.step segment = here at step ⊢
      generalize other.step segment = there at step ⊢
      cases step with
      | fault => exact .fault _
      | place behind => exact induction behind

end Place

namespace FileTree

/-- The same tree with the same working directory, where directories list what is in them in any
order. -/
structure Reordered (tree other : FileTree) : Prop where
  root : tree.root.Reordered other.root
  workingNames : tree.workingNames = other.workingNames

variable {tree other : FileTree}

theorem Reordered.working (reordered : tree.Reordered other) :
    tree.working.Reordered other.working := by
  have ends := (Place.Reordered.of_root reordered.root).descend tree.workingNames
  rw [tree.descend_to_working, reordered.workingNames, other.descend_to_working] at ends
  cases ends with
  | some places => exact places

theorem Reordered.start (reordered : tree.Reordered other) (path : String) :
    (tree.start path).Reordered (other.start path) := by
  rw [FileTree.start, FileTree.start]
  split
  · exact .of_root reordered.root
  · exact reordered.working

theorem Reordered.locate (reordered : tree.Reordered other) (path : String) :
    Place.SameEnd (tree.locate path) (other.locate path) := by
  rw [FileTree.locate, FileTree.locate]
  split
  · exact .fault _
  · exact (reordered.start path).walk (segments path)

theorem Reordered.has_file (reordered : tree.Reordered other) (path : String) :
    tree.hasFile path = other.hasFile path := by
  have ends := reordered.locate path
  rw [FileTree.hasFile, FileTree.hasFile]
  generalize tree.locate path = here at ends ⊢
  generalize other.locate path = there at ends ⊢
  cases ends with
  | fault => rfl
  | place found => exact found.entry.kind.2

end FileTree

end ManifestLint
