import ManifestLint.FileTree
import ManifestLint.Proofs.Faults

/-!
What a path leads to in a tree: a file, a directory, or nothing, and then it matters whether a file
is in the way. This alone decides whether something is there, and why it cannot be read.
-/

namespace ManifestLint

theorem Place.step_fault {place : Place} {segment : String} {fault : FileFault}
    (failed : place.step segment = .error fault) : fault = .absent ∨ fault = .belowFile := by
  unfold Place.step at failed
  split at failed
  · cases failed
    exact .inr rfl
  · split at failed
    · cases failed
    · split at failed
      · cases failed
      · cases child : place.child? segment with
        | none =>
            rw [child] at failed
            cases failed
            exact .inl rfl
        | some below =>
            rw [child] at failed
            cases failed

theorem Place.walk_fault {place : Place} {segments : List String} {fault : FileFault}
    (failed : place.walk segments = .error fault) : fault = .absent ∨ fault = .belowFile := by
  induction segments generalizing place with
  | nil => cases failed
  | cons segment segments induction =>
      rw [Place.walk, bind_eq_error_iff] at failed
      cases failed with
      | inl stopped => exact Place.step_fault stopped
      | inr later =>
          obtain ⟨next, _, stopped⟩ := later
          exact induction stopped

namespace FileTree

/-- What a path leads to. -/
inductive Kind where
  | absent
  | belowFile
  | directory
  | file
deriving DecidableEq, Repr

def Kind.fault : Kind → Option FileFault
  | .absent => some .absent
  | .belowFile => some .belowFile
  | .directory => some .isDirectory
  | .file => none

def kindOf (tree : FileTree) (path : String) : Kind :=
  match tree.locate path with
  | .ok place => if place.entry.isFile then .file else .directory
  | .error .belowFile => .belowFile
  | .error _ => .absent

section
variable (tree : FileTree) (path : String)

theorem locate_fault {fault : FileFault} (failed : tree.locate path = .error fault) :
    fault = .absent ∨ fault = .belowFile := by
  unfold locate at failed
  split at failed
  · cases failed
    exact .inl rfl
  · exact Place.walk_fault failed

theorem read_file_eq_error_iff (fault : FileFault) :
    tree.readFile path = .error fault ↔ (tree.kindOf path).fault = some fault := by
  unfold readFile kindOf
  cases located : tree.locate path with
  | error stopped =>
      change Except.error stopped = .error fault ↔ _
      cases locate_fault tree path located with
      | inl absent => simp [absent, Kind.fault]
      | inr below => simp [below, Kind.fault]
  | ok place =>
      obtain ⟨entry, above⟩ := place
      cases entry with
      | file bytes => exact iff_of_false nofun nofun
      | directory entries =>
          change Except.error FileFault.isDirectory = .error fault ↔
            some FileFault.isDirectory = some fault
          simp

theorem kind_eq_file_iff : tree.kindOf path = .file ↔ ∃ bytes, tree.readFile path = .ok bytes := by
  have faultless : tree.kindOf path = .file ↔ (tree.kindOf path).fault = none := by
    cases tree.kindOf path <;> simp [Kind.fault]
  rw [faultless, Option.eq_none_iff_forall_ne_some]
  constructor
  · intro none
    cases read : tree.readFile path with
    | error fault => exact absurd ((read_file_eq_error_iff tree path fault).1 read) (none fault)
    | ok bytes => exact ⟨bytes, rfl⟩
  · intro some fault failed
    obtain ⟨bytes, read⟩ := some
    rw [(read_file_eq_error_iff tree path fault).2 failed] at read
    cases read

theorem holds_iff :
    tree.holds path = true ↔ tree.kindOf path = .directory ∨ tree.kindOf path = .file := by
  unfold holds kindOf
  cases tree.locate path with
  | error fault => cases fault <;> exact iff_of_false nofun nofun
  | ok place =>
      apply iff_of_true rfl
      dsimp only
      split
      · exact .inr rfl
      · exact .inl rfl

end

/-- At a path of two trees there is the same, and the same bytes where it is a file. -/
structure SameFile (first second : FileTree) (path : String) : Prop where
  kind : first.kindOf path = second.kindOf path
  bytes : first.kindOf path = .file →
    ∃ bytes, first.readFile path = .ok bytes ∧ second.readFile path = .ok bytes

variable {first second : FileTree} {path : String}

theorem holds_eq_of_kind (same : first.kindOf path = second.kindOf path) :
    first.holds path = second.holds path := by
  rw [Bool.eq_iff_iff, holds_iff, holds_iff, same]

theorem SameFile.read_file_eq (same : SameFile first second path) :
    first.readFile path = second.readFile path := by
  cases read : first.readFile path with
  | error fault =>
      have failed := (read_file_eq_error_iff first path fault).1 read
      rw [same.kind] at failed
      exact ((read_file_eq_error_iff second path fault).2 failed).symm
  | ok bytes =>
      obtain ⟨found, here, there⟩ := same.bytes ((kind_eq_file_iff first path).2 ⟨bytes, read⟩)
      rw [there, ← here, read]

end FileTree

end ManifestLint
