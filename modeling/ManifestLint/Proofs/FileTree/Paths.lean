import Mathlib.Data.List.Nodup
import ManifestLint.FileTree

/-!
Paths in trees of files. A path is its segments with slashes between them, and in a tree whose
directories list each name once a name leads to one entry at most. Files that are put into a tree
keep it so.
-/

namespace ManifestLint

theorem split_segments_nonempty (path : List Char) : splitSegments path ≠ [] := by
  cases path with
  | nil => exact List.cons_ne_nil _ _
  | cons char rest =>
      rw [splitSegments]
      split
      · exact List.cons_ne_nil _ _
      · split <;> exact List.cons_ne_nil _ _

theorem split_segments_char {char : Char} (plain : char ≠ '/') {rest segment : List Char}
    {segments : List (List Char)} (split : splitSegments rest = segment :: segments) :
    splitSegments (char :: rest) = (char :: segment) :: segments := by
  rw [splitSegments, if_neg plain, split]

theorem join_split_segments (path : List Char) :
    List.intercalate ['/'] (splitSegments path) = path := by
  induction path with
  | nil => rfl
  | cons char rest induction =>
      obtain ⟨segment, segments, split⟩ := List.exists_cons_of_ne_nil (split_segments_nonempty rest)
      by_cases slash : char = '/'
      · rw [splitSegments, if_pos slash, split, List.intercalate_cons_cons, ← split,
          induction, slash]
        rfl
      · rw [split_segments_char slash split]
        rw [split] at induction
        cases segments with
        | nil => simpa using induction
        | cons other segments =>
            rw [List.intercalate_cons_cons] at induction ⊢
            rw [← induction]
            rfl

theorem no_slash_in_segments (path : List Char) :
    ∀ segment ∈ splitSegments path, '/' ∉ segment := by
  induction path with
  | nil =>
      intro segment member
      rw [List.mem_singleton.1 member]
      exact List.not_mem_nil
  | cons char rest induction =>
      obtain ⟨first, segments, split⟩ := List.exists_cons_of_ne_nil (split_segments_nonempty rest)
      rw [split, List.forall_mem_cons] at induction
      by_cases slash : char = '/'
      · rw [splitSegments, if_pos slash, split, List.forall_mem_cons, List.forall_mem_cons]
        exact ⟨List.not_mem_nil, induction⟩
      · rw [split_segments_char slash split, List.forall_mem_cons, List.mem_cons, not_or]
        exact ⟨⟨Ne.symm slash, induction.1⟩, induction.2⟩

theorem split_segments_plain {segment : List Char} (plain : '/' ∉ segment) :
    splitSegments segment = [segment] := by
  induction segment with
  | nil => rfl
  | cons char rest induction =>
      rw [List.mem_cons, not_or] at plain
      exact split_segments_char (Ne.symm plain.1) (induction plain.2)

theorem split_segments_append (first second : List Char) :
    splitSegments (first ++ '/' :: second) = splitSegments first ++ splitSegments second := by
  induction first with
  | nil => simp [splitSegments]
  | cons char first induction =>
      obtain ⟨segment, segments, split⟩ :=
        List.exists_cons_of_ne_nil (split_segments_nonempty first)
      by_cases slash : char = '/'
      · rw [List.cons_append, splitSegments, if_pos slash, induction, splitSegments, if_pos slash,
          List.cons_append]
      · rw [split, List.cons_append] at induction
        rw [split_segments_char slash split, List.cons_append, split_segments_char slash induction,
          List.cons_append]

theorem starts_with_no_slash {path : List Char} (nonempty : [] ∉ splitSegments path) :
    path.head? ≠ some '/' := by
  intro slash
  obtain ⟨rest, same⟩ := List.head?_eq_some_iff.1 slash
  apply nonempty
  rw [same, ← List.nil_append ('/' :: rest), split_segments_append]
  exact List.mem_append_left _ List.mem_cons_self

theorem ends_with_no_slash {path : List Char} (nonempty : [] ∉ splitSegments path) :
    path.getLast? ≠ some '/' := by
  intro slash
  obtain ⟨rest, same⟩ := List.getLast?_eq_some_iff.1 slash
  apply nonempty
  rw [same, split_segments_append]
  exact List.mem_append_right _ List.mem_cons_self

theorem ends_with_slash {path : List Char} (nonempty : path ≠ [])
    (last : (splitSegments path).getLast? = some []) :
    path.getLast? = some '/' := by
  induction path with
  | nil => exact absurd rfl nonempty
  | cons char rest induction =>
      obtain ⟨segment, segments, split⟩ := List.exists_cons_of_ne_nil (split_segments_nonempty rest)
      by_cases nothing : rest = []
      · rw [nothing] at last ⊢
        by_cases slash : char = '/'
        · rw [slash, List.getLast?_singleton]
        · rw [splitSegments, if_neg slash] at last
          cases last
      · have behind : (splitSegments rest).getLast? = some [] := by
          by_cases slash : char = '/'
          · rw [splitSegments, if_pos slash, List.getLast?_cons, split] at last
            rwa [split]
          · rw [split_segments_char slash split] at last
            cases segments with
            | nil => cases last
            | cons other segments => rwa [split]
        rw [List.getLast?_cons, induction nothing behind]
        rfl

theorem segments_injective {first second : String} (same : segments first = segments second) :
    first = second := by
  have parts : splitSegments first.toList = splitSegments second.toList :=
    List.map_injective_iff.2 (fun _ _ => String.ofList_injective) same
  rw [← String.toList_inj, ← join_split_segments first.toList, parts, join_split_segments]

theorem segments_of_name {name : String} (plain : '/' ∉ name.toList) : segments name = [name] := by
  rw [segments, split_segments_plain plain, List.map_singleton, String.ofList_toList]

@[simp] theorem segments_append (first second : String) :
    segments (first ++ "/" ++ second) = segments first ++ segments second := by
  have chars : (first ++ "/" ++ second).toList = first.toList ++ '/' :: second.toList := by simp
  rw [segments, chars, split_segments_append, List.map_append, segments, segments]

/-- A name that a directory can list. -/
structure ProperName (name : String) : Prop where
  nonempty : name ≠ ""
  below : name ≠ "." ∧ name ≠ ".."
  plain : '/' ∉ name.toList

instance : DecidablePred ProperName := fun name =>
  decidable_of_iff (name ≠ "" ∧ (name ≠ "." ∧ name ≠ "..") ∧ '/' ∉ name.toList)
    ⟨fun ⟨nonempty, below, plain⟩ => ⟨nonempty, below, plain⟩,
      fun proper => ⟨proper.nonempty, proper.below, proper.plain⟩⟩

theorem no_empty_segment {path : String} (proper : ∀ name ∈ segments path, ProperName name) :
    [] ∉ splitSegments path.toList := by
  intro member
  exact (proper "" (List.mem_map.2 ⟨[], member, rfl⟩)).nonempty rfl

theorem no_slash_in_segment {path segment : String} (member : segment ∈ segments path) :
    '/' ∉ segment.toList := by
  obtain ⟨chars, found, same⟩ := List.mem_map.1 member
  rw [← same, String.toList_ofList]
  exact no_slash_in_segments path.toList chars found

/-- A tree of entries is proved about from its leaves up. -/
@[elab_as_elim]
theorem Entry.from_leaves {motive : Entry → Prop} (file : ∀ bytes, motive (.file bytes))
    (directory : ∀ entries, (∀ child ∈ entries, motive child.2) → motive (.directory entries)) :
    ∀ entry, motive entry
  | .file bytes => file bytes
  | .directory entries => directory entries fun child _member =>
    Entry.from_leaves file directory child.2
  termination_by entry => sizeOf entry
  decreasing_by
    have inside := List.sizeOf_lt_of_mem _member
    have part : sizeOf child.2 < sizeOf child := by
      cases child
      simp only [Prod.mk.sizeOf_spec]
      omega
    simp only [Entry.directory.sizeOf_spec]
    omega

/-- Every directory lists proper names, each once. -/
inductive Entry.WellFormed : Entry → Prop where
  | file (bytes : List UInt8) : WellFormed (.file bytes)
  | directory {entries : List (String × Entry)} (proper : ∀ child ∈ entries, ProperName child.1)
      (distinct : (entries.map (·.1)).Nodup) (inside : ∀ child ∈ entries, WellFormed child.2) :
      WellFormed (.directory entries)

theorem lookup_eq_some_iff_mem {Value : Type} {entries : List (String × Value)}
    (distinct : (entries.map (·.1)).Nodup) {name : String} {value : Value} :
    entries.lookup name = some value ↔ (name, value) ∈ entries := by
  induction entries with
  | nil => simp
  | cons first entries induction =>
      obtain ⟨other, stored⟩ := first
      rw [List.map_cons, List.nodup_cons] at distinct
      by_cases same : name = other
      · subst same
        rw [List.lookup_cons_self, List.mem_cons, Prod.mk.injEq, Option.some.injEq]
        constructor
        · intro equal
          exact .inl ⟨rfl, equal.symm⟩
        · intro member
          rcases member with equal | member
          · exact equal.2.symm
          · exact absurd (List.mem_map.2 ⟨_, member, rfl⟩) distinct.1
      · rw [List.lookup_cons, beq_eq_false_iff_ne.2 same, List.mem_cons, induction distinct.2]
        simp [same]

theorem lookup_eq_none_of_unlisted {Value : Type} {entries : List (String × Value)} {name : String}
    (unlisted : name ∉ entries.map (·.1)) : entries.lookup name = none := by
  rw [List.lookup_eq_none_iff]
  intro entry member
  rw [bne_iff_ne]
  intro same
  exact unlisted (List.mem_map.2 ⟨entry, member, same.symm⟩)

namespace Entry

theorem child_eq_lookup (entry : Entry) (name : String) :
    entry.child? name = entry.children.lookup name := by
  cases entry <;> rfl

theorem WellFormed.names_distinct {entry : Entry} (formed : entry.WellFormed) :
    (entry.children.map (·.1)).Nodup := by
  cases formed with
  | file => exact List.nodup_nil
  | directory _ distinct => exact distinct

theorem WellFormed.child {entry : Entry} (formed : entry.WellFormed) {name : String} {child : Entry}
    (listed : (name, child) ∈ entry.children) : ProperName name ∧ child.WellFormed := by
  cases formed with
  | file => cases listed
  | directory proper _ inside => exact ⟨proper _ listed, inside _ listed⟩

theorem WellFormed.child_iff {entry : Entry} (formed : entry.WellFormed) {name : String}
    {child : Entry} :
    entry.child? name = some child ↔ (name, child) ∈ entry.children := by
  rw [child_eq_lookup, lookup_eq_some_iff_mem formed.names_distinct]

theorem WellFormed.empty : Entry.empty.WellFormed :=
  .directory (List.forall_mem_nil _) List.nodup_nil (List.forall_mem_nil _)

theorem mem_set_child {name : String} {child : Entry} {entries : List (String × Entry)}
    {listed : String × Entry} (member : listed ∈ setChild name child entries) :
    listed = (name, child) ∨ listed ∈ entries := by
  induction entries with
  | nil => exact .inl (List.mem_singleton.1 member)
  | cons first entries induction =>
      rw [setChild] at member
      split at member
      · rcases List.mem_cons.1 member with same | behind
        · exact .inl same
        · exact .inr (List.mem_cons_of_mem _ behind)
      · rcases List.mem_cons.1 member with same | behind
        · exact .inr (List.mem_cons.2 (.inl same))
        · exact (induction behind).imp_right (List.mem_cons_of_mem _)

theorem set_child_names_distinct (name : String) (child : Entry) {entries : List (String × Entry)}
    (distinct : (entries.map (·.1)).Nodup) : ((setChild name child entries).map (·.1)).Nodup := by
  induction entries with
  | nil => exact List.nodup_singleton name
  | cons first entries induction =>
      rw [List.map_cons, List.nodup_cons] at distinct
      rw [setChild]
      split
      · next same =>
        rw [List.map_cons, List.nodup_cons, ← beq_iff_eq.1 same]
        exact distinct
      · next other =>
        rw [List.map_cons, List.nodup_cons]
        refine ⟨?_, induction distinct.2⟩
        intro member
        obtain ⟨listed, found, same⟩ := List.mem_map.1 member
        rcases mem_set_child found with put | kept
        · rw [put] at same
          exact other (beq_iff_eq.2 same.symm)
        · exact distinct.1 (List.mem_map.2 ⟨listed, kept, same⟩)

theorem put_well_formed {target : Entry} (sound : target.WellFormed) {names : List String}
    (proper : ∀ name ∈ names, ProperName name) {entry : Entry} (formed : entry.WellFormed) :
    (put target names entry).WellFormed := by
  induction names generalizing entry with
  | nil => exact sound
  | cons name names induction =>
      rw [List.forall_mem_cons] at proper
      have inner : ((entry.child? name).getD Entry.empty).WellFormed := by
        cases found : entry.child? name with
        | none => exact .empty
        | some child => exact (formed.child (formed.child_iff.1 found)).2
      have members {child : String × Entry}
          (member : child ∈ setChild name (put target names ((entry.child? name).getD Entry.empty))
            entry.children) :
          ProperName child.1 ∧ child.2.WellFormed := by
        rcases mem_set_child member with same | kept
        · rw [same]
          exact ⟨proper.1, induction proper.2 inner⟩
        · exact formed.child kept
      apply WellFormed.directory
      · intro child member
        exact (members member).1
      · exact set_child_names_distinct _ _ formed.names_distinct
      · intro child member
        exact (members member).2

end Entry

theorem Place.step_eq_ok_iff {place found : Place} (formed : place.entry.WellFormed) {name : String}
    (proper : ProperName name) :
    place.step name = .ok found ↔
      ∃ entry, (name, entry) ∈ place.entry.children ∧
        found = ⟨entry, place.entry :: place.above⟩ := by
  have here : ¬ (name = "" ∨ name = ".") := not_or.2 ⟨proper.nonempty, proper.below.1⟩
  rw [step]
  simp only [if_neg here, if_neg proper.below.2, child?, ← formed.child_iff]
  cases place.entry with
  | file bytes => simp [Entry.isDirectory, Entry.child?]
  | directory entries =>
      cases Entry.child? name (.directory entries) with
      | none => simp [Entry.isDirectory]
      | some entry => simp [Entry.isDirectory, eq_comm]

namespace Place

/-- A place whose entry is well formed, and so are the directories above it. -/
structure WellFormed (place : Place) : Prop where
  entry : place.entry.WellFormed
  above : ∀ entry ∈ place.above, entry.WellFormed

theorem WellFormed.of_root {root : Entry} (formed : root.WellFormed) : (ofRoot root).WellFormed :=
  ⟨formed, List.forall_mem_nil _⟩

theorem WellFormed.parent {place : Place} (formed : place.WellFormed) :
    place.parent.WellFormed := by
  obtain ⟨entry, above⟩ := place
  cases above with
  | nil => exact formed
  | cons next above =>
      have outer := List.forall_mem_cons.1 formed.above
      exact ⟨outer.1, outer.2⟩

theorem WellFormed.descend {place found : Place} (formed : place.WellFormed) {names : List String}
    (leads : place.descend names = some found) :
    (∀ name ∈ names, ProperName name) ∧ found.WellFormed := by
  induction names generalizing place with
  | nil =>
      cases leads
      exact ⟨List.forall_mem_nil _, formed⟩
  | cons name names induction =>
      obtain ⟨child, into, behind⟩ := Option.bind_eq_some_iff.1 leads
      obtain ⟨entry, listed, rfl⟩ := Option.map_eq_some_iff.1 into
      have inside := formed.entry.child (formed.entry.child_iff.1 listed)
      have below := induction ⟨inside.2, List.forall_mem_cons.2 ⟨formed.entry, formed.above⟩⟩ behind
      exact ⟨List.forall_mem_cons.2 ⟨inside.1, below.1⟩, below.2⟩

end Place

namespace FileTree

theorem descend_to_working (tree : FileTree) :
    (Place.ofRoot tree.root).descend tree.workingNames = some tree.working :=
  (Option.some_get tree.leads).symm

section
variable {tree : FileTree} (formed : tree.root.WellFormed)

include formed

theorem working_names_proper : ∀ name ∈ tree.workingNames, ProperName name :=
  ((Place.WellFormed.of_root formed).descend tree.descend_to_working).1

theorem working_well_formed : tree.working.WellFormed :=
  ((Place.WellFormed.of_root formed).descend tree.descend_to_working).2

theorem start_well_formed (path : String) : (tree.start path).WellFormed := by
  rw [start]
  split
  · exact .of_root formed
  · exact working_well_formed formed

end

theorem is_absolute_of_proper {path : String} (proper : ∀ name ∈ segments path, ProperName name) :
    isAbsolute path = false := by
  rw [isAbsolute, beq_eq_false_iff_ne]
  exact starts_with_no_slash (no_empty_segment proper)

theorem locate_of_proper {path : String} (proper : ∀ name ∈ segments path, ProperName name)
    (tree : FileTree) : tree.locate path = tree.working.walk (segments path) := by
  have nonempty := no_empty_segment proper
  rw [locate, if_neg, start, is_absolute_of_proper proper, if_neg Bool.false_ne_true]
  intro nothing
  rw [String.isEmpty_iff.1 nothing] at nonempty
  exact nonempty List.mem_cons_self

theorem names_proper {path : String} (below : ".." ∉ segments path) :
    ∀ name ∈ names path, ProperName name := by
  intro name member
  rw [names, List.mem_filter, Bool.and_eq_true, bne_iff_ne, bne_iff_ne] at member
  refine ⟨member.2.1, ⟨member.2.2, ?_⟩, no_slash_in_segment member.1⟩
  intro same
  exact below (same ▸ member.1)

theorem empty_well_formed : FileTree.empty.root.WellFormed := by
  have below : ∀ child ∈ [("work", Entry.empty)], ProperName child.1 ∧ child.2.WellFormed := by
    rw [List.forall_mem_singleton]
    exact ⟨by decide, .empty⟩
  apply Entry.WellFormed.directory
  · exact fun child member => (below child member).1
  · exact List.nodup_singleton "work"
  · exact fun child member => (below child member).2

theorem put_well_formed {tree : FileTree} (formed : tree.root.WellFormed) {target : Entry}
    (sound : target.WellFormed) {path : String} (below : ".." ∉ segments path) :
    (tree.put target path).root.WellFormed := by
  apply Entry.put_well_formed sound
  · exact List.forall_mem_append.2 ⟨working_names_proper formed, names_proper below⟩
  · exact formed

/-- A tree stays well formed when a file is put into it by a path that does not lead up. -/
theorem add_file_well_formed {tree : FileTree} (formed : tree.root.WellFormed) {path : String}
    (below : ".." ∉ segments path) (bytes : List UInt8) :
    (tree.addFile path bytes).root.WellFormed :=
  put_well_formed formed (.file bytes) below

theorem add_directory_well_formed {tree : FileTree} (formed : tree.root.WellFormed) {path : String}
    (below : ".." ∉ segments path) : (tree.addDirectory path).root.WellFormed := by
  rw [addDirectory]
  split
  · exact formed
  · exact put_well_formed formed .empty below

end FileTree

end ManifestLint
