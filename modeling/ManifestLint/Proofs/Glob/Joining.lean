import ManifestLint.Proofs.Glob.Expanding
import ManifestLint.Proofs.Glob.Sorting

/-!
Paths that are put together on the way through a tree. The names of such a path are those that were
followed, and the path to a file can be told from them.
-/

namespace ManifestLint.Glob

namespace Site

open FileTree (names)

theorem names_append (first second : String) :
    names (first ++ "/" ++ second) = names first ++ names second := by
  simp [names, List.filter_append, names, names]

theorem names_of_name {name : String} (proper : ProperName name) : names name = [name] := by
  have alone := segments_of_name proper.plain
  rw [names_of_proper, alone]
  rw [alone]
  exact List.forall_mem_singleton.2 proper

theorem ends_in_slash {path : String} (slash : path.toList.getLast? = some '/') :
    ∃ front : String, path = front ++ "/" := by
  obtain ⟨front, same⟩ := List.getLast?_eq_some_iff.1 slash
  refine ⟨String.ofList front, ?_⟩
  rw [← String.toList_inj, same, String.toList_append, String.toList_ofList]
  rfl

theorem segments_slash (front : String) : segments (front ++ "/") = segments front ++ [""] := by
  have split := segments_append front ""
  rw [String.append_empty] at split
  exact split

theorem names_join (path name : String) : names (join path name) = names path ++ names name := by
  unfold join
  split
  · next nothing =>
    rw [String.isEmpty_iff.1 nothing]
    rfl
  · split
    · next slash =>
      obtain ⟨front, rfl⟩ := ends_in_slash slash
      have same : names (front ++ "/") = names front := by
        rw [names, segments_slash, List.filter_append]
        exact List.append_nil _
      rw [names_append, same]
    · exact names_append path name

/-- A path that is its names with slashes between them, or such a path with a slash behind it to a
directory, or nothing. -/
def Tidy (site : Site) : Prop :=
  segments site.path = names site.path ∨
    segments site.path = names site.path ++ [""] ∧
      (site.path = "" ∨ site.place.entry.isFile = false)

theorem empty_not_in_names (path : String) : "" ∉ names path := by
  intro member
  rw [names, List.mem_filter] at member
  exact absurd member.2 (by decide)

theorem Tidy.before_slash {site : Site} (tidy : site.Tidy) {front : String}
    (slash : site.path = front ++ "/") :
    segments front = names site.path := by
  have parts : segments site.path = segments front ++ [""] := by rw [slash, segments_slash]
  rcases tidy with exactly | ⟨behind, _⟩
  · have member : "" ∈ segments site.path :=
      parts ▸ List.mem_append_right _ (List.mem_singleton_self _)
    exact absurd (exactly ▸ member) (empty_not_in_names site.path)
  · exact List.append_cancel_right (parts.symm.trans behind)

theorem Tidy.without_slash {site : Site} (tidy : site.Tidy) (nonempty : site.path ≠ "")
    (other : site.path.toList.getLast? ≠ some '/') : segments site.path = names site.path := by
  rcases tidy with exactly | ⟨behind, _⟩
  · exact exactly
  · have last : (segments site.path).getLast? = some "" := by
      rw [behind, List.getLast?_concat]
    rw [segments, List.getLast?_map, Option.map_eq_some_iff] at last
    obtain ⟨chars, found, empty⟩ := last
    rw [String.ofList_eq_empty_iff.1 empty] at found
    exact absurd (ends_with_slash (mt String.toList_eq_nil_iff.1 nonempty) found) other

/-- A name is put behind the names of a tidy path, with a slash between them unless there is one. -/
theorem Tidy.segments_join {site : Site} (tidy : site.Tidy) {name : String}
    (plain : '/' ∉ name.toList) :
    segments (join site.path name) = names site.path ++ [name] := by
  unfold join
  split
  · next nothing =>
    rw [String.isEmpty_iff.1 nothing, segments_of_name plain]
    rfl
  · next something =>
    split
    · next slash =>
      obtain ⟨front, same⟩ := ends_in_slash slash
      rw [← tidy.before_slash same, same, segments_append, segments_of_name plain]
    · next other =>
      simp [tidy.without_slash (mt String.isEmpty_iff.2 something) other, segments_of_name plain]

theorem names_child {site : Site} {name : String} (proper : ProperName name) (entry : Entry) :
    names (site.child name entry).path = names site.path ++ [name] :=
  (names_join site.path name).trans (congrArg _ (names_of_name proper))

theorem Tidy.child {site : Site} (tidy : site.Tidy) {name : String} (proper : ProperName name)
    (entry : Entry) :
    (site.child name entry).Tidy := by
  left
  rw [names_child proper]
  exact tidy.segments_join proper.plain

theorem names_slash (site : Site) : names (join site.path "") = names site.path :=
  (names_join site.path "").trans (List.append_nil _)

theorem Tidy.slash {site : Site} (tidy : site.Tidy) (directory : site.place.entry.isFile = false) :
    Tidy { site with path := join site.path "" } := by
  right
  rw [names_slash]
  exact ⟨tidy.segments_join List.not_mem_nil, .inr directory⟩

theorem Tidy.segments_to_file {site : Site} (tidy : site.Tidy)
    (file : site.place.entry.isFile = true) (below : names site.path ≠ []) :
    segments site.path = names site.path := by
  rcases tidy with exactly | ⟨_, nothing | directory⟩
  · exact exactly
  · rw [nothing] at below
    exact absurd rfl below
  · rw [file] at directory
    cases directory

/-- A tidy path to a file is its names with slashes between them. -/
theorem Tidy.path_to_file {site : Site} (tidy : site.Tidy) (file : site.place.entry.isFile = true) :
    site.path.toList = List.intercalate ['/'] ((names site.path).map String.toList) := by
  rcases tidy with exactly | ⟨_, nothing | directory⟩
  · have parts : (segments site.path).map String.toList = splitSegments site.path.toList := by
      rw [segments, List.map_map, String.toList_comp_ofList, List.map_id]
    rw [← exactly, parts, join_split_segments]
  · rw [nothing]
    rfl
  · rw [file] at directory
    cases directory

theorem Tidy.path_eq_iff {first second : Site} (firstTidy : first.Tidy) (secondTidy : second.Tidy)
    (firstFile : first.place.entry.isFile = true) (secondFile : second.place.entry.isFile = true) :
    first.path = second.path ↔ names first.path = names second.path := by
  constructor
  · exact congrArg names
  · intro same
    rw [← String.toList_inj, firstTidy.path_to_file firstFile,
      secondTidy.path_to_file secondFile, same]

theorem Reaches.names_path {site found : Site} {followed : List String}
    (reaches : site.Reaches followed found) (formed : site.place.entry.WellFormed) :
    names found.path = names site.path ++ followed := by
  induction reaches with
  | here => rw [List.append_nil]
  | into listed _ induction =>
      have child := formed.child listed
      rw [induction child.2, names_child child.1, List.append_assoc, List.singleton_append]

theorem Reaches.tidy {site found : Site} {followed : List String}
    (reaches : site.Reaches followed found) (formed : site.place.entry.WellFormed)
    (tidy : site.Tidy) : found.Tidy := by
  induction reaches with
  | here => exact tidy
  | into listed _ induction =>
      have child := formed.child listed
      exact induction child.2 (tidy.child child.1 _)

def atWorking (tree : FileTree) : Site := ⟨"", tree.working⟩

theorem at_working_well_formed {tree : FileTree} (formed : tree.root.WellFormed) :
    (atWorking tree).place.entry.WellFormed :=
  (FileTree.working_well_formed formed).entry

theorem tidy_working (tree : FileTree) : (atWorking tree).Tidy := .inr ⟨rfl, .inl rfl⟩

/-- From the working directory, where the path is empty, names lead to a file whose path is through
them. -/
theorem Reaches.segments_of_working {tree : FileTree} {found : Site} {followed : List String}
    (reaches : (atWorking tree).Reaches followed found) (formed : tree.root.WellFormed)
    (file : found.place.entry.isFile = true) (below : followed ≠ []) :
    segments found.path = followed := by
  have entry := at_working_well_formed formed
  have path : names found.path = followed := reaches.names_path entry
  have tidy := reaches.tidy entry (tidy_working tree)
  rw [tidy.segments_to_file file, path]
  rw [path]
  exact below

end Site

end ManifestLint.Glob
