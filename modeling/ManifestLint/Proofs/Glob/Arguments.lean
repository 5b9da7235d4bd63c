import ManifestLint.Proofs.Glob.Joining
import ManifestLint.Proofs.Glob.Parts
import ManifestLint.Proofs.Glob.Reordering
import ManifestLint.Proofs.Input.Resolution

/-!
Arguments with wildcards. In a tree that is well formed, an argument of sound parts names the files
whose paths its text describes, each of them and no other, in the order of their names and whatever
the order of the directories.
-/

namespace ManifestLint.Glob

namespace Site

/-- Proper names lead down to a place as the path through them does. -/
theorem reaches_iff_walk {names : List String} (proper : ∀ name ∈ names, ProperName name)
    {site : Site} (formed : site.place.entry.WellFormed) {place : Place} :
    (∃ found, site.Reaches names found ∧ found.place = place) ↔
      site.place.walk names = .ok place := by
  induction names generalizing site with
  | nil => simp [reaches_nil_iff, Place.walk]
  | cons name names induction =>
      rw [List.forall_mem_cons] at proper
      rw [Place.walk, bind_eq_ok_iff]
      simp only [Place.step_eq_ok_iff formed proper.1, reaches_cons_iff]
      constructor
      · rintro ⟨found, ⟨entry, listed, reaches⟩, same⟩
        exact ⟨_, ⟨entry, listed, rfl⟩,
          (induction proper.2 (formed.child listed).2).1 ⟨found, reaches, same⟩⟩
      · rintro ⟨_, ⟨entry, listed, rfl⟩, walk⟩
        have child : (site.child name entry).place.entry.WellFormed := (formed.child listed).2
        obtain ⟨found, reaches, same⟩ := (induction proper.2 child).2 walk
        exact ⟨found, ⟨entry, listed, reaches⟩, same⟩

end Site

def pathsOfFiles (tree : FileTree) (argument : String) (parts : List Component) : List String :=
  (((expand parts (Site.atWorking tree)).filter fun site => site.place.entry.isFile &&
    !wantsDirectory argument).map
    (·.path)).mergeSort pathLe

theorem files_eq_ok_iff {argument : String} (relative : FileTree.isAbsolute argument = false)
    (tree : FileTree) {paths : List String} :
    files tree argument = .ok paths ↔
      ∃ parts, components argument = .ok parts ∧ paths = pathsOfFiles tree argument parts := by
  rw [files, FileTree.start, relative, bind_eq_ok_iff]
  simp only [pure_eq_ok, Except.ok.injEq, eq_comm (b := paths)]
  rfl

theorem mem_paths_of_files_iff {tree : FileTree} {argument : String} {parts : List Component}
    {path : String} :
    path ∈ pathsOfFiles tree argument parts ↔ wantsDirectory argument = false ∧
      ∃ site ∈ expand parts (Site.atWorking tree), site.place.entry.isFile = true ∧
        site.path = path := by
  rw [pathsOfFiles, List.mem_mergeSort, List.mem_map]
  simp only [List.mem_filter, Bool.and_eq_true, Bool.not_eq_true']
  constructor
  · rintro ⟨site, ⟨reached, file, wanted⟩, same⟩
    exact ⟨wanted, site, reached, file, same⟩
  · rintro ⟨wanted, site, reached, file, same⟩
    exact ⟨site, ⟨reached, file, wanted⟩, same⟩

/-- A path through proper names to a file of a tree, whose names an argument describes. -/
structure Matches (tree : FileTree) (argument path : String) : Prop where
  file : tree.hasFile path = true
  proper : ∀ name ∈ segments path, ProperName name
  described : DescribesPath (splitSegments argument.toList) (segments path)

section
variable {tree : FileTree} {argument : String} (formed : tree.root.WellFormed)
  (sound : ∀ part ∈ splitSegments argument.toList, SoundPart part)

theorem names_of_described {parts : List (List Char)} (nonempty : parts ≠ []) {names : List String}
    (described : DescribesPath parts names) : names ≠ [] := by
  cases described with
  | done => exact absurd rfl nonempty
  | name => exact List.cons_ne_nil _ _
  | directories _ directories left => exact List.append_ne_nil_of_right_ne_nil directories left

include formed in
/-- A path to a file that an argument describes is the path of a file that some of its names lead
to. -/
theorem matches_iff_reached {path : String} :
    Matches tree argument path ↔ ∃ names found,
      DescribesPath (splitSegments argument.toList) names ∧
      (Site.atWorking tree).Reaches names found ∧ found.place.entry.isFile = true ∧
        found.path = path := by
  have entry := Site.at_working_well_formed formed
  constructor
  · intro fits
    have file := fits.file
    rw [FileTree.hasFile, FileTree.locate_of_proper fits.proper] at file
    split at file
    · next place walk =>
      obtain ⟨found, reaches, rfl⟩ := (Site.reaches_iff_walk fits.proper entry).2 walk
      refine ⟨_, found, fits.described, reaches, file, ?_⟩
      apply segments_injective
      apply reaches.segments_of_working formed file
      exact names_of_described (split_segments_nonempty _) fits.described
    · cases file
  · rintro ⟨names, found, described, reaches, file, rfl⟩
    have below := names_of_described (split_segments_nonempty _) described
    have path := reaches.segments_of_working formed file below
    have proper := (reaches.sound entry).1
    rw [← path] at proper described reaches
    have walk : tree.working.walk (segments found.path) = .ok found.place :=
      (Site.reaches_iff_walk proper entry).1 ⟨found, reaches, rfl⟩
    refine ⟨?_, proper, described⟩
    rw [FileTree.hasFile, FileTree.locate_of_proper proper, walk]
    exact file

include formed sound

/-- The files that an argument of sound parts leads to are those that it describes. -/
theorem files_of_sound :
    ∃ paths, files tree argument = .ok paths ∧ (∀ path, path ∈ paths ↔ Matches tree argument path) ∧
      paths.Pairwise fun first second => segments first ≤ segments second := by
  obtain ⟨parts, read, regular, takes⟩ := components_of_sound sound
  have relative := pattern_is_relative sound
  have entry := Site.at_working_well_formed formed
  have listed := (files_eq_ok_iff relative tree).2 ⟨parts, read, rfl⟩
  have members (path : String) : path ∈ pathsOfFiles tree argument parts ↔
      Matches tree argument path := by
    rw [matches_iff_reached formed, mem_paths_of_files_iff]
    simp only [pattern_is_for_files sound, true_and, mem_expand_iff regular entry, takes]
    constructor
    · rintro ⟨found, ⟨names, described, reaches⟩, file, same⟩
      exact ⟨names, found, described, reaches, file, same⟩
    · rintro ⟨names, found, described, reaches, file, same⟩
      exact ⟨found, ⟨names, described, reaches⟩, file, same⟩
  refine ⟨_, listed, members, ?_⟩
  apply (sorted_paths _).imp_of_mem
  intro first second member behind before
  have firstFits := (members first).1 member
  have secondFits := (members second).1 behind
  exact (path_le_iff_segments firstFits.proper secondFits.proper).1 before

end

end ManifestLint.Glob

namespace ManifestLint.Input

open Glob (SoundPart Matches)

section
variable {tree : FileTree} {argument : String} (wild : hasWildcard argument = true)
  (noFile : tree.hasFile argument = false)

include wild noFile

theorem resolve_one_pattern : resolveOne tree argument =
    match Glob.files tree argument with
    | .error fault => .error (.badPattern argument fault)
    | .ok [] => .error (.noMatch argument)
    | .ok paths => .ok (paths.map .file) := by
  have notStdin : argument ≠ "-" := by
    intro same
    rw [same] at wild
    revert wild
    decide
  rw [resolveOne, if_neg notStdin, wild, noFile]
  rfl

theorem resolve_of_no_path (found : Glob.files tree argument = .ok []) :
    resolve tree [argument] = .error (.noMatch argument) := by
  rw [resolve_alone, resolve_one_pattern wild noFile, found]

theorem resolve_of_paths {paths : List String} (found : Glob.files tree argument = .ok paths)
    (nonempty : paths ≠ []) :
    resolve tree [argument] = .ok (paths.map .file) := by
  rw [resolve_alone, resolve_one_pattern wild noFile, found]
  split
  · next failed => cases failed
  · next nothing =>
    cases nothing
    exact absurd rfl nonempty
  · next some =>
    cases some
    rfl

theorem files_of_resolve {inputs : List Input} (resolved : resolve tree [argument] = .ok inputs) :
    ∃ paths, Glob.files tree argument = .ok paths ∧ inputs = paths.map .file := by
  rw [resolve_alone, resolve_one_pattern wild noFile] at resolved
  split at resolved
  · cases resolved
  · cases resolved
  · next paths _ found =>
    cases resolved
    exact ⟨paths, found, rfl⟩

end

/-- An argument whose parts are sound patterns names the files that it describes, sorted by their
names and whatever the order of the directories. Where there is no such file nothing matches. -/
theorem resolve_matches {tree : FileTree} {argument : String} (formed : tree.root.WellFormed)
    (wild : hasWildcard argument = true) (noFile : tree.hasFile argument = false)
    (sound : ∀ part ∈ splitSegments argument.toList, SoundPart part) :
    (resolve tree [argument] = .error (.noMatch argument) ↔ ∀ path, ¬ Matches tree argument path) ∧
    ((∃ path, Matches tree argument path) →
      ∃ paths : List String, resolve tree [argument] = .ok (paths.map .file) ∧
      (∀ path, path ∈ paths ↔ Matches tree argument path) ∧
      paths.Pairwise fun first second => segments first ≤ segments second) ∧
    ∀ other : FileTree, tree.Reordered other →
      resolve other [argument] = resolve tree [argument] := by
  obtain ⟨paths, found, members, sorted⟩ := Glob.files_of_sound formed sound
  have resolved (nonempty : paths ≠ []) := resolve_of_paths wild noFile found nonempty
  refine ⟨⟨?_, ?_⟩, ?_, ?_⟩
  · intro failed path fits
    rw [resolved (List.ne_nil_of_mem ((members path).2 fits))] at failed
    cases failed
  · intro missing
    have nothing : paths = [] := by
      apply List.eq_nil_iff_forall_not_mem.2
      intro path member
      exact missing path ((members path).1 member)
    rw [nothing] at found
    exact resolve_of_no_path wild noFile found
  · rintro ⟨path, fits⟩
    exact ⟨paths, resolved (List.ne_nil_of_mem ((members path).2 fits)), members, sorted⟩
  · intro other reordered
    exact (resolve_reordered reordered [argument]).symm

def nestedManifests : FileTree :=
  (FileTree.empty.addFile "web/Dockerfile" []).addFile "web/api/Dockerfile" []

/-- Two stars stand for no directory and for one. -/
theorem resolve_nested_manifests :
    nestedManifests.root.WellFormed ∧ hasWildcard "*/**/[CD]*" = true ∧
      nestedManifests.hasFile "*/**/[CD]*" = false ∧
      (∀ part ∈ splitSegments "*/**/[CD]*".toList, SoundPart part) ∧
      ∃ paths : List String, resolve nestedManifests ["*/**/[CD]*"] = .ok (paths.map .file) ∧
        "web/Dockerfile" ∈ paths ∧ "web/api/Dockerfile" ∈ paths := by
  have formed : nestedManifests.root.WellFormed :=
    FileTree.add_file_well_formed
      (FileTree.add_file_well_formed FileTree.empty_well_formed (by decide) []) (by decide) []
  have wild : hasWildcard "*/**/[CD]*" = true := by decide
  have noFile : nestedManifests.hasFile "*/**/[CD]*" = false := by decide
  have sound : ∀ part ∈ splitSegments "*/**/[CD]*".toList, SoundPart part := by decide +kernel
  have manifest : Glob.Describes ['[', 'C', 'D', ']', '*'] "Dockerfile".toList :=
    @Glob.Describes.inside 'C' 'D' ['D'] ['*'] _ (by decide) (by decide)
      ((Glob.set_holds_iff _ _).1 (by decide +kernel)) (.star "ockerfile".toList .nothing)
  have below (directories : List String) :
      Glob.DescribesPath [['*', '*'], ['[', 'C', 'D', ']', '*']]
        (directories ++ ["Dockerfile"]) := by
    apply Glob.Along.directories
    · rfl
    · exact List.cons_ne_nil _ _
    · exact .name (by decide) manifest .done
  have described (directories : List String) :
      Glob.DescribesPath (splitSegments "*/**/[CD]*".toList)
        ("web" :: (directories ++ ["Dockerfile"])) :=
    .name (by decide) (.star "web".toList .nothing) (below directories)
  have beside : Matches nestedManifests "*/**/[CD]*" "web/Dockerfile" :=
    ⟨by decide, by decide, described []⟩
  have inside : Matches nestedManifests "*/**/[CD]*" "web/api/Dockerfile" :=
    ⟨by decide, by decide, described ["api"]⟩
  obtain ⟨paths, resolved, members, _⟩ := (resolve_matches formed wild noFile sound).2.1 ⟨_, beside⟩
  exact ⟨formed, wild, noFile, sound, paths, resolved, (members _).2 beside, (members _).2 inside⟩

end ManifestLint.Input
