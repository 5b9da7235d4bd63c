import ManifestLint.Proofs.Faults
import ManifestLint.Proofs.Glob.Joining

/-!
Where paths that are put together lead. Whatever a pattern goes through, dots and slashes included,
the path of a place it leads to leads to that place from the start, so that every file listed for a
pattern is there by the path it is listed under.
-/

namespace ManifestLint

@[simp] theorem Place.walk_append (place : Place) (first second : List String) :
    place.walk (first ++ second) = (place.walk first).bind fun found => found.walk second := by
  induction first generalizing place with
  | nil => rfl
  | cons name first induction =>
      rw [List.cons_append, walk, walk]
      cases place.step name with
      | error fault => rfl
      | ok next => exact induction next

@[simp] theorem Place.walk_single (place : Place) (name : String) :
    place.walk [name] = place.step name := by
  rw [walk]
  cases place.step name <;> rfl

theorem Place.step_here {place : Place} (directory : place.entry.isDirectory = true) {name : String}
    (here : name = "" ∨ name = ".") : place.step name = .ok place := by
  rw [step, directory, if_neg (by decide), if_pos here]

theorem Place.eq_of_step_slash {place found : Place} (step : place.step "" = .ok found) :
    found = place := by
  rw [Place.step] at step
  split at step
  · cases step
  · rw [if_pos (.inl rfl)] at step
    cases step
    rfl

theorem Place.step_up {place : Place} (directory : place.entry.isDirectory = true) :
    place.step ".." = .ok place.parent := by
  rw [step, directory, if_neg (by decide), if_neg (by decide), if_pos rfl]

namespace Glob.Site

/-- A site whose path leads to its place. The empty path is that of the working directory. -/
structure Located (tree : FileTree) (site : Site) : Prop where
  formed : site.place.WellFormed
  found : (site.path = "" ∧ site.place = tree.working ∧ tree.working.entry.isDirectory = true) ∨
    tree.locate site.path = .ok site.place

variable {tree : FileTree} {site : Site}

theorem locate_nonempty {path : String} (nonempty : path ≠ "") :
    tree.locate path = (tree.start path).walk (segments path) :=
  if_neg (mt String.isEmpty_iff.1 nonempty)

theorem nonempty_of_locate {path : String} {place : Place} (found : tree.locate path = .ok place) :
    path ≠ "" := by
  rintro rfl
  cases found

theorem start_append {path : String} (nonempty : path ≠ "") (more : String) :
    tree.start (path ++ more) = tree.start path := by
  obtain ⟨char, rest, chars⟩ := List.exists_cons_of_ne_nil (mt String.toList_eq_nil_iff.1 nonempty)
  have same : FileTree.isAbsolute (path ++ more) = FileTree.isAbsolute path := by
    rw [FileTree.isAbsolute, FileTree.isAbsolute, String.toList_append, chars]
    rfl
  rw [FileTree.start, FileTree.start, same]

theorem start_of_name {name : String} (plain : '/' ∉ name.toList) :
    tree.start name = tree.working := by
  have relative : FileTree.isAbsolute name = false := by
    rw [FileTree.isAbsolute, beq_eq_false_iff_ne]
    intro slash
    exact plain (List.mem_of_head? slash)
  rw [FileTree.start, relative]
  rfl

/-- A name behind a path leads on from where the path leads. -/
theorem Located.locate_join (located : site.Located tree) {name : String}
    (plain : '/' ∉ name.toList) (shown : site.path = "" → name ≠ "") :
    tree.locate (join site.path name) = site.place.step name := by
  rcases located.found with ⟨nothing, here, _⟩ | found
  · have alone : join site.path name = name := by
      rw [nothing]
      rfl
    simp [alone, locate_nonempty (shown nothing), start_of_name plain, segments_of_name plain,
      here]
  · have nonempty := nonempty_of_locate found
    have longer (more : String) : site.path ++ more ≠ "" := by
      intro same
      rw [← String.toList_eq_nil_iff, String.toList_append, List.append_eq_nil_iff,
        String.toList_eq_nil_iff] at same
      exact nonempty same.1
    rw [locate_nonempty nonempty] at found
    rw [join, if_neg (mt String.isEmpty_iff.1 nonempty)]
    split
    · next slash =>
      obtain ⟨front, same⟩ := ends_in_slash slash
      rw [same, segments_slash, Place.walk_append] at found
      rw [locate_nonempty (longer name), start_append nonempty, same, segments_append,
        Place.walk_append, segments_of_name plain]
      obtain ⟨last, before, slashed⟩ := bind_eq_ok_iff.1 found
      change last.walk [""] = _ at slashed
      rw [Place.walk_single] at slashed
      rw [before, Place.eq_of_step_slash slashed]
      exact Place.walk_single last name
    · rw [String.append_assoc, locate_nonempty (longer _), start_append nonempty,
        ← String.append_assoc, segments_append, Place.walk_append, found, segments_of_name plain]
      exact Place.walk_single _ _

theorem Located.join (located : site.Located tree) {name : String} (plain : '/' ∉ name.toList)
    (shown : site.path = "" → name ≠ "") {place : Place} (step : site.place.step name = .ok place)
    (formed : place.WellFormed) : Located tree ⟨Site.join site.path name, place⟩ := by
  refine ⟨formed, .inr ?_⟩
  rw [located.locate_join plain shown, step]

theorem Located.child (located : site.Located tree) {name : String} {entry : Entry}
    (listed : (name, entry) ∈ site.place.entry.children) :
    (site.child name entry).Located tree := by
  have child := located.formed.entry.child listed
  apply located.join child.1.plain
  · exact fun _ => child.1.nonempty
  · exact (Place.step_eq_ok_iff located.formed.entry child.1).2 ⟨entry, listed, rfl⟩
  · exact ⟨child.2, List.forall_mem_cons.2 ⟨located.formed.entry, located.formed.above⟩⟩

section
variable (located : site.Located tree) (directory : site.place.entry.isDirectory = true)

include located directory

theorem Located.stay : site.stay.Located tree := by
  rw [Site.stay]
  split
  · next nothing =>
    refine ⟨located.formed, .inl ⟨rfl, ?_⟩⟩
    rcases located.found with ⟨_, here⟩ | found
    · exact here
    · exact absurd (String.isEmpty_iff.1 nothing) (nonempty_of_locate found)
  · exact located.join (by decide) (fun _ => by decide) (Place.step_here directory (.inr rfl))
      located.formed

theorem Located.up : site.up.Located tree :=
  located.join (by decide) (fun _ => by decide) (Place.step_up directory) located.formed.parent

theorem Located.slash (nonempty : site.path ≠ "") :
    Located tree { site with path := Site.join site.path "" } :=
  located.join (by decide) (fun nothing => absurd nothing nonempty)
    (Place.step_here directory (.inl rfl))
    located.formed

end

theorem Located.follow (located : site.Located tree) {name : String} {next : Site}
    (followed : site.follow name = some next) :
    next.Located tree := by
  rw [Site.follow] at followed
  split at followed
  · cases followed
  · next listing =>
    have directory : site.place.entry.isDirectory = true := by simpa using listing
    split at followed
    · cases followed
      exact located.stay directory
    · split at followed
      · cases followed
        exact located.up directory
      · split at followed
        · split at followed
          · cases followed
          · next shown =>
            cases followed
            exact located.slash directory (mt String.isEmpty_iff.2 shown)
        · obtain ⟨entry, found, rfl⟩ := Option.map_eq_some_iff.1 followed
          exact located.child (located.formed.entry.child_iff.1 found)

theorem Located.specials (located : site.Located tree) {pieces : List Piece} {next : Site}
    (member : next ∈ site.specials pieces) : next.Located tree := by
  rw [Site.specials] at member
  split at member
  · next listing =>
    rw [List.mem_append, List.mem_ite_nil_right, List.mem_ite_nil_right, List.mem_singleton,
      List.mem_singleton] at member
    rcases member with ⟨_, rfl⟩ | ⟨_, rfl⟩
    · exact located.up listing.1
    · exact located.stay listing.1
  · cases member

theorem Located.reaches (located : site.Located tree) {names : List String} {found : Site}
    (reaches : site.Reaches names found) : found.Located tree := by
  induction reaches with
  | here => exact located
  | into listed _ induction => exact induction (located.child listed)

theorem Located.children (located : site.Located tree) {name : String} {next : Site}
    (member : (name, next) ∈ site.children) : next.Located tree := by
  rw [Site.children, byName, List.mem_mergeSort, List.mem_map] at member
  obtain ⟨⟨name, entry⟩, listed, same⟩ := member
  cases same
  exact located.child listed

theorem Located.descendants (located : site.Located tree) {name : String} {next : Site}
    (member : (name, next) ∈ Site.descendants site.path site.place.above site.place.entry) :
    next.Located tree := by
  obtain ⟨directories, reaches⟩ := (mem_descendants_iff _).1 member
  exact located.reaches reaches

end Glob.Site

namespace Glob

open Site (Located)

theorem located_of_fitting {tree : FileTree} {parts : List Component}
    (along : ∀ site : Site, site.Located tree → ∀ found ∈ expand parts site, found.Located tree)
    {candidates : List (String × Site)}
    (located : ∀ candidate ∈ candidates, candidate.2.Located tree) (fits : String → Bool)
    {found : Site}
    (member : found ∈ candidates.flatMap fun candidate => if fits candidate.1
      then expand parts candidate.2 else []) :
    found.Located tree := by
  obtain ⟨candidate, listed, inside⟩ := List.mem_flatMap.1 member
  rw [List.mem_ite_nil_right] at inside
  exact along candidate.2 (located candidate listed) found inside.2

/-- Both ways in which parts lead on keep to places whose paths lead to them. -/
theorem located_of_parts {tree : FileTree} (parts : List Component) :
    (∀ site : Site, site.Located tree → ∀ found ∈ expand parts site, found.Located tree) ∧
      ∀ candidates : List (String × Site), (∀ candidate ∈ candidates, candidate.2.Located tree) →
        ∀ found ∈ expandAmong parts candidates, found.Located tree := by
  induction parts with
  | nil =>
      refine ⟨?_, ?_⟩
      · intro site located found member
        rw [expand, List.mem_singleton] at member
        rw [member]
        exact located
      · intro candidates _ found member
        rw [expandAmong] at member
        cases member
  | cons part parts induction =>
      obtain ⟨along, below⟩ := induction
      cases part with
      | name text =>
          refine ⟨?_, fun candidates located found member => ?_⟩
          · intro site located found member
            rw [expand] at member
            cases followed : site.follow (String.ofList text) with
            | none =>
                rw [followed] at member
                cases member
            | some next =>
                rw [followed] at member
                exact along next (located.follow followed) found member
          · rw [expandAmong] at member
            exact located_of_fitting along located
              (fun name => (Component.name text).fits name) member
      | wild pieces =>
          refine ⟨?_, fun candidates located found member => ?_⟩
          · intro site located found member
            rw [expand, List.mem_append] at member
            rcases member with special | child
            · obtain ⟨next, listed, inside⟩ := List.mem_flatMap.1 special
              exact along next (located.specials listed) found inside
            · exact located_of_fitting along (fun _ => located.children)
                (fun name => fits pieces name.toList) child
          · rw [expandAmong] at member
            exact located_of_fitting along located
              (fun name => (Component.wild pieces).fits name) member
      | anyDirectories =>
          refine ⟨?_, fun candidates located found member => ?_⟩
          · intro site located found member
            rw [expand] at member
            exact below _ (fun _ => located.descendants) found member
          · rw [expandAmong] at member
            exact below candidates located found member

theorem expand_among_nothing (parts : List Component) : expandAmong parts [] = [] := by
  induction parts with
  | nil => rw [expandAmong]
  | cons part parts induction =>
      cases part with
      | name text =>
          rw [expandAmong]
          rfl
      | wild pieces =>
          rw [expandAmong]
          rfl
      | anyDirectories =>
          rw [expandAmong]
          exact induction

theorem expand_of_file {site : Site} (file : site.place.entry.isFile = true)
    {parts : List Component} (some : parts ≠ []) :
    expand parts site = [] := by
  obtain ⟨path, entry, above⟩ := site
  cases entry with
  | directory entries => cases file
  | file bytes =>
      obtain ⟨part, parts, rfl⟩ := List.exists_cons_of_ne_nil some
      cases part with
      | name text =>
          rw [expand, Site.follow]
          rfl
      | wild pieces =>
          rw [expand, Site.specials, Site.children, Site.byName]
          simp [Entry.isDirectory, Entry.children]
      | anyDirectories =>
          rw [expand, Site.descendants]
          exact expand_among_nothing parts

theorem parts_nonempty {pattern : List Char} (some : pattern ≠ []) : parts pattern ≠ [] := by
  intro nothing
  rw [parts] at nothing
  split at nothing
  · next last =>
    obtain ⟨part, others, split⟩ := List.exists_cons_of_ne_nil (split_segments_nonempty pattern)
    rw [split] at nothing last
    obtain rfl : others = [] := by
      cases others with
      | nil => rfl
      | cons other others => cases nothing
    rw [List.getLast?_singleton, Option.some.injEq] at last
    have whole := join_split_segments pattern
    rw [split, last] at whole
    exact some whole.symm
  · exact split_segments_nonempty pattern nothing

def startSite (tree : FileTree) (argument : String) : Site :=
  ⟨if FileTree.isAbsolute argument then "/" else "", tree.start argument⟩

theorem locate_slash {tree : FileTree} (directory : tree.root.isDirectory = true) :
    tree.locate "/" = .ok (Place.ofRoot tree.root) := by
  have here : (Place.ofRoot tree.root).step "" = .ok (Place.ofRoot tree.root) :=
    Place.step_here directory (.inl rfl)
  have parts : segments "/" = ["", ""] := by decide
  rw [Site.locate_nonempty (by decide), FileTree.start, if_pos (by decide), parts, Place.walk, here]
  exact (Place.walk_single _ _).trans here

theorem located_start {tree : FileTree} (formed : tree.root.WellFormed) {argument : String}
    (directory : (tree.start argument).entry.isDirectory = true) :
    (startSite tree argument).Located tree := by
  refine ⟨FileTree.start_well_formed formed argument, ?_⟩
  rw [startSite, FileTree.start]
  rw [FileTree.start] at directory
  split
  · next absolute =>
    rw [if_pos absolute] at directory
    exact .inr (locate_slash directory)
  · next relative =>
    rw [if_neg relative] at directory
    exact .inl ⟨rfl, rfl, directory⟩

/-- Only a pattern for directories may have no parts, if it is not empty. -/
theorem wants_directory_of_no_components {argument : String} (some : argument ≠ "")
    (read : components argument = .ok []) : wantsDirectory argument = true := by
  obtain ⟨_, _, each⟩ := bind_eq_ok_iff.1 read
  have nothing := List.forall₂_nil_right_iff.1 (map_m_eq_ok_iff.1 each)
  obtain ⟨char, rest, chars⟩ := List.exists_cons_of_ne_nil (mt String.toList_eq_nil_iff.1 some)
  rw [chars] at nothing
  split at nothing
  · next absolute =>
    rw [FileTree.isAbsolute, beq_iff_eq, chars] at absolute
    obtain rfl : rest = [] := by
      by_contra more
      exact parts_nonempty more nothing
    rw [wantsDirectory, beq_iff_eq, chars]
    exact absolute
  · exact absurd nothing (parts_nonempty (List.cons_ne_nil _ _))

/-- Every path that is listed for a pattern is that of a file. -/
theorem file_of_listed {tree : FileTree} (formed : tree.root.WellFormed) {argument : String}
    (some : argument ≠ "") {paths : List String} (listed : files tree argument = .ok paths)
    {path : String} (member : path ∈ paths) :
    tree.hasFile path = true := by
  obtain ⟨found, read, same⟩ := bind_eq_ok_iff.1 listed
  obtain rfl := Except.ok.inj same
  rw [List.mem_mergeSort, List.mem_map] at member
  obtain ⟨site, kept, rfl⟩ := member
  rw [List.mem_filter, Bool.and_eq_true] at kept
  obtain ⟨reached, file, wanted⟩ := kept
  change site ∈ expand found (startSite tree argument) at reached
  have directory : (tree.start argument).entry.isDirectory = true := by
    cases entry : (tree.start argument).entry with
    | directory entries => rfl
    | file bytes =>
        have start : (startSite tree argument).place.entry.isFile = true := by
          rw [startSite, entry]
          rfl
        have some : found ≠ [] := by
          rintro rfl
          rw [wants_directory_of_no_components some read] at wanted
          cases wanted
        rw [expand_of_file start some] at reached
        cases reached
  have located := (located_of_parts found).1 _ (located_start formed directory) site reached
  rcases located.found with ⟨_, here, isDirectory⟩ | leads
  · rw [here] at file
    cases entry : tree.working.entry with
    | file bytes =>
        rw [entry] at isDirectory
        cases isDirectory
    | directory entries =>
        rw [entry] at file
        cases file
  · rw [FileTree.hasFile, leads]
    exact file

end Glob

end ManifestLint
