import ManifestLint.Proofs.Glob.Arguments
import ManifestLint.Proofs.Glob.Counting

/-!
How often an argument lists a file. What is known of the parts of a pattern is known of the parts of
its text, so that a path is listed once for each way in which the text takes its names, and once at
all where its two stars stand together.
-/

namespace ManifestLint.Glob

theorem empty_of_unnamed {part : List Char} (read : Component.ofText part = .ok (.name [])) :
    part = [] := by
  obtain ⟨pieces, valid, same⟩ := map_eq_ok_iff.1 read
  have nothing : pieces = [] := by
    rw [Component.ofPieces] at same
    split at same
    · cases same
    · split at same
      · next literal =>
        cases same
        exact literals_eq_some_iff.1 literal
      · cases same
  cases part with
  | nil => rfl
  | cons char rest =>
      obtain ⟨piece, others, some, _⟩ := first_piece_of_read valid
      rw [nothing] at some
      cases some

theorem first_part_nonempty {pattern : List Char} (relative : pattern.head? ≠ some '/') :
    (parts pattern).head? ≠ some [] := by
  cases pattern with
  | nil => decide
  | cons char rest =>
      have plain : char ≠ '/' := by
        intro slash
        exact relative (congrArg some slash)
      obtain ⟨segment, segments, split⟩ := List.exists_cons_of_ne_nil (split_segments_nonempty rest)
      rw [parts, split_segments_char plain split]
      split
      · cases segments <;> simp
      · simp

theorem mem_split_of_parts {pattern part : List Char} (member : part ∈ parts pattern) :
    part ∈ splitSegments pattern := by
  rw [parts] at member
  split at member
  · exact List.mem_of_mem_dropLast member
  · exact member

theorem no_directories_of_parts {texts : List (List Char)} {found : List Component}
    (succeed : AllSucceed Component.ofText texts found) (plain : ∀ part ∈ texts, '/' ∉ part)
    (single : ['*', '*'] ∉ texts) : .anyDirectories ∉ found := by
  intro many
  obtain ⟨part, listed, valid⟩ := succeed.item_of_value many
  rw [(many_iff_stars (plain part listed) valid).1 rfl] at listed
  exact single listed

theorem parts_of_file_pattern {pattern : List Char} (nonempty : pattern ≠ [])
    (file : pattern.getLast? ≠ some '/') :
    parts pattern = splitSegments pattern := by
  rw [parts, if_neg]
  intro last
  exact file (ends_with_slash nonempty last)

section
variable {argument : String} (relative : FileTree.isAbsolute argument = false)
  {found : List Component} (read : components argument = .ok found)

include relative read

theorem components_succeed : AllSucceed Component.ofText (parts argument.toList) found := by
  rw [components, relative, if_neg Bool.false_ne_true, List.drop_zero, bind_eq_ok_iff] at read
  obtain ⟨_, _, each⟩ := read
  exact map_m_eq_ok_iff.1 each

theorem first_component_named : found.head? ≠ some (.name []) := by
  intro unnamed
  have succeed := components_succeed relative read
  have first := first_part_nonempty (beq_eq_false_iff_ne.1 relative)
  generalize parts argument.toList = texts at succeed first
  cases succeed with
  | nil => cases unnamed
  | cons valid _ =>
      cases unnamed
      exact first (congrArg some (empty_of_unnamed valid))

theorem plain_components (shown : ∀ part ∈ splitSegments argument.toList, part.head? ≠ some '.') :
    ∀ component ∈ found, component.Plain := by
  intro component member
  obtain ⟨part, listed, valid⟩ := (components_succeed relative read).item_of_value member
  exact plain_of_text (shown part (mem_split_of_parts listed)) valid

/-- A path that an argument leads to is listed once for each way in which the parts take its names.
-/
theorem count_of_files {tree : FileTree} (formed : tree.root.WellFormed)
    (shown : ∀ part ∈ splitSegments argument.toList, part.head? ≠ some '.') {path : String}
    (member : path ∈ pathsOfFiles tree argument found) :
    (pathsOfFiles tree argument found).count path = ways found (FileTree.names path) := by
  have counts : Counts [] tree.working.entry (ways found) (expand found (Site.atWorking tree)) :=
    (parts_count (plain_components relative read shown)).1 _ (Site.at_working_well_formed formed)
      (Site.tidy_working tree) fun unnamed =>
      absurd unnamed (first_component_named relative read)
  obtain ⟨wanted, site, reached, file, same⟩ := mem_paths_of_files_iff.1 member
  have alike : ∀ other ∈ expand found (Site.atWorking tree),
      ((other.path == path && (other.place.entry.isFile && !wantsDirectory argument)) = true ↔
        Site.isAt (FileTree.names path) other = true) := by
    intro other otherReached
    rw [wanted, Bool.not_false, Bool.and_true, Site.isAt, Bool.and_eq_true, Bool.and_eq_true,
      beq_iff_eq, beq_iff_eq, ← same, and_comm]
    apply and_congr_right
    intro otherFile
    exact (counts.tidy other otherReached).path_eq_iff (counts.tidy site reached) otherFile file
  have listed : 0 < (pathsOfFiles tree argument found).count path := List.count_pos_iff.2 member
  have counted : (pathsOfFiles tree argument found).count path =
      if tree.working.entry.leadsToFile (FileTree.names path) then ways found (FileTree.names path)
      else 0 := by
    have here := counts.files (FileTree.names path)
    rw [List.nil_append] at here
    rw [pathsOfFiles, (List.mergeSort_perm _ _).count_eq, List.count, List.countP_map,
      List.countP_filter, ← here]
    exact List.countP_congr alike
  rw [counted] at listed ⊢
  split at listed
  · next leads => rw [if_pos leads]
  · exact absurd listed (Nat.lt_irrefl 0)

/-- Where all two stars of an argument stand next to one another, no names are taken in two ways. -/
theorem ways_of_stars_together (nonempty : argument.toList ≠ [])
    (wanted : wantsDirectory argument = false) {before after : List (List Char)} {stars : Nat}
    (together : splitSegments argument.toList = before ++ List.replicate stars ['*', '*'] ++ after)
    (front : ['*', '*'] ∉ before) (behind : ['*', '*'] ∉ after) (names : List String) :
    ways found names ≤ 1 := by
  have plain := no_slash_in_segments argument.toList
  have succeed := components_succeed relative read
  rw [parts_of_file_pattern nonempty (beq_eq_false_iff_ne.1 wanted), together] at succeed
  rw [together, List.forall_mem_append, List.forall_mem_append] at plain
  obtain ⟨_, last, ahead, others, rfl⟩ := all_succeed_append_iff.1 succeed
  obtain ⟨first, middle, start, many, rfl⟩ := all_succeed_append_iff.1 ahead
  have all : ∀ component ∈ middle, component = .anyDirectories := by
    intro component member
    obtain ⟨part, listed, valid⟩ := many.item_of_value member
    rw [List.eq_of_mem_replicate listed, component_of_stars] at valid
    cases valid
    rfl
  rw [List.eq_replicate_of_mem all]
  apply ways_le_one
  · exact no_directories_of_parts start plain.1.1 front
  · exact no_directories_of_parts others plain.2 behind

section
variable {tree : FileTree} (formed : tree.root.WellFormed)
  (shown : ∀ part ∈ splitSegments argument.toList, part.head? ≠ some '.')

include formed shown

theorem files_distinct_iff : (pathsOfFiles tree argument found).Nodup ↔
    ∀ path ∈ pathsOfFiles tree argument found, ways found (FileTree.names path) = 1 := by
  rw [List.nodup_iff_count_eq_one]
  apply forall₂_congr
  intro path member
  rw [count_of_files relative read formed shown member]

theorem files_distinct_of_stars_together (nonempty : argument.toList ≠ [])
    {before after : List (List Char)} {stars : Nat}
    (together : splitSegments argument.toList = before ++ List.replicate stars ['*', '*'] ++ after)
    (front : ['*', '*'] ∉ before) (behind : ['*', '*'] ∉ after) :
    (pathsOfFiles tree argument found).Nodup := by
  rw [List.nodup_iff_count_le_one]
  intro path
  by_cases member : path ∈ pathsOfFiles tree argument found
  · rw [count_of_files relative read formed shown member]
    have wanted := (mem_paths_of_files_iff.1 member).1
    exact ways_of_stars_together relative read nonempty wanted together front behind
      (FileTree.names path)
  · rw [List.count_eq_zero.2 member]
    exact Nat.zero_le 1

end

end

end ManifestLint.Glob
