import ManifestLint.Proofs.Glob.Joining
import ManifestLint.Proofs.Glob.Parts

/-!
How often a pattern leads to a file. Parts may take the names of a path in several ways, and then
the expansion gives the file as many times. Two stars that all stand next to one another leave one
way at most.
-/

namespace ManifestLint

/-- Whether some names lead from an entry down to a file. -/
def Entry.leadsToFile : Entry → List String → Bool
  | entry, [] => entry.isFile
  | entry, name :: names => (entry.child? name).any fun child => child.leadsToFile names

theorem Entry.is_directory_of_leads {entry : Entry} {name : String} {names : List String}
    (leads : entry.leadsToFile (name :: names) = true) : entry.isFile = false := by
  cases entry with
  | file bytes => cases leads
  | directory entries => rfl

namespace Glob

/-- A part takes the first name, and what the names behind it count for is left. -/
def takeFirst (part : Component) (count : List String → Nat) : List String → Nat
  | [] => 0
  | name :: names => if part.fits name then count names else 0

/-- What all ends of some names count for, without the empty one. -/
def overEnds (count : List String → Nat) : List String → Nat
  | [] => 0
  | name :: names => count (name :: names) + overEnds count names

mutual

/-- In how many ways parts take the names of a path. An empty part only asks for a name behind it.
-/
def ways : List Component → List String → Nat
  | [], names => if names.isEmpty then 1 else 0
  | .anyDirectories :: parts, names => waysBelow parts names
  | .name [] :: parts, names => if names.isEmpty then 0 else ways parts names
  | part :: parts, names => takeFirst part (ways parts) names

/-- The ways of parts behind two stars, which leave them any end of the names. -/
def waysBelow : List Component → List String → Nat
  | [], _ => 0
  | .anyDirectories :: parts, names => waysBelow parts names
  | part :: parts, names => overEnds (takeFirst part (ways parts)) names

end

theorem ways_single {part : Component} (single : part ≠ .anyDirectories) (named : part ≠ .name [])
    (parts : List Component) : ways (part :: parts) = takeFirst part (ways parts) := by
  funext names
  rw [ways]
  · exact single
  · exact named

theorem ways_below_single {part : Component} (single : part ≠ .anyDirectories)
    (parts : List Component) :
    waysBelow (part :: parts) = overEnds (takeFirst part (ways parts)) := by
  funext names
  rw [waysBelow]
  exact single

namespace Site

def isAt (target : List String) (found : Site) : Bool :=
  found.place.entry.isFile && FileTree.names found.path == target

end Site

/-- Places found below an entry whose path has some names: each file is among them as often as its
names behind those count for. -/
structure Counts (start : List String) (entry : Entry) (count : List String → Nat)
    (found : List Site) : Prop where
  files : ∀ names, found.countP (Site.isAt (start ++ names)) = if entry.leadsToFile names
    then count names else 0
  inside : ∀ site ∈ found, start <+: FileTree.names site.path
  tidy : ∀ site ∈ found, site.Tidy

namespace Counts

section
variable {start : List String} {entry : Entry} {count other : List String → Nat}
  {found more : List Site}

theorem nothing (none : ∀ names, entry.leadsToFile names = true → count names = 0) :
    Counts start entry count [] := by
  refine ⟨?_, List.forall_mem_nil _, List.forall_mem_nil _⟩
  intro names
  rw [List.countP_nil]
  split
  · next leads => exact (none names leads).symm
  · rfl

theorem append (first : Counts start entry count found) (second : Counts start entry other more) :
    Counts start entry (fun names => count names + other names) (found ++ more) := by
  refine ⟨?_, List.forall_mem_append.2 ⟨first.inside, second.inside⟩,
    List.forall_mem_append.2 ⟨first.tidy, second.tidy⟩⟩
  intro names
  rw [List.countP_append, first.files, second.files]
  split <;> rfl

theorem of_perm (counts : Counts start entry count found) (same : found.Perm more) :
    Counts start entry count more := by
  refine ⟨?_, ?_, ?_⟩
  · intro names
    rw [← same.countP_eq, counts.files]
  · intro site member
    exact counts.inside site (same.mem_iff.2 member)
  · intro site member
    exact counts.tidy site (same.mem_iff.2 member)

theorem of_counts (counts : Counts start entry count found)
    (same : ∀ names, entry.leadsToFile names = true → count names = other names) :
    Counts start entry other found := by
  refine ⟨?_, counts.inside, counts.tidy⟩
  intro names
  rw [counts.files]
  split
  · next leads => exact same names leads
  · rfl

theorem apart (counts : Counts start entry count found) {target : List String}
    (other : ¬ start <+: target) :
    found.countP (Site.isAt target) = 0 := by
  rw [List.countP_eq_zero]
  intro site member
  rw [Site.isAt, Bool.and_eq_true, beq_iff_eq]
  rintro ⟨_, same⟩
  exact other (same ▸ counts.inside site member)

end

theorem here {site : Site} (tidy : site.Tidy) :
    Counts (FileTree.names site.path) site.place.entry (ways []) [site] := by
  refine ⟨?_, List.forall_mem_singleton.2 List.prefix_rfl, List.forall_mem_singleton.2 tidy⟩
  intro names
  rw [ways, List.countP_singleton, Site.isAt]
  cases names with
  | nil => simp [Entry.leadsToFile]
  | cons name names => simp

section
variable {start : List String} {count : List String → Nat} {children : List (String × Entry)}
  {found : String × Entry → List Site}

/-- Of the children of a directory only the one with the next name leads to a file. -/
theorem count_of_children (distinct : (children.map (·.1)).Nodup)
    (each : ∀ child ∈ children, Counts (start ++ [child.1]) child.2
      (fun names => count (child.1 :: names)) (found child))
    (name : String) (names : List String) :
    (children.flatMap found).countP (Site.isAt (start ++ name :: names)) =
      if (children.lookup name).any fun entry => entry.leadsToFile names then count (name :: names)
        else 0 := by
  induction children with
  | nil => rfl
  | cons first children induction =>
      rw [List.map_cons, List.nodup_cons] at distinct
      rw [List.forall_mem_cons] at each
      rw [List.flatMap_cons, List.countP_append, induction distinct.2 each.2]
      by_cases same : name = first.1
      · have here := each.1.files names
        rw [List.append_assoc, List.singleton_append] at here
        rw [same, lookup_eq_none_of_unlisted distinct.1, here, List.lookup_cons_self]
        rfl
      · have apart : ¬ start ++ [first.1] <+: start ++ name :: names := by
          rw [List.prefix_append_right_inj, List.cons_prefix_cons]
          rintro ⟨listed, _⟩
          exact same listed.symm
        rw [each.1.apart apart, Nat.zero_add, List.lookup_cons, beq_eq_false_iff_ne.2 same]

theorem of_children {entry : Entry} (formed : entry.WellFormed) (nothing : count [] = 0)
    (each : ∀ child ∈ entry.children,
      Counts (start ++ [child.1]) child.2 (fun names => count (child.1 :: names)) (found child)) :
    Counts start entry count (entry.children.flatMap found) := by
  have below {site : Site} (member : site ∈ entry.children.flatMap found) :
      (∃ name, start ++ [name] <+: FileTree.names site.path) ∧ site.Tidy := by
    obtain ⟨child, listed, inside⟩ := List.mem_flatMap.1 member
    exact ⟨⟨child.1, (each child listed).inside site inside⟩, (each child listed).tidy site inside⟩
  refine ⟨?_, ?_, fun site member => (below member).2⟩
  · intro names
    cases names with
    | nil =>
        rw [nothing, ite_self, List.append_nil, List.countP_eq_zero]
        intro site member
        obtain ⟨⟨name, behind⟩, _⟩ := below member
        rw [Site.isAt, Bool.and_eq_true, beq_iff_eq]
        rintro ⟨_, same⟩
        rw [same] at behind
        have shorter := behind.length_le
        rw [List.length_append, List.length_singleton] at shorter
        omega
    | cons name names =>
        rw [count_of_children formed.names_distinct each, Entry.leadsToFile, Entry.child_eq_lookup]
  · intro site member
    obtain ⟨⟨name, behind⟩, _⟩ := below member
    exact (List.prefix_append start [name]).trans behind

end

end Counts

/-- Some parts lead from a place to each file below it in as many ways as they take its names. An
empty part needs a path to put a slash behind. -/
def CountsAlong (parts : List Component) : Prop :=
  ∀ site : Site, site.place.entry.WellFormed → site.Tidy →
    (parts.head? = some (.name []) → site.path ≠ "") →
    Counts (FileTree.names site.path) site.place.entry (ways parts) (expand parts site)

def CountsBelow (parts : List Component) : Prop :=
  ∀ {path : String} {entry : Entry} {above : List Entry}, entry.WellFormed →
    Site.Tidy ⟨path, entry, above⟩ →
    Counts (FileTree.names path) entry (waysBelow parts)
    (expandAmong parts (Site.descendants path above entry))

theorem counts_along_nothing : CountsAlong [] := by
  intro site _ tidy _
  rw [expand]
  exact .here tidy

theorem counts_below_nothing : CountsBelow [] := by
  intro path entry above _ _
  rw [expandAmong]
  apply Counts.nothing
  intro names _
  rw [waysBelow]

theorem counts_along_directories {parts : List Component} (below : CountsBelow parts) :
    CountsAlong (.anyDirectories :: parts) := by
  intro site formed tidy _
  rw [expand]
  apply (below formed tidy).of_counts
  intro names _
  rw [ways]

theorem counts_below_directories {parts : List Component} (below : CountsBelow parts) :
    CountsBelow (.anyDirectories :: parts) := by
  intro path entry above formed tidy
  rw [expandAmong]
  apply (below formed tidy).of_counts
  intro names _
  rw [waysBelow]

theorem follow_empty {site : Site} (path : site.path ≠ "") :
    site.follow "" = if site.place.entry.isFile then none
      else some { site with path := Site.join site.path "" } := by
  rw [Site.follow]
  cases site.place.entry <;> simp [Entry.isDirectory, Entry.isFile, path]

theorem join_nonempty {path name : String} (nonempty : path ≠ "") : Site.join path name ≠ "" := by
  rw [Site.join, if_neg (mt String.isEmpty_iff.1 nonempty)]
  split <;> simp [nonempty]

theorem counts_along_empty {parts : List Component} (along : CountsAlong parts) :
    CountsAlong (.name [] :: parts) := by
  intro site formed tidy shown
  have path : site.path ≠ "" := shown rfl
  rw [expand, String.ofList_nil, follow_empty path]
  split
  · next file =>
    apply Counts.nothing
    intro names leads
    cases names with
    | nil => rw [ways, List.isEmpty_nil, if_pos rfl]
    | cons name names =>
        rw [Entry.is_directory_of_leads leads] at file
        cases file
  · next directory =>
    have behind := along { site with path := Site.join site.path "" } formed
      (tidy.slash (Bool.eq_false_iff.2 directory)) fun _ => join_nonempty path
    rw [Site.names_slash] at behind
    apply behind.of_counts
    intro names leads
    cases names with
    | nil => exact absurd leads directory
    | cons name names => rw [ways, List.isEmpty_cons, if_neg Bool.false_ne_true]

theorem counts_of_child (part : Component) {parts : List Component} (along : CountsAlong parts)
    (site : Site) (formed : site.place.entry.WellFormed) (tidy : site.Tidy) {child : String × Entry}
    (listed : child ∈ site.place.entry.children) :
    Counts (FileTree.names site.path ++ [child.1]) child.2
      (fun names => takeFirst part (ways parts) (child.1 :: names))
      (if part.fits child.1 then expand parts (site.child child.1 child.2) else []) := by
  have sound := formed.child listed
  rw [← Site.names_child sound.1 child.2]
  split
  · next fit =>
    have shown : (site.child child.1 child.2).path ≠ "" := by
      intro nothing
      have path : FileTree.names (site.child child.1 child.2).path =
          FileTree.names site.path ++ [child.1] :=
        Site.names_child sound.1 child.2
      rw [nothing] at path
      exact List.append_ne_nil_of_right_ne_nil _ (List.cons_ne_nil _ _) path.symm
    apply (along _ sound.2 (tidy.child sound.1 child.2) fun _ => shown).of_counts
    intro names _
    rw [takeFirst, if_pos fit]
  · next other =>
    apply Counts.nothing
    intro names _
    rw [takeFirst, if_neg other]

theorem counts_along_single {part : Component} (regular : part.Regular)
    (single : part ≠ .anyDirectories) {parts : List Component} (along : CountsAlong parts) :
    CountsAlong (part :: parts) := by
  intro site formed tidy _
  have named : part ≠ .name [] := by
    intro empty
    rw [empty] at regular
    exact regular.1 rfl
  rw [ways_single single named]
  apply Counts.of_perm _ (expand_single_perm regular single parts formed).symm
  apply Counts.of_children formed
  · rfl
  · intro child listed
    exact counts_of_child part along site formed tidy listed

theorem expand_among_below {part : Component} (single : part ≠ .anyDirectories)
    (parts : List Component) (path : String) (entry : Entry) (above : List Entry) :
    (expandAmong (part :: parts) (Site.descendants path above entry)).Perm
      (entry.children.flatMap fun child =>
      (if part.fits child.1 then expand parts (Site.child ⟨path, entry, above⟩ child.1 child.2)
        else []) ++
        expandAmong (part :: parts) (Site.descendants (Site.join path child.1) (entry :: above)
          child.2)) := by
  simp only [expand_among_single single]
  apply ((Site.descendants_perm path above entry).flatMap_right _).trans
  rw [List.flatMap_assoc]
  simp only [Site.withDescendants, List.flatMap_cons]
  exact .rfl

/-- Each child of a directory is fitted itself, and then what is below it. -/
theorem counts_below_single {part : Component} (single : part ≠ .anyDirectories)
    {parts : List Component} (along : CountsAlong parts) : CountsBelow (part :: parts) := by
  intro path entry above formed tidy
  rw [ways_below_single single]
  induction entry using Entry.from_leaves generalizing path above with
  | file bytes =>
      apply Counts.of_perm _ (expand_among_below single parts path _ above).symm
      apply Counts.of_children formed
      · rfl
      · exact List.forall_mem_nil _
  | directory entries induction =>
      apply Counts.of_perm _ (expand_among_below single parts path _ above).symm
      apply Counts.of_children formed
      · rfl
      · intro child listed
        have sound := formed.child listed
        have here := counts_of_child part along ⟨path, .directory entries, above⟩ formed tidy listed
        have below :
            Counts (FileTree.names (Site.join path child.1)) child.2
            (overEnds (takeFirst part (ways parts)))
            (expandAmong (part :: parts)
              (Site.descendants (Site.join path child.1) (.directory entries :: above) child.2)) :=
          induction child listed sound.2 (tidy.child sound.1 child.2)
        rw [Site.names_join, Site.names_of_name sound.1] at below
        exact here.append below

/-- Both counts are shown together, because two stars change from one to the other and a part for
one name changes back. -/
theorem parts_count {parts : List Component} (plain : ∀ part ∈ parts, part.Plain) :
    CountsAlong parts ∧ CountsBelow parts := by
  induction parts with
  | nil => exact ⟨counts_along_nothing, counts_below_nothing⟩
  | cons part parts induction =>
      rw [List.forall_mem_cons] at plain
      obtain ⟨along, below⟩ := induction plain.2
      rcases plain.1 with empty | regular
      · rw [empty]
        exact ⟨counts_along_empty along, counts_below_single Component.noConfusion along⟩
      · by_cases many : part = .anyDirectories
        · rw [many]
          exact ⟨counts_along_directories below, counts_below_directories below⟩
        · exact ⟨counts_along_single regular many along, counts_below_single many along⟩

section
variable {parts : List Component}

theorem take_first_le {part : Component} {count : List String → Nat} {bound : Nat}
    (few : ∀ names, count names ≤ bound) (names : List String) :
    takeFirst part count names ≤ bound := by
  cases names with
  | nil => exact Nat.zero_le bound
  | cons name names =>
      rw [takeFirst]
      split
      · exact few names
      · exact Nat.zero_le bound

/-- A count that is one at most, and only for lists of one length. -/
def OneOfLength (length : Nat) (count : List String → Nat) : Prop :=
  ∀ names, count names ≤ if names.length = length then 1 else 0

theorem OneOfLength.take_first {length : Nat} {count : List String → Nat}
    (one : OneOfLength length count) (part : Component) :
    OneOfLength (length + 1) (takeFirst part count) := by
  intro names
  cases names with
  | nil => exact Nat.zero_le _
  | cons name names =>
      have behind := one names
      simp only [takeFirst, List.length_cons, Nat.add_right_cancel_iff]
      split
      · exact behind
      · exact Nat.zero_le _

/-- Of all ends of some names only one has a given length. -/
theorem OneOfLength.over_ends {length : Nat} {count : List String → Nat}
    (one : OneOfLength length count) (names : List String) :
    overEnds count names ≤ if length ≤ names.length then 1 else 0 := by
  induction names with
  | nil => exact Nat.zero_le _
  | cons name names induction =>
      have here := one (name :: names)
      rw [List.length_cons] at here ⊢
      rw [overEnds]
      split at here <;> split at induction <;> split <;> omega

/-- Without two stars each part takes one name, and an empty part none. -/
theorem ways_without_directories (single : .anyDirectories ∉ parts) :
    OneOfLength (parts.countP (· ≠ .name [])) (ways parts) := by
  induction parts with
  | nil =>
      intro names
      cases names <;> simp [ways]
  | cons part parts induction =>
      rw [List.mem_cons, not_or] at single
      have behind := induction single.2
      by_cases empty : part = .name []
      · intro names
        rw [empty, ways, List.countP_cons_of_neg (by simp)]
        split
        · exact Nat.zero_le _
        · exact behind names
      · rw [ways_single (Ne.symm single.1) empty, List.countP_cons_of_pos (by simpa using empty)]
        exact behind.take_first part

theorem ways_below_le_one (single : .anyDirectories ∉ parts) (stars : Nat) (names : List String) :
    waysBelow (List.replicate stars .anyDirectories ++ parts) names ≤ 1 := by
  induction stars with
  | zero =>
      rw [List.replicate_zero, List.nil_append]
      cases parts with
      | nil => exact Nat.zero_le 1
      | cons part parts =>
          rw [List.mem_cons, not_or] at single
          rw [ways_below_single (Ne.symm single.1)]
          apply (((ways_without_directories single.2).take_first part).over_ends names).trans
          split <;> omega
  | succ stars induction =>
      rw [List.replicate_succ, List.cons_append, waysBelow]
      exact induction

/-- Parts take names in one way at most when all two stars among them stand next to one another. -/
theorem ways_le_one {before after : List Component} (front : .anyDirectories ∉ before)
    (behind : .anyDirectories ∉ after) (stars : Nat) (names : List String) :
    ways (before ++ List.replicate stars .anyDirectories ++ after) names ≤ 1 := by
  rw [List.append_assoc]
  induction before generalizing names with
  | nil =>
      rw [List.nil_append]
      cases stars with
      | zero =>
          apply (ways_without_directories behind names).trans
          split <;> omega
      | succ stars =>
          rw [List.replicate_succ, List.cons_append, ways]
          exact ways_below_le_one behind stars names
  | cons part before induction =>
      rw [List.mem_cons, not_or] at front
      rw [List.cons_append]
      by_cases empty : part = .name []
      · rw [empty, ways]
        split
        · exact Nat.zero_le 1
        · exact induction front.2 names
      · rw [ways_single (Ne.symm front.1) empty]
        exact take_first_le (induction front.2) names

end

end Glob

end ManifestLint
