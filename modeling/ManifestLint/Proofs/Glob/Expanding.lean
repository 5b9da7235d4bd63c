import ManifestLint.Glob.Expansion
import ManifestLint.Proofs.FileTree.Paths

/-!
Where the parts of a pattern lead. A part takes one name of an entry that it fits, and two stars
take the names of any directories and leave a name for the parts behind them. From a place in a tree
the parts lead to whatever the names that they take lead to.
-/

namespace ManifestLint.Glob

/-- How parts take the names of a path in turn. -/
inductive Along {Part : Type} (forDirectories : Part → Prop) (fits : Part → String → Prop) :
    List Part → List String → Prop where
  | done : Along forDirectories fits [] []
  | name {part : Part} {parts : List Part} {name : String} {names : List String}
      (single : ¬ forDirectories part)
      (fit : fits part name) (rest : Along forDirectories fits parts names) :
      Along forDirectories fits (part :: parts) (name :: names)
  | directories {part : Part} {parts : List Part} {names : List String} (many : forDirectories part)
      (directories : List String) (left : names ≠ [])
        (rest : Along forDirectories fits parts names) :
      Along forDirectories fits (part :: parts) (directories ++ names)

section
variable {Part : Type} {forDirectories : Part → Prop} {fits : Part → String → Prop}

@[simp] theorem along_nil_iff {names : List String} :
    Along forDirectories fits [] names ↔ names = [] := by
  constructor
  · intro along
    cases along
    rfl
  · intro nothing
    rw [nothing]
    exact .done

@[simp] theorem along_single_iff {part : Part} (single : ¬ forDirectories part) {parts : List Part}
    {names : List String} :
    Along forDirectories fits (part :: parts) names ↔
      ∃ name rest, names = name :: rest ∧ fits part name ∧
        Along forDirectories fits parts rest := by
  constructor
  · intro along
    cases along with
    | name _ fit rest => exact ⟨_, _, rfl, fit, rest⟩
    | directories many => exact absurd many single
  · rintro ⟨name, rest, same, fit, along⟩
    rw [same]
    exact .name single fit along

theorem along_many_iff {part : Part} (many : forDirectories part) {parts : List Part}
    {names : List String} :
    Along forDirectories fits (part :: parts) names ↔
      ∃ directories rest, names = directories ++ rest ∧ rest ≠ [] ∧
        Along forDirectories fits parts rest := by
  constructor
  · intro along
    cases along with
    | name single => exact absurd many single
    | directories _ directories left rest => exact ⟨directories, _, rfl, left, rest⟩
  · rintro ⟨directories, rest, same, left, along⟩
    rw [same]
    exact .directories many directories left along

/-- Parts take the same names as other parts that fit the same names one by one. -/
theorem along_iff_of_related {Other : Type} {otherDirectories : Other → Prop}
    {otherFits : Other → String → Prop} {parts : List Part} {others : List Other}
    (related : List.Forall₂ (fun part other => (forDirectories part ↔ otherDirectories other) ∧
      (¬ forDirectories part → ∀ name, fits part name ↔ otherFits other name)) parts others)
      (names : List String) :
    Along forDirectories fits parts names ↔ Along otherDirectories otherFits others names := by
  induction related generalizing names with
  | nil => simp
  | @cons part other _ _ same _ induction =>
      by_cases many : forDirectories part
      · rw [along_many_iff many, along_many_iff (same.1.1 many)]
        simp only [induction]
      · have single : ¬ otherDirectories other := by
          intro otherMany
          exact many (same.1.2 otherMany)
        rw [along_single_iff many, along_single_iff single]
        simp only [same.2 many, induction]

end

namespace Site

/-- The names that lead down from one place to another. -/
inductive Reaches : Site → List String → Site → Prop where
  | here (site : Site) : Reaches site [] site
  | into {site found : Site} {name : String} {entry : Entry} {names : List String}
      (listed : (name, entry) ∈ site.place.entry.children)
        (rest : Reaches (site.child name entry) names found) :
      Reaches site (name :: names) found

@[simp] theorem reaches_nil_iff {site found : Site} : Reaches site [] found ↔ found = site := by
  constructor
  · intro reaches
    cases reaches
    rfl
  · intro same
    rw [same]
    exact .here site

@[simp] theorem reaches_cons_iff {site found : Site} {name : String} {names : List String} :
    Reaches site (name :: names) found ↔
      ∃ entry, (name, entry) ∈ site.place.entry.children ∧
        Reaches (site.child name entry) names found := by
  constructor
  · intro reaches
    cases reaches with
    | into listed rest => exact ⟨_, listed, rest⟩
  · intro step
    obtain ⟨entry, listed, rest⟩ := step
    exact .into listed rest

@[simp] theorem reaches_append_iff {site found : Site} {first second : List String} :
    Reaches site (first ++ second) found ↔
      ∃ middle, Reaches site first middle ∧ Reaches middle second found := by
  induction first generalizing site with
  | nil => simp [List.nil_append, exists_eq_left]
  | cons name first induction =>
      simp only [List.cons_append, reaches_cons_iff, induction]
      constructor
      · rintro ⟨entry, listed, middle, before, behind⟩
        exact ⟨middle, ⟨entry, listed, before⟩, behind⟩
      · rintro ⟨middle, ⟨entry, listed, before⟩, behind⟩
        exact ⟨entry, listed, middle, before, behind⟩

theorem Reaches.sound {site found : Site} {names : List String} (reaches : Reaches site names found)
    (formed : site.place.entry.WellFormed) :
    (∀ name ∈ names, ProperName name) ∧ found.place.entry.WellFormed := by
  induction reaches with
  | here => exact ⟨List.forall_mem_nil _, formed⟩
  | into listed _ induction =>
      have child := formed.child listed
      have behind := induction child.2
      exact ⟨List.forall_mem_cons.2 ⟨child.1, behind.1⟩, behind.2⟩

def withDescendants (path : String) (above : List Entry) (name : String) (entry : Entry) :
    List (String × Site) :=
  (name, ⟨join path name, ⟨entry, above⟩⟩) :: descendants (join path name) above entry

theorem descendants_in_eq (path : String) (above : List Entry) (entries : List (String × Entry)) :
    descendantsIn path above entries =
      entries.map fun child => (child.1, withDescendants path above child.1 child.2) := by
  induction entries with
  | nil => rfl
  | cons child entries induction => rw [descendantsIn, induction, List.map_cons, withDescendants]

theorem descendants_perm (path : String) (above : List Entry) (entry : Entry) :
    (descendants path above entry).Perm (entry.children.flatMap fun child =>
      withDescendants path (entry :: above) child.1 child.2) := by
  cases entry with
  | file bytes =>
      rw [descendants]
      exact .rfl
  | directory entries =>
      rw [descendants, descendants_in_eq]
      apply ((List.mergeSort_perm _ _).flatMap_right _).trans
      rw [List.flatMap_map]
      exact .rfl

/-- Below a place lies what some names lead to from there, by the last of them. -/
theorem mem_descendants_iff (entry : Entry) {path : String} {above : List Entry} {name : String}
    {found : Site} :
    (name, found) ∈ descendants path above entry ↔
      ∃ directories, Reaches ⟨path, entry, above⟩ (directories ++ [name]) found := by
  induction entry using Entry.from_leaves generalizing path above with
  | file bytes =>
      rw [descendants]
      constructor
      · intro member
        cases member
      · rintro ⟨directories, reaches⟩
        obtain ⟨middle, before, behind⟩ := reaches_append_iff.1 reaches
        obtain ⟨entry, listed, _⟩ := reaches_cons_iff.1 behind
        cases before with
        | here => cases listed
        | into listed => cases listed
  | directory entries induction =>
      rw [(descendants_perm path above _).mem_iff, List.mem_flatMap]
      constructor
      · rintro ⟨child, listed, member⟩
        rcases List.mem_cons.1 member with same | below
        · cases same
          exact ⟨[], .into listed (.here _)⟩
        · obtain ⟨directories, reaches⟩ := (induction child listed).1 below
          exact ⟨child.1 :: directories, .into listed reaches⟩
      · rintro ⟨directories, reaches⟩
        cases directories with
        | nil =>
            obtain ⟨entry, listed, rest⟩ := reaches_cons_iff.1 reaches
            rw [reaches_nil_iff.1 rest]
            exact ⟨_, listed, List.mem_cons_self⟩
        | cons first directories =>
            obtain ⟨entry, listed, rest⟩ := reaches_cons_iff.1 reaches
            exact ⟨_, listed, List.mem_cons_of_mem _ ((induction _ listed).2 ⟨directories, rest⟩)⟩

end Site

def Component.Regular : Component → Prop
  | .name text => text ≠ [] ∧ text.head? ≠ some '.'
  | .wild pieces => pieces.head? ≠ some (.literal '.')
  | .anyDirectories => True

/-- How the parts of a pattern take names, as they fit them. -/
def Takes : List Component → List String → Prop :=
  Along (· = .anyDirectories) fun component name => component.fits name = true

theorem follow_regular {text : List Char} (regular : (Component.name text).Regular) (site : Site) :
    site.follow (String.ofList text) =
      (site.place.entry.child? (String.ofList text)).map (site.child (String.ofList text)) := by
  have other (word : List Char) (different : text ≠ word) :
      String.ofList text ≠ String.ofList word := by
    intro same
    exact different (String.ofList_injective same)
  have hidden {word : List Char} (dot : word.head? = some '.') : text ≠ word := by
    intro same
    exact regular.2 (same ▸ dot)
  rw [Site.follow, if_neg (other ['.'] (hidden rfl)), if_neg (other ['.', '.'] (hidden rfl)),
    if_neg (other [] regular.1)]
  cases site.place.entry <;> rfl

theorem no_specials {pieces : List Piece} (regular : (Component.wild pieces).Regular)
    (site : Site) :
    site.specials pieces = [] := by
  rw [Site.specials, if_neg]
  intro special
  exact regular special.2

/-- Of the children of a directory only one has a given name. -/
theorem flat_map_named {Found : Type} {children : List (String × Entry)}
    (distinct : (children.map (·.1)).Nodup) (name : String) (found : String × Entry → List Found) :
    (children.flatMap fun child => if child.1 = name then found child else []) =
      ((children.lookup name).map fun entry => found (name, entry)).getD [] := by
  induction children with
  | nil => rfl
  | cons first children induction =>
      rw [List.map_cons, List.nodup_cons] at distinct
      rw [List.flatMap_cons, induction distinct.2]
      by_cases same : first.1 = name
      · rw [if_pos same, ← same, lookup_eq_none_of_unlisted distinct.1, List.lookup_cons_self]
        exact List.append_nil _
      · rw [if_neg same, List.nil_append, List.lookup_cons, beq_eq_false_iff_ne.2 (Ne.symm same)]

theorem expand_single_perm {part : Component} (regular : part.Regular)
    (single : part ≠ .anyDirectories) (parts : List Component) {site : Site}
    (formed : site.place.entry.WellFormed) :
    (expand (part :: parts) site).Perm (site.place.entry.children.flatMap fun child =>
      if part.fits child.1 then expand parts (site.child child.1 child.2) else []) := by
  cases part with
  | anyDirectories => exact absurd rfl single
  | name text =>
      have fits (name : String) : (Component.name text).fits name = true ↔
          name = String.ofList text := by
        rw [Component.fits, beq_iff_eq, ← String.toList_inj, String.toList_ofList]
      simp only [fits]
      rw [expand, follow_regular regular, Entry.child_eq_lookup, Option.map_map,
        flat_map_named formed.names_distinct]
      exact .rfl
  | wild pieces =>
      rw [expand, no_specials regular, List.flatMap_nil, List.nil_append, Site.children]
      apply ((List.mergeSort_perm _ _).flatMap_right _).trans
      rw [List.flatMap_map]
      exact .rfl

theorem mem_expand_single_iff {part : Component} (regular : part.Regular)
    (single : part ≠ .anyDirectories) {parts : List Component} {site : Site}
    (formed : site.place.entry.WellFormed) {found : Site} :
    found ∈ expand (part :: parts) site ↔
      ∃ name entry, (name, entry) ∈ site.place.entry.children ∧ part.fits name = true ∧
        found ∈ expand parts (site.child name entry) := by
  rw [(expand_single_perm regular single parts formed).mem_iff, List.mem_flatMap, Prod.exists]
  simp only [List.mem_ite_nil_right]

theorem expand_among_single {part : Component} (single : part ≠ .anyDirectories)
    (parts : List Component) (candidates : List (String × Site)) :
    expandAmong (part :: parts) candidates = candidates.flatMap fun candidate =>
      if part.fits candidate.1 then expand parts candidate.2 else [] := by
  cases part with
  | anyDirectories => exact absurd rfl single
  | name text => rw [expandAmong]
  | wild pieces => rw [expandAmong]

theorem mem_expand_among_single_iff {part : Component} (single : part ≠ .anyDirectories)
    {parts : List Component} {candidates : List (String × Site)} {found : Site} :
    found ∈ expandAmong (part :: parts) candidates ↔
      ∃ name candidate, (name, candidate) ∈ candidates ∧ part.fits name = true ∧
        found ∈ expand parts candidate := by
  rw [expand_among_single single, List.mem_flatMap, Prod.exists]
  simp only [List.mem_ite_nil_right]

theorem takes_directories_iff {parts : List Component} {names : List String} :
    Takes (.anyDirectories :: parts) names ↔
      ∃ directories rest, names = directories ++ rest ∧ rest ≠ [] ∧ Takes parts rest := by
  apply along_many_iff
  rfl

theorem takes_single_iff {part : Component} (single : part ≠ .anyDirectories)
    {parts : List Component} {names : List String} :
    Takes (part :: parts) names ↔ ∃ name rest, names = name :: rest ∧ part.fits name = true ∧
      Takes parts rest := by
  apply along_single_iff
  exact single

/-- Some parts lead from a place to what the names lead to that they take. -/
def LeadsAlong (parts : List Component) : Prop :=
  ∀ {site found : Site}, site.place.entry.WellFormed →
    (found ∈ expand parts site ↔ ∃ names, Takes parts names ∧ site.Reaches names found)

def LeadsBelow (parts : List Component) : Prop :=
  ∀ {site found : Site}, site.place.entry.WellFormed →
    (found ∈ expandAmong parts (Site.descendants site.path site.place.above site.place.entry) ↔
      ∃ directories names, names ≠ [] ∧ Takes parts names ∧
      site.Reaches (directories ++ names) found)

theorem leads_along_nothing : LeadsAlong [] := by
  intro site found _
  rw [expand, Takes]
  simp [exists_eq_left]

theorem leads_below_nothing : LeadsBelow [] := by
  intro site found _
  rw [expandAmong, Takes]
  simp only [along_nil_iff]
  constructor
  · intro member
    cases member
  · rintro ⟨_, names, left, nothing, _⟩
    exact absurd nothing left

theorem leads_along_directories {parts : List Component} (below : LeadsBelow parts) :
    LeadsAlong (.anyDirectories :: parts) := by
  intro site found formed
  rw [expand, below formed]
  simp only [takes_directories_iff]
  constructor
  · rintro ⟨directories, names, left, takes, reaches⟩
    exact ⟨_, ⟨directories, names, rfl, left, takes⟩, reaches⟩
  · rintro ⟨_, ⟨directories, names, rfl, left, takes⟩, reaches⟩
    exact ⟨directories, names, left, takes, reaches⟩

/-- Two stars behind two stars take nothing that the first could not take. -/
theorem leads_below_directories {parts : List Component} (below : LeadsBelow parts) :
    LeadsBelow (.anyDirectories :: parts) := by
  intro site found formed
  rw [expandAmong, below formed]
  simp only [takes_directories_iff]
  constructor
  · rintro ⟨directories, names, left, takes, reaches⟩
    exact ⟨directories, names, left, ⟨[], names, rfl, left, takes⟩, reaches⟩
  · rintro ⟨outer, _, _, ⟨directories, names, rfl, left, takes⟩, reaches⟩
    rw [← List.append_assoc] at reaches
    exact ⟨outer ++ directories, names, left, takes, reaches⟩

theorem leads_along_single {part : Component} (regular : part.Regular)
    (single : part ≠ .anyDirectories) {parts : List Component} (along : LeadsAlong parts) :
    LeadsAlong (part :: parts) := by
  intro site found formed
  rw [mem_expand_single_iff regular single formed]
  simp only [takes_single_iff single]
  constructor
  · rintro ⟨name, entry, listed, fit, member⟩
    obtain ⟨names, takes, reaches⟩ := (along (formed.child listed).2).1 member
    exact ⟨_, ⟨name, names, rfl, fit, takes⟩, .into listed reaches⟩
  · rintro ⟨_, ⟨name, names, rfl, fit, takes⟩, reaches⟩
    obtain ⟨entry, listed, rest⟩ := Site.reaches_cons_iff.1 reaches
    exact ⟨name, entry, listed, fit, (along (formed.child listed).2).2 ⟨names, takes, rest⟩⟩

theorem leads_below_single {part : Component} (single : part ≠ .anyDirectories)
    {parts : List Component} (along : LeadsAlong parts) : LeadsBelow (part :: parts) := by
  intro site found formed
  have cut (directories names : List String) (name : String) :
      directories ++ name :: names = (directories ++ [name]) ++ names := by simp
  rw [mem_expand_among_single_iff single]
  simp only [takes_single_iff single]
  constructor
  · rintro ⟨name, candidate, member, fit, inside⟩
    obtain ⟨directories, before⟩ := (Site.mem_descendants_iff _).1 member
    obtain ⟨names, takes, behind⟩ := (along (before.sound formed).2).1 inside
    refine ⟨directories, name :: names, List.cons_ne_nil _ _, ⟨name, names, rfl, fit, takes⟩, ?_⟩
    rw [cut]
    exact Site.reaches_append_iff.2 ⟨candidate, before, behind⟩
  · rintro ⟨directories, _, _, ⟨name, names, rfl, fit, takes⟩, reaches⟩
    rw [cut] at reaches
    obtain ⟨candidate, before, behind⟩ := Site.reaches_append_iff.1 reaches
    exact ⟨name, candidate, (Site.mem_descendants_iff _).2 ⟨directories, before⟩, fit,
      (along (before.sound formed).2).2 ⟨names, takes, behind⟩⟩

/-- Both ways to lead on are shown together, because two stars change from one to the other and a
part for one name changes back. -/
theorem parts_lead {parts : List Component} (regular : ∀ part ∈ parts, part.Regular) :
    LeadsAlong parts ∧ LeadsBelow parts := by
  induction parts with
  | nil => exact ⟨leads_along_nothing, leads_below_nothing⟩
  | cons part parts induction =>
      rw [List.forall_mem_cons] at regular
      obtain ⟨along, below⟩ := induction regular.2
      by_cases many : part = .anyDirectories
      · rw [many]
        exact ⟨leads_along_directories below, leads_below_directories below⟩
      · exact ⟨leads_along_single regular.1 many along, leads_below_single many along⟩

theorem mem_expand_iff {parts : List Component} (regular : ∀ part ∈ parts, part.Regular)
    {site found : Site} (formed : site.place.entry.WellFormed) :
    found ∈ expand parts site ↔ ∃ names, Takes parts names ∧ site.Reaches names found :=
  (parts_lead regular).1 formed

end ManifestLint.Glob
