import ManifestLint.Proofs.Config.Written

/-!
Conditions are read back. The kind may stand anywhere among the entries: what is found before it and
behind it is kept as content, and of that content the needles of the kind are picked by name.
-/

namespace ManifestLint

open Yaml

namespace ConditionEntry

/-- An entry of a condition that is read as content. -/
def Kept (entry : Key × Flow) : Prop :=
  entry.1.spelling.IsText ∧ entry.1.spelling.text ≠ "type" ∧
    ∀ path, readContent LayerEntry.conditionRoom path entry.2.node = pure entry.2.content

def contentsOf (entries : List (Key × Flow)) : List (Content × Content) :=
  entries.map fun entry => (.atom (.text entry.1.spelling.text), entry.2.content)

theorem read_key_of_text {spelling : Spelling} (text : spelling.IsText) (room : Nat) (path : Path) :
    readKey room path spelling.node =
      pure (if spelling.text = "type" then none else some (.atom (.text spelling.text))) := by
  have atom := read_atom_text "a type tag `type` or any other value" path text
  change (readAtom _ path ⟨none, none⟩ spelling.style spelling.text >>= fun atom =>
    pure (if atom = Atom.text "type" then none else some (Content.atom atom))) = _
  rw [atom, pure_bind]
  simp only [Atom.text.injEq]

section
variable {path : Path}

theorem read_entries_of_kept {entries : List (Key × Flow)} (kept : ∀ entry ∈ entries, Kept entry)
    (kind : Option Kind) :
    readEntries LayerEntry.conditionRoom path kind (Flow.nodesOfEntries entries) =
      pure (kind, contentsOf entries) := by
  induction entries with
  | nil => rfl
  | cons entry entries induction =>
      obtain ⟨key, value⟩ := entry
      rw [List.forall_mem_cons] at kept
      obtain ⟨⟨text, other, content⟩, rest⟩ := kept
      rw [Flow.nodesOfEntries, readEntries, read_key_of_text text, pure_bind, if_neg other]
      dsimp only
      rw [content, pure_bind, induction rest, pure_bind]
      rfl

/-- The kind is read where it stands, and all other entries are kept. -/
theorem read_entries_with_kind {before after : List (Key × Flow)} {entry : Key × Flow} {kind : Kind}
    (kept : ∀ other ∈ before ++ after, Kept other) (text : entry.1.spelling.IsText)
    (named : entry.1.spelling.text = "type")
    (read : ∀ path, readKind path entry.2.node = pure kind) :
    readEntries LayerEntry.conditionRoom path none
      (Flow.nodesOfEntries (before ++ entry :: after)) =
      pure (some kind, contentsOf (before ++ after)) := by
  induction before with
  | nil =>
      obtain ⟨key, value⟩ := entry
      have rest : readEntries _ path _ _ = _ := read_entries_of_kept kept (some kind)
      rw [List.nil_append, Flow.nodesOfEntries, readEntries, read_key_of_text text, pure_bind,
        if_pos named]
      dsimp only at read ⊢
      rw [if_neg (by decide), read, pure_bind]
      exact rest
  | cons other before induction =>
      obtain ⟨key, value⟩ := other
      rw [List.cons_append, List.forall_mem_cons] at kept
      obtain ⟨⟨readable, different, content⟩, rest⟩ := kept
      rw [List.cons_append, Flow.nodesOfEntries, readEntries, read_key_of_text readable, pure_bind,
        if_neg different]
      dsimp only
      rw [content, pure_bind, induction rest, pure_bind]
      rfl

/-- The field of a kind that an entry gives a needle for. -/
def needleOf (kind : Kind) (entry : Key × Flow) : Option (String × String) :=
  match entry.2 with
  | .scalar spelling =>
      if entry.1.spelling.text ∈ kind.fields then some (entry.1.spelling.text, spelling.text)
        else none
  | _ => none

def GivesText (kind : Kind) (entry : Key × Flow) : Prop :=
  entry.1.spelling.text ∈ kind.fields → ∃ spelling, entry.2 = .scalar spelling

theorem needle_of_field {kind : Kind} {key : Key} (known : key.spelling.text ∈ kind.fields)
    (spelling : Spelling) :
    needleOf kind (key, .scalar spelling) = some (key.spelling.text, spelling.text) := if_pos known

theorem needle_of_other {kind : Kind} {key : Key} (other : key.spelling.text ∉ kind.fields)
    (value : Flow) : needleOf kind (key, value) = none := by
  rw [needleOf]
  cases value with
  | scalar spelling => exact if_neg other
  | sequence items => rfl
  | mapping entries => rfl

theorem read_needles_of_field {kind : Kind} {key : Key} (known : key.spelling.text ∈ kind.fields)
    (spelling : Spelling) {found : List (String × String)}
    (fresh : found.lookup key.spelling.text = none) (entries : List (Key × Flow)) :
    readNeedles path kind found (contentsOf ((key, .scalar spelling) :: entries)) =
      readNeedles path kind ((key.spelling.text, spelling.text) :: found) (contentsOf entries) := by
  have field : fieldOf path kind (.atom (.text key.spelling.text)) =
      pure (some key.spelling.text) := by
    rw [fieldOf, if_pos (List.contains_iff_mem.2 known)]
  rw [contentsOf, List.map_cons, readNeedles, field, pure_bind]
  dsimp only
  rw [fresh]
  rfl

theorem read_needles_of_other {kind : Kind} {key : Key} (other : key.spelling.text ∉ kind.fields)
    (value : Flow) (found : List (String × String)) (entries : List (Key × Flow)) :
    readNeedles path kind found (contentsOf ((key, value) :: entries)) =
      readNeedles path kind found (contentsOf entries) := by
  have field : fieldOf path kind (.atom (.text key.spelling.text)) = pure none := by
    rw [fieldOf, if_neg (fun member => other (List.contains_iff_mem.1 member))]
  rw [contentsOf, List.map_cons, readNeedles, field, pure_bind]
  rfl

theorem lookup_cons_of_distinct {needle first : String × String} {found : List (String × String)}
    (different : needle.1 ≠ first.1) :
    (first :: found).lookup needle.1 = found.lookup needle.1 := by
  rw [List.lookup_cons, beq_eq_false_iff_ne.2 different]

theorem read_needles_of_texts {kind : Kind} {entries : List (Key × Flow)}
    (texts : ∀ entry ∈ entries, GivesText kind entry) {found : List (String × String)}
    (distinct : ((entries.filterMap (needleOf kind)).map (·.1)).Nodup)
    (fresh : ∀ needle ∈ entries.filterMap (needleOf kind), found.lookup needle.1 = none) :
    readNeedles path kind found (contentsOf entries) =
      pure ((entries.filterMap (needleOf kind)).reverse ++ found) := by
  induction entries generalizing found with
  | nil => rfl
  | cons entry entries induction =>
      obtain ⟨key, value⟩ := entry
      rw [List.forall_mem_cons] at texts
      by_cases known : key.spelling.text ∈ kind.fields
      · obtain ⟨spelling, given⟩ : ∃ spelling, value = .scalar spelling := texts.1 known
        rw [given, List.filterMap_cons, needle_of_field known] at distinct fresh ⊢
        rw [List.map_cons, List.nodup_cons] at distinct
        rw [List.forall_mem_cons] at fresh
        have later : ∀ other ∈ entries.filterMap (needleOf kind),
            List.lookup other.1 ((key.spelling.text, spelling.text) :: found) = none := by
          intro other member
          have different : other.1 ≠ key.spelling.text := by
            intro same
            rw [← same] at distinct
            exact distinct.1 (List.mem_map.2 ⟨other, member, rfl⟩)
          rw [lookup_cons_of_distinct different]
          exact fresh.2 other member
        rw [read_needles_of_field known spelling fresh.1, induction texts.2 distinct.2 later,
          List.reverse_cons, List.append_assoc]
        rfl
      · rw [List.filterMap_cons, needle_of_other known] at distinct fresh ⊢
        rw [read_needles_of_other known]
        exact induction texts.2 distinct fresh

theorem lookup_of_mem {found : List (String × String)} (distinct : (found.map (·.1)).Nodup)
    {name needle : String} (member : (name, needle) ∈ found) : found.lookup name = some needle := by
  induction found with
  | nil => cases member
  | cons first found induction =>
      rw [List.map_cons, List.nodup_cons] at distinct
      rcases List.mem_cons.1 member with rfl | later
      · exact List.lookup_cons_self
      · have different : (name, needle).1 ≠ first.1 := by
          intro same
          rw [← same] at distinct
          exact distinct.1 (List.mem_map_of_mem later)
        rw [lookup_cons_of_distinct different]
        exact induction distinct.2 later

theorem pick_needles_of_mem {found : List (String × String)} (distinct : (found.map (·.1)).Nodup)
    {picked : List (String × String)} (there : ∀ needle ∈ picked, needle ∈ found) :
    pickNeedles path found (picked.map (·.1)) = pure (picked.map (·.2)) := by
  induction picked with
  | nil => rfl
  | cons needle picked induction =>
      rw [List.forall_mem_cons] at there
      rw [List.map_cons, pickNeedles, lookup_of_mem distinct there.1]
      dsimp only
      rw [induction there.2, pure_bind]
      rfl

end

/-- The kind that a condition is of. -/
def kindOf : Condition → Kind
  | .missing _ => .missing
  | .contains _ => .contains
  | .containsWithout _ _ => .containsWithout

section
variable (condition : Condition)

theorem kind_of_name : Kind.ofName? condition.kindName = some (kindOf condition) := by
  cases condition <;> rfl

theorem fields_of_kind : condition.needleFields.map (·.1) = (kindOf condition).fields := by
  cases condition <;> rfl

theorem condition_of_needles :
    (kindOf condition).condition (condition.needleFields.map (·.2)) = some condition := by
  cases condition <;> rfl

end

theorem kind_fields_distinct (kind : Kind) : kind.fields.Nodup := by
  cases kind <;> decide

theorem kind_fields_named (kind : Kind) :
    ∀ name ∈ kind.fields, name ∈ Condition.names ∧ name ≠ "type" := by
  cases kind <;> decide

theorem atom_of_name : ∀ name ∈ Condition.names, Atom.ofPlain name = .text name := by
  decide +kernel

/-- The names of a condition are texts without quotes too. -/
theorem is_text_of_name {spelling : Spelling} (name : spelling.text ∈ Condition.names) :
    spelling.IsText := by
  cases spelling with
  | quoted text => exact Spelling.is_text_of_quoted rfl
  | plain text word =>
      have atom := atom_of_name text name
      change Except.ok (Atom.ofPlain text) = .ok (.text text)
      rw [atom]

/-- An entry with a needle. -/
def GivesNeedle (entry : Key × Flow) (field : String × String) : Prop :=
  entry.1.spelling.text = field.1 ∧ entry.2 = .quoted field.2

/-- An entry of another name than those of conditions. -/
def Foreign (entry : Key × Flow) : Prop :=
  entry.1.spelling.style = .doubleQuoted ∧ entry.1.spelling.text ∉ Condition.names ∧
    entry.2.AllQuoted ∧ entry.2.height ≤ LayerEntry.conditionRoom

theorem kept_of_foreign {entry : Key × Flow} (foreign : Foreign entry) : Kept entry := by
  obtain ⟨quoted, unknown, values, fits⟩ := foreign
  refine ⟨Spelling.is_text_of_quoted quoted, ?_, read_content_flow entry.2 values fits⟩
  intro named
  rw [named] at unknown
  exact unknown (by decide)

section
variable {condition : Condition} {entry : Key × Flow} {field : String × String}

theorem field_name_known (member : field ∈ condition.needleFields) :
    field.1 ∈ (kindOf condition).fields := by
  rw [← fields_of_kind]
  exact List.mem_map_of_mem member

theorem kept_of_needle (member : field ∈ condition.needleFields) (gives : GivesNeedle entry field) :
    Kept entry := by
  obtain ⟨named, value⟩ := gives
  have known := kind_fields_named (kindOf condition) field.1 (field_name_known member)
  rw [← named] at known
  refine ⟨is_text_of_name known.1, known.2, ?_⟩
  intro path
  rw [value]
  exact read_content_scalar _ path (Spelling.is_text_of_quoted rfl)

theorem needle_of_needle (member : field ∈ condition.needleFields)
    (gives : GivesNeedle entry field) :
    needleOf (kindOf condition) entry = some field := by
  obtain ⟨named, value⟩ := gives
  rw [needleOf, value, Flow.quoted]
  dsimp only
  rw [named, if_pos (field_name_known member)]
  rfl

theorem needle_of_foreign (foreign : Foreign entry) : needleOf (kindOf condition) entry = none := by
  have unknown : entry.1.spelling.text ∉ (kindOf condition).fields := fun found =>
    foreign.2.1 (kind_fields_named _ _ found).1
  rw [needleOf]
  split
  · exact if_neg unknown
  · rfl

end

theorem needles_of_known {kind : Kind} {entries : List (Key × Flow)}
    {fields : List (String × String)}
    (gives : List.Forall₂ (fun entry field => needleOf kind entry = some field) entries fields) :
    entries.filterMap (needleOf kind) = fields := by
  induction gives with
  | nil => rfl
  | cons one _ induction => rw [List.filterMap_cons, one, induction]

theorem all_with_field {Relation : Key × Flow → String × String → Prop}
    {entries : List (Key × Flow)} {fields : List (String × String)}
    (related : List.Forall₂ Relation entries fields) :
    List.Forall₂ (fun entry field => field ∈ fields ∧ Relation entry field) entries fields := by
  have flipped := (List.forall₂_and_left (p := (· ∈ fields)) fields entries).2
    ⟨fun _ member => member, related.flip⟩
  exact flipped.flip

theorem left_of_related {Relation : Key × Flow → String × String → Prop}
    {Property : Key × Flow → Prop} {entries : List (Key × Flow)} {fields : List (String × String)}
    (related : List.Forall₂ Relation entries fields)
    (implies : ∀ entry field, Relation entry field → Property entry) :
    ∀ entry ∈ entries, Property entry := by
  induction related with
  | nil => simp
  | cons one _ induction =>
      rw [List.forall_mem_cons]
      exact ⟨implies _ _ one, induction⟩

section
variable {condition : Condition} {kept entries extra : List (Key × Flow)}

theorem needles_of_kept (order : kept.Perm (entries ++ extra))
    (gives : List.Forall₂ GivesNeedle entries condition.needleFields)
    (foreign : ∀ entry ∈ extra, Foreign entry) :
    (kept.filterMap (needleOf (kindOf condition))).Perm condition.needleFields := by
  have own := needles_of_known
    ((all_with_field gives).imp fun _ _ found => needle_of_needle found.1 found.2)
  have others : extra.filterMap (needleOf (kindOf condition)) = [] := by
    rw [List.filterMap_eq_nil_iff]
    intro entry member
    exact needle_of_foreign (foreign entry member)
  have needles := order.filterMap (needleOf (kindOf condition))
  rw [List.filterMap_append, others, List.append_nil, own] at needles
  exact needles

theorem texts_of_kept (order : kept.Perm (entries ++ extra))
    (gives : List.Forall₂ GivesNeedle entries condition.needleFields)
    (foreign : ∀ entry ∈ extra, Foreign entry) :
    ∀ entry ∈ kept, GivesText (kindOf condition) entry := by
  intro entry member field
  rcases List.mem_append.1 (order.mem_iff.1 member) with own | other
  · have value := left_of_related gives
        (fun _ _ found => (⟨_, found.2⟩ : ∃ text, _ = Flow.quoted text))
    obtain ⟨text, same⟩ := value entry own
    exact ⟨_, same⟩
  · exact absurd (kind_fields_named _ _ field).1 (foreign entry other).2.1

/-- What is kept of the entries of a condition gives its needles, in whatever order they come. -/
theorem read_kept_needles (path : Path) (order : kept.Perm (entries ++ extra))
    (gives : List.Forall₂ GivesNeedle entries condition.needleFields)
    (foreign : ∀ entry ∈ extra, Foreign entry) :
    ofEntries path (kindOf condition) (contentsOf kept) = pure condition := by
  have needles := needles_of_kept order gives foreign
  have distinct : ((kept.filterMap (needleOf (kindOf condition))).map (·.1)).Nodup := by
    rw [(needles.map _).nodup_iff, fields_of_kind]
    exact kind_fields_distinct _
  have found : ((kept.filterMap (needleOf (kindOf condition))).reverse.map (·.1)).Nodup :=
    ((List.reverse_perm _).map _).nodup_iff.2 distinct
  have there : ∀ needle ∈ condition.needleFields,
      needle ∈ (kept.filterMap (needleOf (kindOf condition))).reverse := by
    intro needle member
    rw [List.mem_reverse]
    exact needles.mem_iff.2 member
  have read : readNeedles path _ [] _ = _ :=
    read_needles_of_texts (texts_of_kept order gives foreign) distinct fun _ _ => List.lookup_nil
  have picked : pickNeedles path _ _ = _ := pick_needles_of_mem found there
  rw [fields_of_kind] at picked
  rw [List.append_nil] at read
  rw [ofEntries, read, pure_bind, picked, pure_bind, finish, condition_of_needles]

end

theorem read_kind_of_name {condition : Condition} {spelling : Spelling}
    (named : spelling.text = condition.kindName) (path : Path) :
    readKind path spelling.node = pure (kindOf condition) := by
  rw [readKind, read_text_as_spelling, pure_bind, named, kind_of_name]

/-- A condition that is written down is read back. -/
theorem read_written {condition : Condition} {flow : Flow} (written : condition.WrittenAs flow)
    (around path : Path) :
    read LayerEntry.conditionRoom around path flow.node = pure condition := by
  obtain ⟨entries, rfl, known, extra, order, spelled, foreign⟩ := written
  cases spelled with
  | @cons entry _ needles _ typed others =>
      obtain ⟨named, spelling, value, kind⟩ := typed
      rw [List.forall₂_map_right_iff] at others
      have gives : List.Forall₂ GivesNeedle needles condition.needleFields := others
      have member : entry ∈ entries := order.mem_iff.2 List.mem_cons_self
      obtain ⟨before, after, rfl⟩ := List.append_of_mem member
      have rest : (before ++ after).Perm (needles ++ extra) :=
        (List.perm_middle.symm.trans order).cons_inv
      have kept : ∀ other ∈ before ++ after, Kept other := by
        intro other found
        rcases List.mem_append.1 (rest.mem_iff.1 found) with own | unknown
        · exact left_of_related (all_with_field gives)
            (fun _ _ related => kept_of_needle related.1 related.2) other own
        · exact kept_of_foreign (foreign other unknown)
      have text : entry.1.spelling.IsText := by
        apply is_text_of_name
        rw [named]
        exact List.mem_cons_self
      have kindRead : ∀ path, readKind path entry.2.node = pure (kindOf condition) := by
        rw [value]
        exact read_kind_of_name kind
      have readAll : readEntries _ path _ _ = _ := read_entries_with_kind kept text named kindRead
      have picked := read_kept_needles around rest gives foreign
      have untagged : ¬ (localTag? none).isSome = true := by decide
      rw [read, follow_flow, pure_bind, Flow.node]
      dsimp only
      rw [if_neg untagged, readAll, pure_bind]
      dsimp only
      rw [if_neg (by decide), picked]

end ConditionEntry

end ManifestLint
