import ManifestLint.Proofs.Yaml.Building
import ManifestLint.Yaml.Reading
import Mathlib.Data.List.Perm.Basic

/-!
Records in flow style: mappings with given fields in any order and other entries among them. A
record reader makes of such a mapping what its fields make of the initial record in their own order.
-/

namespace ManifestLint.Yaml

namespace Flow

/-- Entries with the given fields, whose values are as described. Other entries have quoted keys
that are none of the given names. -/
def HasFields (names : List String) (others : Flow → Prop) (fields : List (String × (Flow → Prop)))
    (entries : List (Key × Flow)) : Prop :=
  ∃ known extra, entries.Perm (known ++ extra) ∧
    List.Forall₂ (fun entry field => entry.1.spelling.text = field.1 ∧ field.2 entry.2) known
    fields ∧
    ∀ entry ∈ extra, entry.1.spelling.style = .doubleQuoted ∧ entry.1.spelling.text ∉ names ∧
      others entry.2

def IsRecord (names : List String) (others : Flow → Prop) (fields : List (String × (Flow → Prop)))
    (flow : Flow) : Prop :=
  ∃ entries, flow = .mapping entries ∧ HasFields names others fields entries

/-- A scalar with the given text, with quotes or without. -/
def Spells (name : String) (flow : Flow) : Prop :=
  ∃ spelling, flow = .scalar spelling ∧ spelling.text = name

def quoted (text : String) : Flow := .scalar (.quoted text)

end Flow

@[simp] theorem follow_flow (flow : Flow) : follow flow.node = pure flow.node := by
  cases flow with
  | scalar spelling => rfl
  | sequence items => rfl
  | mapping entries => rfl

theorem read_text_as_spelling (expected : String) (path : Path) (spelling : Spelling) :
    readTextAs expected path spelling.node = pure spelling.text := rfl

theorem read_items_of_reads {Value : Type} {reader : Reader Value} {nodes : List Node}
    {values : List Value}
    (reads : List.Forall₂ (fun node value => ∀ path, reader path node = pure value) nodes values)
    (path : Path) (index : Nat) : readItems reader path index nodes = pure values := by
  induction reads generalizing index with
  | nil => rfl
  | cons one _ induction => rw [readItems, one, pure_bind, induction, pure_bind]

theorem read_sequence_of_reads {Value : Type} {reader : Reader Value} {items : List Flow}
    {values : List Value}
    (reads : List.Forall₂ (fun item value => ∀ path, reader path item.node = pure value)
      items values)
    (path : Path) : readSequence reader path (Flow.sequence items).node = pure values := by
  have nodes : List.Forall₂ (fun node value => ∀ path, reader path node = pure value)
      (Flow.nodesOfItems items) values := by
    rw [Flow.nodes_of_items_eq, List.forall₂_map_left_iff]
    exact reads
  have read := read_items_of_reads nodes path 0
  rw [readSequence, follow_flow, pure_bind, Flow.node]
  dsimp only
  rw [read, pure_bind]
  rfl

section
variable {Record : Type} {fields : List (FieldReader Record)} {path : Path}

/-- What an entry does to a record: it sets the field it names, or it names none and does nothing.
-/
structure Change (Record : Type) where
  name : Option String
  update : Record → Record

def Change.apply (record : Record) (change : Change Record) : Record := change.update record

def Causes (fields : List (FieldReader Record)) (path : Path) (entry : Key × Flow)
    (change : Change Record) : Prop :=
  match change.name with
  | none => fields.find? (·.name == entry.1.spelling.text) = none ∧ ∀ record,
      change.update record = record
  | some name => entry.1.spelling.text = name ∧
      ∃ field, fields.find? (·.name == name) = some field ∧
        ∀ record, field.read (path.under entry.1.spelling.node) entry.2.node record =
          pure (change.update record)

theorem read_entries_of_unknown {entry : Key × Flow}
    (unknown : fields.find? (·.name == entry.1.spelling.text) = none) (entries : List (Key × Flow))
    (seen : List String) (record : Record) :
    readEntries fields path seen record (Flow.nodesOfEntries (entry :: entries)) =
      readEntries fields path seen record (Flow.nodesOfEntries entries) := by
  obtain ⟨key, value⟩ := entry
  dsimp only at unknown
  rw [Flow.nodesOfEntries, readEntries, read_text_as_spelling, pure_bind, unknown,
    Flow.node_is_whole]
  rfl

theorem read_entries_of_field {entry : Key × Flow} {field : FieldReader Record} {seen : List String}
    (found : fields.find? (·.name == entry.1.spelling.text) = some field)
    (fresh : entry.1.spelling.text ∉ seen) {record updated : Record}
    (read : field.read (path.under entry.1.spelling.node) entry.2.node record = pure updated)
    (entries : List (Key × Flow)) :
    readEntries fields path seen record (Flow.nodesOfEntries (entry :: entries)) =
      readEntries fields path (entry.1.spelling.text :: seen) updated
        (Flow.nodesOfEntries entries) := by
  obtain ⟨key, value⟩ := entry
  dsimp only at found fresh read
  rw [← List.contains_iff_mem] at fresh
  rw [Flow.nodesOfEntries, readEntries, read_text_as_spelling, pure_bind, found]
  dsimp only
  rw [if_neg fresh, read, pure_bind]

theorem read_entries_of_causes {entries : List (Key × Flow)} {changes : List (Change Record)}
    (causes : List.Forall₂ (Causes fields path) entries changes)
    (distinct : (changes.filterMap Change.name).Nodup) {seen : List String}
    (unseen : ∀ name ∈ changes.filterMap Change.name, name ∉ seen) (record : Record) :
    readEntries fields path seen record (Flow.nodesOfEntries entries) =
      pure (changes.foldl Change.apply record) := by
  induction causes generalizing seen record with
  | nil => rfl
  | @cons entry change entries changes one _ induction =>
      cases named : change.name with
      | none =>
          rw [Causes, named] at one
          rw [List.filterMap_cons, named] at distinct unseen
          rw [read_entries_of_unknown one.1, induction distinct unseen record, List.foldl_cons,
            Change.apply, one.2]
      | some name =>
          rw [Causes, named] at one
          obtain ⟨rfl, field, found, read⟩ := one
          rw [List.filterMap_cons, named] at distinct unseen
          rw [List.nodup_cons] at distinct
          rw [List.forall_mem_cons] at unseen
          have later : ∀ other ∈ changes.filterMap Change.name,
              other ∉ entry.1.spelling.text :: seen := by
            intro other member
            rw [List.mem_cons, not_or]
            refine ⟨?_, unseen.2 other member⟩
            rintro rfl
            exact distinct.1 member
          rw [read_entries_of_field found unseen.1 (read record), induction distinct.2 later,
            List.foldl_cons, Change.apply]

/-- How a field changes a record, whatever value it has of those described. -/
def Sets (fields : List (FieldReader Record)) (field : String × (Flow → Prop))
    (update : Record → Record) : Prop :=
  ∃ reader, fields.find? (·.name == field.1) = some reader ∧
    ∀ place flow, field.2 flow → ∀ record, reader.read place flow.node record = pure (update record)

def changesOf (wanted : List (String × (Flow → Prop))) (updates : List (Record → Record)) :
    List (Change Record) :=
  List.zipWith (fun field update => ⟨some field.1, update⟩) wanted updates

def passingOver (extra : List (Key × Flow)) : List (Change Record) := extra.map fun _ => ⟨none, id⟩

theorem causes_of_known {known : List (Key × Flow)} {wanted : List (String × (Flow → Prop))}
    {updates : List (Record → Record)}
    (spelled : List.Forall₂ (fun entry field => entry.1.spelling.text = field.1 ∧
      field.2 entry.2) known
      wanted)
    (sets : List.Forall₂ (Sets fields) wanted updates) :
    List.Forall₂ (Causes fields path) known (changesOf wanted updates) := by
  induction spelled generalizing updates with
  | nil =>
      cases sets
      exact .nil
  | cons one _ induction =>
      cases sets with
      | cons set others =>
          obtain ⟨reader, found, reads⟩ := set
          exact .cons ⟨one.1, reader, found, reads _ _ one.2⟩ (induction others)

theorem find_field_eq_none {name : String} (other : name ∉ fields.map (·.name)) :
    fields.find? (·.name == name) = none := by
  rw [List.find?_eq_none]
  intro field member same
  rw [beq_iff_eq] at same
  apply other
  rw [← same]
  exact List.mem_map_of_mem member

theorem causes_of_extra {others : Flow → Prop} {extra : List (Key × Flow)}
    (unknown : ∀ entry ∈ extra, entry.1.spelling.style = .doubleQuoted ∧
      entry.1.spelling.text ∉ fields.map (·.name) ∧ others entry.2) :
    List.Forall₂ (Causes fields path) extra (passingOver extra) := by
  rw [passingOver, List.forall₂_map_right_iff, List.forall₂_same]
  intro entry member
  exact ⟨find_field_eq_none (unknown entry member).2.1, fun _ => rfl⟩

theorem names_of_changes {wanted : List (String × (Flow → Prop))} {updates : List (Record → Record)}
    (sets : List.Forall₂ (Sets fields) wanted updates) (extra : List (Key × Flow)) :
    (changesOf wanted updates ++ passingOver extra).filterMap Change.name = wanted.map (·.1) := by
  have passed : (passingOver extra : List (Change Record)).filterMap Change.name = [] := by
    rw [List.filterMap_eq_nil_iff]
    intro change member
    obtain ⟨_, _, rfl⟩ := List.mem_map.1 member
    rfl
  rw [List.filterMap_append, passed, List.append_nil]
  induction sets with
  | nil => rfl
  | cons _ _ induction =>
      rw [changesOf, List.zipWith_cons_cons, List.filterMap_cons, List.map_cons]
      exact congrArg _ induction

theorem fold_changes {wanted : List (String × (Flow → Prop))} {updates : List (Record → Record)}
    (sets : List.Forall₂ (Sets fields) wanted updates) (extra : List (Key × Flow))
    (record : Record) :
    (changesOf wanted updates ++ passingOver extra).foldl Change.apply record =
      updates.foldl (fun record update => update record) record := by
  have passed (record : Record) :
      (passingOver extra).foldl Change.apply record = record := by
    induction extra with
    | nil => rfl
    | cons entry extra induction => exact induction
  rw [List.foldl_append, passed]
  induction sets generalizing record with
  | nil => rfl
  | cons _ _ induction => exact induction _

theorem update_of_change {wanted : List (String × (Flow → Prop))} {updates : List (Record → Record)}
    {extra : List (Key × Flow)} {change : Change Record}
    (member : change ∈ changesOf wanted updates ++ passingOver extra) :
    change.update ∈ updates ∨ change.update = id := by
  rcases List.mem_append.1 member with known | passed
  · left
    induction wanted generalizing updates with
    | nil => cases known
    | cons field wanted induction =>
        cases updates with
        | nil => cases known
        | cons update updates =>
            rcases List.mem_cons.1 known with rfl | later
            · exact List.mem_cons_self
            · exact List.mem_cons_of_mem _ (induction (List.mem_append_left _ later) later)
  · right
    obtain ⟨_, _, rfl⟩ := List.mem_map.1 passed
    rfl

/-- The order of the entries does not matter when no two fields get in each other's way. -/
theorem read_entries_of_fields {others : Flow → Prop} {wanted : List (String × (Flow → Prop))}
    {updates : List (Record → Record)} {entries : List (Key × Flow)}
    (has : Flow.HasFields (fields.map (·.name)) others wanted entries)
    (sets : List.Forall₂ (Sets fields) wanted updates) (distinct : (wanted.map (·.1)).Nodup)
    (commute : ∀ first ∈ updates, ∀ second ∈ updates, ∀ record,
      second (first record) = first (second record)) (record : Record) :
    readEntries fields path [] record (Flow.nodesOfEntries entries) =
      pure (updates.foldl (fun record update => update record) record) := by
  obtain ⟨known, extra, order, spelled, unknown⟩ := has
  have causes : List.Forall₂ (Causes fields path) (known ++ extra)
      (changesOf wanted updates ++ passingOver extra) :=
    List.rel_append (causes_of_known spelled sets) (causes_of_extra unknown)
  obtain ⟨changes, inOrder, reordered⟩ := List.perm_comp_forall₂ order causes
  have names := reordered.filterMap Change.name
  rw [names_of_changes sets extra] at names
  have independent : ∀ first ∈ changes, ∀ second ∈ changes, ∀ record,
      second.update (first.update record) = first.update (second.update record) := by
    intro first firstMember second secondMember record
    rcases update_of_change (reordered.mem_iff.1 firstMember) with known | same
    · rcases update_of_change (reordered.mem_iff.1 secondMember) with other | same
      · exact commute _ known _ other record
      · rw [same]
        rfl
    · rw [same]
      rfl
  rw [read_entries_of_causes inOrder (names.nodup_iff.2 distinct)
    (fun _ _ => List.not_mem_nil) record, reordered.foldl_eq' independent record,
    fold_changes sets extra]

theorem read_record_of_fields {title : String} {names : List String} {others : Flow → Prop}
    {wanted : List (String × (Flow → Prop))} {updates : List (Record → Record)} {flow : Flow}
    (written : flow.IsRecord names others wanted) (named : names = fields.map (·.name))
    (sets : List.Forall₂ (Sets fields) wanted updates) (distinct : (wanted.map (·.1)).Nodup)
    (commute : ∀ first ∈ updates, ∀ second ∈ updates, ∀ record,
      second (first record) = first (second record)) (initial : Record) :
    readRecord title fields initial path flow.node =
      pure (updates.foldl (fun record update => update record) initial) := by
  obtain ⟨entries, rfl, has⟩ := written
  rw [named] at has
  have read : readEntries fields path _ _ _ = _ :=
    read_entries_of_fields has sets distinct commute initial
  rw [readRecord, follow_flow, pure_bind, Flow.node]
  dsimp only
  rw [read, pure_bind]
  rfl

end

end ManifestLint.Yaml
