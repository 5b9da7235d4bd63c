import ManifestLint.Proofs.Faults
import ManifestLint.Yaml.Reading

/-!
What a reading that succeeds has read: every step of it, each from some number of aliases that were
left. A record is read as a fold over its entries, which keeps the names it has seen.
-/

namespace ManifestLint.Yaml

/-- A reading within a tree can end in a value, if enough aliases may be followed. -/
def Gives {Value : Type} (root : Node) (reading : Reading Value) (value : Value) : Prop :=
  ∃ left after, (reading.run root).run left = .ok (value, after)

/-- A node with a text for what it says, itself or as an alias of such a node. -/
def Spells (root : Node) : Node → String → Prop
  | .scalar _ _ written, text => written = text
  | .alias number, text => ∃ label style, root.owner? number = some (.scalar label style text)
  | _, _ => False

section
variable {Value Result : Type} {root : Node}

theorem run_bind (reading : Reading Value) (next : Value → Reading Result) (root : Node)
    (left : Nat) :
    ((reading >>= next).run root).run left =
      (reading.run root).run left >>= fun (value, after) => ((next value).run root).run after := rfl

theorem Gives.of_bind {reading : Reading Value} {next : Value → Reading Result} {result : Result}
    (gives : Gives root (reading >>= next) result) :
    ∃ value, Gives root reading value ∧ Gives root (next value) result := by
  obtain ⟨left, after, run⟩ := gives
  rw [run_bind, bind_eq_ok_iff] at run
  obtain ⟨⟨value, between⟩, first, second⟩ := run
  exact ⟨value, ⟨left, between, first⟩, between, after, second⟩

theorem gives_pure_iff {value result : Value} :
    Gives root (pure value) result ↔ value = result := by
  constructor
  · rintro ⟨left, after, run⟩
    exact congrArg Prod.fst (Except.ok.inj run)
  · rintro rfl
    exact ⟨0, 0, rfl⟩

theorem not_gives_throw {fault : ReadFault} {value : Value} : ¬ Gives root (throw fault) value := by
  rintro ⟨left, after, run⟩
  cases run

theorem not_gives_fail {path : Path} {issue : Issue} {value : Value} :
    ¬ Gives root (fail path issue) value :=
  not_gives_throw

theorem not_gives_unreadable {value : Value} : ¬ Gives root unreadable value := not_gives_throw

theorem Gives.of_map {reading : Reading Value} {change : Value → Result} {result : Result}
    (gives : Gives root (reading >>= fun value => pure (change value)) result) :
    ∃ value, Gives root reading value ∧ change value = result := by
  obtain ⟨value, read, changed⟩ := gives.of_bind
  exact ⟨value, read, gives_pure_iff.1 changed⟩

theorem run_follow_alias {number : Nat} {node : Node} (owner : root.owner? number = some node)
    (left : Nat) : ((follow (.alias number)).run root).run (left + 1) = .ok (node, left) := by
  rw [follow, run_bind, bind_eq_ok_iff]
  refine ⟨(left + 1, left + 1), rfl, ?_⟩
  dsimp only
  rw [run_bind, bind_eq_ok_iff]
  refine ⟨(.unit, left), rfl, ?_⟩
  dsimp only
  rw [run_bind, bind_eq_ok_iff]
  refine ⟨(root, left), rfl, ?_⟩
  dsimp only
  rw [owner]
  rfl

theorem gives_follow_alias {number : Nat} {node : Node}
    (gives : Gives root (follow (.alias number)) node) :
    root.owner? number = some node := by
  rw [follow] at gives
  obtain ⟨left, _, gives⟩ := gives.of_bind
  cases left with
  | zero => exact absurd gives not_gives_unreadable
  | succ left =>
      obtain ⟨_, _, gives⟩ := gives.of_bind
      obtain ⟨tree, ⟨_, _, run⟩, gives⟩ := gives.of_bind
      have same : root = tree := congrArg Prod.fst (Except.ok.inj run)
      subst same
      cases found : root.owner? number with
      | none =>
          rw [found] at gives
          exact absurd gives not_gives_unreadable
      | some target =>
          rw [found] at gives
          exact congrArg some (gives_pure_iff.1 gives)

mutual

/-- What an anchor stands for is no alias. -/
theorem follow_owner (number : Nat) :
    ∀ (node : Node) {target : Node} (_ : node.owner? number = some target),
    follow target = pure target
  | .alias _, _, found => nomatch found
  | .broken, _, found => nomatch found
  | .scalar label style text, target, found => by
      rw [Node.owner?] at found
      split at found
      · cases found
        rfl
      · cases found
  | .sequence label items closed, target, found => by
      rw [Node.owner?, Option.or_eq_some_iff] at found
      rcases found with inside | ⟨_, itself⟩
      · exact follow_owner_among number items inside
      · split at itself
        · cases itself
          rfl
        · cases itself
  | .mapping label entries closed, target, found => by
      rw [Node.owner?, Option.or_eq_some_iff] at found
      rcases found with inside | ⟨_, itself⟩
      · exact follow_owner_inside number entries inside
      · split at itself
        · cases itself
          rfl
        · cases itself

theorem follow_owner_among (number : Nat) : ∀ (nodes : List Node) {target : Node}
    (_ : Node.ownerAmong? number nodes = some target), follow target = pure target
  | [], _, found => nomatch found
  | node :: nodes, target, found => by
      rw [Node.ownerAmong?, Option.or_eq_some_iff] at found
      rcases found with later | ⟨_, here⟩
      · exact follow_owner_among number nodes later
      · exact follow_owner number node here

theorem follow_owner_inside (number : Nat) : ∀ (entries : List (Node × Node)) {target : Node}
    (_ : Node.ownerInside? number entries = some target), follow target = pure target
  | [], _, found => nomatch found
  | (key, value) :: entries, target, found => by
      rw [Node.ownerInside?, Option.or_eq_some_iff, Option.or_eq_some_iff] at found
      rcases found with later | ⟨_, here | ⟨_, here⟩⟩
      · exact follow_owner_inside number entries later
      · exact follow_owner number value here
      · exact follow_owner number key here

end

/-- Whatever is read behind an alias is read behind the node it stands for. -/
theorem Gives.of_owner {number : Nat} {node : Node} {next : Node → Reading Value} {value : Value}
    (gives : Gives root (follow (.alias number) >>= next) value)
    (found : root.owner? number = some node) :
    Gives root (follow node >>= next) value := by
  obtain ⟨target, followed, read⟩ := gives.of_bind
  have same := gives_follow_alias followed
  rw [found, Option.some.injEq] at same
  subst same
  rw [follow_owner number root found]
  exact read

theorem scalar_of_spells {node target : Node} {text : String} (spells : Spells root node text)
    (gives : Gives root (follow node) target) :
    ∃ label style, target = .scalar label style text := by
  match node, spells with
  | .alias number, spells =>
      obtain ⟨label, style, found⟩ := spells
      have same := gives_follow_alias gives
      rw [found, Option.some.injEq] at same
      exact ⟨label, style, same.symm⟩
  | .scalar label style written, spells =>
      have same : written = text := spells
      rw [← same]
      exact ⟨label, style, (gives_pure_iff.1 gives).symm⟩

theorem text_of_spells {expected : String} {path : Path} {node : Node} {text result : String}
    (spells : Spells root node text) (gives : Gives root (readTextAs expected path node) result) :
    result = text := by
  rw [readTextAs] at gives
  obtain ⟨target, followed, read⟩ := gives.of_bind
  obtain ⟨label, style, rfl⟩ := scalar_of_spells spells followed
  exact (gives_pure_iff.1 read).symm

end

section
variable {Record : Type} {fields : List (FieldReader Record)} {path : Path} {root : Node}

def readEntry (fields : List (FieldReader Record)) (path : Path) (state : List String × Record)
    (entry : Node × Node) : Reading (List String × Record) := do
  let name ← readTextAs "field identifier" path entry.1
  match fields.find? (·.name == name) with
  | some field =>
      if state.1.contains name then fail path (.repeatedField name)
      else
        let record ← field.read (path.under entry.1) entry.2 state.2
        return (name :: state.1, record)
  | none => if entry.2.isWhole then return state else unreadable

theorem read_entries_eq_fold (seen : List String) (record : Record) (entries : List (Node × Node)) :
    readEntries fields path seen record entries =
      entries.foldlM (readEntry fields path) (seen, record) >>= fun state => pure state.2 := by
  induction entries generalizing seen record with
  | nil => rfl
  | cons entry entries induction =>
      obtain ⟨key, value⟩ := entry
      rw [readEntries, List.foldlM_cons, readEntry, bind_assoc, bind_assoc]
      refine bind_congr fun name => ?_
      cases fields.find? (·.name == name) with
      | none =>
          dsimp only
          cases value.isWhole
          · rfl
          · exact induction seen record
      | some field =>
          dsimp only
          cases seen.contains name
          · simp only [Bool.false_eq_true, if_false, bind_assoc, pure_bind]
            exact bind_congr fun updated => induction (name :: seen) updated
          · rfl

theorem Gives.of_record {title : String} {initial : Record} {label : Label}
    {entries : List (Node × Node)} {closed : Bool} {result : Record}
    (gives : Gives root (readRecord title fields initial path (.mapping label entries closed))
      result) :
    ∃ state, Gives root (entries.foldlM (readEntry fields path) ([], initial)) state := by
  rw [readRecord] at gives
  obtain ⟨target, followed, read⟩ := gives.of_bind
  obtain rfl := gives_pure_iff.1 followed
  obtain ⟨record, read, _⟩ := read.of_bind
  rw [read_entries_eq_fold] at read
  obtain ⟨state, read, _⟩ := read.of_bind
  exact ⟨state, read⟩

theorem gives_fold_append {Item State : Type} {step : State → Item → Reading State}
    {first second : List Item} {state final : State}
    (gives : Gives root ((first ++ second).foldlM step state) final) :
    ∃ between, Gives root (first.foldlM step state) between ∧
      Gives root (second.foldlM step between) final := by
  rw [List.foldlM_append] at gives
  exact gives.of_bind

theorem gives_fold_of_mem {Item State : Type} {step : State → Item → Reading State}
    {items : List Item} {item : Item} (member : item ∈ items) {state final : State}
    (gives : Gives root (items.foldlM step state) final) :
    ∃ before after, Gives root (step before item) after := by
  obtain ⟨earlier, later, rfl⟩ := List.append_of_mem member
  obtain ⟨before, _, read⟩ := gives_fold_append gives
  rw [List.foldlM_cons] at read
  obtain ⟨after, read, _⟩ := read.of_bind
  exact ⟨before, after, read⟩

section
variable {entry : Node × Node} {name : String} {field : FieldReader Record}

/-- An entry that names a field reads it, and no name like it was seen before. -/
theorem Gives.of_field {state after : List String × Record}
    (gives : Gives root (readEntry fields path state entry) after)
    (spells : Spells root entry.1 name) (found : fields.find? (·.name == name) = some field) :
    name ∉ state.1 ∧ after.1 = name :: state.1 ∧
      Gives root (field.read (path.under entry.1) entry.2 state.2) after.2 := by
  rw [readEntry] at gives
  obtain ⟨text, named, read⟩ := gives.of_bind
  obtain rfl := text_of_spells spells named
  rw [found] at read
  dsimp only at read
  by_cases seen : state.1.contains text = true
  · rw [if_pos seen] at read
    exact absurd read not_gives_fail
  · rw [if_neg seen] at read
    obtain ⟨record, value, same⟩ := read.of_map
    rw [← same]
    exact ⟨fun member => seen (List.contains_iff_mem.2 member), rfl, value⟩

theorem seen_of_entry {state after : List String × Record}
    (gives : Gives root (readEntry fields path state entry) after) : state.1 ⊆ after.1 := by
  rw [readEntry] at gives
  obtain ⟨text, _, read⟩ := gives.of_bind
  split at read
  · split at read
    · exact absurd read not_gives_fail
    · obtain ⟨record, _, rfl⟩ := read.of_map
      exact List.subset_cons_self _ _
  · split at read
    · rw [← gives_pure_iff.1 read]
      exact List.Subset.refl _
    · exact absurd read not_gives_unreadable

theorem seen_of_fold {entries : List (Node × Node)} {state final : List String × Record}
    (gives : Gives root (entries.foldlM (readEntry fields path) state) final) :
    state.1 ⊆ final.1 := by
  induction entries generalizing state with
  | nil =>
      rw [← gives_pure_iff.1 gives]
      exact List.Subset.refl _
  | cons entry entries induction =>
      rw [List.foldlM_cons] at gives
      obtain ⟨between, first, rest⟩ := gives.of_bind
      exact List.Subset.trans (seen_of_entry first) (induction rest)

theorem name_seen_of_fold {entries : List (Node × Node)} {state final : List String × Record}
    (gives : Gives root (entries.foldlM (readEntry fields path) state) final)
    (member : entry ∈ entries) (spells : Spells root entry.1 name)
    (found : fields.find? (·.name == name) = some field) : name ∈ final.1 := by
  obtain ⟨earlier, later, rfl⟩ := List.append_of_mem member
  obtain ⟨before, _, read⟩ := gives_fold_append gives
  rw [List.foldlM_cons] at read
  obtain ⟨after, here, rest⟩ := read.of_bind
  obtain ⟨_, added, _⟩ := here.of_field spells found
  apply seen_of_fold rest
  rw [added]
  exact List.mem_cons_self

end

/-- Two entries of a mapping, at any places in it, that have one name. -/
def HoldsTwice (root : Node) (entries : List (Node × Node)) (name : String) : Prop :=
  ∃ first second, [first, second].Sublist entries ∧ Spells root first.1 name ∧
    Spells root second.1 name

theorem not_gives_record_of_twice {title : String} {initial : Record} {label : Label}
    {entries : List (Node × Node)} {closed : Bool} {name : String} {field : FieldReader Record}
    (twice : HoldsTwice root entries name) (found : fields.find? (·.name == name) = some field)
    (result : Record) :
    ¬ Gives root (readRecord title fields initial path (.mapping label entries closed)) result := by
  intro gives
  obtain ⟨first, second, both, firstSpells, secondSpells⟩ := twice
  obtain ⟨before, behind, rfl, early, late⟩ := List.cons_sublist_iff.1 both
  obtain ⟨state, read⟩ := gives.of_record
  obtain ⟨between, readBefore, readBehind⟩ := gives_fold_append read
  obtain ⟨earlier, later, rfl⟩ := List.append_of_mem (List.singleton_sublist.1 late)
  obtain ⟨reached, readEarlier, readLater⟩ := gives_fold_append readBehind
  rw [List.foldlM_cons] at readLater
  obtain ⟨after, here, _⟩ := readLater.of_bind
  have seen := name_seen_of_fold readBefore early firstSpells found
  exact (here.of_field secondSpells found).1 (seen_of_fold readEarlier seen)

theorem Gives.field_of_record {title : String} {initial : Record} {label : Label}
    {entries : List (Node × Node)} {closed : Bool} {result : Record}
    (gives : Gives root (readRecord title fields initial path (.mapping label entries closed))
      result)
    {entry : Node × Node} (member : entry ∈ entries) {name : String}
    (spells : Spells root entry.1 name) {field : FieldReader Record}
    (found : fields.find? (·.name == name) = some field) :
    ∃ record updated, Gives root (field.read (path.under entry.1) entry.2 record) updated := by
  obtain ⟨state, read⟩ := gives.of_record
  obtain ⟨before, after, here⟩ := gives_fold_of_mem member read
  obtain ⟨_, _, read⟩ := here.of_field spells found
  exact ⟨before.2, after.2, read⟩

end

end ManifestLint.Yaml
