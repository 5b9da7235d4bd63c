import ManifestLint.Yaml.Node
import Mathlib.Data.List.Basic

/-!
Trees without their anchors. The numbers of anchors depend on all that stands before them, so trees
are compared without them where no alias asks for them.
-/

namespace ManifestLint.Yaml.Node

mutual

def unanchored : Node → Node
  | .alias number => .alias number
  | .broken => .broken
  | .scalar label style text => .scalar ⟨none, label.tag⟩ style text
  | .sequence label items closed => .sequence ⟨none, label.tag⟩ (unanchoredItems items) closed
  | .mapping label entries closed => .mapping ⟨none, label.tag⟩ (unanchoredEntries entries) closed

def unanchoredItems : List Node → List Node
  | [] => []
  | node :: nodes => unanchored node :: unanchoredItems nodes

def unanchoredEntries : List (Node × Node) → List (Node × Node)
  | [] => []
  | (key, value) :: entries => (unanchored key, unanchored value) :: unanchoredEntries entries

end

mutual

def isAliasFree : Node → Bool
  | .alias _ => false
  | .broken => true
  | .scalar _ _ _ => true
  | .sequence _ items _ => itemsAliasFree items
  | .mapping _ entries _ => entriesAliasFree entries

def itemsAliasFree : List Node → Bool
  | [] => true
  | node :: nodes => isAliasFree node && itemsAliasFree nodes

def entriesAliasFree : List (Node × Node) → Bool
  | [] => true
  | (key, value) :: entries => isAliasFree key && isAliasFree value && entriesAliasFree entries

end

def unanchoredEntry (entry : Node × Node) : Node × Node := (entry.1.unanchored, entry.2.unanchored)

@[simp] theorem unanchored_items_eq (items : List Node) :
    unanchoredItems items = items.map unanchored := by
  induction items with
  | nil => rfl
  | cons item items induction => rw [unanchoredItems, List.map_cons, induction]

@[simp] theorem unanchored_entries_eq (entries : List (Node × Node)) :
    unanchoredEntries entries = entries.map unanchoredEntry := by
  induction entries with
  | nil => rfl
  | cons entry entries induction =>
      rw [unanchoredEntries, List.map_cons, induction]
      rfl

@[simp, grind =] theorem items_alias_free_eq_all (items : List Node) :
    itemsAliasFree items = items.all isAliasFree := by
  induction items with
  | nil => rfl
  | cons item items induction => simp [itemsAliasFree, induction]

@[simp, grind =] theorem entries_alias_free_eq_all (entries : List (Node × Node)) :
    entriesAliasFree entries = entries.all fun entry => entry.1.isAliasFree &&
      entry.2.isAliasFree := by
  induction entries with
  | nil => rfl
  | cons entry entries induction => simp [entriesAliasFree, induction]

theorem items_alias_free_iff (items : List Node) :
    itemsAliasFree items = true ↔ ∀ item ∈ items, item.isAliasFree = true := by
  simp

theorem entries_alias_free_iff (entries : List (Node × Node)) :
    entriesAliasFree entries = true ↔
      ∀ entry ∈ entries, entry.1.isAliasFree = true ∧ entry.2.isAliasFree = true := by
  simp

/-- Induction over the parts of nodes. -/
@[elab_as_elim]
theorem holds_of_parts {Property : Node → Prop} (jump : ∀ number, Property (.alias number))
    (broken : Property .broken) (scalar : ∀ label style text, Property (.scalar label style text))
    (sequence : ∀ label items closed, (∀ item ∈ items, Property item) →
      Property (.sequence label items closed))
    (mapping : ∀ label entries closed, (∀ entry ∈ entries, Property entry.1 ∧ Property entry.2) →
      Property (.mapping label entries closed)) (node : Node) : Property node := by
  match node with
  | .alias number => exact jump number
  | .broken => exact broken
  | .scalar label style text => exact scalar label style text
  | .sequence label items closed =>
      exact sequence label items closed fun item member =>
        holds_of_parts jump broken scalar sequence mapping item
  | .mapping label entries closed =>
      exact mapping label entries closed fun (key, value) member =>
        ⟨holds_of_parts jump broken scalar sequence mapping key,
          holds_of_parts jump broken scalar sequence mapping value⟩
termination_by node
decreasing_by
  all_goals have smaller := List.sizeOf_lt_of_mem member
  · simp only [Node.sequence.sizeOf_spec]
    omega
  · simp only [Node.mapping.sizeOf_spec, Prod.mk.sizeOf_spec] at smaller ⊢
    omega
  · simp only [Node.mapping.sizeOf_spec, Prod.mk.sizeOf_spec] at smaller ⊢
    omega

theorem unanchored_twice (node : Node) : node.unanchored.unanchored = node.unanchored := by
  induction node using holds_of_parts with
  | jump | broken | scalar => rfl
  | sequence label items closed parts => simp +contextual [unanchored, parts]
  | mapping label entries closed parts =>
      simp +contextual [unanchored, unanchoredEntry, parts]

theorem is_alias_free_unanchored (node : Node) :
    node.unanchored.isAliasFree = node.isAliasFree := by
  induction node using holds_of_parts with
  | jump | broken | scalar => rfl
  | sequence label items closed parts =>
      rw [Bool.eq_iff_iff]
      simp +contextual [unanchored, isAliasFree, parts]
  | mapping label entries closed parts =>
      rw [Bool.eq_iff_iff]
      simp +contextual [unanchored, isAliasFree, unanchoredEntry, parts]

/-- A node with neither anchors nor aliases in it. -/
def IsBare (node : Node) : Prop := node.unanchored = node ∧ node.isAliasFree = true

theorem is_bare_unanchored {node : Node} (free : node.isAliasFree = true) :
    node.unanchored.IsBare :=
  ⟨unanchored_twice node, is_alias_free_unanchored node ▸ free⟩

section
variable {label : Label} {closed : Bool}

theorem IsBare.of_items {items : List Node} (bare : (sequence label items closed).IsBare) :
    ∀ item ∈ items, item.IsBare := by
  obtain ⟨same, free⟩ := bare
  rw [unanchored, unanchored_items_eq, sequence.injEq] at same
  rw [isAliasFree, items_alias_free_iff] at free
  have parts := List.map_inj_left.1 (same.2.1.trans (List.map_id items).symm)
  exact fun item member => ⟨parts item member, free item member⟩

theorem IsBare.of_entries {entries : List (Node × Node)}
    (bare : (mapping label entries closed).IsBare) :
    ∀ entry ∈ entries, entry.1.IsBare ∧ entry.2.IsBare := by
  obtain ⟨same, free⟩ := bare
  rw [unanchored, unanchored_entries_eq, mapping.injEq] at same
  rw [isAliasFree, entries_alias_free_iff] at free
  have parts := List.map_inj_left.1 (same.2.1.trans (List.map_id entries).symm)
  intro entry member
  obtain ⟨key, value⟩ := Prod.mk.inj (parts entry member)
  exact ⟨⟨key, (free entry member).1⟩, value, (free entry member).2⟩

end

section
variable {number : Nat}

theorem owner_among_append (items others : List Node) :
    ownerAmong? number (items ++ others) =
      (ownerAmong? number others).or (ownerAmong? number items) := by
  induction items with
  | nil => rw [List.nil_append, ownerAmong?, Option.or_none]
  | cons item items induction =>
      rw [List.cons_append, ownerAmong?, ownerAmong?, induction, Option.or_assoc]

theorem owner_inside_append (entries others : List (Node × Node)) :
    ownerInside? number (entries ++ others) =
      (ownerInside? number others).or (ownerInside? number entries) := by
  induction entries with
  | nil => rw [List.nil_append, ownerInside?, Option.or_none]
  | cons entry entries induction =>
      rw [List.cons_append, ownerInside?, ownerInside?, induction, Option.or_assoc]

theorem owner_unanchored (number : Nat) (node : Node) :
    node.unanchored.owner? number = none := by
  induction node using holds_of_parts with
  | jump | broken | scalar => rfl
  | sequence label items closed parts =>
      have among : ownerAmong? number (unanchoredItems items) = none := by
        induction items with
        | nil => rfl
        | cons item items induction =>
            rw [List.forall_mem_cons] at parts
            rw [unanchoredItems, ownerAmong?, induction parts.2, parts.1, Option.or_none]
      rw [unanchored, owner?, among]
      rfl
  | mapping label entries closed parts =>
      have inside : ownerInside? number (unanchoredEntries entries) = none := by
        induction entries with
        | nil => rfl
        | cons entry entries induction =>
            rw [List.forall_mem_cons] at parts
            rw [unanchoredEntries, ownerInside?, induction parts.2, parts.1.1, parts.1.2]
            rfl
      rw [unanchored, owner?, inside]
      rfl

theorem IsBare.owner {node : Node} (bare : node.IsBare) (number : Nat) :
    node.owner? number = none := by
  rw [← bare.1]
  exact owner_unanchored number node

end

end ManifestLint.Yaml.Node
