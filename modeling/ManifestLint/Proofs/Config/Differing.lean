import ManifestLint.Proofs.Config.Padding
import ManifestLint.Proofs.Yaml.EventCount

/-!
Trees that differ in one place. They are padded when what is at this place is, and what an alias
stands for in them is padded as well.
-/

namespace ManifestLint

open Yaml

/-- Trees that differ in one place, by a change of what has a role there. -/
inductive Differ (Change : Role → Node → Node → Node → Prop) :
    Role → Node → Node → Node → Prop where
  | here {role : Role} {whole first second : Node} (change : Change role whole first second) :
      Differ Change role whole first second
  | value {role : Role} {label : Label} {before after : List (Node × Node)} {closed : Bool}
      {key whole first second : Node}
        (inside : Differ Change (role.valueOf key) whole first second) :
      Differ Change role (.mapping label (before ++ (key, whole) :: after) closed)
        (.mapping label (before ++ (key, first) :: after) closed)
        (.mapping label (before ++ (key, second) :: after) closed)
  | key {role : Role} {label : Label} {before after : List (Node × Node)} {closed : Bool}
      {value whole first second : Node} (inside : Differ Change .free whole first second) :
      Differ Change role (.mapping label (before ++ (whole, value) :: after) closed)
        (.mapping label (before ++ (first, value) :: after) closed)
        (.mapping label (before ++ (second, value) :: after) closed)
  | item {role : Role} {label : Label} {before after : List Node} {closed : Bool}
      {whole first second : Node}
      (inside : Differ Change role.item whole first second) :
      Differ Change role (.sequence label (before ++ whole :: after) closed)
        (.sequence label (before ++ first :: after) closed)
          (.sequence label (before ++ second :: after) closed)

section
variable {Change Other : Role → Node → Node → Node → Prop} {role : Role}
  {whole first second : Node}

theorem Differ.imp (differ : Differ Change role whole first second)
    (changed : ∀ ⦃role whole first second⦄, Change role whole first second →
      Other role whole first second) :
    Differ Other role whole first second := by
  induction differ with
  | here change => exact .here (changed change)
  | value _ induction => exact .value induction
  | key _ induction => exact .key induction
  | item _ induction => exact .item induction

/-- What has neither anchors nor aliases has none in the place of the change. -/
theorem Differ.with_bare (differ : Differ Change role whole first second) (bare : whole.IsBare) :
    Differ (fun role whole first second => Change role whole first second ∧ whole.IsBare) role whole
      first second := by
  induction differ with
  | here change => exact .here ⟨change, bare⟩
  | value _ induction =>
      have row := bare.of_entries _ (List.mem_append_right _ List.mem_cons_self)
      exact .value (induction row.2)
  | key _ induction =>
      have row := bare.of_entries _ (List.mem_append_right _ List.mem_cons_self)
      exact .key (induction row.1)
  | item _ induction =>
      exact .item (induction (bare.of_items _ (List.mem_append_right _ List.mem_cons_self)))

end

section
variable {root : Node} {keys : List String} {role : Role}

def Row.same (entry : Node × Node) : Row := .shared entry entry entry

@[simp] theorem whole_comp_same : Row.whole ∘ Row.same = id := rfl

@[simp] theorem first_same (entry : Node × Node) : (Row.same entry).first = some entry := rfl

@[simp] theorem first_comp_same : Row.first ∘ Row.same = some := rfl

@[simp] theorem second_comp_same : Row.second ∘ Row.same = id := rfl

theorem RowsAlike.of_append {before after : List Row} (early : RowsAlike root keys role before)
    (late : RowsAlike root keys role after) : RowsAlike root keys role (before ++ after) := by
  refine ⟨fun entry member => ?_, fun _ _ _ member => ?_, fun _ _ _ member => ?_⟩
  · rcases List.mem_append.1 member with held | held
    · exact early.free entry held
    · exact late.free entry held
  · rcases List.mem_append.1 member with held | held
    · exact early.keysLike _ _ _ held
    · exact late.keysLike _ _ _ held
  · rcases List.mem_append.1 member with held | held
    · exact early.valuesLike _ _ _ held
    · exact late.valuesLike _ _ _ held

theorem RowsAlike.of_shared {whole first second : Node × Node}
    (keyLike : Padded root keys .free whole.1 first.1 second.1)
    (valueLike : Padded root keys (role.valueOf whole.1) whole.2 first.2 second.2) :
    RowsAlike root keys role [.shared whole first second] := by
  refine ⟨fun entry member => ?_, fun _ _ _ member => ?_, fun _ _ _ member => ?_⟩
  · cases List.mem_singleton.1 member
  · cases List.mem_singleton.1 member
    exact keyLike
  · cases List.mem_singleton.1 member
    exact valueLike

theorem RowsAlike.of_alone {entry : Node × Node}
    (free : entry.1.isAliasFree = true ∧ entry.2.isAliasFree = true) :
    RowsAlike root keys role [.alone entry] := by
  refine ⟨fun entry member => ?_, fun _ _ _ member => ?_, fun _ _ _ member => ?_⟩
  · cases List.mem_singleton.1 member
    exact free
  · cases List.mem_singleton.1 member
  · cases List.mem_singleton.1 member

theorem RowsAlike.of_same {entries : List (Node × Node)}
    (like : ∀ entry ∈ entries, Padded root keys .free entry.1 entry.1 entry.1 ∧
      Padded root keys (role.valueOf entry.1) entry.2 entry.2 entry.2) :
    RowsAlike root keys role (entries.map Row.same) := by
  refine ⟨fun entry member => ?_, fun _ _ _ member => ?_, fun _ _ _ member => ?_⟩
  · obtain ⟨_, _, same⟩ := List.mem_map.1 member
    cases same
  · obtain ⟨_, held, same⟩ := List.mem_map.1 member
    cases same
    exact (like _ held).1
  · obtain ⟨_, held, same⟩ := List.mem_map.1 member
    cases same
    exact (like _ held).2

section
variable {label : Label} {closed : Bool}

theorem padded_of_rows {rows : List Row} (alike : RowsAlike root keys role rows)
    {wholes firsts seconds : List (Node × Node)} (whole : rows.map Row.whole = wholes)
    (first : rows.filterMap Row.first = firsts) (second : rows.map Row.second = seconds) :
    Padded root keys role (.mapping label wholes closed) (.mapping label firsts closed)
      (.mapping label seconds closed) := by
  subst whole first second
  exact .mapping rows alike.free alike.keysLike alike.valuesLike

theorem padded_of_spare {before after : List Row} {entry : Node × Node}
    (others : List (Node × Node)) {name : String}
    (alike : RowsAlike root keys role (before ++ after))
    (member : entry ∈ before.filterMap Row.first ++ (others ++ after.filterMap Row.first))
    (valueFree : entry.2.isAliasFree = true) (text : IsTextKey entry.1 name)
    {wholes firsts seconds : List (Node × Node)}
    (spare : IsSpare root keys role (before.map Row.whole) wholes name)
    (whole : before.map Row.whole ++ entry :: after.map Row.whole = wholes)
    (first : before.filterMap Row.first ++ (others ++ after.filterMap Row.first) = firsts)
    (second : before.map Row.second ++ after.map Row.second = seconds) :
    Padded root keys role (.mapping label wholes closed) (.mapping label firsts closed)
      (.mapping label seconds closed) := by
  subst whole first second
  exact .spare before after entry others alike.free alike.keysLike alike.valuesLike member
    valueFree text spare

theorem padded_of_items {items : List (Triple Node)}
    (like : ∀ item ∈ items, Padded root keys role.item item.whole item.first item.second)
    {wholes firsts seconds : List Node} (whole : items.map (·.whole) = wholes)
    (first : items.map (·.first) = firsts) (second : items.map (·.second) = seconds) :
    Padded root keys role (.sequence label wholes closed) (.sequence label firsts closed)
      (.sequence label seconds closed) := by
  subst whole first second
  exact .sequence items like

end

def Triple.same (item : Node) : Triple Node := ⟨item, item, item⟩

@[simp] theorem triple_whole_comp_same : Triple.whole ∘ Triple.same = id := rfl

@[simp] theorem triple_first_comp_same : Triple.first ∘ Triple.same = id := rfl

@[simp] theorem triple_second_comp_same : Triple.second ∘ Triple.same = id := rfl

/-- A tree is padded with nothing. -/
theorem Padded.refl (root : Node) (keys : List String) (role : Role) (node : Node) :
    Padded root keys role node node node := by
  induction node using Node.holds_of_parts generalizing role with
  | jump number => exact .jump
  | broken => exact .broken
  | scalar label style text => exact .scalar
  | sequence label items closed parts =>
      have alike : ∀ triple ∈ items.map Triple.same,
          Padded root keys role.item triple.whole triple.first triple.second :=
        List.forall_mem_map.2 fun item member => parts item member _
      exact padded_of_items alike (by simp) (by simp) (by simp)
  | mapping label entries closed parts =>
      have alike : RowsAlike root keys role (entries.map Row.same) :=
        .of_same fun entry member => ⟨(parts entry member).1 _, (parts entry member).2 _⟩
      exact padded_of_rows alike (by simp) (by simp) (by simp)

theorem RowsAlike.refl (entries : List (Node × Node)) :
    RowsAlike root keys role (entries.map Row.same) :=
  .of_same fun entry _ => ⟨.refl root keys .free entry.1, .refl root keys _ entry.2⟩

/-- What an anchor belongs to in three trees. -/
inductive OwnersAlike (root : Node) (keys : List String) :
    Option Node → Option Node → Option Node → Prop where
  | nobody : OwnersAlike root keys none none none
  | somebody {role : Role} {whole first second : Node}
      (padded : Padded root keys role whole first second) :
      OwnersAlike root keys (some whole) (some first) (some second)

namespace OwnersAlike

theorem refl (owner : Option Node) : OwnersAlike root keys owner owner owner := by
  cases owner with
  | none => exact .nobody
  | some node => exact .somebody (.refl root keys .free node)

theorem or {whole first second otherWhole otherFirst otherSecond : Option Node}
    (alike : OwnersAlike root keys whole first second)
    (other : OwnersAlike root keys otherWhole otherFirst otherSecond) :
    OwnersAlike root keys (whole.or otherWhole) (first.or otherFirst)
      (second.or otherSecond) := by
  cases alike with
  | nobody => exact other
  | somebody padded => exact .somebody padded

theorem of_itself {whole first second : Node} (padded : Padded root keys role whole first second)
    (anchored : Prop) [Decidable anchored] :
    OwnersAlike root keys (if anchored then some whole else none)
      (if anchored then some first else none) (if anchored then some second else none) := by
  by_cases holds : anchored
  · rw [if_pos holds, if_pos holds, if_pos holds]
    exact .somebody padded
  · rw [if_neg holds, if_neg holds, if_neg holds]
    exact .nobody

end OwnersAlike

theorem linked_of_owners {trees : Triple Node} (repeated : keys ≠ [])
    (owners : ∀ number, OwnersAlike trees.whole keys (trees.whole.owner? number)
      (trees.first.owner? number) (trees.second.owner? number)) :
    Linked trees keys := by
  intro number first second firstOwner secondOwner
  have alike := owners number
  rw [firstOwner, secondOwner] at alike
  refine ⟨repeated, ?_⟩
  cases whole : trees.whole.owner? number with
  | none =>
      rw [whole] at alike
      cases alike
  | some whole =>
      rw [whole] at alike
      cases alike with
      | somebody padded => exact ⟨_, _, rfl, padded⟩

theorem linked_of_bare {trees : Triple Node} (bare : trees.first.IsBare) : Linked trees keys := by
  intro number first second firstOwner
  rw [bare.owner] at firstOwner
  cases firstOwner

/-- Trees that are padded, with their anchors at what is padded. The second one is the shorter. -/
structure Matched (root : Node) (keys : List String) (role : Role) (whole first second : Node) :
    Prop where
  padded : Padded root keys role whole first second
  owners : ∀ number, OwnersAlike root keys (whole.owner? number) (first.owner? number)
    (second.owner? number)
  count : second.eventCount ≤ whole.eventCount

section
variable {label : Label} {closed : Bool} {whole first second : Node}

theorem matched_of_row {before after : List (Node × Node)} {row one other : Node × Node}
    (keyMatched : Matched root keys .free row.1 one.1 other.1)
    (valueMatched : Matched root keys (role.valueOf row.1) row.2 one.2 other.2) :
    Matched root keys role (.mapping label (before ++ row :: after) closed)
      (.mapping label (before ++ one :: after) closed)
      (.mapping label (before ++ other :: after) closed) := by
  have alike : RowsAlike root keys role
      (before.map Row.same ++ ([.shared row one other] ++ after.map Row.same)) :=
    (RowsAlike.refl before).of_append
      ((RowsAlike.of_shared keyMatched.padded valueMatched.padded).of_append (.refl after))
  have padded : Padded root keys role (.mapping label (before ++ row :: after) closed)
      (.mapping label (before ++ one :: after) closed)
      (.mapping label (before ++ other :: after) closed) :=
    padded_of_rows alike (by simp [Row.whole]) (by simp [Row.first]) (by simp [Row.second])
  refine ⟨padded, fun number => ?_, ?_⟩
  · simp only [Node.owner?, Node.owner_inside_append, Node.ownerInside?]
    refine .or (.or (.or (.refl _) (.or ?_ ?_)) (.refl _)) (.of_itself padded _)
    · exact valueMatched.owners number
    · exact keyMatched.owners number
  · have keyCount := keyMatched.count
    have valueCount := valueMatched.count
    simp only [Node.eventCount, Node.entries_event_count_append, Node.entriesEventCount]
    omega

theorem matched_of_item {before after : List Node} {item one other : Node}
    (itemMatched : Matched root keys role.item item one other) :
    Matched root keys role (.sequence label (before ++ item :: after) closed)
      (.sequence label (before ++ one :: after) closed)
      (.sequence label (before ++ other :: after) closed) := by
  have alike : ∀ triple ∈ before.map Triple.same ++ ⟨item, one, other⟩ :: after.map Triple.same,
      Padded root keys role.item triple.whole triple.first triple.second := by
    rw [List.forall_mem_append, List.forall_mem_cons, List.forall_mem_map, List.forall_mem_map]
    exact ⟨fun part _ => .refl root keys _ part, itemMatched.padded,
      fun part _ => .refl root keys _ part⟩
  have padded : Padded root keys role (.sequence label (before ++ item :: after) closed)
      (.sequence label (before ++ one :: after) closed)
      (.sequence label (before ++ other :: after) closed) :=
    padded_of_items alike (by simp) (by simp) (by simp)
  refine ⟨padded, fun number => ?_, ?_⟩
  · simp only [Node.owner?, Node.owner_among_append, Node.ownerAmong?]
    exact .or (.or (.or (.refl _) (itemMatched.owners number)) (.refl _)) (.of_itself padded _)
  · have count := itemMatched.count
    simp only [Node.eventCount, Node.items_event_count_append, Node.itemsEventCount]
    omega

theorem Matched.refl (node : Node) : Matched root keys role node node node :=
  ⟨.refl root keys role node, fun _ => .refl _, Nat.le_refl _⟩

/-- Trees that differ in one place are matched if what is at this place is. -/
theorem matched_of_differ (differ : Differ (Matched root keys) role whole first second) :
    Matched root keys role whole first second := by
  induction differ with
  | here change => exact change
  | value _ induction => exact matched_of_row (.refl _) induction
  | key _ induction => exact matched_of_row induction (.refl _)
  | item _ induction => exact matched_of_item induction

end

end

end ManifestLint
