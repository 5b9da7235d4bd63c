import ManifestLint.Yaml.Document

/-!
How many events a tree is made of. The number of aliases that may be followed depends on it.
-/

namespace ManifestLint.Yaml

namespace Node

mutual

/-- A collection has an event for its start and one for its end, if that was reached. -/
def eventCount : Node → Nat
  | .alias _ => 1
  | .broken => 0
  | .scalar _ _ _ => 1
  | .sequence _ items closed => itemsEventCount items + (1 + closed.toNat)
  | .mapping _ entries closed => entriesEventCount entries + (1 + closed.toNat)

def itemsEventCount : List Node → Nat
  | [] => 0
  | node :: nodes => eventCount node + itemsEventCount nodes

def entriesEventCount : List (Node × Node) → Nat
  | [] => 0
  | (key, value) :: entries => eventCount key + eventCount value + entriesEventCount entries

end

@[simp] theorem items_event_count_append (items others : List Node) :
    itemsEventCount (items ++ others) = itemsEventCount items + itemsEventCount others := by
  induction items with
  | nil => simp [itemsEventCount]
  | cons item items induction => simp [itemsEventCount, induction, Nat.add_assoc]

@[simp] theorem entries_event_count_append (entries others : List (Node × Node)) :
    entriesEventCount (entries ++ others) =
      entriesEventCount entries + entriesEventCount others := by
  induction entries with
  | nil => simp [entriesEventCount]
  | cons entry entries induction => simp [entriesEventCount, induction, Nat.add_assoc]

@[simp] theorem items_event_count_reverse (items : List Node) :
    itemsEventCount items.reverse = itemsEventCount items := by
  induction items with
  | nil => rfl
  | cons item items induction => simp [itemsEventCount, induction, Nat.add_comm]

@[simp] theorem entries_event_count_reverse (entries : List (Node × Node)) :
    entriesEventCount entries.reverse = entriesEventCount entries := by
  induction entries with
  | nil => rfl
  | cons entry entries induction => simp [entriesEventCount, induction, Nat.add_comm]

def Frame.eventCount : Frame → Nat
  | .sequence _ items => itemsEventCount items + 1
  | .mapping _ entries key => entriesEventCount entries + key.elim 0 Node.eventCount + 1

def framesEventCount : List Frame → Nat
  | [] => 0
  | frame :: frames => frame.eventCount + framesEventCount frames

theorem event_count_of_add (node : Node) (frame : Frame) :
    (frame.add node).eventCount = frame.eventCount + node.eventCount := by
  cases frame with
  | sequence label items =>
      simp only [Frame.add, Frame.eventCount, itemsEventCount]
      omega
  | mapping label entries key =>
      cases key <;> simp only [Frame.add, Frame.eventCount, entriesEventCount, Option.elim] <;>
        omega

theorem event_count_of_close (closed : Bool) (frame : Frame) :
    (frame.close closed).eventCount = frame.eventCount + closed.toNat := by
  cases frame with
  | sequence label items =>
      simp only [Frame.close, Frame.eventCount, Node.eventCount, items_event_count_reverse]
      omega
  | mapping label entries key =>
      cases key <;> simp only [Frame.close, Frame.eventCount, Node.eventCount, entriesEventCount,
        entries_event_count_reverse, Option.elim] <;> omega

theorem event_count_of_break_off (last : Option Node) (frames : List Frame) :
    (breakOff last frames).eventCount = last.elim 0 eventCount + framesEventCount frames := by
  induction frames generalizing last with
  | nil => cases last <;> rfl
  | cons frame frames induction =>
      rw [breakOff, induction, Option.elim, event_count_of_close, Bool.toNat_false,
        framesEventCount]
      cases last with
      | none => simp only [Option.elim]; omega
      | some node => simp only [Option.elim, event_count_of_add]; omega

/-- The events of a grown tree are those of the frames around and those that belong to it. -/
theorem event_count_of_grow (anchors : Anchors) (frames : List Frame) (events : List Event) :
    (grow anchors frames events).1.eventCount =
      framesEventCount frames + (grow anchors frames events).2 := by
  induction events generalizing anchors frames with
  | nil =>
      simp only [grow, event_count_of_break_off, Option.elim]
      omega
  | cons event events induction =>
      cases event with
      | «alias» name =>
          simp only [grow]
          split
          · simp only [event_count_of_break_off, Option.elim]
            omega
          · rfl
          · simp only [induction, event_count_of_add, eventCount, framesEventCount]
            omega
      | scalar properties style text =>
          cases frames with
          | nil => rfl
          | cons frame frames =>
              simp only [grow, induction, event_count_of_add, eventCount, framesEventCount]
              omega
      | sequenceStart properties =>
          simp only [grow, induction, Frame.eventCount, itemsEventCount, framesEventCount]
          omega
      | mappingStart properties =>
          simp only [grow, induction, Frame.eventCount, entriesEventCount, Option.elim,
            framesEventCount]
          omega
      | sequenceEnd | mappingEnd =>
          match frames with
          | [] => rfl
          | [frame] => exact event_count_of_close true frame
          | inner :: outer :: frames =>
              simp only [grow, induction, event_count_of_add, event_count_of_close,
                Bool.toNat_true, framesEventCount]
              omega

end Node

theorem Document.event_count_of_root (text : String) :
    (Document.ofText text).root.eventCount = (Document.ofText text).eventCount := by
  rw [Document.ofText, Document.ofEvents]
  split
  · rfl
  · exact (Node.event_count_of_grow .empty [] _).trans (Nat.zero_add _)

end ManifestLint.Yaml
