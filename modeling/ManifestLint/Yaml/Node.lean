import ManifestLint.Yaml.EventStream

/-!
Nodes of a document, as a tree. A text may break off inside a document, so a collection says whether
its end was reached, and a node that was expected and never came is broken.
-/

namespace ManifestLint.Yaml

structure Label where
  anchor : Option Nat
  tag : Option (List UInt8)
deriving DecidableEq, Repr

inductive Node where
  | alias (anchor : Nat)
  | scalar (label : Label) (style : Style) (text : String)
  | sequence (label : Label) (items : List Node) (closed : Bool)
  | mapping (label : Label) (entries : List (Node × Node)) (closed : Bool)
  | broken
deriving Repr

namespace Node

/-- A collection whose end was not reached yet: its items, the latest first. A mapping may wait for
the value of its latest key. -/
inductive Frame where
  | sequence (label : Label) (items : List Node)
  | mapping (label : Label) (entries : List (Node × Node)) (key : Option Node)
deriving Repr

def Frame.add (node : Node) : Frame → Frame
  | .sequence label items => .sequence label (node :: items)
  | .mapping label entries none => .mapping label entries (some node)
  | .mapping label entries (some key) => .mapping label ((key, node) :: entries) none

def Frame.close (closed : Bool) : Frame → Node
  | .sequence label items => .sequence label items.reverse closed
  | .mapping label entries none => .mapping label entries.reverse closed
  | .mapping label entries (some key) => .mapping label ((key, .broken) :: entries).reverse closed

/-- Breaks off inside the given collections, the innermost first, and before a last node or in it.
-/
def breakOff (last : Option Node) : List Frame → Node
  | [] => last.getD .broken
  | frame :: frames =>
      breakOff (some ((last.elim frame frame.add).close false)) frames

structure Anchors where
  numbers : List (List Char × Nat)
  count : Nat
deriving DecidableEq, Repr

namespace Anchors

def empty : Anchors := ⟨[], 0⟩

/-- A name stands for the number of names before it, and a repeated name stands anew for the number
of all names. -/
def add (anchors : Anchors) (name : List Char) : Anchors :=
  let known := anchors.numbers.any (·.1 == name)
  ⟨(name, anchors.count) :: anchors.numbers, if known then anchors.count else anchors.count + 1⟩

def label (anchors : Anchors) (properties : Properties) : Label × Anchors :=
  match properties.anchor with
  | some name => (⟨some anchors.count, properties.tag⟩, anchors.add name)
  | none => (⟨none, properties.tag⟩, anchors)

end Anchors

/-- The tree of some events that continue inside the given collections, and how many of the events
belong to it. An alias that names no anchor before it breaks the document off. -/
def grow (anchors : Anchors) (frames : List Frame) : List Event → Node × Nat
  | [] => (breakOff none frames, 0)
  | event :: events =>
      let count (grown : Node × Nat) : Node × Nat := (grown.1, grown.2 + 1)
      match event with
      | .alias name =>
          match anchors.numbers.lookup name, frames with
          | none, _ => (breakOff none frames, 0)
          | some number, [] => (.alias number, 1)
          | some number, frame :: frames =>
            count (grow anchors (frame.add (.alias number) :: frames) events)
      | .scalar properties style text =>
          let (label, anchors) := anchors.label properties
          match frames with
          | [] => (.scalar label style text, 1)
          | frame :: frames =>
            count (grow anchors (frame.add (.scalar label style text) :: frames) events)
      | .sequenceStart properties =>
          let (label, anchors) := anchors.label properties
          count (grow anchors (.sequence label [] :: frames) events)
      | .mappingStart properties =>
          let (label, anchors) := anchors.label properties
          count (grow anchors (.mapping label [] none :: frames) events)
      | .sequenceEnd | .mappingEnd =>
          match frames with
          | [] => (.broken, 0)
          | [frame] => (frame.close true, 1)
          | inner :: outer :: frames =>
            count (grow anchors (outer.add (inner.close true) :: frames) events)

mutual

/-- The node that an anchor's number belongs to: the last to begin of those that carry it. -/
def owner? (number : Nat) : Node → Option Node
  | .alias _ => none
  | .broken => none
  | .scalar label style text =>
      if label.anchor = some number then some (.scalar label style text) else none
  | .sequence label items closed =>
      (ownerAmong? number items).or
        (if label.anchor = some number then some (.sequence label items closed) else none)
  | .mapping label entries closed =>
      (ownerInside? number entries).or
        (if label.anchor = some number then some (.mapping label entries closed) else none)

def ownerAmong? (number : Nat) : List Node → Option Node
  | [] => none
  | node :: nodes => (ownerAmong? number nodes).or (owner? number node)

def ownerInside? (number : Nat) : List (Node × Node) → Option Node
  | [] => none
  | (key, value) :: entries =>
      (ownerInside? number entries).or ((owner? number value).or (owner? number key))

end

mutual

def isWhole : Node → Bool
  | .alias _ => true
  | .broken => false
  | .scalar _ _ _ => true
  | .sequence _ items closed => areWhole items && closed
  | .mapping _ entries closed => entriesWhole entries && closed

def areWhole : List Node → Bool
  | [] => true
  | node :: nodes => isWhole node && areWhole nodes

def entriesWhole : List (Node × Node) → Bool
  | [] => true
  | (key, value) :: entries => isWhole key && isWhole value && entriesWhole entries

end

end Node

end ManifestLint.Yaml
