import ManifestLint.Config.LayerEntry
import ManifestLint.Proofs.Yaml.Anchors
import ManifestLint.Proofs.Yaml.Success

/-!
Readings of trees without aliases. They look at nothing around, neither at the whole tree nor at how
many aliases may still be followed, and anchors do not count in them.
-/

namespace ManifestLint

open Yaml

/-- A reading that does not depend on what is around. -/
def Steady {Value : Type} (reading : Reading Value) : Prop :=
  (∃ value, reading = pure value) ∨ ∃ fault, reading = throw fault

section
variable {Value Result : Type} {root : Node}

theorem steady_pure (value : Value) : Steady (pure value : Reading Value) := .inl ⟨value, rfl⟩

theorem steady_fail (path : Path) (issue : Issue) : Steady (fail path issue : Reading Value) :=
  .inr ⟨_, rfl⟩

theorem steady_unreadable : Steady (unreadable : Reading Value) := .inr ⟨_, rfl⟩

theorem Steady.bind {reading : Reading Value} {next : Value → Reading Result}
    (steady : Steady reading) (goes : ∀ value, Steady (next value)) :
    Steady (reading >>= next) := by
  rcases steady with ⟨value, rfl⟩ | ⟨fault, rfl⟩
  · rw [pure_bind]
    exact goes value
  · exact .inr ⟨fault, rfl⟩

/-- A steady reading gives its value everywhere. -/
theorem Steady.eq_of_gives {reading : Reading Value} (steady : Steady reading) {value : Value}
    (gives : Gives root reading value) : reading = pure value := by
  rcases steady with ⟨other, rfl⟩ | ⟨fault, rfl⟩
  · rw [gives_pure_iff.1 gives]
  · exact absurd gives not_gives_throw

theorem steady_refuse (expected : String) (path : Path) (node : Node) :
    Steady (refuse expected path node : Reading Value) := by
  unfold refuse
  split
  · split
    · exact steady_fail _ _
    · exact steady_fail _ _
  · exact steady_fail _ _
  · exact steady_fail _ _
  · exact steady_unreadable
  · exact steady_unreadable

theorem not_gives_refuse {expected : String} {path : Path} {node : Node} {value : Value} :
    ¬ Gives root (refuse expected path node) value := by
  unfold refuse
  split
  · split
    · exact not_gives_fail
    · exact not_gives_fail
  · exact not_gives_fail
  · exact not_gives_fail
  · exact not_gives_unreadable
  · exact not_gives_unreadable

/-- A reading that does not depend on what is around, and another one that is the same. -/
structure Plain (reading other : Reading Value) : Prop where
  steady : Steady reading
  same : other = reading

namespace Plain

theorem of_steady {reading : Reading Value} (steady : Steady reading) : Plain reading reading :=
  ⟨steady, rfl⟩

section
variable {reading other : Reading Value}

theorem symm (plain : Plain reading other) : Plain other reading := by
  rw [plain.same]
  exact of_steady plain.steady

theorem run_of_gives (plain : Plain reading other) {value : Value}
    (gives : Gives root reading value) (around : Node) (left : Nat) :
    (other.run around).run left = .ok (value, left) := by
  rw [plain.same, plain.steady.eq_of_gives gives]
  rfl

theorem run_of_error (plain : Plain reading other) {fault : ReadFault} {left : Nat}
    (run : (reading.run root).run left = .error fault) (around : Node) (remaining : Nat) :
    (other.run around).run remaining = .error fault := by
  rw [plain.same]
  rcases plain.steady with ⟨value, rfl⟩ | ⟨thrown, rfl⟩
  · cases run
  · cases run
    rfl

end

theorem bind {reading other : Reading Value} {next otherNext : Value → Reading Result}
    (plain : Plain reading other) (goes : ∀ value, Plain (next value) (otherNext value)) :
    Plain (reading >>= next) (other >>= otherNext) := by
  refine ⟨plain.steady.bind fun value => (goes value).steady, ?_⟩
  rw [plain.same]
  exact bind_congr fun value => (goes value).same

theorem of_closed {reading other : Reading Value} (closed : Bool) (plain : Plain reading other) :
    Plain (if closed then reading else unreadable) (if closed then other else unreadable) := by
  cases closed with
  | true => exact plain
  | false => exact of_steady steady_unreadable

theorem of_refusal {refused : Prop} [Decidable refused] {reading other refusal : Reading Value}
    (steady : Steady refusal) (plain : Plain reading other) :
    Plain (if refused then refusal else reading) (if refused then refusal else other) := by
  by_cases holds : refused
  · rw [if_pos holds, if_pos holds]
    exact of_steady steady
  · rw [if_neg holds, if_neg holds]
    exact plain

end Plain

/-- What has no alias is read in the same way everywhere and whatever its anchors are. -/
def ReadsPlain (reader : Reader Value) : Prop :=
  ∀ ⦃node : Node⦄, node.isAliasFree = true → ∀ path : Path,
    Plain (reader path node) (reader path node.unanchored)

theorem reads_plain_text (expected : String) : ReadsPlain (readTextAs expected) := by
  intro node free path
  match node, free with
  | .broken, _ => exact .of_steady steady_unreadable
  | .scalar _ _ text, _ => exact .of_steady (steady_pure text)
  | .sequence _ _ _, _ => exact .of_steady (steady_fail _ _)
  | .mapping _ _ _, _ => exact .of_steady (steady_fail _ _)

theorem steady_boolean_of_scalar (path : Path) (label : Label) (style : Style) (text : String) :
    Steady (readBoolean path (.scalar label style text)) := by
  have followed : follow (.scalar label style text) = pure (.scalar label style text) := rfl
  rw [readBoolean, followed, pure_bind]
  dsimp only
  split
  · exact steady_pure _
  · exact steady_refuse _ _ _

theorem reads_plain_boolean : ReadsPlain readBoolean := by
  intro node free path
  match node, free with
  | .broken, _ => exact .of_steady steady_unreadable
  | .scalar label style text, _ => exact ⟨steady_boolean_of_scalar path label style text, rfl⟩
  | .sequence _ _ _, _ => exact .of_steady (steady_fail _ _)
  | .mapping _ _ _, _ => exact .of_steady (steady_fail _ _)

theorem reads_plain_items {reader : Reader Value} (plain : ReadsPlain reader) (path : Path)
    {items : List Node} (free : ∀ item ∈ items, item.isAliasFree = true) (index : Nat) :
    Plain (readItems reader path index items)
      (readItems reader path index (items.map Node.unanchored)) := by
  induction items generalizing index with
  | nil => exact .of_steady (steady_pure [])
  | cons item items induction =>
      rw [List.forall_mem_cons] at free
      refine (plain free.1 _).bind fun value => ?_
      exact (induction free.2 (index + 1)).bind fun values => .of_steady (steady_pure _)

theorem read_sequence_of_items (reader : Reader Value) (path : Path) (label : Label)
    (items : List Node) (closed : Bool) :
    readSequence reader path (.sequence label items closed) =
      readItems reader path 0 items >>= fun values => if closed then pure values else unreadable :=
  rfl

theorem reads_plain_sequence {reader : Reader Value} (plain : ReadsPlain reader) :
    ReadsPlain (readSequence reader) := by
  intro node free path
  match node, free with
  | .broken, _ => exact .of_steady steady_unreadable
  | .scalar ⟨anchor, tag⟩ style text, _ =>
      have read (anchor : Option Nat) :
          readSequence reader path (.scalar ⟨anchor, tag⟩ style text) =
            if isOmitted (.scalar ⟨none, tag⟩ style text) then pure []
            else refuse "a sequence" path (.scalar ⟨none, tag⟩ style text) := rfl
      refine ⟨?_, rfl⟩
      rw [read]
      split
      · exact steady_pure _
      · exact steady_refuse _ _ _
  | .sequence label items closed, free =>
      rw [Node.isAliasFree, Node.items_alias_free_iff] at free
      rw [Node.unanchored, Node.unanchored_items_eq, read_sequence_of_items, read_sequence_of_items]
      exact (reads_plain_items plain path free 0).bind fun values =>
        .of_closed closed (.of_steady (steady_pure values))
  | .mapping _ _ _, _ => exact .of_steady (steady_fail _ _)

theorem reads_plain_optional {reader : Reader Value} (plain : ReadsPlain reader) (around : Path) :
    ReadsPlain (readOptional around reader) := by
  intro node free path
  have some := (plain free path).bind fun value => Plain.of_steady (steady_pure (some value))
  match node, free with
  | .broken, _ => exact some
  | .scalar ⟨anchor, tag⟩ .plain text, _ =>
      have read (anchor : Option Nat) :
          readOptional around reader path (.scalar ⟨anchor, tag⟩ .plain text) =
            if tag = Option.some (coreTag "null") then
              if isNull text then pure none else fail around (.wrongValue text "null")
            else if tag.isNone && (text.isEmpty || isNull text) then pure none
            else reader path (.scalar ⟨anchor, tag⟩ .plain text) >>= fun value =>
              pure (Option.some value) := rfl
      rw [Node.unanchored, read, read]
      split
      · split
        · exact .of_steady (steady_pure _)
        · exact .of_steady (steady_fail _ _)
      · exact .of_refusal (steady_pure _) some
  | .scalar _ .singleQuoted _, _ => exact some
  | .scalar _ .doubleQuoted _, _ => exact some
  | .scalar _ .literal _, _ => exact some
  | .scalar _ .folded _, _ => exact some
  | .sequence _ _ _, _ => exact some
  | .mapping _ _ _, _ => exact some

end

@[simp, grind =] theorem are_whole_eq_all (nodes : List Node) :
    Node.areWhole nodes = nodes.all Node.isWhole := by
  induction nodes with
  | nil => rfl
  | cons node nodes induction => simp [Node.areWhole, induction]

@[simp, grind =] theorem entries_whole_eq_all (entries : List (Node × Node)) :
    Node.entriesWhole entries = entries.all fun entry => entry.1.isWhole && entry.2.isWhole := by
  induction entries with
  | nil => rfl
  | cons entry entries induction => simp [Node.entriesWhole, induction]

theorem is_whole_unanchored (node : Node) : node.unanchored.isWhole = node.isWhole := by
  induction node using Node.holds_of_parts with
  | jump | broken | scalar => rfl
  | sequence label items closed parts =>
      rw [Bool.eq_iff_iff]
      simp +contextual [Node.unanchored, Node.isWhole, parts]
  | mapping label entries closed parts =>
      rw [Bool.eq_iff_iff]
      simp +contextual [Node.unanchored, Node.isWhole, Node.unanchoredEntry, parts]

theorem under_unanchored (path : Path) (key : Node) :
    path.under key.unanchored = path.under key := by
  cases key <;> rfl

section
variable {Record : Type} {fields : List (FieldReader Record)}

/-- Fields whose values are read in the same way everywhere, whatever their anchors are. -/
def FieldsPlain (fields : List (FieldReader Record)) : Prop :=
  ∀ field ∈ fields, ∀ record : Record, ReadsPlain fun path node => field.read path node record

theorem reads_plain_entries (plain : FieldsPlain fields) (path : Path)
    {entries : List (Node × Node)}
    (free : ∀ entry ∈ entries, entry.1.isAliasFree = true ∧ entry.2.isAliasFree = true)
    (seen : List String) (record : Record) :
    Plain (readEntries fields path seen record entries)
      (readEntries fields path seen record (entries.map Node.unanchoredEntry)) := by
  induction entries generalizing seen record with
  | nil => exact .of_steady (steady_pure record)
  | cons entry entries induction =>
      obtain ⟨key, value⟩ := entry
      rw [List.forall_mem_cons] at free
      rw [List.map_cons, Node.unanchoredEntry, readEntries, readEntries]
      refine (reads_plain_text "field identifier" free.1.1 path).bind fun name => ?_
      cases found : fields.find? (·.name == name) with
      | none =>
          dsimp only
          rw [is_whole_unanchored]
          exact .of_closed _ (induction free.2 seen record)
      | some field =>
          dsimp only
          rw [under_unanchored]
          refine .of_refusal (steady_fail _ _) ?_
          have read := plain field (List.mem_of_find?_eq_some found) record free.1.2
          exact (read (path.under key)).bind fun updated => induction free.2 (name :: seen) updated

theorem read_record_of_mapping (title : String) (initial : Record) (path : Path) (label : Label)
    (entries : List (Node × Node)) (closed : Bool) :
    readRecord title fields initial path (.mapping label entries closed) =
      readEntries fields path [] initial entries >>= fun record =>
        if closed then pure record else unreadable := rfl

theorem reads_plain_record (plain : FieldsPlain fields) (title : String) (initial : Record) :
    ReadsPlain (readRecord title fields initial) := by
  intro node free path
  match node, free with
  | .broken, _ => exact .of_steady steady_unreadable
  | .scalar ⟨anchor, tag⟩ style text, _ =>
      have read (anchor : Option Nat) :
          readRecord title fields initial path (.scalar ⟨anchor, tag⟩ style text) =
            if isOmitted (.scalar ⟨none, tag⟩ style text) then pure initial
            else refuse title path (.scalar ⟨none, tag⟩ style text) := rfl
      refine ⟨?_, rfl⟩
      rw [read]
      split
      · exact steady_pure _
      · exact steady_refuse _ _ _
  | .sequence _ _ _, _ => exact .of_steady (steady_fail _ _)
  | .mapping label entries closed, free =>
      rw [Node.isAliasFree, Node.entries_alias_free_iff] at free
      rw [Node.unanchored, Node.unanchored_entries_eq, read_record_of_mapping,
        read_record_of_mapping]
      exact (reads_plain_entries plain path free [] initial).bind fun record =>
        .of_closed closed (.of_steady (steady_pure record))

end

section
variable {path : Path}

theorem steady_atom (expected : String) (path : Path) (label : Label) (style : Style)
    (text : String) :
    Steady (readAtom expected path label style text) := by
  unfold readAtom
  split
  · exact steady_unreadable
  · split
    · exact steady_fail _ _
    · exact steady_pure _
    · exact steady_fail _ _

theorem read_content_of_scalar (room : Nat) (path : Path) (label : Label) (style : Style)
    (text : String) :
    readContent room path (.scalar label style text) =
      readAtom "any value" path label style text >>= fun atom => pure (.atom atom) := by
  cases room <;> rfl

theorem read_content_of_sequence (room : Nat) (path : Path) (label : Label) (items : List Node)
    (closed : Bool) :
    readContent (room + 1) path (.sequence label items closed) =
      if (localTag? label.tag).isSome then unreadable
      else readItems (readContent room) path 0 items >>= fun contents =>
        if closed then pure (.sequence contents) else unreadable := rfl

theorem read_content_of_mapping (room : Nat) (path : Path) (label : Label)
    (entries : List (Node × Node)) (closed : Bool) :
    readContent (room + 1) path (.mapping label entries closed) =
      if (localTag? label.tag).isSome then unreadable
      else readContentEntries (readContent room) path entries >>= fun contents =>
        if closed then pure (.mapping contents) else unreadable := rfl

theorem reads_plain_content_entries {reader : Reader Content} (plain : ReadsPlain reader)
    (path : Path) {entries : List (Node × Node)}
    (free : ∀ entry ∈ entries, entry.1.isAliasFree = true ∧ entry.2.isAliasFree = true) :
    Plain (readContentEntries reader path entries)
      (readContentEntries reader path (entries.map Node.unanchoredEntry)) := by
  induction entries with
  | nil => exact .of_steady (steady_pure [])
  | cons entry entries induction =>
      obtain ⟨key, value⟩ := entry
      rw [List.forall_mem_cons] at free
      rw [List.map_cons, Node.unanchoredEntry, readContentEntries, readContentEntries,
        under_unanchored]
      refine (plain free.1.1 path).bind fun keyContent => ?_
      refine (plain free.1.2 (path.under key)).bind fun content => ?_
      exact (induction free.2).bind fun contents => .of_steady (steady_pure _)

/-- The induction is on the room: what is inside a collection has less of it. -/
theorem reads_plain_content (room : Nat) : ReadsPlain (readContent room) := by
  have scalar (room : Nat) (path : Path) (label : Label) (style : Style) (text : String) :
      Plain (readContent room path (.scalar label style text))
        (readContent room path (.scalar ⟨none, label.tag⟩ style text)) := by
    rw [read_content_of_scalar, read_content_of_scalar]
    exact .of_steady ((steady_atom _ _ _ _ _).bind fun atom => steady_pure _)
  induction room with
  | zero =>
      intro node free path
      match node, free with
      | .broken, _ => exact .of_steady steady_unreadable
      | .scalar label style text, _ => exact scalar 0 path label style text
      | .sequence _ _ _, _ => exact .of_steady steady_unreadable
      | .mapping _ _ _, _ => exact .of_steady steady_unreadable
  | succ room induction =>
      intro node free path
      match node, free with
      | .broken, _ => exact .of_steady steady_unreadable
      | .scalar label style text, _ => exact scalar (room + 1) path label style text
      | .sequence label items closed, free =>
          rw [Node.isAliasFree, Node.items_alias_free_iff] at free
          rw [Node.unanchored, Node.unanchored_items_eq, read_content_of_sequence,
            read_content_of_sequence]
          refine .of_refusal steady_unreadable ?_
          exact (reads_plain_items induction path free 0).bind fun contents =>
            .of_closed closed (.of_steady (steady_pure _))
      | .mapping label entries closed, free =>
          rw [Node.isAliasFree, Node.entries_alias_free_iff] at free
          rw [Node.unanchored, Node.unanchored_entries_eq, read_content_of_mapping,
            read_content_of_mapping]
          refine .of_refusal steady_unreadable ?_
          exact (reads_plain_content_entries induction path free).bind fun contents =>
            .of_closed closed (.of_steady (steady_pure _))

end

end ManifestLint
