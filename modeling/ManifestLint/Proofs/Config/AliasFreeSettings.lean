import ManifestLint.Proofs.Config.AliasFree
import ManifestLint.Proofs.Config.Roles

/-!
Settings in trees without aliases, from conditions up to the root: they too are read in the same way
everywhere, and anchors do not count in them.
-/

namespace ManifestLint

open Yaml

namespace ConditionEntry

section
variable {path : Path} {kind : Kind}

theorem steady_text (path : Path) (content : Content) : Steady (textOf path content) := by
  unfold textOf
  split
  · exact steady_pure _
  · exact steady_fail _ _

theorem steady_needle (found : List (String × String)) (entry : Content × Content) :
    Steady (readNeedle path kind found entry) := by
  have field : Steady (fieldOf path kind entry.1) := by
    unfold fieldOf
    split
    · exact steady_pure _
    · exact steady_pure _
    · exact steady_fail _ _
  refine field.bind fun named => ?_
  split
  · exact steady_pure _
  · split
    · exact steady_fail _ _
    · exact (steady_text path entry.2).bind fun _ => steady_pure _

theorem steady_needles (found : List (String × String)) (entries : List (Content × Content)) :
    Steady (entries.foldlM (readNeedle path kind) found) := by
  induction entries generalizing found with
  | nil => exact steady_pure _
  | cons entry entries induction =>
      rw [List.foldlM_cons]
      exact (steady_needle found entry).bind induction

theorem steady_pick (found : List (String × String)) (fields : List String) :
    Steady (pickNeedles path found fields) := by
  induction fields with
  | nil => exact steady_pure _
  | cons field fields induction =>
      rw [pickNeedles]
      split
      · exact induction.bind fun _ => steady_pure _
      · exact steady_fail _ _

theorem steady_finish (needles : List String) : Steady (finish kind needles) := by
  unfold finish
  split
  · exact steady_pure _
  · exact steady_unreadable

theorem of_entries_eq (contents : List (Content × Content)) : ofEntries path kind contents =
    contents.foldlM (readNeedle path kind) [] >>= fun found =>
      pickNeedles path found kind.fields >>= finish kind := by
  rw [ofEntries, read_needles_eq_fold]

theorem steady_of_entries (contents : List (Content × Content)) :
    Steady (ofEntries path kind contents) := by
  rw [of_entries_eq]
  exact (steady_needles _ _).bind fun found => (steady_pick found _).bind steady_finish

theorem steady_in_order (total found : Nat) (fields : List String) (contents : List Content) :
    Steady (needlesInOrder path kind total found fields contents) := by
  induction fields generalizing found contents with
  | nil =>
      cases contents with
      | nil => exact steady_pure _
      | cons content contents => exact steady_fail _ _
  | cons field fields induction =>
      cases contents with
      | nil => exact steady_fail _ _
      | cons content contents =>
          rw [needlesInOrder]
          exact (steady_text path content).bind fun _ => (induction _ _).bind fun _ => steady_pure _

theorem steady_of_contents (contents : List Content) :
    Steady (ofContents path kind contents) :=
  (steady_in_order _ _ _ _).bind steady_finish

end

/-- What is made of the entries of a condition: they count when the mapping is there to its end and
has a type. -/
def ofRead (around path : Path) (closed : Bool) (found : Option Kind × List (Content × Content)) :
    Reading Condition :=
  if !closed then unreadable
  else
    match found.1 with
    | none => fail path (.missingField "type")
    | some kind => ofEntries around kind found.2

theorem steady_of_read (around path : Path) (closed : Bool)
    (found : Option Kind × List (Content × Content)) :
    Steady (ofRead around path closed found) := by
  unfold ofRead
  split
  · exact steady_unreadable
  split
  · exact steady_fail _ _
  · exact steady_of_entries _

theorem read_of_mapping (room : Nat) (around path : Path) (label : Label)
    (entries : List (Node × Node)) (closed : Bool) :
    read room around path (.mapping label entries closed) =
      if (localTag? label.tag).isSome then fail path (.wrongType .variant wholeType)
      else readEntries room path none entries >>= ofRead around path closed := rfl

theorem read_of_nothing (room : Nat) (around path : Path) (label : Label) (closed : Bool) :
    read room around path (.sequence label [] closed) =
      if (localTag? label.tag).isSome then fail path (.wrongType .variant wholeType)
      else if closed then fail path (.missingField "type") else unreadable := rfl

theorem read_of_sequence (room : Nat) (around path : Path) (label : Label) (first : Node)
    (items : List Node) (closed : Bool) :
    read room around path (.sequence label (first :: items) closed) =
      if (localTag? label.tag).isSome then fail path (.wrongType .variant wholeType)
      else readKind (path.item 0) first >>= fun kind =>
        readItems (readContent room) path 1 items >>= fun contents =>
        if closed then ofContents around kind contents else unreadable := rfl

theorem reads_plain_kind : ReadsPlain readKind := by
  intro node free path
  refine (reads_plain_text "variant identifier" free path).bind fun name => .of_steady ?_
  split
  · exact steady_pure _
  · exact steady_fail _ _

theorem reads_plain_key (room : Nat) : ReadsPlain (readKey room) := by
  intro node free path
  have content := (reads_plain_content room free path).bind fun content =>
    Plain.of_steady (steady_pure (some content))
  match node, free with
  | .broken, _ => exact content
  | .scalar ⟨anchor, tag⟩ style text, _ =>
      have read (anchor : Option Nat) : readKey room path (.scalar ⟨anchor, tag⟩ style text) =
          readAtom "a type tag `type` or any other value" path ⟨none, tag⟩ style text >>=
          fun atom =>
            pure (if atom = .text "type" then none else some (.atom atom)) := rfl
      rw [Node.unanchored, read, read]
      exact .of_steady ((steady_atom _ _ _ _ _).bind fun atom => steady_pure _)
  | .sequence _ _ _, _ => exact content
  | .mapping _ _ _, _ => exact content

theorem reads_plain_condition_entries (room : Nat) (path : Path) {entries : List (Node × Node)}
    (free : ∀ entry ∈ entries, entry.1.isAliasFree = true ∧ entry.2.isAliasFree = true)
    (kind : Option Kind) :
    Plain (readEntries room path kind entries)
      (readEntries room path kind (entries.map Node.unanchoredEntry)) := by
  induction entries generalizing kind with
  | nil => exact .of_steady (steady_pure _)
  | cons entry entries induction =>
      obtain ⟨key, value⟩ := entry
      rw [List.forall_mem_cons] at free
      rw [List.map_cons, Node.unanchoredEntry, readEntries, readEntries, under_unanchored]
      refine (reads_plain_key room free.1.1 path).bind fun named => ?_
      cases named with
      | none =>
          refine .of_refusal (steady_fail _ _) ?_
          exact (reads_plain_kind free.1.2 _).bind fun found => induction free.2 (some found)
      | some named =>
          refine (reads_plain_content room free.1.2 _).bind fun content => ?_
          exact (induction free.2 kind).bind fun rest => .of_steady (steady_pure _)

theorem reads_plain_condition (room : Nat) (around : Path) : ReadsPlain (read room around) := by
  intro node free path
  match node, free with
  | .broken, _ => exact .of_steady steady_unreadable
  | .scalar ⟨anchor, tag⟩ style text, _ =>
      have read (anchor : Option Nat) :
          read room around path (.scalar ⟨anchor, tag⟩ style text) =
            if (localTag? tag).isSome then fail path (.wrongType .variant wholeType)
            else refuse wholeType path (.scalar ⟨none, tag⟩ style text) := rfl
      rw [Node.unanchored, read, read]
      exact .of_refusal (steady_fail _ _) (.of_steady (steady_refuse _ _ _))
  | .sequence label [] closed, _ =>
      rw [Node.unanchored, Node.unanchoredItems, read_of_nothing, read_of_nothing]
      refine .of_refusal (steady_fail _ _) ?_
      exact .of_closed closed (.of_steady (steady_fail _ _))
  | .sequence label (first :: items) closed, free =>
      rw [Node.isAliasFree, Node.items_alias_free_iff, List.forall_mem_cons] at free
      rw [Node.unanchored, Node.unanchored_items_eq, List.map_cons, read_of_sequence,
        read_of_sequence]
      refine .of_refusal (steady_fail _ _) ?_
      refine (reads_plain_kind free.1 _).bind fun kind => ?_
      exact (reads_plain_items (reads_plain_content room) path free.2 1).bind fun contents =>
        .of_closed closed (.of_steady (steady_of_contents _))
  | .mapping label entries closed, free =>
      rw [Node.isAliasFree, Node.entries_alias_free_iff] at free
      rw [Node.unanchored, Node.unanchored_entries_eq, read_of_mapping, read_of_mapping]
      refine .of_refusal (steady_fail _ _) ?_
      exact (reads_plain_condition_entries room path free none).bind fun found =>
        .of_steady (steady_of_read _ _ _ _)

end ConditionEntry

section
variable {Value Record : Type}

/-- A field that puts the value it reads into the record. -/
theorem reads_plain_field {reader : Reader Value} (plain : ReadsPlain reader)
    (put : Value → Record) : ReadsPlain fun path node => do return put (← reader path node) :=
  fun _ free path => (plain free path).bind fun _ => .of_steady (steady_pure _)

end

namespace RuleEntry

theorem steady_require {Value : Type} (path : Path) (name : String) (value : Option Value) :
    Steady (require path name value) := by
  cases value with
  | none => exact steady_fail _ _
  | some value => exact steady_pure value

theorem rule_fields_plain (room : Nat) (around : Path) : FieldsPlain (fields room around) := by
  simp only [FieldsPlain, fields, List.forall_mem_cons]
  refine ⟨fun parts => ?_, fun parts => ?_, fun parts => ?_, List.forall_mem_nil _⟩
  · exact reads_plain_field (reads_plain_text "a string") _
  · exact reads_plain_field (reads_plain_text "a string") _
  · exact reads_plain_field (ConditionEntry.reads_plain_condition room around) _

theorem reads_plain_rule (room : Nat) : ReadsPlain (read room) := by
  intro node free path
  refine (reads_plain_record (rule_fields_plain room path) _ _ free path).bind fun parts =>
    .of_steady ?_
  refine (steady_require path "name" parts.name).bind fun name => ?_
  refine (steady_require path "message" parts.message).bind fun message => ?_
  exact (steady_require path "when" parts.condition).bind fun condition => steady_pure _

end RuleEntry

namespace LayerEntry

theorem lint_fields_plain : FieldsPlain lintFields := by
  simp only [FieldsPlain, lintFields, List.forall_mem_cons]
  refine ⟨fun lint => ?_, fun lint => ?_, List.forall_mem_nil _⟩
  · exact reads_plain_field (reads_plain_sequence (reads_plain_text "a string")) _
  · exact reads_plain_field (reads_plain_sequence (RuleEntry.reads_plain_rule conditionRoom)) _

theorem reads_plain_lint : ReadsPlain readLint := reads_plain_record lint_fields_plain _ _

theorem steady_name (place : Path) (name : String) : Steady (match OutputFormat.ofName? name with
    | some format => pure format
    | none => fail place (.unknownVariant name formatNames) : Reading OutputFormat) := by
  split
  · exact steady_pure _
  · exact steady_fail _ _

theorem steady_format_of_scalar (around path : Path) (label : Label) (style : Style)
    (text : String) :
    Steady (readFormat around path (.scalar label style text)) := by
  have followed : follow (.scalar label style text) = pure (.scalar label style text) := rfl
  rw [readFormat, followed, pure_bind]
  dsimp only
  split
  · exact steady_name _ _
  · refine (steady_name _ _).bind fun format => ?_
    split
    · exact steady_pure _
    · exact steady_fail _ _

theorem reads_plain_format (around : Path) : ReadsPlain (readFormat around) := by
  intro node free path
  match node, free with
  | .broken, _ => exact .of_steady steady_unreadable
  | .scalar label style text, _ => exact ⟨steady_format_of_scalar around path label style text, rfl⟩
  | .sequence label items closed, _ =>
      have followed : follow (.sequence label items closed) = pure (.sequence label items closed) :=
        rfl
      refine ⟨?_, rfl⟩
      rw [readFormat, followed, pure_bind]
      dsimp only
      split
      · exact steady_fail _ _
      · exact (steady_name _ _).bind fun _ => steady_fail _ _
  | .mapping label entries closed, _ =>
      have followed : follow (.mapping label entries closed) = pure (.mapping label entries closed) :=
        rfl
      refine ⟨?_, rfl⟩
      rw [readFormat, followed, pure_bind]
      dsimp only
      split
      · exact steady_fail _ _
      · exact (steady_name _ _).bind fun _ => steady_fail _ _

theorem output_fields_plain (around : Path) : FieldsPlain (outputFields around) := by
  simp only [FieldsPlain, outputFields, List.forall_mem_cons]
  refine ⟨fun layer => ?_, fun layer => ?_, List.forall_mem_nil _⟩
  · exact reads_plain_field (reads_plain_optional (reads_plain_format around) around) _
  · exact reads_plain_field (reads_plain_optional reads_plain_boolean around) _

theorem reads_plain_output : ReadsPlain readOutput :=
  fun _ free path => reads_plain_record (output_fields_plain path) _ _ free path

theorem layer_fields_plain : FieldsPlain layerFields := by
  simp only [FieldsPlain, layerFields, List.forall_mem_cons]
  refine ⟨fun layer => ?_, fun layer => ?_, List.forall_mem_nil _⟩
  · exact reads_plain_field (reads_plain_optional reads_plain_lint .root) _
  · exact reads_plain_field (reads_plain_optional reads_plain_output .root) _

theorem reads_plain_layer : ReadsPlain read := reads_plain_record layer_fields_plain _ _

end LayerEntry

end ManifestLint
