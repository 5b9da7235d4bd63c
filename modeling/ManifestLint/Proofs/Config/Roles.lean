import ManifestLint.Config.LayerEntry
import ManifestLint.Proofs.Yaml.Success

/-!
Roles of the nodes of a config. The root has the settings, a key of a mapping with a role leads to
the role of its value, and an alias has the role of what it stands for. A mapping that holds a key
of its role twice is not read.
-/

namespace ManifestLint

open Yaml

/-- What a node is read as. A free node holds no settings of its own: it is a value, or it is passed
over. -/
inductive Role where
  | settings
  | lint
  | output
  | rules
  | rule
  | condition
  | free
deriving DecidableEq, Repr

namespace Role

def names : Role → List String
  | .settings => ["lint", "output"]
  | .lint => ["disable", "rules"]
  | .output => ["format", "color"]
  | .rule => ["name", "message", "when"]
  | .condition => ["type", "needle"]
  | .rules => []
  | .free => []

/-- A mapping knows the keys of its role, and a condition of the type for it knows an excuse. -/
def Knows (root : Node) (role : Role) (entries : List (Node × Node)) (name : String) : Prop :=
  name ∈ role.names ∨ role = .condition ∧ name = "unless" ∧
    ∃ entry ∈ entries, Spells root entry.1 "type" ∧ Spells root entry.2 "contains_without"

def under : Role → String → Role
  | .settings, "lint" => .lint
  | .settings, "output" => .output
  | .lint, "rules" => .rules
  | .rule, "when" => .condition
  | _, _ => .free

def item : Role → Role
  | .rules => .rule
  | _ => .free

/-- The nodes of a tree that have a role in it. -/
inductive Plays (root : Node) : Role → Node → Prop where
  | root : Plays root .settings root
  | value {role : Role} {label : Label} {entries : List (Node × Node)} {closed : Bool}
      {entry : Node × Node}
      {name : String} : Plays root role (.mapping label entries closed) → entry ∈ entries →
      Spells root entry.1 name → Plays root (role.under name) entry.2
  | item {role : Role} {label : Label} {items : List Node} {closed : Bool} {node : Node} :
      Plays root role (.sequence label items closed) → node ∈ items → Plays root role.item node
  | owner {role : Role} {number : Nat} {node : Node} :
      Plays root role (.alias number) → root.owner? number = some node → Plays root role node

/-- Some mapping with a role holds a key that it knows twice. -/
def RepeatsKnown (root : Node) (name : String) : Prop :=
  ∃ role label entries closed, Plays root role (.mapping label entries closed) ∧
    Knows root role entries name ∧ HoldsTwice root entries name

def allNames : List String :=
  ["lint", "output", "disable", "rules", "format", "color", "name", "message", "when", "type",
    "needle", "unless"]

theorem mem_all_names {root : Node} {role : Role} {entries : List (Node × Node)} {name : String}
    (knows : role.Knows root entries name) : name ∈ allNames := by
  rcases knows with always | ⟨_, rfl, _⟩
  · revert name
    cases role <;> decide
  · decide

/-- The keys look like nothing but texts. -/
theorem names_are_plain_texts :
    ∀ name ∈ allNames, Atom.ofPlain name = .text name ∧ booleanOf? name = none ∧
    Atom.ofInteger? name = none ∧ (Literal.float name.toList).isNone ∧ isNull name = false := by
  decide +kernel

/-- Whatever its tag and its style, a key is a text if it is anything. -/
theorem atom_of_name {name : String} (known : name ∈ allNames) {tag : Option (List UInt8)}
    {style : Style} {atom : Atom} (found : Atom.ofScalar tag style name = .ok atom) :
    atom = .text name := by
  obtain ⟨plain, noBoolean, noInteger, noFloat, notNull⟩ := names_are_plain_texts name known
  rw [Option.isNone_iff_eq_none] at noFloat
  cases tag with
  | none =>
      rw [Atom.ofScalar, plain, ite_self] at found
      exact (Except.ok.inj found).symm
  | some tag =>
      rw [Atom.ofScalar, noBoolean, noInteger, noFloat, notNull, plain] at found
      dsimp only [Option.map, Option.elim] at found
      split at found
      · cases found
      split at found
      · cases found
      split at found
      · cases found
      split at found
      · cases found
      rw [ite_self] at found
      exact (Except.ok.inj found).symm

end Role

namespace ConditionEntry

section
variable {room : Nat} {path : Path} {root : Node}

theorem atom_of_gives {expected : String} {label : Label} {style : Style} {text : String}
    {atom : Atom} (gives : Gives root (readAtom expected path label style text) atom) :
    Atom.ofScalar label.tag style text = .ok atom := by
  rw [readAtom] at gives
  split at gives
  · exact absurd gives not_gives_unreadable
  · split at gives
    · exact absurd gives not_gives_fail
    · rename_i other _ same
      rw [← gives_pure_iff.1 gives]
      exact same
    · exact absurd gives not_gives_fail

/-- The key of the type is told from all others by its text, and a name is kept as a text. -/
theorem key_of_spells {key : Node} {name : String} (known : name ∈ Role.allNames)
    (spells : Spells root key name) {result : Option Content}
    (gives : Gives root (readKey room path key) result) :
    result = if name = "type" then none else some (.atom (.text name)) := by
  rw [readKey] at gives
  obtain ⟨target, followed, read⟩ := gives.of_bind
  obtain ⟨label, style, rfl⟩ := scalar_of_spells spells followed
  obtain ⟨atom, found, same⟩ := read.of_map
  obtain rfl := Role.atom_of_name known (atom_of_gives found)
  rw [← same]
  simp only [Atom.text.injEq]

/-- Entries are read one part after the other: the kind is handed on, and the contents follow each
other. -/
theorem read_entries_append (kind : Option Kind) (first second : List (Node × Node)) :
    readEntries room path kind (first ++ second) =
      readEntries room path kind first >>= fun before =>
        readEntries room path before.1 second >>= fun behind =>
          pure (behind.1, before.2 ++ behind.2) := by
  induction first generalizing kind with
  | nil =>
      rw [List.nil_append, readEntries, pure_bind]
      exact (bind_pure _).symm
  | cons entry first induction =>
      obtain ⟨key, value⟩ := entry
      rw [List.cons_append, readEntries, readEntries, bind_assoc]
      refine bind_congr fun named => ?_
      cases named with
      | none =>
          cases kind with
          | some found => rfl
          | none =>
              dsimp only
              rw [if_neg (by decide), if_neg (by decide), bind_assoc]
              exact bind_congr fun found => induction (some found)
      | some named =>
          dsimp only
          rw [bind_assoc]
          refine bind_congr fun content => ?_
          rw [induction kind]
          simp only [bind_assoc, pure_bind, List.cons_append]

section
variable {kind final : Option Kind} {first second entries : List (Node × Node)}
  {contents : List (Content × Content)}

theorem gives_append
    (gives : Gives root (readEntries room path kind (first ++ second)) (final, contents)) :
    ∃ between before behind, Gives root (readEntries room path kind first) (between, before) ∧
      Gives root (readEntries room path between second) (final, behind) ∧
        contents = before ++ behind := by
  rw [read_entries_append] at gives
  obtain ⟨⟨between, before⟩, readFirst, rest⟩ := gives.of_bind
  obtain ⟨⟨last, behind⟩, readSecond, same⟩ := rest.of_map
  cases same
  exact ⟨between, before, behind, readFirst, readSecond, rfl⟩

theorem gives_typed {entry : Node × Node} (spells : Spells root entry.1 "type")
    (gives : Gives root (readEntries room path kind (entry :: entries)) (final, contents)) :
    kind = none ∧ ∃ found, Gives root (readKind (path.under entry.1) entry.2) found ∧
      Gives root (readEntries room path (some found) entries) (final, contents) := by
  rw [readEntries] at gives
  obtain ⟨named, key, read⟩ := gives.of_bind
  rw [key_of_spells (by decide) spells key, if_pos rfl] at read
  dsimp only at read
  cases kind with
  | some found =>
      rw [Option.isSome_some, if_pos rfl] at read
      exact absurd read not_gives_fail
  | none =>
      rw [if_neg (by decide)] at read
      obtain ⟨found, kind, rest⟩ := read.of_bind
      exact ⟨rfl, found, kind, rest⟩

theorem gives_named {entry : Node × Node} {name : String} (known : name ∈ Role.allNames)
    (other : name ≠ "type") (spells : Spells root entry.1 name)
    (gives : Gives root (readEntries room path kind (entry :: entries)) (final, contents)) :
    ∃ content behind, Gives root (readEntries room path kind entries) (final, behind) ∧
      contents = (.atom (.text name), content) :: behind := by
  rw [readEntries] at gives
  obtain ⟨named, key, read⟩ := gives.of_bind
  rw [key_of_spells known spells key, if_neg other] at read
  obtain ⟨content, _, rest⟩ := read.of_bind
  obtain ⟨⟨last, behind⟩, readRest, same⟩ := rest.of_map
  cases same
  exact ⟨content, behind, readRest, rfl⟩

theorem kind_stays {known : Kind}
    (gives : Gives root (readEntries room path (some known) entries) (final, contents)) :
    final = some known := by
  induction entries generalizing contents with
  | nil =>
      cases gives_pure_iff.1 gives
      rfl
  | cons entry entries induction =>
      obtain ⟨key, value⟩ := entry
      rw [readEntries] at gives
      obtain ⟨named, _, read⟩ := gives.of_bind
      cases named with
      | none =>
          dsimp only at read
          rw [Option.isSome_some, if_pos rfl] at read
          exact absurd read not_gives_fail
      | some named =>
          obtain ⟨content, _, rest⟩ := read.of_bind
          obtain ⟨⟨last, behind⟩, readRest, same⟩ := rest.of_map
          cases same
          exact induction readRest

theorem kind_of_text {place : Path} {value : Node} {text : String} (spells : Spells root value text)
    {found : Kind} (gives : Gives root (readKind place value) found) :
    Kind.ofName? text = some found := by
  rw [readKind] at gives
  obtain ⟨name, named, read⟩ := gives.of_bind
  rw [text_of_spells spells named] at read
  split at read
  · rename_i kind same
    rw [same, gives_pure_iff.1 read]
  · exact absurd read not_gives_fail

theorem gives_at_type {entry : Node × Node} (member : entry ∈ entries)
    (spells : Spells root entry.1 "type")
    (gives : Gives root (readEntries room path kind entries) (final, contents)) :
    kind = none ∧ ∃ found, final = some found ∧
      Gives root (readKind (path.under entry.1) entry.2) found := by
  obtain ⟨earlier, later, rfl⟩ := List.append_of_mem member
  obtain ⟨between, before, behind, readEarlier, readLater, _⟩ := gives_append gives
  obtain ⟨rfl, found, read, rest⟩ := gives_typed spells readLater
  refine ⟨?_, found, kind_stays rest, read⟩
  cases kind with
  | none => rfl
  | some known => cases kind_stays readEarlier

theorem content_of_name {entry : Node × Node} (member : entry ∈ entries) {name : String}
    (known : name ∈ Role.allNames) (other : name ≠ "type") (spells : Spells root entry.1 name)
    (gives : Gives root (readEntries room path kind entries) (final, contents)) :
    ∃ content, (.atom (.text name), content) ∈ contents := by
  obtain ⟨earlier, later, rfl⟩ := List.append_of_mem member
  obtain ⟨between, before, behind, _, readLater, rfl⟩ := gives_append gives
  obtain ⟨content, rest, _, rfl⟩ := gives_named known other spells readLater
  exact ⟨content, List.mem_append_right _ List.mem_cons_self⟩

end

def readNeedle (path : Path) (kind : Kind) (found : List (String × String))
    (entry : Content × Content) :
    Reading (List (String × String)) := do
  match ← fieldOf path kind entry.1 with
  | none => return found
  | some field =>
      if (found.lookup field).isSome then fail path (.repeatedField field)
      else
        let needle ← textOf path entry.2
        return (field, needle) :: found

theorem read_needles_eq_fold (kind : Kind) (found : List (String × String))
    (entries : List (Content × Content)) :
    readNeedles path kind found entries = entries.foldlM (readNeedle path kind) found := by
  induction entries generalizing found with
  | nil => rfl
  | cons entry entries induction =>
      obtain ⟨key, content⟩ := entry
      rw [readNeedles, List.foldlM_cons, readNeedle, bind_assoc]
      refine bind_congr fun named => ?_
      cases named with
      | none => exact induction found
      | some field =>
          dsimp only
          split
          · rfl
          · rw [bind_assoc]
            refine bind_congr fun needle => ?_
            rw [pure_bind]
            exact induction _

section
variable {kind : Kind} {found after : List (String × String)} {name : String}

theorem field_of_text (kind : Kind) (name : String) :
    fieldOf path kind (.atom (.text name)) =
      pure (if kind.fields.contains name then some name else none) := rfl

theorem needle_is_new {content : Content} (field : name ∈ kind.fields)
    (gives : Gives root (readNeedle path kind found (.atom (.text name), content)) after) :
    found.lookup name = none ∧ (after.lookup name).isSome := by
  rw [readNeedle, field_of_text, if_pos (List.contains_iff_mem.2 field), pure_bind] at gives
  dsimp only at gives
  by_cases seen : (found.lookup name).isSome = true
  · rw [if_pos seen] at gives
    exact absurd gives not_gives_fail
  · rw [if_neg seen] at gives
    obtain ⟨needle, _, rfl⟩ := gives.of_map
    rw [List.lookup_cons_self]
    exact ⟨Option.not_isSome_iff_eq_none.1 seen, rfl⟩

theorem needle_stays {entry : Content × Content} (seen : (found.lookup name).isSome)
    (gives : Gives root (readNeedle path kind found entry) after) : (after.lookup name).isSome := by
  rw [readNeedle] at gives
  obtain ⟨named, _, read⟩ := gives.of_bind
  cases named with
  | none =>
      rw [← gives_pure_iff.1 read]
      exact seen
  | some field =>
      dsimp only at read
      split at read
      · exact absurd read not_gives_fail
      · obtain ⟨needle, _, rfl⟩ := read.of_map
        rw [List.lookup_cons]
        split
        · rfl
        · exact seen

theorem needles_stay {entries : List (Content × Content)} (seen : (found.lookup name).isSome)
    (gives : Gives root (entries.foldlM (readNeedle path kind) found) after) :
    (after.lookup name).isSome := by
  induction entries generalizing found with
  | nil =>
      rw [← gives_pure_iff.1 gives]
      exact seen
  | cons entry entries induction =>
      rw [List.foldlM_cons] at gives
      obtain ⟨between, read, rest⟩ := gives.of_bind
      exact induction (needle_stays seen read) rest

theorem needle_seen_of_fold {entries : List (Content × Content)} {content : Content}
    (member : (.atom (.text name), content) ∈ entries) (field : name ∈ kind.fields)
    (gives : Gives root (entries.foldlM (readNeedle path kind) found) after) :
    (after.lookup name).isSome := by
  obtain ⟨earlier, later, rfl⟩ := List.append_of_mem member
  obtain ⟨between, _, read⟩ := gives_fold_append gives
  rw [List.foldlM_cons] at read
  obtain ⟨reached, here, rest⟩ := read.of_bind
  exact needles_stay (needle_is_new field here).2 rest

/-- No needle is behind one of the same name. -/
theorem not_gives_needles_of_twice {before behind : List (Content × Content)}
    {first second : Content} (early : (.atom (.text name), first) ∈ before)
    (late : (.atom (.text name), second) ∈ behind) (field : name ∈ kind.fields) :
    ¬ Gives root ((before ++ behind).foldlM (readNeedle path kind) found) after := by
  intro gives
  obtain ⟨between, readBefore, readBehind⟩ := gives_fold_append gives
  obtain ⟨earlier, later, rfl⟩ := List.append_of_mem late
  obtain ⟨reached, readEarlier, readLater⟩ := gives_fold_append readBehind
  rw [List.foldlM_cons] at readLater
  obtain ⟨_, here, _⟩ := readLater.of_bind
  have seen := needles_stay (needle_seen_of_fold early field readBefore) readEarlier
  rw [(needle_is_new field here).1] at seen
  cases seen

end

theorem gives_of_mapping {around : Path} {label : Label} {entries : List (Node × Node)}
    {closed : Bool} {condition : Condition}
    (gives : Gives root (read room around path (.mapping label entries closed)) condition) :
    ∃ kind contents, Gives root (readEntries room path none entries) (some kind, contents) ∧
      ∃ needles, Gives root (contents.foldlM (readNeedle around kind) []) needles := by
  rw [read] at gives
  obtain ⟨target, followed, read⟩ := gives.of_bind
  obtain rfl := gives_pure_iff.1 followed
  dsimp only at read
  split at read
  · exact absurd read not_gives_fail
  obtain ⟨⟨kind, contents⟩, readEntries, rest⟩ := read.of_bind
  dsimp only at rest
  split at rest
  · exact absurd rest not_gives_unreadable
  cases kind with
  | none => exact absurd rest not_gives_fail
  | some kind =>
      refine ⟨kind, contents, readEntries, ?_⟩
      dsimp only at rest
      rw [ofEntries] at rest
      obtain ⟨needles, readNeedles, _⟩ := rest.of_bind
      rw [read_needles_eq_fold] at readNeedles
      exact ⟨needles, readNeedles⟩

theorem not_gives_condition_of_twice {around : Path} {label : Label} {entries : List (Node × Node)}
    {closed : Bool} {name : String} (knows : Role.condition.Knows root entries name)
    (twice : HoldsTwice root entries name) (condition : Condition) :
    ¬ Gives root (read room around path (.mapping label entries closed)) condition := by
  intro gives
  obtain ⟨kind, contents, readAll, needles, readNeedles⟩ := gives_of_mapping gives
  have known := Role.mem_all_names knows
  obtain ⟨first, second, both, firstSpells, secondSpells⟩ := twice
  obtain ⟨before, behind, same, early, late⟩ := List.cons_sublist_iff.1 both
  have member : second ∈ behind := List.singleton_sublist.1 late
  rw [same] at readAll
  obtain ⟨between, contentsBefore, contentsBehind, readBefore, readBehind, rfl⟩ :=
    gives_append readAll
  by_cases typed : name = "type"
  · subst typed
    obtain ⟨_, found, rfl, _⟩ := gives_at_type early firstSpells readBefore
    cases (gives_at_type member secondSpells readBehind).1
  · have field : name ∈ kind.fields := by
      rcases knows with always | ⟨_, rfl, typing, held, spellsType, spellsKind⟩
      · have needle : name = "needle" := by
          simpa [Role.names, typed] using always
        rw [needle]
        cases kind <;> decide
      · rw [same] at held
        obtain ⟨_, found, final, read⟩ := gives_at_type held spellsType readAll
        have named := kind_of_text spellsKind read
        cases final
        cases named
        decide
    obtain ⟨_, contentBefore⟩ := content_of_name early known typed firstSpells readBefore
    obtain ⟨_, contentBehind⟩ := content_of_name member known typed secondSpells readBehind
    exact not_gives_needles_of_twice contentBefore contentBehind field readNeedles

end

end ConditionEntry

namespace Role

/-- A node can be read in a role, somewhere in a document. -/
def IsRead (root : Node) : Role → Node → Prop
  | .settings, node => ∃ path layer, Gives root (LayerEntry.read path node) layer
  | .lint, node => ∃ path lint, Gives root (readOptional .root LayerEntry.readLint path node) lint
  | .output, node => ∃ path layer,
      Gives root (readOptional .root LayerEntry.readOutput path node) layer
  | .rules, node => ∃ path rules,
      Gives root (readSequence (RuleEntry.read LayerEntry.conditionRoom) path node) rules
  | .rule, node => ∃ path parts, Gives root
      (readRecord "struct Rule" (RuleEntry.fields LayerEntry.conditionRoom path) ⟨none, none, none⟩
        path node) parts
  | .condition, node => ∃ around path condition,
      Gives root (ConditionEntry.read LayerEntry.conditionRoom around path node) condition
  | .free, _ => True

section
variable {root : Node} {path : Path}

theorem gives_inside_optional {Value : Type} {around : Path} {reader : Reader Value} {label : Label}
    {entries : List (Node × Node)} {closed : Bool} {result : Option Value}
    (gives : Gives root (readOptional around reader path (.mapping label entries closed)) result) :
    ∃ value, Gives root (reader path (.mapping label entries closed)) value := by
  rw [readOptional] at gives
  obtain ⟨target, followed, read⟩ := gives.of_bind
  obtain rfl := gives_pure_iff.1 followed
  obtain ⟨value, inside, _⟩ := read.of_bind
  exact ⟨value, inside⟩

theorem gives_item {Value : Type} {reader : Reader Value} {items : List Node} {index : Nat}
    {values : List Value} (gives : Gives root (readItems reader path index items) values)
    {node : Node} (member : node ∈ items) :
    ∃ place value, Gives root (reader place node) value := by
  induction items generalizing index values with
  | nil => cases member
  | cons item items induction =>
      rw [readItems] at gives
      obtain ⟨value, first, rest⟩ := gives.of_bind
      obtain ⟨others, readOthers, _⟩ := rest.of_bind
      rcases List.mem_cons.1 member with rfl | later
      · exact ⟨path.item index, value, first⟩
      · exact induction readOthers later

theorem gives_inside_sequence {Value : Type} {reader : Reader Value} {label : Label}
    {items : List Node} {closed : Bool} {values : List Value}
    (gives : Gives root (readSequence reader path (.sequence label items closed)) values)
    {node : Node} (member : node ∈ items) :
    ∃ place value, Gives root (reader place node) value := by
  rw [readSequence] at gives
  obtain ⟨target, followed, read⟩ := gives.of_bind
  obtain rfl := gives_pure_iff.1 followed
  obtain ⟨items, inside, _⟩ := read.of_bind
  exact gives_item inside member

theorem is_read_value {role : Role} {label : Label} {entries : List (Node × Node)} {closed : Bool}
    (read : IsRead root role (.mapping label entries closed)) {entry : Node × Node}
    (member : entry ∈ entries) {name : String} (spells : Spells root entry.1 name) :
    IsRead root (role.under name) entry.2 := by
  unfold under
  split
  · obtain ⟨path, layer, gives⟩ := read
    obtain ⟨before, after, field⟩ := gives.field_of_record member spells rfl
    obtain ⟨lint, inside, _⟩ := field.of_bind
    exact ⟨_, lint, inside⟩
  · obtain ⟨path, layer, gives⟩ := read
    obtain ⟨before, after, field⟩ := gives.field_of_record member spells rfl
    obtain ⟨output, inside, _⟩ := field.of_bind
    exact ⟨_, output, inside⟩
  · obtain ⟨path, lint, optional⟩ := read
    obtain ⟨part, gives⟩ := gives_inside_optional optional
    obtain ⟨before, after, field⟩ := gives.field_of_record member spells rfl
    obtain ⟨rules, inside, _⟩ := field.of_bind
    exact ⟨_, rules, inside⟩
  · obtain ⟨path, parts, gives⟩ := read
    obtain ⟨before, after, field⟩ := gives.field_of_record member spells rfl
    obtain ⟨condition, inside, _⟩ := field.of_bind
    exact ⟨_, _, condition, inside⟩
  · trivial

theorem is_read_item {role : Role} {label : Label} {items : List Node} {closed : Bool}
    (read : IsRead root role (.sequence label items closed)) {node : Node} (member : node ∈ items) :
    IsRead root role.item node := by
  cases role with
  | rules =>
      obtain ⟨path, rules, gives⟩ := read
      obtain ⟨place, rule, inside⟩ := gives_inside_sequence gives member
      obtain ⟨parts, record, _⟩ := inside.of_bind
      exact ⟨place, parts, record⟩
  | settings => trivial
  | lint => trivial
  | output => trivial
  | rule => trivial
  | condition => trivial
  | free => trivial

theorem is_read_owner {role : Role} {number : Nat} (read : IsRead root role (.alias number))
    {node : Node} (found : root.owner? number = some node) : IsRead root role node := by
  cases role with
  | settings =>
      obtain ⟨path, layer, gives⟩ := read
      exact ⟨path, layer, gives.of_owner found⟩
  | lint =>
      obtain ⟨path, lint, gives⟩ := read
      exact ⟨path, lint, gives.of_owner found⟩
  | output =>
      obtain ⟨path, layer, gives⟩ := read
      exact ⟨path, layer, gives.of_owner found⟩
  | rules =>
      obtain ⟨path, rules, gives⟩ := read
      exact ⟨path, rules, gives.of_owner found⟩
  | rule =>
      obtain ⟨path, parts, gives⟩ := read
      exact ⟨path, parts, gives.of_owner found⟩
  | condition =>
      obtain ⟨around, path, condition, gives⟩ := read
      exact ⟨around, path, condition, gives.of_owner found⟩
  | free => trivial

/-- Whatever has a role in a tree that is read is read in this role. -/
theorem is_read_of_plays (read : IsRead root .settings root) {role : Role} {node : Node}
    (plays : Plays root role node) : IsRead root role node := by
  induction plays with
  | root => exact read
  | value _ member spells mapping => exact is_read_value mapping member spells
  | item _ member sequence => exact is_read_item sequence member
  | owner _ found named => exact is_read_owner named found

theorem field_of_name {Record : Type} {fields : List (FieldReader Record)} {name : String}
    (known : name ∈ fields.map (·.name)) : ∃ field, fields.find? (·.name == name) = some field := by
  obtain ⟨field, member, rfl⟩ := List.mem_map.1 known
  exact Option.isSome_iff_exists.1 (List.find?_isSome.2 ⟨field, member, beq_self_eq_true _⟩)

theorem not_is_read_of_twice {role : Role} {label : Label} {entries : List (Node × Node)}
    {closed : Bool} {name : String} (knows : Knows root role entries name)
    (twice : HoldsTwice root entries name) :
    ¬ IsRead root role (.mapping label entries closed) := by
  have always (other : role ≠ .condition) : name ∈ role.names :=
    knows.resolve_right fun excuse => other excuse.1
  intro read
  cases role with
  | settings =>
      obtain ⟨path, layer, gives⟩ := read
      obtain ⟨field, found⟩ : ∃ field, LayerEntry.layerFields.find? (·.name == name) = some field :=
        field_of_name (always (by decide))
      exact not_gives_record_of_twice twice found layer gives
  | lint =>
      obtain ⟨path, lint, optional⟩ := read
      obtain ⟨lint, gives⟩ := gives_inside_optional optional
      obtain ⟨field, found⟩ : ∃ field, LayerEntry.lintFields.find? (·.name == name) = some field :=
        field_of_name (always (by decide))
      exact not_gives_record_of_twice twice found lint gives
  | output =>
      obtain ⟨path, layer, optional⟩ := read
      obtain ⟨layer, gives⟩ := gives_inside_optional optional
      obtain ⟨field, found⟩ : ∃ field,
        (LayerEntry.outputFields path).find? (·.name == name) = some field :=
        field_of_name (always (by decide))
      exact not_gives_record_of_twice twice found layer gives
  | rule =>
      obtain ⟨path, parts, gives⟩ := read
      obtain ⟨field, found⟩ :
          ∃ field, (RuleEntry.fields LayerEntry.conditionRoom path).find? (·.name == name) =
            some field :=
        field_of_name (always (by decide))
      exact not_gives_record_of_twice twice found parts gives
  | condition =>
      obtain ⟨around, path, condition, gives⟩ := read
      exact ConditionEntry.not_gives_condition_of_twice knows twice condition gives
  | rules => cases always (by decide)
  | free => cases always (by decide)

/-- Settings in which a mapping holds a key twice that it knows are not read, wherever the mapping
is. -/
theorem not_gives_layer_of_repeats {name : String} (repeats : RepeatsKnown root name)
    (layer : Layer) :
    ¬ Gives root (LayerEntry.read path root) layer := by
  obtain ⟨role, label, entries, closed, plays, knows, twice⟩ := repeats
  intro gives
  exact not_is_read_of_twice knows twice (is_read_of_plays ⟨path, layer, gives⟩ plays)

end

end Role

end ManifestLint
