import ManifestLint.Proofs.Config.PaddedRecords
import ManifestLint.Proofs.Yaml.Resolution

/-!
Conditions in padded trees. Their entries are kept as content until the type is known, so a spare
entry is read as content first, wherever it stands, and is looked at afterwards.
-/

namespace ManifestLint

open Yaml

/-- Contents that cannot be told apart unless somebody looks into their collections. -/
inductive Resembles : Content → Content → Prop where
  | atom (value : Atom) : Resembles (.atom value) (.atom value)
  | sequence (items others : List Content) : Resembles (.sequence items) (.sequence others)
  | mapping (entries others : List (Content × Content)) : Resembles (.mapping entries)
      (.mapping others)

def EntryResembles (entry other : Content × Content) : Prop :=
  Resembles entry.1 other.1 ∧ Resembles entry.2 other.2

theorem Resembles.refl (content : Content) : Resembles content content := by
  cases content with
  | atom value => exact .atom value
  | sequence items => exact .sequence items items
  | mapping entries => exact .mapping entries entries

section
variable {trees : Triple Node} {keys : List String} {role : Role} {whole first second : Node}
  {path : Path}

section
variable {reader : Reader Content}

theorem read_content_entries_append (before behind : List (Node × Node)) :
    readContentEntries reader path (before ++ behind) =
      readContentEntries reader path before >>= fun early =>
        readContentEntries reader path behind >>= fun late => pure (early ++ late) := by
  induction before with
  | nil =>
      rw [List.nil_append, readContentEntries, pure_bind]
      exact (bind_pure _).symm
  | cons entry before induction =>
      obtain ⟨key, value⟩ := entry
      rw [List.cons_append, readContentEntries, readContentEntries, induction]
      simp only [bind_assoc, pure_bind, List.cons_append]

theorem gives_content_entry {root : Node} {entries : List (Node × Node)}
    {contents : List (Content × Content)}
    (gives : Gives root (readContentEntries reader path entries) contents) {entry : Node × Node}
    (member : entry ∈ entries) : ∃ content : Content × Content,
      Gives root (reader path entry.1) content.1 ∧
        Gives root (reader (path.under entry.1) entry.2) content.2 := by
  induction entries generalizing contents with
  | nil => cases member
  | cons other entries induction =>
      obtain ⟨key, value⟩ := other
      rw [readContentEntries] at gives
      obtain ⟨keyContent, keyRead, rest⟩ := gives.of_bind
      obtain ⟨content, valueRead, rest⟩ := rest.of_bind
      obtain ⟨others, othersRead, _⟩ := rest.of_bind
      rcases List.mem_cons.1 member with rfl | later
      · exact ⟨(keyContent, content), keyRead, valueRead⟩
      · exact induction othersRead later

/-- A reader of content keeps to what it reads, also where there is less of it. -/
structure ContentKeeps (trees : Triple Node) (keys : List String) (reader : Reader Content) :
    Prop where
  plain : ReadsPlain reader
  keeps : ∀ ⦃role : Role⦄ ⦃whole first second : Node⦄,
    Padded trees.whole keys role whole first second → ∀ path,
      KeepsTo trees keys Resembles (reader path whole) (reader path first) (reader path second)

theorem keeps_to_content_entries (keep : ContentKeeps trees keys reader) {rows : List Row}
    (alike : RowsAlike trees.whole keys role rows) (path : Path) :
    KeepsTo trees keys (fun _ _ => True)
      (readContentEntries reader path (rows.map Row.whole))
      (readContentEntries reader path (rows.filterMap Row.first))
      (readContentEntries reader path (rows.map Row.second)) := by
  induction rows with
  | nil => exact .of_pure trivial
  | cons row rows induction =>
      cases row with
      | alone entry =>
          obtain ⟨keyFree, valueFree⟩ := alike.free entry List.mem_cons_self
          refine .bind_steady (keep.plain keyFree path).steady fun _ _ => ?_
          refine .bind_steady (keep.plain valueFree _).steady fun _ _ => ?_
          exact (induction alike.tail).bind_ended fun _ _ _ _ _ => .of_pure trivial
      | shared whole first second =>
          have keyLike := alike.keysLike _ _ _ List.mem_cons_self
          have valueLike := alike.valuesLike _ _ _ List.mem_cons_self
          obtain ⟨firstUnder, secondUnder⟩ := under_of_padded keyLike path
          refine (keep.keeps keyLike path).bind fun _ _ _ _ _ => ?_
          rw [firstUnder, secondUnder]
          refine (keep.keeps valueLike _).bind fun _ _ _ _ _ => ?_
          exact (induction alike.tail).bind fun _ _ _ _ _ => .of_pure trivial

theorem keeps_to_spare_content (keep : ContentKeeps trees keys reader) {before after : List Row}
    {entry : Node × Node} {others : List (Node × Node)}
    (alike : RowsAlike trees.whole keys role (before ++ after))
    (member : entry ∈ before.filterMap Row.first ++ (others ++ after.filterMap Row.first))
    (free : entry.1.isAliasFree = true ∧ entry.2.isAliasFree = true) (path : Path) :
    KeepsTo trees keys (fun _ _ => True)
      (readContentEntries reader path (before.map Row.whole ++ entry :: after.map Row.whole))
      (readContentEntries reader path
        (before.filterMap Row.first ++ (others ++ after.filterMap Row.first)))
      (readContentEntries reader path (before.map Row.second ++ after.map Row.second)) := by
  refine .of_first fun firstGives => ?_
  obtain ⟨content, keyRead, valueRead⟩ := gives_content_entry firstGives member
  have key := (keep.plain free.1 path).steady.eq_of_gives keyRead
  have value := (keep.plain free.2 _).steady.eq_of_gives valueRead
  rw [read_content_entries_append, read_content_entries_append, read_content_entries_append,
    read_content_entries_append]
  refine (keeps_to_content_entries keep alike.left path).bind fun _ _ _ _ _ => ?_
  rw [readContentEntries, key, pure_bind, value, pure_bind, bind_assoc, bind_assoc]
  refine .bind_first fun _ => ?_
  rw [bind_assoc]
  refine (keeps_to_content_entries keep alike.right path).bind fun _ _ _ _ _ => ?_
  rw [pure_bind, pure_bind]
  exact .of_pure trivial

end

theorem keeps_to_scalar_content (path : Path) (label : Label) (style : Style) (text : String)
    {Other : Type} {first : Reading Other} :
    KeepsTo trees keys Resembles
      (readAtom "any value" path label style text >>= fun atom => pure (.atom atom)) first
      (readAtom "any value" path label style text >>= fun atom => pure (.atom atom)) :=
  .bind_steady (steady_atom "any value" path label style text) fun atom _ => .of_pure (.atom atom)

/-- The induction is on the room: what is inside a collection has less of it. -/
theorem keeps_to_content (room : Nat) : ContentKeeps trees keys (readContent room) := by
  induction room with
  | zero =>
      refine ⟨reads_plain_content 0, fun role whole first second padded path => ?_⟩
      refine keeps_to_follow padded fun {target firstTarget secondTarget} _ padded => ?_
      cases padded with
      | scalar => exact keeps_to_scalar_content path _ _ _
      | jump | broken | sequence | mapping | spare => exact .of_never not_gives_unreadable
  | succ room induction =>
      refine ⟨reads_plain_content (room + 1), fun role whole first second padded path => ?_⟩
      refine keeps_to_follow padded fun {target firstTarget secondTarget} _ padded => ?_
      cases padded with
      | jump | broken => exact .of_never not_gives_unreadable
      | scalar => exact keeps_to_scalar_content path _ _ _
      | sequence items like =>
          have inside :=
            keeps_to_items (fun item member => induction.keeps (like item member)) path 0
          refine .of_refusal not_gives_unreadable (inside.bind fun _ _ _ _ _ => ?_)
          exact .of_closed _ (.of_pure (.sequence _ _))
      | mapping rows free keysLike valuesLike =>
          have inside := keeps_to_content_entries induction ⟨free, keysLike, valuesLike⟩ path
          refine .of_refusal not_gives_unreadable (inside.bind fun _ _ _ _ _ => ?_)
          exact .of_closed _ (.of_pure (.mapping _ _))
      | spare before after entry others free keysLike valuesLike member valueFree text spare =>
          have keyFree : entry.1.isAliasFree = true := by
            obtain ⟨label, style, same, _⟩ := text
            rw [same]
            rfl
          have inside := keeps_to_spare_content induction ⟨free, keysLike, valuesLike⟩ member
            ⟨keyFree, valueFree⟩ path
          refine .of_refusal not_gives_unreadable (inside.bind fun _ _ _ _ _ => ?_)
          exact .of_closed _ (.of_pure (.mapping _ _))

namespace ConditionEntry

theorem keeps_to_kind (padded : Padded trees.whole keys role whole first second) (path : Path) :
    KeepsTo trees keys (· = ·) (readKind path whole) (readKind path first)
      (readKind path second) := by
  refine (keeps_to_text padded "variant identifier" path).bind fun name _ _ same _ => ?_
  subst same
  apply KeepsTo.of_steady
  split
  · exact steady_pure _
  · exact steady_fail _ _

/-- A key is the one of the type in all three mappings, or it is kept in all of them. -/
theorem keeps_to_key {Value Other : Type} {Related : Value → Value → Prop}
    (padded : Padded trees.whole keys role whole first second) (room : Nat) (path : Path)
    {wholeNext secondNext : Option Content → Reading Value}
    {firstNext : Option Content → Reading Other}
    (typed : KeepsTo trees keys Related (wholeNext none) (firstNext none) (secondNext none))
    (kept : ∀ content firstContent secondContent, Resembles content secondContent →
      KeepsTo trees keys Related (wholeNext (some content)) (firstNext (some firstContent))
        (secondNext (some secondContent))) :
    KeepsTo trees keys Related (readKey room path whole >>= wholeNext)
      (readKey room path first >>= firstNext) (readKey room path second >>= secondNext) := by
  rw [readKey, readKey, readKey, bind_assoc, bind_assoc, bind_assoc]
  refine keeps_to_follow padded fun {target firstTarget secondTarget} _ padded => ?_
  have collection : KeepsTo trees keys Related
      ((readContent room path target >>= fun content => pure (some content)) >>= wholeNext)
      ((readContent room path firstTarget >>= fun content => pure (some content)) >>= firstNext)
      ((readContent room path secondTarget >>= fun content => pure (some content)) >>=
        secondNext) := by
    simp only [bind_assoc, pure_bind]
    exact ((keeps_to_content room).keeps padded path).bind fun _ _ _ resembles _ =>
      kept _ _ _ resembles
  cases padded with
  | @scalar _ label style text =>
      dsimp only
      rcases steady_atom "a type tag `type` or any other value" path label style text with
        ⟨atom, same⟩ | ⟨fault, same⟩
      · rw [same, pure_bind, pure_bind, pure_bind]
        by_cases type : atom = .text "type"
        · rw [if_pos type]
          exact typed
        · rw [if_neg type]
          exact kept _ _ _ (.atom atom)
      · rw [same]
        exact .of_never not_gives_throw
  | jump | broken | sequence | mapping | spare => exact collection

def EntriesResemble (read other : Option Kind × List (Content × Content)) : Prop :=
  read.1 = other.1 ∧ List.Forall₂ EntryResembles read.2 other.2

theorem EntriesResemble.cons {read other : Option Kind × List (Content × Content)}
    (resemble : EntriesResemble read other) {entry second : Content × Content}
    (resembles : EntryResembles entry second) :
    EntriesResemble (read.1, entry :: read.2) (other.1, second :: other.2) :=
  ⟨resemble.1, .cons resembles resemble.2⟩

theorem keeps_to_entries {rows : List Row} (alike : RowsAlike trees.whole keys role rows)
    (room : Nat) (path : Path) (kind other : Option Kind) :
    KeepsTo trees keys EntriesResemble (readEntries room path kind (rows.map Row.whole))
      (readEntries room path other (rows.filterMap Row.first))
      (readEntries room path kind (rows.map Row.second)) := by
  induction rows generalizing kind other with
  | nil => exact .of_pure ⟨rfl, .nil⟩
  | cons row rows induction =>
      cases row with
      | alone entry =>
          obtain ⟨keyFree, valueFree⟩ := alike.free entry List.mem_cons_self
          refine .bind_steady (reads_plain_key room keyFree path).steady fun named _ => ?_
          cases named with
          | none =>
              dsimp only
              split
              · exact .of_never not_gives_fail
              · refine .bind_steady (reads_plain_kind valueFree _).steady fun found _ => ?_
                exact induction alike.tail (some found) other
          | some named =>
              refine .bind_steady (reads_plain_content room valueFree _).steady fun content _ => ?_
              exact (induction alike.tail kind other).bind_ended fun _ _ _ rest _ =>
                .of_pure (rest.cons ⟨.refl named, .refl content⟩)
      | shared whole first second =>
          have keyLike := alike.keysLike _ _ _ List.mem_cons_self
          have valueLike := alike.valuesLike _ _ _ List.mem_cons_self
          obtain ⟨firstUnder, secondUnder⟩ := under_of_padded keyLike path
          refine keeps_to_key keyLike room path ?_ fun content _ _ resembles => ?_
          · dsimp only
            rw [firstUnder, secondUnder]
            split
            · exact .of_never not_gives_fail
            split
            · exact .of_never_first not_gives_fail
            refine (keeps_to_kind valueLike _).bind fun found _ _ same _ => ?_
            subst same
            exact induction alike.tail _ _
          · dsimp only
            rw [firstUnder, secondUnder]
            refine ((keeps_to_content room).keeps valueLike _).bind fun _ _ _ valueResembles _ => ?_
            exact (induction alike.tail kind other).bind fun _ _ _ rest _ =>
              .of_pure (rest.cons ⟨resembles, valueResembles⟩)

/-- What becomes of a spare entry with a name: it is kept among the contents, behind one of the same
name if there is one before it. -/
def SpareIsKept (name : String) (named : Prop)
    (read other : Option Kind × List (Content × Content)) : Prop :=
  read.1 = other.1 ∧ ∃ early content late otherEarly otherLate,
    read.2 = early ++ (.atom (.text name), content) :: late ∧ other.2 = otherEarly ++ otherLate ∧
    List.Forall₂ EntryResembles early otherEarly ∧ List.Forall₂ EntryResembles late otherLate ∧
    (named → ∃ content, (.atom (.text name), content) ∈ early)

theorem read_key_of_text_key {root key : Node} {name : String} {room : Nat}
    (text : IsTextKey key name) {found : Option Content}
    (gives : Gives root (readKey room path key) found) :
    readKey room path key = pure (if name = "type" then none else some (.atom (.text name))) := by
  obtain ⟨label, style, rfl, atoms⟩ := text
  have read : readKey room path (.scalar label style name) =
      readAtom "a type tag `type` or any other value" path label style name >>= fun atom =>
        pure (if atom = .text "type" then none else some (.atom atom)) := rfl
  rw [read] at gives ⊢
  obtain ⟨atom, atomRead, _⟩ := gives.of_bind
  rw [(steady_atom _ path label style name).eq_of_gives atomRead, pure_bind,
    atoms atom (atom_of_gives atomRead)]
  simp only [Atom.text.injEq]

theorem gives_at_entry {root : Node} {room : Nat} {kind : Option Kind}
    {entries : List (Node × Node)} {entry : Node × Node}
    {result : Option Kind × List (Content × Content)}
    (gives : Gives root (readEntries room path kind entries) result) (member : entry ∈ entries) :
    ∃ key, Gives root (readKey room path entry.1) key ∧
      ∀ other, key = some other → ∃ content,
        Gives root (readContent room (path.under entry.1) entry.2) content := by
  obtain ⟨earlier, later, rfl⟩ := List.append_of_mem member
  obtain ⟨between, _, _, _, readLater, _⟩ := gives_append gives
  rw [readEntries] at readLater
  obtain ⟨key, keyRead, rest⟩ := readLater.of_bind
  refine ⟨key, keyRead, ?_⟩
  rintro content rfl
  obtain ⟨value, valueRead, _⟩ := rest.of_bind
  exact ⟨value, valueRead⟩

theorem keeps_to_spare_entries {before after : List Row} {entry : Node × Node}
    {others : List (Node × Node)} {name : String}
    (alike : RowsAlike trees.whole keys role (before ++ after))
    (member : entry ∈ before.filterMap Row.first ++ (others ++ after.filterMap Row.first))
    (valueFree : entry.2.isAliasFree = true) (text : IsTextKey entry.1 name)
    (typed : name = "type" → name ∈ keys ∧ ∃ entry ∈ before.map Row.whole,
      Spells trees.whole entry.1 name)
    (room : Nat) (path : Path) :
    KeepsTo trees keys
      (SpareIsKept name (name ∈ Role.allNames ∧ ∃ entry ∈ before.map Row.whole,
        Spells trees.whole entry.1 name))
      (readEntries room path none (before.map Row.whole ++ entry :: after.map Row.whole))
      (readEntries room path none
        (before.filterMap Row.first ++ (others ++ after.filterMap Row.first)))
      (readEntries room path none (before.map Row.second ++ after.map Row.second)) := by
  obtain ⟨key, value⟩ := entry
  dsimp only at valueFree text
  refine .of_first fun firstGives => ?_
  obtain ⟨keyContent, keyRead, valueRead⟩ := gives_at_entry firstGives member
  have named := read_key_of_text_key text keyRead
  rw [named] at keyRead
  obtain rfl := gives_pure_iff.1 keyRead
  rw [read_entries_append, read_entries_append, read_entries_append]
  refine (keeps_to_entries alike.left room path none none).bind
    fun reached firstReached other resembles gives => ?_
  obtain ⟨kind, contents⟩ := reached
  obtain ⟨otherKind, otherContents⟩ := other
  obtain ⟨same, earlyResembles⟩ := resembles
  dsimp only at same earlyResembles ⊢
  subst same
  rw [readEntries, named, pure_bind]
  by_cases type : name = "type"
  · obtain ⟨allowed, row, held, spells⟩ := typed type
    subst type
    obtain ⟨_, found, rfl, _⟩ := gives_at_type held spells gives
    exact .of_repeated allowed
  · rw [if_neg type] at valueRead ⊢
    obtain ⟨content, valueRead⟩ := valueRead _ rfl
    have value := (reads_plain_content room valueFree _).steady.eq_of_gives valueRead
    dsimp only
    rw [value, pure_bind, bind_assoc, read_entries_append, bind_assoc]
    refine .bind_first fun between => ?_
    rw [bind_assoc]
    have late := keeps_to_entries alike.right room path kind between.1
    refine late.bind fun rest _ other resembles _ => ?_
    rw [pure_bind, pure_bind]
    refine .of_pure ⟨resembles.1, contents, content, rest.2, otherContents, other.2, rfl, rfl,
      earlyResembles, resembles.2, ?_⟩
    rintro ⟨known, row, held, spells⟩
    exact content_of_name held known type spells gives

section
variable {kind : Kind}

theorem text_of_resembling {content other : Content} (resembles : Resembles content other) :
    textOf path content = textOf path other := by
  cases resembles <;> rfl

theorem field_of_resembling {content other : Content} (resembles : Resembles content other) :
    fieldOf path kind content = fieldOf path kind other := by
  cases resembles <;> rfl

theorem read_needle_of_resembling {entry other : Content × Content}
    (resembles : EntryResembles entry other) (found : List (String × String)) :
    readNeedle path kind found entry = readNeedle path kind found other := by
  rw [readNeedle, readNeedle, field_of_resembling resembles.1, text_of_resembling resembles.2]

theorem needles_of_resembling {entries others : List (Content × Content)}
    (resemble : List.Forall₂ EntryResembles entries others) (found : List (String × String)) :
    entries.foldlM (readNeedle path kind) found = others.foldlM (readNeedle path kind) found := by
  induction resemble generalizing found with
  | nil => rfl
  | cons resembles _ induction =>
      rw [List.foldlM_cons, List.foldlM_cons, read_needle_of_resembling resembles]
      exact bind_congr induction

theorem keeps_to_contents {Other : Type} {contents others : List (Content × Content)}
    (resemble : List.Forall₂ EntryResembles contents others) {first : Reading Other} :
    KeepsTo trees keys (· = ·) (ofEntries path kind contents) first
      (ofEntries path kind others) := by
  rw [of_entries_eq, of_entries_eq, needles_of_resembling resemble]
  refine .of_steady ?_
  exact (steady_needles _ _).bind fun found => (steady_pick found _).bind steady_finish

/-- A spare needle is passed over when it is none of the kind, and otherwise it is refused. -/
theorem keeps_to_spare_contents {Other : Type} {name : String} {content : Content}
    {early late otherEarly otherLate : List (Content × Content)}
    (earlyResembles : List.Forall₂ EntryResembles early otherEarly)
    (lateResembles : List.Forall₂ EntryResembles late otherLate)
    (known : name ∈ kind.fields → name ∈ keys ∧ ∃ content, (.atom (.text name), content) ∈ early)
    {first : Reading Other} :
    KeepsTo trees keys (· = ·)
      (ofEntries path kind (early ++ (.atom (.text name), content) :: late)) first
      (ofEntries path kind (otherEarly ++ otherLate)) := by
  rw [of_entries_eq, of_entries_eq, List.foldlM_append, List.foldlM_append,
    needles_of_resembling earlyResembles, bind_assoc, bind_assoc]
  refine .bind_steady (steady_needles _ _) fun reached read => ?_
  rw [List.foldlM_cons, bind_assoc]
  by_cases field : name ∈ kind.fields
  · obtain ⟨allowed, earlier, member⟩ := known field
    rw [← needles_of_resembling earlyResembles] at read
    have gives : Gives trees.whole (early.foldlM (readNeedle path kind) []) reached := by
      rw [read]
      exact gives_pure_iff.2 rfl
    have seen := needle_seen_of_fold member field gives
    have refused : readNeedle path kind reached (.atom (.text name), content) =
        fail path (.repeatedField name) := by
      rw [readNeedle, field_of_text, if_pos (List.contains_iff_mem.2 field), pure_bind]
      exact if_pos seen
    rw [refused]
    exact .of_repeated allowed
  · have passed : readNeedle path kind reached (.atom (.text name), content) = pure reached := by
      rw [readNeedle, field_of_text, if_neg fun member => field (List.contains_iff_mem.1 member),
        pure_bind]
    rw [passed, pure_bind, needles_of_resembling lateResembles]
    exact .of_steady ((steady_needles _ _).bind fun found =>
      (steady_pick found _).bind steady_finish)

theorem in_order_of_resembling {contents others : List Content}
    (resemble : List.Forall₂ Resembles contents others) (total found : Nat) (fields : List String) :
    needlesInOrder path kind total found fields contents =
      needlesInOrder path kind total found fields others := by
  induction resemble generalizing found fields with
  | nil => rfl
  | cons resembles _ induction =>
      cases fields with
      | nil => rfl
      | cons field fields =>
          rw [needlesInOrder, needlesInOrder, text_of_resembling resembles]
          refine bind_congr fun needle => ?_
          rw [induction]

theorem keeps_to_order {Other : Type} {contents others : List Content}
    (resemble : List.Forall₂ Resembles contents others) {first : Reading Other} :
    KeepsTo trees keys (· = ·) (ofContents path kind contents) first
      (ofContents path kind others) := by
  rw [ofContents, ofContents, in_order_of_resembling resemble, resemble.length_eq]
  exact .of_steady ((steady_in_order _ _ _ _).bind steady_finish)

end

theorem text_of_atom {tag : Option (List UInt8)} {style : Style} {text name : String}
    (found : Atom.ofScalar tag style text = .ok (.text name)) : text = name := by
  have plain (same : Atom.ofPlain text = .text name) : text = name := by
    by_cases typed : TypedForm text
    · exact absurd same (of_plain_of_typed typed name)
    · rw [of_plain_of_untyped typed] at same
      exact Atom.text.inj same
  have other (same : Atom.text text = .text name) : text = name := Atom.text.inj same
  unfold Atom.ofScalar at found
  split at found
  · split at found
    · exact plain (Except.ok.inj found)
    · exact other (Except.ok.inj found)
  split at found
  · cases value : booleanOf? text <;> rw [value] at found <;> cases found
  split at found
  · cases value : Atom.ofInteger? text with
    | none =>
        rw [value] at found
        cases found
    | some atom =>
        rw [value] at found
        have number : (Atom.ofInteger? text).or (Atom.ofFloat? text) = some atom := by
          rw [value, Option.some_or]
        exact absurd (Except.ok.inj found) (number_is_no_text number)
  split at found
  · cases value : Literal.float text.toList <;> rw [value] at found <;> cases found
  split at found
  · split at found <;> cases found
  split at found
  · exact plain (Except.ok.inj found)
  · exact other (Except.ok.inj found)

theorem spells_of_follow {node : Node} {label : Label} {style : Style} {text : String}
    (gives : Gives root (follow node) (.scalar label style text)) : Spells root node text := by
  match node with
  | .alias number => exact ⟨label, style, gives_follow_alias gives⟩
  | .scalar _ _ _ =>
      cases gives_pure_iff.1 gives
      rfl
  | .sequence _ _ _ => cases gives_pure_iff.1 gives
  | .mapping _ _ _ => cases gives_pure_iff.1 gives
  | .broken => cases gives_pure_iff.1 gives

theorem spells_of_type {room : Nat} {key : Node} (gives : Gives root (readKey room path key) none) :
    Spells root key "type" := by
  rw [readKey] at gives
  obtain ⟨target, followed, read⟩ := gives.of_bind
  split at read
  · obtain ⟨atom, found, same⟩ := read.of_map
    split at same
    · rename_i typed
      subst typed
      rw [← text_of_atom (atom_of_gives found)]
      exact spells_of_follow followed
    · cases same
  · obtain ⟨_, _, same⟩ := read.of_map
    cases same

theorem spells_of_kind {place : Path} {value : Node} {kind : Kind}
    (gives : Gives root (readKind place value) kind) :
    ∃ name, Spells root value name ∧ Kind.ofName? name = some kind := by
  rw [readKind] at gives
  obtain ⟨name, named, read⟩ := gives.of_bind
  refine ⟨name, ?_, ?_⟩
  · rw [readTextAs] at named
    obtain ⟨target, followed, text⟩ := named.of_bind
    split at text
    · rw [← gives_pure_iff.1 text]
      exact spells_of_follow followed
    · exact absurd text not_gives_refuse
  · split at read
    · rw [← gives_pure_iff.1 read]
      assumption
    · exact absurd read not_gives_fail

theorem typed_of_kind {room : Nat} {entries : List (Node × Node)} {kind : Kind}
    {contents : List (Content × Content)}
    (gives : Gives root (readEntries room path none entries) (some kind, contents)) :
    ∃ entry ∈ entries, Spells root entry.1 "type" ∧
      ∃ name, Spells root entry.2 name ∧ Kind.ofName? name = some kind := by
  induction entries generalizing contents with
  | nil => cases gives_pure_iff.1 gives
  | cons entry entries induction =>
      obtain ⟨key, value⟩ := entry
      rw [readEntries] at gives
      obtain ⟨named, keyRead, read⟩ := gives.of_bind
      cases named with
      | none =>
          obtain ⟨found, kindRead, rest⟩ := read.of_bind
          cases kind_stays rest
          exact ⟨_, List.mem_cons_self, spells_of_type keyRead, spells_of_kind kindRead⟩
      | some named =>
          obtain ⟨content, _, rest⟩ := read.of_bind
          obtain ⟨⟨last, behind⟩, readRest, same⟩ := rest.of_map
          cases same
          obtain ⟨entry, member, typed⟩ := induction readRest
          exact ⟨entry, List.mem_cons_of_mem _ member, typed⟩

theorem kind_of_excuse {kind : Kind} (excused : "unless" ∈ kind.fields) {name : String}
    (named : Kind.ofName? name = some kind) : name = "contains_without" := by
  cases kind with
  | missing => exact absurd excused (by decide)
  | contains => exact absurd excused (by decide)
  | containsWithout =>
      unfold Kind.ofName? at named
      split at named
      · cases named
      split at named
      · cases named
      split at named
      · assumption
      · cases named

/-- The fields of the kind that is read are keys that the condition knows. -/
theorem knows_of_field {room : Nat} {entries : List (Node × Node)} {kind : Kind}
    {contents : List (Content × Content)}
    (gives : Gives root (readEntries room path none entries) (some kind, contents)) {name : String}
    (field : name ∈ kind.fields) : Role.condition.Knows root entries name := by
  have cases_of_name : name = "needle" ∨ name = "unless" := by
    revert name
    cases kind <;> decide
  rcases cases_of_name with rfl | rfl
  · exact .inl (by decide)
  · obtain ⟨entry, member, typed, text, spells, named⟩ := typed_of_kind gives
    rw [kind_of_excuse field named] at spells
    exact .inr ⟨rfl, rfl, entry, member, typed, spells⟩

theorem keeps_to_read {Other : Type} {around : Path} {closed : Bool} {kind : Option Kind}
    {contents others : List (Content × Content)} {first : Reading Other}
    (keeps : ∀ found, kind = some found →
      KeepsTo trees keys (· = ·) (ofEntries around found contents) first
      (ofEntries around found others)) :
    KeepsTo trees keys (· = ·) (ofRead around path closed (kind, contents)) first
      (ofRead around path closed (kind, others)) := by
  unfold ofRead
  split
  · exact .of_never not_gives_unreadable
  cases kind with
  | none => exact .of_never not_gives_fail
  | some found => exact keeps found rfl

theorem keeps_to_spare_condition {before after : List Row} {entry : Node × Node}
    {others : List (Node × Node)} {name : String}
    (alike : RowsAlike trees.whole keys .condition (before ++ after))
    (member : entry ∈ before.filterMap Row.first ++ (others ++ after.filterMap Row.first))
    (valueFree : entry.2.isAliasFree = true) (text : IsTextKey entry.1 name)
    (spare : IsSpare trees.whole keys .condition (before.map Row.whole)
      (before.map Row.whole ++ entry :: after.map Row.whole) name) (room : Nat)
    (around path : Path) (closed : Bool) :
    KeepsTo trees keys (· = ·)
      (readEntries room path none (before.map Row.whole ++ entry :: after.map Row.whole) >>=
        ofRead around path closed)
      (readEntries room path none
        (before.filterMap Row.first ++ (others ++ after.filterMap Row.first)) >>=
        ofRead around path closed)
      (readEntries room path none (before.map Row.second ++ after.map Row.second) >>=
        ofRead around path closed) := by
  have known (knows : Role.condition.Knows trees.whole
      (before.map Row.whole ++ entry :: after.map Row.whole) name) :
      name ∈ keys ∧ ∃ entry ∈ before.map Row.whole, Spells trees.whole entry.1 name := by
    rcases spare with named | ⟨_, unknown⟩
    · exact named
    · exact absurd knows unknown
  have typed (same : name = "type") : name ∈ keys ∧ ∃ entry ∈ before.map Row.whole,
      Spells trees.whole entry.1 name := by
    refine known (.inl ?_)
    rw [same]
    decide
  refine (keeps_to_spare_entries alike member valueFree text typed room path).bind
    fun found _ other kept gives => ?_
  obtain ⟨kind, contents⟩ := found
  obtain ⟨otherKind, otherContents⟩ := other
  obtain ⟨same, early, content, late, otherEarly, otherLate, split, otherSplit, earlyResembles,
    lateResembles, repeated⟩ := kept
  dsimp only at same split otherSplit
  subst same split otherSplit
  refine keeps_to_read ?_
  rintro kind rfl
  refine keeps_to_spare_contents earlyResembles lateResembles fun field => ?_
  have knows := knows_of_field gives field
  obtain ⟨allowed, earlier⟩ := known knows
  exact ⟨allowed, repeated ⟨Role.mem_all_names knows, earlier⟩⟩

theorem keeps_to_condition (padded : Padded trees.whole keys .condition whole first second)
    (room : Nat) (around path : Path) :
    KeepsTo trees keys (· = ·) (read room around path whole) (read room around path first)
      (read room around path second) := by
  refine keeps_to_follow padded fun {target firstTarget secondTarget} _ padded => ?_
  cases padded with
  | jump | broken => exact .of_never not_gives_refuse
  | scalar => exact .of_refusal not_gives_fail (.of_never not_gives_refuse)
  | sequence items like =>
      cases items with
      | nil => exact .of_refusal not_gives_fail (.of_closed _ (.of_never not_gives_fail))
      | cons item items =>
          rw [List.forall_mem_cons] at like
          refine .of_refusal not_gives_fail
            ((keeps_to_kind like.1 _).bind fun kind _ _ same _ => ?_)
          subst same
          have inside := keeps_to_items
            (fun item member => (keeps_to_content room).keeps (like.2 item member)) path 1
          exact inside.bind fun _ _ _ resemble _ => .of_closed _ (keeps_to_order resemble)
  | mapping rows free keysLike valuesLike =>
      have inside := keeps_to_entries ⟨free, keysLike, valuesLike⟩ room path none none
      refine .of_refusal not_gives_fail (inside.bind fun found _ other resemble _ => ?_)
      obtain ⟨kind, contents⟩ := found
      obtain ⟨otherKind, otherContents⟩ := other
      obtain ⟨same, resemble⟩ := resemble
      dsimp only at same resemble
      subst same
      exact keeps_to_read fun _ _ => keeps_to_contents resemble
  | spare before after entry others free keysLike valuesLike member valueFree text spare =>
      exact .of_refusal not_gives_fail (keeps_to_spare_condition ⟨free, keysLike, valuesLike⟩ member
        valueFree text spare room around path _)

end ConditionEntry

end

end ManifestLint
