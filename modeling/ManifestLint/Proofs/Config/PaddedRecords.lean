import ManifestLint.Proofs.Config.Padding

/-!
Values, sequences and records in padded trees. An alias is followed in all three, and what it stands
for is padded again.
-/

namespace ManifestLint

open Yaml

section
variable {Value Other : Type} {trees : Triple Node} {keys : List String} {role : Role}
  {whole first second : Node} {Related : Value → Value → Prop}

/-- What a reading begins with is padded when an alias in its place was followed. Only where keys
are repeated is there anything to follow. -/
theorem keeps_to_follow (padded : Padded trees.whole keys role whole first second)
    {wholeNext secondNext : Node → Reading Value} {firstNext : Node → Reading Other}
    (goes : ∀ {target firstTarget secondTarget : Node}, target = whole ∨ keys ≠ [] →
      Padded trees.whole keys role target firstTarget secondTarget →
      KeepsTo trees keys Related (wholeNext target) (firstNext firstTarget)
        (secondNext secondTarget)) :
    KeepsTo trees keys Related (follow whole >>= wholeNext) (follow first >>= firstNext)
      (follow second >>= secondNext) := by
  cases padded with
  | @jump _ number =>
      intro linked other value left after firstGives secondRun more enough
      obtain ⟨firstTarget, firstFollowed, firstEnds⟩ := firstGives.of_bind
      have firstOwner := gives_follow_alias firstFollowed
      rw [run_bind, bind_eq_ok_iff] at secondRun
      obtain ⟨⟨secondTarget, reached⟩, secondFollowed, secondEnds⟩ := secondRun
      have secondOwner := gives_follow_alias ⟨left, reached, secondFollowed⟩
      obtain ⟨repeated, target, other, owner, padded⟩ := linked firstOwner secondOwner
      cases left with
      | zero => cases secondFollowed
      | succ left =>
          obtain ⟨more, rfl⟩ := Nat.exists_eq_add_of_le' enough
          rw [run_follow_alias secondOwner] at secondFollowed
          cases secondFollowed
          rw [run_bind, ← Nat.add_assoc, run_follow_alias owner]
          exact goes (.inr repeated) (padded.any_role repeated role) linked firstEnds secondEnds _
            (Nat.le_add_left _ _)
  | broken => exact goes (.inl rfl) .broken
  | scalar => exact goes (.inl rfl) .scalar
  | sequence items like => exact goes (.inl rfl) (.sequence items like)
  | mapping rows free keysLike valuesLike =>
      exact goes (.inl rfl) (.mapping rows free keysLike valuesLike)
  | spare before after entry others free keysLike valuesLike member valueFree text spare =>
      exact goes (.inl rfl)
        (.spare before after entry others free keysLike valuesLike member valueFree text spare)

/-- The name that a key gives, and what the role of its value has to do with it. -/
theorem keeps_to_named (padded : Padded trees.whole keys .free whole first second)
    (expected : String) (path : Path) {wholeNext secondNext : String → Reading Value}
    {firstNext : String → Reading Other}
    (goes : ∀ text, (∀ role : Role, role.valueOf whole = role.under text) ∨ keys ≠ [] →
      KeepsTo trees keys Related (wholeNext text) (firstNext text) (secondNext text)) :
    KeepsTo trees keys Related (readTextAs expected path whole >>= wholeNext)
      (readTextAs expected path first >>= firstNext)
      (readTextAs expected path second >>= secondNext) := by
  rw [readTextAs, readTextAs, readTextAs, bind_assoc, bind_assoc, bind_assoc]
  refine keeps_to_follow padded fun {target firstTarget secondTarget} direct padded => ?_
  have never {Rest : Type} {node root : Node} {value : Rest} {next : String → Reading Rest}
      (refused : ∀ {root text}, ¬ Gives root (refuse expected path node : Reading String) text) :
      ¬ Gives root (refuse expected path node >>= next) value := by
    intro gives
    obtain ⟨_, read, _⟩ := gives.of_bind
    exact refused read
  cases padded with
  | @scalar _ label style text =>
      refine goes text (direct.imp_left fun same => ?_)
      subst same
      exact fun _ => rfl
  | jump | broken | sequence | mapping | spare => exact .of_never (never not_gives_refuse)

theorem keeps_to_text (padded : Padded trees.whole keys role whole first second) (expected : String)
    (path : Path) :
    KeepsTo trees keys (· = ·) (readTextAs expected path whole) (readTextAs expected path first)
      (readTextAs expected path second) := by
  refine keeps_to_follow padded fun {target firstTarget secondTarget} _ padded => ?_
  cases padded with
  | scalar => exact .of_pure rfl
  | jump | broken | sequence | mapping | spare => exact .of_never not_gives_refuse

theorem keeps_to_boolean (padded : Padded trees.whole keys role whole first second) (path : Path) :
    KeepsTo trees keys (· = ·) (readBoolean path whole) (readBoolean path first)
      (readBoolean path second) := by
  refine keeps_to_follow padded fun {target firstTarget secondTarget} _ padded => ?_
  cases padded with
  | @scalar _ label style text => exact .of_steady (steady_boolean_of_scalar path label style text)
  | jump | broken | sequence | mapping | spare => exact .of_never not_gives_refuse

/-- A collection is no format, whatever its tag names. -/
theorem not_gives_format {path : Path} {tree node : Node} {tag : Option (List UInt8)}
    {format : OutputFormat} {named : String → Reading OutputFormat} :
    ¬ Gives tree (match localTag? tag with
      | none => refuse "a YAML tag starting with '!'" path node
      | some name => named name >>= fun _ => refuse "unit" path node) format := by
  split
  · exact not_gives_refuse
  · intro gives
    obtain ⟨_, _, refused⟩ := gives.of_bind
    exact not_gives_refuse refused

theorem keeps_to_format (padded : Padded trees.whole keys role whole first second)
    (around path : Path) :
    KeepsTo trees keys (· = ·) (LayerEntry.readFormat around path whole)
      (LayerEntry.readFormat around path first)
      (LayerEntry.readFormat around path second) := by
  refine keeps_to_follow padded fun {target firstTarget secondTarget} _ padded => ?_
  cases padded with
  | @scalar _ label style text =>
      exact .of_steady (LayerEntry.steady_format_of_scalar around path label style text)
  | jump | broken => exact .of_never not_gives_refuse
  | sequence | mapping | spare => exact .of_never not_gives_format

theorem keeps_to_optional {reader : Reader Value} {path : Path}
    (padded : Padded trees.whole keys role whole first second)
    (keeps : ∀ {whole first second : Node}, Padded trees.whole keys role whole first second →
      KeepsTo trees keys (· = ·) (reader path whole) (reader path first) (reader path second))
    (around : Path) :
    KeepsTo trees keys (· = ·) (readOptional around reader path whole)
      (readOptional around reader path first)
      (readOptional around reader path second) := by
  refine keeps_to_follow padded fun {target firstTarget secondTarget} _ padded => ?_
  have some : KeepsTo trees keys (· = ·) (reader path target >>= fun value => pure (some value))
      (reader path firstTarget >>= fun value => pure (some value))
      (reader path secondTarget >>= fun value => pure (some value)) :=
    (keeps padded).map fun _ _ => congrArg some
  cases padded with
  | @scalar _ label style text =>
      cases style with
      | plain =>
          dsimp only
          split
          · split
            · exact .of_pure rfl
            · exact .of_never not_gives_fail
          · split
            · exact .of_pure rfl
            · exact some
      | _ => exact some
  | jump | broken | sequence | mapping | spare => exact some

theorem keeps_to_items {reader : Reader Value} {items : List (Triple Node)}
    (keeps : ∀ item ∈ items, ∀ path,
      KeepsTo trees keys Related (reader path item.whole) (reader path item.first)
        (reader path item.second)) (path : Path) (index : Nat) :
    KeepsTo trees keys (List.Forall₂ Related) (readItems reader path index (items.map (·.whole)))
      (readItems reader path index (items.map (·.first)))
      (readItems reader path index (items.map (·.second))) := by
  induction items generalizing index with
  | nil => exact .of_pure .nil
  | cons item items induction =>
      rw [List.forall_mem_cons] at keeps
      refine (keeps.1 (path.item index)).bind fun value _ other related _ => ?_
      exact (induction keeps.2 (index + 1)).bind fun _ _ _ rest _ => .of_pure (.cons related rest)

theorem keeps_to_sequence {reader : Reader Value}
    (padded : Padded trees.whole keys role whole first second)
    (keeps : ∀ {whole first second : Node},
      Padded trees.whole keys role.item whole first second → ∀ path,
        KeepsTo trees keys (· = ·) (reader path whole) (reader path first) (reader path second))
    (path : Path) :
    KeepsTo trees keys (· = ·) (readSequence reader path whole) (readSequence reader path first)
      (readSequence reader path second) := by
  refine keeps_to_follow padded fun {target firstTarget secondTarget} _ padded => ?_
  cases padded with
  | @scalar _ label style text =>
      by_cases omitted : isOmitted (.scalar label style text) = true
      · dsimp only
        rw [if_pos omitted]
        exact .of_pure rfl
      · dsimp only
        rw [if_neg omitted]
        exact .of_never not_gives_refuse
  | @sequence _ label closed items like =>
      have inside := keeps_to_items (fun item member => keeps (like item member)) path 0
      rw [List.forall₂_eq_eq_eq] at inside
      exact inside.bind fun values _ others same _ => .of_closed closed (.of_pure same)
  | jump | broken => exact .of_never not_gives_unreadable
  | mapping | spare => exact .of_never not_gives_fail

end

section
variable {trees : Triple Node} {keys : List String} {role : Role} {Record : Type}
  {fields : List (FieldReader Record)} {path : Path}

/-- Each field reads what it is given and puts it into a record, whatever is in it. -/
def FieldsKeep (trees : Triple Node) (keys : List String) (role : Role)
    (fields : List (FieldReader Record)) : Prop :=
  ∀ name field, fields.find? (·.name == name) = some field → ∀ ⦃whole first second : Node⦄,
    Padded trees.whole keys (role.under name) whole first second →
    ∀ (path : Path) (record other : Record),
      KeepsTo trees keys (· = ·) (field.read path whole record) (field.read path first other)
        (field.read path second record)

theorem under_of_padded {whole first second root : Node}
    (padded : Padded root keys role whole first second) (path : Path) :
    path.under first = path.under whole ∧ path.under second = path.under whole := by
  cases padded <;> exact ⟨rfl, rfl⟩

theorem keeps_to_entry (keep : FieldsKeep trees keys role fields)
    {whole first second : Node × Node}
    (keyLike : Padded trees.whole keys .free whole.1 first.1 second.1)
    (valueLike : Padded trees.whole keys (role.valueOf whole.1) whole.2 first.2 second.2)
    (state other : List String × Record) :
    KeepsTo trees keys (· = ·) (readEntry fields path state whole)
      (readEntry fields path other first)
      (readEntry fields path state second) := by
  obtain ⟨firstUnder, secondUnder⟩ := under_of_padded keyLike path
  refine keeps_to_named keyLike _ _ fun text direct => ?_
  cases found : fields.find? (·.name == text) with
  | none =>
      dsimp only
      cases firstWhole : first.2.isWhole with
      | false => exact .of_never_first not_gives_unreadable
      | true =>
          cases secondWhole : second.2.isWhole with
          | false => exact .of_never not_gives_unreadable
          | true =>
              rw [is_whole_of_padded valueLike firstWhole secondWhole]
              exact .of_pure rfl
  | some field =>
      have value : Padded trees.whole keys (role.under text) whole.2 first.2 second.2 := by
        rcases direct with same | repeated
        · rw [← same]
          exact valueLike
        · exact valueLike.any_role repeated _
      dsimp only
      rw [firstUnder, secondUnder]
      split
      · exact .of_never not_gives_fail
      split
      · exact .of_never_first not_gives_fail
      exact (keep text field found value _ _ _).map fun _ _ => congrArg _

theorem steady_entry (plain : FieldsPlain fields) {entry : Node × Node}
    (free : entry.1.isAliasFree = true ∧ entry.2.isAliasFree = true)
    (state : List String × Record) : Steady (readEntry fields path state entry) := by
  refine (reads_plain_text _ free.1 path).steady.bind fun name => ?_
  split
  · next field found =>
    split
    · exact steady_fail _ _
    · exact (plain field (List.mem_of_find?_eq_some found) _ free.2 _).steady.bind fun _ =>
        steady_pure _
  · split
    · exact steady_pure _
    · exact steady_unreadable

theorem keeps_to_fold (keep : FieldsKeep trees keys role fields) (plain : FieldsPlain fields)
    {rows : List Row} (alike : RowsAlike trees.whole keys role rows) (path : Path)
    (state other : List String × Record) :
    KeepsTo trees keys (· = ·) ((rows.map Row.whole).foldlM (readEntry fields path) state)
      ((rows.filterMap Row.first).foldlM (readEntry fields path) other)
      ((rows.map Row.second).foldlM (readEntry fields path) state) := by
  induction rows generalizing state other with
  | nil => exact .of_pure rfl
  | cons row rows induction =>
      rw [List.map_cons, List.map_cons, List.foldlM_cons, List.foldlM_cons]
      cases row with
      | alone entry =>
          refine .bind_steady (steady_entry plain (alike.free entry List.mem_cons_self) state)
            fun after _ => ?_
          exact induction alike.tail after other
      | shared whole first second =>
          have keyLike := alike.keysLike _ _ _ List.mem_cons_self
          have valueLike := alike.valuesLike _ _ _ List.mem_cons_self
          refine (keeps_to_entry keep keyLike valueLike state other).bind
            fun after earlier _ same _ => ?_
          rw [← same]
          exact induction alike.tail after earlier

theorem whole_of_unknown {tree : Node} {state after : List String × Record} {entry : Node × Node}
    {name : String} (gives : Gives tree (readEntry fields path state entry) after)
    (spells : Spells tree entry.1 name) (unknown : fields.find? (·.name == name) = none) :
    entry.2.isWhole = true := by
  rw [readEntry] at gives
  obtain ⟨text, named, read⟩ := gives.of_bind
  rw [text_of_spells spells named, unknown] at read
  dsimp only at read
  split at read
  · assumption
  · exact absurd read not_gives_unreadable

theorem read_scalar_entry (state : List String × Record) (label : Label) (style : Style)
    (name : String) (value : Node) :
    readEntry fields path state (.scalar label style name, value) =
      match fields.find? (·.name == name) with
      | some field =>
          if state.1.contains name then fail path (.repeatedField name)
          else do
            let record ← field.read (path.key name) value state.2
            return (name :: state.1, record)
      | none => if value.isWhole then return state else unreadable := rfl

/-- A spare entry is passed over, or it is refused. -/
theorem keeps_to_spare_fold (keep : FieldsKeep trees keys role fields) (plain : FieldsPlain fields)
    (named : fields.map (·.name) = role.names) {before after : List Row} {entry : Node × Node}
    {others : List (Node × Node)} {name : String}
    (alike : RowsAlike trees.whole keys role (before ++ after))
    (member : entry ∈ before.filterMap Row.first ++ (others ++ after.filterMap Row.first))
    (text : IsTextKey entry.1 name)
    (spare : IsSpare trees.whole keys role (before.map Row.whole)
      (before.map Row.whole ++ entry :: after.map Row.whole) name)
    (state other : List String × Record) :
    KeepsTo trees keys (· = ·)
      ((before.map Row.whole ++ entry :: after.map Row.whole).foldlM (readEntry fields path) state)
      ((before.filterMap Row.first ++ (others ++ after.filterMap Row.first)).foldlM
        (readEntry fields path) other)
      ((before.map Row.second ++ after.map Row.second).foldlM (readEntry fields path) state) := by
  obtain ⟨key, value⟩ := entry
  obtain ⟨label, style, same, _⟩ := text
  dsimp only at same
  subst same
  refine .of_first fun firstGives => ?_
  obtain ⟨_, _, read⟩ := gives_fold_of_mem member firstGives
  rw [List.foldlM_append, List.foldlM_append, List.foldlM_append]
  have early := keeps_to_fold keep plain alike.left path state other
  refine early.bind fun reached earlier _ same gives => ?_
  subst same
  rw [List.foldlM_cons, List.foldlM_append]
  have late := keeps_to_fold keep plain alike.right path reached
  cases found : fields.find? (·.name == name) with
  | none =>
      have passed : readEntry fields path reached (.scalar label style name, value) =
          pure reached := by
        rw [read_scalar_entry, found]
        exact if_pos (whole_of_unknown read rfl found)
      rw [passed, pure_bind]
      exact .bind_first late
  | some field =>
      have fieldName : name ∈ role.names := by
        rw [← named]
        have same := List.find?_some found
        rw [beq_iff_eq] at same
        rw [← same]
        exact List.mem_map_of_mem (List.mem_of_find?_eq_some found)
      rcases spare with ⟨allowed, earlierEntry, held, spells⟩ | ⟨_, unknown⟩
      · have seen := name_seen_of_fold gives held spells found
        have refused : readEntry fields path reached (.scalar label style name, value) =
            fail path (.repeatedField name) := by
          rw [read_scalar_entry, found]
          exact if_pos (List.contains_iff_mem.2 seen)
        rw [refused]
        exact .of_repeated allowed
      · exact absurd (.inl fieldName) unknown

theorem read_closed_entries (initial : Record) (entries : List (Node × Node)) (closed : Bool) :
    (readEntries fields path [] initial entries >>= fun record =>
      if closed then pure record else unreadable) =
      entries.foldlM (readEntry fields path) ([], initial) >>= fun state =>
        if closed then pure state.2 else unreadable := by
  rw [read_entries_eq_fold, bind_assoc]
  simp only [pure_bind]

theorem keeps_to_record (keep : FieldsKeep trees keys role fields) (plain : FieldsPlain fields)
    (named : fields.map (·.name) = role.names) (title : String) (initial : Record)
    {whole first second : Node} (padded : Padded trees.whole keys role whole first second)
    (path : Path) :
    KeepsTo trees keys (· = ·) (readRecord title fields initial path whole)
      (readRecord title fields initial path first)
      (readRecord title fields initial path second) := by
  refine keeps_to_follow padded fun {target firstTarget secondTarget} _ padded => ?_
  cases padded with
  | @scalar _ label style text =>
      by_cases omitted : isOmitted (.scalar label style text) = true
      · dsimp only
        rw [if_pos omitted]
        exact .of_pure rfl
      · dsimp only
        rw [if_neg omitted]
        exact .of_never not_gives_refuse
  | mapping rows free keysLike valuesLike =>
      dsimp only
      rw [read_closed_entries, read_closed_entries, read_closed_entries]
      refine (keeps_to_fold keep plain ⟨free, keysLike, valuesLike⟩ path _ _).bind
        fun state _ _ same _ => ?_
      subst same
      exact .of_closed _ (.of_pure rfl)
  | spare before after entry others free keysLike valuesLike member valueFree text spare =>
      dsimp only
      rw [read_closed_entries, read_closed_entries, read_closed_entries]
      have alike : RowsAlike trees.whole keys role (before ++ after) := ⟨free, keysLike, valuesLike⟩
      refine (keeps_to_spare_fold keep plain named alike member text spare _ _).bind
        fun state _ _ same _ => ?_
      subst same
      exact .of_closed _ (.of_pure rfl)
  | jump | broken => exact .of_never not_gives_unreadable
  | sequence => exact .of_never not_gives_fail

end

end ManifestLint
