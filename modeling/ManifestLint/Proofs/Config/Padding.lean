import ManifestLint.Proofs.Config.AliasFreeSettings

/-!
Trees that are alike but for spare entries. Where two of them are read, a third one that has one
more entry here and there is read with the same result, or the entry is refused as a repeated one.
What two aliases of one number stand for is alike as well.
-/

namespace ManifestLint

open Yaml

def IsTextKey (node : Node) (name : String) : Prop :=
  ∃ label style, node = .scalar label style name ∧
    ∀ atom, Atom.ofScalar label.tag style name = .ok atom → atom = .text name

def Role.valueOf (role : Role) : Node → Role
  | .scalar _ _ text => role.under text
  | _ => .free

structure Triple (Part : Type) where
  whole : Part
  first : Part
  second : Part

/-- An entry of three mappings, or one of the whole and the second mapping alone. -/
inductive Row where
  | shared (whole first second : Node × Node)
  | alone (entry : Node × Node)

namespace Row

def whole : Row → Node × Node
  | shared whole _ _ => whole
  | alone entry => entry

def first : Row → Option (Node × Node)
  | shared _ first _ => some first
  | alone _ => none

def second : Row → Node × Node
  | shared _ _ second => second
  | alone entry => entry

end Row

/-- A spare entry repeats one of the keys. Where there are none, its mapping does not know it. -/
def IsSpare (root : Node) (keys : List String) (role : Role) (earlier entries : List (Node × Node))
    (name : String) : Prop :=
  name ∈ keys ∧ (∃ entry ∈ earlier, Spells root entry.1 name) ∨
    keys = [] ∧ ¬ role.Knows root entries name

/-- Nodes that differ in a spare entry of the whole one of the three in some mappings. The second
mapping has no such entry, and the first one has it somewhere. Entries without a like in the first
mapping have no aliases, nor have spare ones. -/
inductive Padded (root : Node) (keys : List String) : Role → Node → Node → Node → Prop where
  | jump {role : Role} {number : Nat} :
      Padded root keys role (.alias number) (.alias number) (.alias number)
  | broken {role : Role} : Padded root keys role .broken .broken .broken
  | scalar {role : Role} {label : Label} {style : Style} {text : String} :
      Padded root keys role (.scalar label style text) (.scalar label style text)
        (.scalar label style text)
  | sequence {role : Role} {label : Label} {closed : Bool} (items : List (Triple Node))
      (like : ∀ item ∈ items, Padded root keys role.item item.whole item.first item.second) :
      Padded root keys role (.sequence label (items.map (·.whole)) closed)
        (.sequence label (items.map (·.first)) closed)
        (.sequence label (items.map (·.second)) closed)
  | mapping {role : Role} {label : Label} {closed : Bool} (rows : List Row)
      (free : ∀ entry, .alone entry ∈ rows →
        entry.1.isAliasFree = true ∧ entry.2.isAliasFree = true)
      (keysLike : ∀ whole first second, .shared whole first second ∈ rows →
        Padded root keys .free whole.1 first.1 second.1)
      (valuesLike : ∀ whole first second, .shared whole first second ∈ rows →
        Padded root keys (role.valueOf whole.1) whole.2 first.2 second.2) :
      Padded root keys role (.mapping label (rows.map Row.whole) closed)
        (.mapping label (rows.filterMap Row.first) closed)
        (.mapping label (rows.map Row.second) closed)
  | spare {role : Role} {label : Label} {closed : Bool} (before after : List Row)
      (entry : Node × Node) (others : List (Node × Node)) {name : String}
      (free : ∀ entry, .alone entry ∈ before ++ after →
        entry.1.isAliasFree = true ∧ entry.2.isAliasFree = true)
      (keysLike : ∀ whole first second, .shared whole first second ∈ before ++ after →
        Padded root keys .free whole.1 first.1 second.1)
      (valuesLike : ∀ whole first second, .shared whole first second ∈ before ++ after →
        Padded root keys (role.valueOf whole.1) whole.2 first.2 second.2)
      (member : entry ∈ before.filterMap Row.first ++ (others ++ after.filterMap Row.first))
      (valueFree : entry.2.isAliasFree = true) (text : IsTextKey entry.1 name)
      (spare : IsSpare root keys role (before.map Row.whole)
        (before.map Row.whole ++ entry :: after.map Row.whole) name) :
      Padded root keys role
        (.mapping label (before.map Row.whole ++ entry :: after.map Row.whole) closed)
        (.mapping label (before.filterMap Row.first ++ (others ++ after.filterMap Row.first))
          closed)
        (.mapping label (before.map Row.second ++ after.map Row.second) closed)

/-- Where aliases stand for something there are keys that are repeated, and what they stand for in
the three trees is alike. -/
def Linked (trees : Triple Node) (keys : List String) : Prop :=
  ∀ ⦃number : Nat⦄ ⦃first second : Node⦄, trees.first.owner? number = some first →
    trees.second.owner? number = some second →
      keys ≠ [] ∧ ∃ whole role, trees.whole.owner? number = some whole ∧
        Padded trees.whole keys role whole first second

/-- A reading keeps to a second one when it gives what that one gives or refuses one of the keys as
repeated, provided that a first one gives anything at all. It follows as many aliases as the second
one, so it has enough of them left if it had as many. -/
def KeepsTo {Value Other : Type} (trees : Triple Node) (keys : List String)
    (Related : Value → Value → Prop) (whole : Reading Value) (first : Reading Other)
    (second : Reading Value) : Prop :=
  Linked trees keys → ∀ ⦃other : Other⦄ ⦃value : Value⦄ ⦃left after : Nat⦄,
    Gives trees.first first other → (second.run trees.second).run left = .ok (value, after) →
    ∀ more, left ≤ more →
      (∃ result rest, (whole.run trees.whole).run more = .ok (result, rest) ∧ after ≤ rest ∧
        Related result value) ∨
      ∃ place, ∃ key ∈ keys, (whole.run trees.whole).run more =
        .error (.mistyped place (.repeatedField key))

section
variable {Value Other Result End : Type} {trees : Triple Node} {keys : List String}
  {Related : Value → Value → Prop} {Finally : Result → Result → Prop}

namespace KeepsTo

theorem of_pure {result value : Value} (related : Related result value) {first : Reading Other} :
    KeepsTo trees keys Related (pure result) first (pure value) := by
  intro _ other found left after _ run more enough
  cases run
  exact .inl ⟨result, more, rfl, enough, related⟩

theorem of_never {whole second : Reading Value} {first : Reading Other}
    (never : ∀ {root : Node} {value : Value}, ¬ Gives root second value) :
    KeepsTo trees keys Related whole first second := by
  intro _ other value left after _ run
  exact absurd ⟨left, after, run⟩ never

theorem of_never_first {whole second : Reading Value} {first : Reading Other}
    (never : ∀ {root : Node} {value : Other}, ¬ Gives root first value) :
    KeepsTo trees keys Related whole first second := by
  intro _ other value left after gives
  exact absurd gives never

theorem of_repeated {path : Path} {key : String} (member : key ∈ keys) {first : Reading Other}
    {second : Reading Value} :
    KeepsTo trees keys Related (fail path (.repeatedField key)) first second := by
  intro _ other value left after _ _ more _
  exact .inr ⟨path, key, member, rfl⟩

theorem of_steady {reading : Reading Value} (steady : Steady reading) {first : Reading Other} :
    KeepsTo trees keys (· = ·) reading first reading := by
  rcases steady with ⟨value, rfl⟩ | ⟨fault, rfl⟩
  · exact of_pure rfl
  · exact of_never not_gives_throw

theorem of_first {whole second : Reading Value} {first : Reading Other}
    (keeps : ∀ {other : Other}, Gives trees.first first other →
      KeepsTo trees keys Related whole first second) :
    KeepsTo trees keys Related whole first second := by
  intro linked other value left after gives
  exact keeps gives linked gives

theorem bind {whole second : Reading Value} {first : Reading Other}
    {wholeNext secondNext : Value → Reading Result} {firstNext : Other → Reading End}
    (starts : KeepsTo trees keys Related whole first second)
    (goes : ∀ result other value, Related result value → Gives trees.whole whole result →
      KeepsTo trees keys Finally (wholeNext result) (firstNext other) (secondNext value)) :
    KeepsTo trees keys Finally (whole >>= wholeNext) (first >>= firstNext)
      (second >>= secondNext) := by
  intro linked other value left after firstGives secondRun more enough
  obtain ⟨early, firstStarts, firstEnds⟩ := firstGives.of_bind
  rw [run_bind, bind_eq_ok_iff] at secondRun
  obtain ⟨⟨between, reached⟩, secondStarts, secondEnds⟩ := secondRun
  rw [run_bind]
  rcases starts linked firstStarts secondStarts more enough with
    ⟨result, rest, run, plenty, related⟩ | ⟨place, key, member, run⟩
  · rw [run]
    exact goes result early between related ⟨more, rest, run⟩ linked firstEnds secondEnds rest
      plenty
  · rw [run]
    exact .inr ⟨place, key, member, rfl⟩

/-- A step of the first reading alone. -/
theorem bind_first {whole second : Reading Value} {step : Reading Other}
    {next : Other → Reading End}
    (goes : ∀ other, KeepsTo trees keys Related whole (next other) second) :
    KeepsTo trees keys Related whole (step >>= next) second := by
  intro linked other value left after gives
  obtain ⟨between, _, ends⟩ := gives.of_bind
  exact goes between linked ends

/-- A step behind the end of the first reading. -/
theorem bind_ended {whole second : Reading Value} {first : Reading Other}
    {wholeNext secondNext : Value → Reading Result}
    (starts : KeepsTo trees keys Related whole first second)
    (goes : ∀ result (other : Other) value, Related result value →
      Gives trees.whole whole result →
      KeepsTo trees keys Finally (wholeNext result) (pure other : Reading Other)
        (secondNext value)) :
    KeepsTo trees keys Finally (whole >>= wholeNext) first (second >>= secondNext) := by
  rw [← bind_pure first]
  exact starts.bind goes

/-- A step that the first reading has no like of and that depends on nothing around. -/
theorem bind_steady {step : Reading Value} (steady : Steady step)
    {wholeNext secondNext : Value → Reading Result} {first : Reading Other}
    (goes : ∀ value, step = pure value →
      KeepsTo trees keys Finally (wholeNext value) first (secondNext value)) :
    KeepsTo trees keys Finally (step >>= wholeNext) first (step >>= secondNext) := by
  rcases steady with ⟨value, rfl⟩ | ⟨fault, rfl⟩
  · rw [pure_bind, pure_bind]
    exact goes value rfl
  · refine of_never fun {root value} gives => ?_
    obtain ⟨_, thrown, _⟩ := gives.of_bind
    exact not_gives_throw thrown

theorem map {whole second : Reading Value} {first : Reading Other} {change : Value → Result}
    {firstChange : Other → End} (starts : KeepsTo trees keys Related whole first second)
    (related : ∀ result value, Related result value → Finally (change result) (change value)) :
    KeepsTo trees keys Finally (whole >>= fun value => pure (change value))
      (first >>= fun value => pure (firstChange value))
      (second >>= fun value => pure (change value)) :=
  starts.bind fun result _ value same _ => of_pure (related result value same)

/-- What is read of a collection counts only when the collection is there to its end. -/
theorem of_closed {whole second : Reading Value} {first : Reading Other} (closed : Bool)
    (keeps : KeepsTo trees keys Related whole first second) :
    KeepsTo trees keys Related (if closed then whole else unreadable)
      (if closed then first else unreadable)
      (if closed then second else unreadable) := by
  cases closed with
  | true => exact keeps
  | false => exact of_never not_gives_unreadable

/-- What all three refuse before they read anything is refused. -/
theorem of_refusal {refused : Prop} [Decidable refused] {whole second refusal : Reading Value}
    {first firstRefusal : Reading Other}
    (never : ∀ {root : Node} {value : Value}, ¬ Gives root refusal value)
    (keeps : KeepsTo trees keys Related whole first second) :
    KeepsTo trees keys Related (if refused then refusal else whole)
      (if refused then firstRefusal else first)
      (if refused then refusal else second) := by
  by_cases holds : refused
  · rw [if_pos holds, if_pos holds, if_pos holds]
    exact of_never never
  · rw [if_neg holds, if_neg holds, if_neg holds]
    exact keeps

end KeepsTo

end

structure RowsAlike (root : Node) (keys : List String) (role : Role) (rows : List Row) : Prop where
  free : ∀ entry, .alone entry ∈ rows → entry.1.isAliasFree = true ∧ entry.2.isAliasFree = true
  keysLike : ∀ whole first second, .shared whole first second ∈ rows →
    Padded root keys .free whole.1 first.1 second.1
  valuesLike : ∀ whole first second, .shared whole first second ∈ rows →
    Padded root keys (role.valueOf whole.1) whole.2 first.2 second.2

section
variable {root : Node} {keys : List String} {role : Role} {row : Row} {rows before after : List Row}

theorem RowsAlike.tail (alike : RowsAlike root keys role (row :: rows)) :
    RowsAlike root keys role rows :=
  ⟨fun entry member => alike.free entry (List.mem_cons_of_mem _ member),
    fun _ _ _ member => alike.keysLike _ _ _ (List.mem_cons_of_mem _ member),
    fun _ _ _ member => alike.valuesLike _ _ _ (List.mem_cons_of_mem _ member)⟩

theorem RowsAlike.left (alike : RowsAlike root keys role (before ++ after)) :
    RowsAlike root keys role before :=
  ⟨fun entry member => alike.free entry (List.mem_append_left _ member),
    fun _ _ _ member => alike.keysLike _ _ _ (List.mem_append_left _ member),
    fun _ _ _ member => alike.valuesLike _ _ _ (List.mem_append_left _ member)⟩

theorem RowsAlike.right (alike : RowsAlike root keys role (before ++ after)) :
    RowsAlike root keys role after :=
  ⟨fun entry member => alike.free entry (List.mem_append_right _ member),
    fun _ _ _ member => alike.keysLike _ _ _ (List.mem_append_right _ member),
    fun _ _ _ member => alike.valuesLike _ _ _ (List.mem_append_right _ member)⟩

variable {whole first second : Node}

/-- Where keys are repeated, roles do not count. -/
theorem Padded.any_role (repeated : keys ≠ []) (padded : Padded root keys role whole first second)
    (other : Role) : Padded root keys other whole first second := by
  induction padded generalizing other with
  | jump => exact .jump
  | broken => exact .broken
  | scalar => exact .scalar
  | sequence items like induction =>
      exact .sequence items fun item member => induction item member _
  | mapping rows free keysLike valuesLike keyInduction valueInduction =>
      exact .mapping rows free keysLike fun _ _ _ member => valueInduction _ _ _ member _
  | spare before after entry others free keysLike valuesLike member valueFree text spare
      keyInduction valueInduction =>
      refine .spare before after entry others free keysLike
        (fun _ _ _ member => valueInduction _ _ _ member _) member valueFree text ?_
      rcases spare with named | ⟨nothing, _⟩
      · exact .inl named
      · exact absurd nothing repeated

theorem rows_are_whole
    (keysWhole : ∀ whole first second, .shared whole first second ∈ rows →
      first.1.isWhole = true → second.1.isWhole = true → whole.1.isWhole = true)
    (valuesWhole : ∀ whole first second, .shared whole first second ∈ rows →
      first.2.isWhole = true → second.2.isWhole = true → whole.2.isWhole = true)
    (firsts : ∀ entry ∈ rows.filterMap Row.first, entry.1.isWhole = true ∧ entry.2.isWhole = true)
    (seconds : ∀ entry ∈ rows.map Row.second, entry.1.isWhole = true ∧ entry.2.isWhole = true) :
    ∀ entry ∈ rows.map Row.whole, entry.1.isWhole = true ∧ entry.2.isWhole = true := by
  rw [List.forall_mem_map] at seconds ⊢
  intro row member
  have other := seconds row member
  cases row with
  | alone entry => exact other
  | shared whole first second =>
      have one := firsts first (List.mem_filterMap.2 ⟨_, member, rfl⟩)
      exact ⟨keysWhole _ _ _ member one.1 other.1, valuesWhole _ _ _ member one.2 other.2⟩

/-- What is padded breaks off nowhere else. -/
theorem is_whole_of_padded (padded : Padded root keys role whole first second)
    (firstWhole : first.isWhole = true) (secondWhole : second.isWhole = true) :
    whole.isWhole = true := by
  induction padded with
  | jump => rfl
  | broken => exact firstWhole
  | scalar => rfl
  | sequence items like induction => simp_all [Node.isWhole]
  | mapping rows free keysLike valuesLike keysWhole valuesWhole =>
      simp only [Node.isWhole, entries_whole_eq_all, Bool.and_eq_true, List.all_eq_true]
        at firstWhole secondWhole ⊢
      exact ⟨rows_are_whole keysWhole valuesWhole firstWhole.1 secondWhole.1, firstWhole.2⟩
  | spare before after entry others free keysLike valuesLike member valueFree text spare keysWhole
      valuesWhole =>
      simp only [Node.isWhole, entries_whole_eq_all, Bool.and_eq_true, List.all_eq_true]
        at firstWhole secondWhole ⊢
      have spareWhole := firstWhole.1 entry member
      have rowsWhole := rows_are_whole keysWhole valuesWhole
        (fun other held => firstWhole.1 other ?_) (by rw [List.map_append]; exact secondWhole.1)
      · rw [List.map_append, List.forall_mem_append] at rowsWhole
        rw [List.forall_mem_append, List.forall_mem_cons]
        exact ⟨⟨rowsWhole.1, spareWhole, rowsWhole.2⟩, firstWhole.2⟩
      · rw [List.filterMap_append, List.mem_append] at held
        rw [List.mem_append, List.mem_append]
        exact held.imp_right .inr

end

end ManifestLint
