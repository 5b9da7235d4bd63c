import ManifestLint.Proofs.Yaml.Blocks
import ManifestLint.Proofs.Yaml.Scanning

/-!
The tokens of a value in block style. A layout in which no key is pending comes from a value to the
line behind it, and the columns of that line tell which collections have ended by then.
-/

namespace ManifestLint.Yaml

open Block (blanks)

theorem of_all_bare_chars {Property : Char → Prop} [DecidablePred Property]
    (checked : bareChars.all (fun char => decide (Property char)) = true) :
    ∀ char ∈ bareChars, Property char := by
  intro char member
  exact of_decide_eq_true (List.all_eq_true.1 checked char member)

theorem bare_char_facts : ∀ char ∈ bareChars,
    Printable char ∧ isSpace char = false ∧ isBreak char = false ∧ char ≠ '#' ∧
      (char == ':') = false := by
  apply of_all_bare_chars
  decide

theorem bare_char_starts : ∀ char ∈ bareChars, startsPlain false char = true ∧
    char ≠ '"' ∧ char ≠ '\'' ∧ char ≠ '*' ∧ char ≠ '&' ∧ char ≠ '!' ∧ char ≠ '|' ∧ char ≠ '>' := by
  apply of_all_bare_chars
  decide

theorem word_char_is_bare : ∀ char ∈ wordChars, char ∈ bareChars ∧ char ≠ '-' ∧ char ≠ '.' := by
  apply of_all_word_chars
  decide

theorem at_gap_of_bare {char : Char} (member : char ∈ bareChars) (rest : List Char) :
    atGap (char :: rest) = false := by
  have facts := bare_char_facts char member
  rw [atGap, facts.2.1, facts.2.2.1]
  rfl

def InkOrEnd (text : List Char) : Prop := Ink text ∨ text = []

/-- What may stand behind a plain scalar, whether a line ended there, and the text from there on. -/
inductive EndsBare (least : Nat) : List Char → Bool → List Char → Prop where
  | colon {rest : List Char} (gap : atGap rest = true) : EndsBare least (':' :: rest) false
      (':' :: rest)
  | line {column : Nat} {here : List Char} (shallow : column < least) (start : InkOrEnd here) :
      EndsBare least ('\n' :: (blanks column ++ here)) true here

section
variable {least : Nat} {rest here : List Char} {ended : Bool}

theorem read_run_bare {word : List Char} (chars : ∀ char ∈ word, char ∈ bareChars)
    (stops : readRun false rest = some ([], rest)) :
    readRun false (word ++ rest) = some (word, rest) := by
  induction word with
  | nil => exact stops
  | cons char word induction =>
      rw [List.forall_mem_cons] at chars
      have facts := bare_char_facts char chars.1
      rw [List.cons_append, readRun, facts.2.1, facts.2.2.1, facts.2.2.2.2, induction chars.2]
      simp

theorem take_indentation (indentation column : Nat) (gap : Gap) (broken : gap.broken = true)
    (start : InkOrEnd here) :
    gap.take indentation (blanks column ++ here) =
      some ({ gap with column := gap.column + column }, here) := by
  induction column generalizing gap with
  | zero =>
      rw [blanks, List.replicate_zero, List.nil_append]
      rcases start with ⟨char, others, rfl, noSpace, noBreak, _⟩ | rfl
      · rw [Gap.take, noBreak, noSpace]
        rfl
      · rfl
  | succ column induction =>
      have stepped : gap.addSpace ' ' = { gap with column := gap.column + 1 } := by
        rw [Gap.addSpace, if_pos broken]
      have more := induction { gap with column := gap.column + 1 } broken
      rw [blanks, List.replicate_succ, List.cons_append, ← blanks, Gap.take, if_neg (by decide),
        if_pos (by decide), if_neg (by simp), stepped, more]
      simp only [Nat.add_assoc, Nat.add_comm 1]

theorem EndsBare.stops (ends : EndsBare least rest ended here) :
    readRun false rest = some ([], rest) := by
  cases ends with
  | colon gap =>
      rw [readRun, gap]
      rfl
  | line _ _ => rfl

theorem read_plain_bare {word : List Char} (chars : ∀ char ∈ word, char ∈ bareChars)
    (ends : EndsBare least rest ended here) :
    readPlain false least (word ++ rest) = some (word, ended, here) := by
  have run := read_run_bare chars ends.stops
  rw [readPlain]
  cases ends with
  | colon gap =>
      split
      · next missing => simp [run] at missing
      · next found => simp [run] at found
      · next found =>
        rw [run] at found
        cases found
        rw [dif_neg (by decide)]
  | @line column here shallow start =>
      have taken := take_indentation least column (Gap.empty.addBreak '\n') rfl start
      split
      · next missing => simp [run] at missing
      · next found => simp [run] at found
      · next found =>
        rw [run] at found
        cases found
        rw [dif_pos (by decide)]
        split
        · next refused =>
          rw [Gap.take, if_pos (by decide), taken] at refused
          cases refused
        · next went =>
          rw [Gap.take, if_pos (by decide), taken] at went
          cases went
          have ending : endsAt false least
              { Gap.empty.addBreak '\n' with column := (Gap.empty.addBreak '\n').column + column }
                here = true := by
            rw [endsAt]
            simp [leavesBlock, Gap.addBreak, Gap.empty, shallow]
          rw [if_pos ending]
          rfl

theorem Bare.eq_cons (bare : Bare) : ∃ char others, bare.text.toList = char :: others := by
  cases spelled : bare.text.toList with
  | nil => exact absurd spelled bare.nonempty
  | cons char others => exact ⟨char, others, rfl⟩

theorem Bare.ink (bare : Bare) (rest : List Char) : Ink (bare.text.toList ++ rest) := by
  obtain ⟨char, others, spelled⟩ := bare.eq_cons
  have facts := bare_char_facts char (bare.chars char (by rw [spelled]; exact List.mem_cons_self))
  rw [spelled]
  exact ⟨char, others ++ rest, rfl, facts.2.1, facts.2.2.1, facts.2.2.2.1⟩

theorem indicator_of_bare {char : Char} (member : char ∈ bareChars) (others : List Char)
    (dashed : char = '-' → atGap others = false) : indicator false char others = none := by
  unfold indicator
  split
  case h_6 => rw [dashed rfl]; rfl
  case h_9 => rfl
  all_goals exact absurd member (by decide)

def WordKey.bare (key : WordKey) : Bare where
  text := key.text
  nonempty := key.word.1
  dashless := by
    intro same
    have member : '-' ∈ key.text.toList := by
      rw [same]
      exact List.mem_singleton_self _
    exact absurd rfl (word_char_is_bare '-' (key.word.chars '-' member)).2.1
  chars char member := (word_char_is_bare char (key.word.chars char member)).1

theorem WordKey.head_ne (key : WordKey) :
    key.text.toList.head? ≠ some '-' ∧ key.text.toList.head? ≠ some '.' := by
  have other (mark : Char) (found : key.text.toList.head? = some mark) : mark ≠ '-' ∧ mark ≠ '.' :=
    (word_char_is_bare mark (key.word.chars mark (List.mem_of_head? found))).2
  exact ⟨fun found => (other '-' found).1 rfl, fun found => (other '.' found).2 rfl⟩

/-- A bare scalar is read up to what ends it, and at the start of a line when it is no document
marker. -/
theorem read_lexeme_bare {site : Site} (block : site.flow = false) (bare : Bare)
    (inside : 0 < site.column ∨ bare.text.toList.head? ≠ some '-' ∧
      bare.text.toList.head? ≠ some '.')
    (ends : EndsBare site.least rest ended here) :
    readLexeme site (bare.text.toList ++ rest) =
      some (⟨.scalar .plain bare.text, ended⟩, here) := by
  have chars := bare.chars
  have dashless := bare.dashless
  obtain ⟨char, others, spelled⟩ := bare.eq_cons
  rw [spelled] at chars inside dashless
  rw [List.forall_mem_cons] at chars
  have whole : String.ofList (char :: others) = bare.text := by
    rw [← spelled, String.ofList_toList]
  have starts := bare_char_starts char chars.1
  have solid : char = '-' → atGap (others ++ rest) = false := by
    rintro rfl
    cases others with
    | nil => exact absurd rfl dashless
    | cons second others => exact at_gap_of_bare (chars.2 second List.mem_cons_self) _
  have directive : ¬ (site.column = 0 ∧ char = '%') := by
    rintro ⟨_, rfl⟩
    exact absurd chars.1 (by decide)
  have unmarked (mark : Char) (other : 0 < site.column ∨ char ≠ mark) :
      ¬ (site.column = 0 ∧ isMarker mark (char :: (others ++ rest)) = true) := by
    rintro ⟨left, marked⟩
    rcases other with right | other
    · omega
    · rw [is_marker_of_other other] at marked
      cases marked
  have dash := unmarked '-' (inside.imp_right fun bound same => bound.1 (by rw [same]; rfl))
  have dot := unmarked '.' (inside.imp_right fun bound same => bound.2 (by rw [same]; rfl))
  rw [spelled, List.cons_append, readLexeme, if_neg directive, if_neg dash, if_neg dot, block,
    indicator_of_bare chars.1 _ solid]
  dsimp only
  rw [readWord]
  simp only [starts, block, read_plain_bare chars.2 ends, if_false, if_true, false_and,
    Option.map_some, scalarLexeme, whole]

end

theorem skip_nothing (flow allowed : Bool) {text : List Char} (start : InkOrEnd text) :
    skipFiller flow false allowed text = (allowed, text) := by
  rcases start with ink | rfl
  · exact skip_filler_ink flow allowed ink
  · rfl

theorem skip_indentation (flow allowed : Bool) (count : Nat) {text : List Char}
    (start : InkOrEnd text) :
    skipFiller flow false allowed (blanks count ++ text) = (allowed, text) := by
  induction count with
  | zero => exact skip_nothing flow allowed start
  | succ count induction =>
      rw [blanks, List.replicate_succ, List.cons_append, skipFiller]
      exact induction

theorem skip_break (allowed : Bool) (count : Nat) {text : List Char} (start : InkOrEnd text) :
    skipFiller false false allowed ('\n' :: (blanks count ++ text)) = (true, text) := by
  rw [skipFiller, if_pos (by decide), Bool.not_false, Bool.or_true]
  exact skip_indentation false true count start

theorem after_break (position : Position) (count : Nat) : position.after ('\n' :: blanks count) =
    ⟨position.index + 1 + count, position.line + 1, count⟩ := by
  have line : position.next '\n' = ⟨position.index + 1, position.line + 1, 0⟩ := rfl
  rw [Position.after, List.foldl_cons, ← Position.after, line, blanks,
    after_printable (printable_blanks count), List.length_replicate, Nat.zero_add]

namespace Layout

/-- A layout outside flow collections in which no key is pending. -/
def standing (position : Position) (tokens : List Token) (columns : List Nat) (allowed : Bool) :
    Layout :=
  ⟨position, tokens, none, [], columns, allowed⟩

def endings (column : Nat) (columns : List Nat) : List Token :=
  (columns.takeWhile (column < ·)).map fun _ => .blockEnd

def staying (column : Nat) (columns : List Nat) : List Nat := columns.dropWhile (column < ·)

theorem endings_of_shallow {column : Nat} {columns : List Nat}
    (shallow : ∀ head ∈ columns.head?, head ≤ column) :
    endings column columns = [] ∧ staying column columns = columns := by
  cases columns with
  | nil => exact ⟨rfl, rfl⟩
  | cons head columns =>
      have less : ¬ column < head := Nat.not_lt.2 (shallow head rfl)
      constructor
      · rw [endings, List.takeWhile_cons_of_neg (by simpa using less), List.map_nil]
      · rw [staying, List.dropWhile_cons_of_neg (by simpa using less)]

theorem endings_cons_of_deep {column head : Nat} (deep : column < head) (columns : List Nat) :
    endings column (head :: columns) = .blockEnd :: endings column columns ∧
      staying column (head :: columns) = staying column columns := by
  constructor
  · rw [endings, List.takeWhile_cons_of_pos (by simpa using deep), List.map_cons, ← endings]
  · rw [staying, List.dropWhile_cons_of_pos (by simpa using deep), ← staying]

/-- Ends of collections look alike, so one more may stand before or behind them. -/
theorem endings_append_end (column : Nat) (columns : List Nat) (tokens : List Token) :
    endings column columns ++ .blockEnd :: tokens =
      .blockEnd :: (endings column columns ++ tokens) := by
  rw [endings, List.map_const', ← List.cons_append, ← List.replicate_succ, List.replicate_succ',
    List.append_assoc]
  rfl

theorem advance_standing {position : Position} {tokens : List Token} {columns : List Nat}
    {allowed later : Bool} {filler here : List Char}
    (skipped : skipFiller false false allowed (filler ++ here) = (later, here)) :
    (standing position tokens columns allowed).advance (filler ++ here) =
      (some (standing (position.after filler)
        (endings (position.after filler).column columns ++ tokens)
        (staying (position.after filler).column columns) later), here) := by
  have outside : (standing position tokens columns allowed).inFlow = false := rfl
  rw [advance, outside]
  change (_, (skipFiller false false allowed (filler ++ here)).2) = _
  rw [show (standing position tokens columns allowed).keyAllowed = allowed from rfl, skipped]
  dsimp only
  rw [Position.up_to_append]
  rfl

/-- A layout comes over filler to a text, and stands there in a column behind the given tokens. -/
def Ready (layout : Layout) (text : List Char) (column : Nat) (tokens : List Token)
    (columns : List Nat) (allowed : Bool) (here : List Char) : Prop :=
  ∃ position : Position, position.column = column ∧
    layout.advance text = (some (standing position tokens columns allowed), here)

def Comes (layout : Layout) (text : List Char) (column : Nat) (tokens : List Token)
    (columns : List Nat) (allowed : Bool) (here : List Char) : Prop :=
  ∃ (later : Layout) (rest : List Char),
    layout.tokensFrom .whole text = later.tokensFrom .whole rest ∧
    later.Ready rest column tokens columns allowed here

section
variable {layout : Layout} {position : Position} {text here : List Char} {before : List Token}
  {columns : List Nat} {column count : Nat} {allowed : Bool}

theorem Ready.comes (ready : layout.Ready text column before columns allowed here) :
    layout.Comes text column before columns allowed here := ⟨layout, text, rfl, ready⟩

theorem Comes.trans {next : Nat} {after : List Token} {opened : List Nat} {may : Bool}
    {there : List Char} (comes : layout.Comes text column before columns allowed here)
    (goes : ∀ (later : Layout) (rest : List Char),
      later.Ready rest column before columns allowed here →
      later.Comes rest next after opened may there) :
      layout.Comes text next after opened may there := by
  obtain ⟨later, rest, same, ready⟩ := comes
  obtain ⟨last, final, again, there⟩ := goes later rest ready
  exact ⟨last, final, same.trans again, there⟩

theorem ready_here (start : InkOrEnd here) (same : position.column = column) :
    (standing position before columns allowed).Ready here column (endings column columns ++ before)
      (staying column columns) allowed here := by
  have stands : (standing position before columns allowed).advance ([] ++ here) = _ :=
    advance_standing (skip_nothing false allowed start)
  have still : position.after [] = position := rfl
  rw [still, same] at stands
  exact ⟨position, same, stands⟩

theorem ready_below (start : InkOrEnd here) :
    (standing position before columns allowed).Ready ('\n' :: (blanks count ++ here)) count
      (endings count columns ++ before) (staying count columns) true here := by
  have stands :
      (standing position before columns allowed).advance (('\n' :: blanks count) ++ here) = _ :=
    advance_standing (skip_break allowed count start)
  rw [after_break position count] at stands
  exact ⟨_, rfl, stands⟩

theorem accept_bare {head : Nat} {outer : List Nat} (deeper : head < position.column)
    (text : String) :
    ∃ candidate, (standing position before (head :: outer) allowed).accept
      (.scalar .plain text) true =
        some ⟨position, .scalar .plain text :: before, candidate, [], head :: outer, true⟩ ∧
      ∀ key ∈ candidate, key.position = position ∧ key.required = false := by
  have apart : (some head == some position.column) = false := by
    rw [beq_eq_false_iff_ne]
    exact fun same => absurd (Option.some.inj same) (Nat.ne_of_lt deeper)
  cases allowed with
  | false => exact ⟨none, rfl, nofun⟩
  | true =>
      refine ⟨some ⟨before.length, position, false⟩, ?_, ?_⟩
      · change ((standing position before (head :: outer) true).saveKey.bind fun saved => _) = _
        rw [saveKey]
        simp only [standing, List.head?_cons, apart]
        rfl
      · intro key present
        cases present
        exact ⟨rfl, rfl⟩

/-- Possible keys are given up where the line is another one. -/
theorem refresh_on_later_line {tokens : List Token} {candidate : Option Candidate}
    {first : Position} (free : ∀ key ∈ candidate, key.position = first ∧ key.required = false)
    (later : position.line ≠ first.line) :
    (⟨position, tokens, candidate, [], columns, allowed⟩ : Layout).refresh =
      some (standing position tokens columns allowed) := by
  cases candidate with
  | none => rfl
  | some key =>
      obtain ⟨rfl, optional⟩ := free key rfl
      have stale : Candidate.stale position key = true := by
        rw [Candidate.stale, bne_iff_ne.2 later.symm, Bool.true_or]
      rw [refresh]
      simp [stale, optional, standing]

theorem comes_bare {bare : Bare} {head : Nat} {outer : List Nat}
    (ready : layout.Ready text column before (head :: outer) allowed
      (bare.text.toList ++ '\n' :: (blanks count ++ here)))
    (deeper : head < column) (shallow : count ≤ head) (start : InkOrEnd here) :
    layout.Comes text count (endings count (head :: outer) ++ .scalar .plain bare.text :: before)
      (staying count (head :: outer)) true here := by
  obtain ⟨position, rfl, advanced⟩ := ready
  have inside : 0 < position.column := by omega
  have read : readLexeme (standing position before (head :: outer) allowed).site
      (bare.text.toList ++ '\n' :: (blanks count ++ here)) =
        some (⟨.scalar .plain bare.text, true⟩, here) :=
    read_lexeme_bare rfl bare (.inl inside) (.line (Nat.lt_succ_of_le shallow) start)
  obtain ⟨candidate, accepted, free⟩ := accept_bare deeper bare.text
  have printable : ∀ char ∈ bare.text.toList, Printable char :=
    fun char member => (bare_char_facts char (bare.chars char member)).1
  have moved : position.after (bare.text.toList ++ '\n' :: blanks count) =
      ⟨position.index + bare.text.toList.length +
      1 + count, position.line + 1, count⟩ := by
    simp [after_printable printable, after_break]
  have taken :
      (standing position before (head :: outer) allowed).take ⟨.scalar .plain bare.text, true⟩
      (bare.text.toList ++ '\n' :: (blanks count ++ here)) here =
        some (standing (position.after (bare.text.toList ++ '\n' :: blanks count))
          (.scalar .plain bare.text :: before) (head :: outer) true) := by
    have cut : bare.text.toList ++ '\n' :: (blanks count ++ here) =
        (bare.text.toList ++ '\n' :: blanks count) ++ here := by simp
    have reached : position.upTo (bare.text.toList ++ '\n' :: (blanks count ++ here)) here =
        position.after (bare.text.toList ++ '\n' :: blanks count) := by
          rw [cut, Position.up_to_append]
    rw [take, accepted]
    change (⟨position.upTo _ here, _, _, _, _, _⟩ : Layout).refresh = _
    rw [reached]
    apply refresh_on_later_line free
    rw [moved]
    exact Nat.succ_ne_self _
  refine ⟨_, here, tokens_from_of_steps advanced read taken, ready_here start ?_⟩
  rw [moved]

/-- Whether a collection starts in a column with a token of its own, or the innermost one goes on
there. -/
inductive Enters (start : Token) (column : Nat) : List Nat → List Token → List Nat → Prop where
  | first {columns : List Nat} (deeper : ∀ head ∈ columns.head?, head < column) :
      Enters start column columns [start] (column :: columns)
  | later {columns : List Nat} : Enters start column (column :: columns) [] (column :: columns)

theorem Enters.reaches {start : Token} {opened : List Token} {inner : List Nat}
    (enters : Enters start column columns opened inner) :
    ∀ head ∈ columns.head?, head ≤ column := by
  cases enters with
  | first deeper => exact fun head member => Nat.le_of_lt (deeper head member)
  | later =>
      intro head same
      cases same
      exact Nat.le_refl column

theorem Enters.inner_eq {start : Token} {opened : List Token} {inner : List Nat}
    (enters : Enters start column columns opened inner) : ∃ outer, inner = column :: outer := by
  cases enters <;> exact ⟨_, rfl⟩

theorem roll_enters {start : Token} {opened : List Token} {inner : List Nat}
    (enters : Enters start column columns opened inner) (position : Position)
    (later before : List Token) (candidate : Option Candidate) (allowed : Bool) :
    (⟨position, later ++ before, candidate, [], columns, allowed⟩ : Layout).roll column
      before.length start =
      ⟨position, later ++ (opened ++ before), candidate, [], inner, allowed⟩ := by
  cases enters with
  | first deeper =>
      have room :
          ¬ column <
          (⟨position, later ++ before, candidate, [], columns, allowed⟩ : Layout).least := by
        cases columns with
        | nil => exact Nat.not_lt_zero _
        | cons head outer => exact Nat.not_lt.2 (deeper head rfl)
      have behind : (later ++ before).length - before.length = later.length := by
        rw [List.length_append, Nat.add_sub_cancel]
      rw [roll, if_neg (by simpa [inFlow] using room), insert]
      dsimp only
      rw [behind, List.take_left, List.drop_left]
      rfl
  | @later columns =>
      rw [roll, if_pos (by simp [least])]
      rfl

/-- A layout behind a scalar that may become the key of its line. -/
def pending (position : Position) (token : Token) (before : List Token) (key : Candidate)
    (columns : List Nat) : Layout :=
  ⟨position, token :: before, some key, [], columns, false⟩

section
variable {token : Token} {key : Candidate}

theorem refresh_pending (fresh : Candidate.stale position key = false) :
    (pending position token before key columns).refresh =
      some (pending position token before key columns) := by
  rw [refresh]
  simp [pending, fresh]

theorem advance_pending (fresh : Candidate.stale position key = false)
    (reaches : ∀ head ∈ columns.head?, head ≤ position.column) (ink : Ink here) :
    (pending position token before key columns).advance here =
      (some (pending position token before key columns), here) := by
  have outside : (pending position token before key columns).inFlow = false := rfl
  have still : position.upTo here here = position := Position.up_to_append position [] here
  obtain ⟨none, same⟩ := endings_of_shallow reaches
  rw [advance, outside, show (pending position token before key columns).keyAllowed =
    false from rfl, skip_filler_ink false false ink]
  change ((⟨position.upTo here here, _, _, _, _, _⟩ : Layout).refresh.map unroll, here) = _
  rw [still]
  change ((pending position token before key columns).refresh.map unroll, here) = _
  rw [refresh_pending fresh, Option.map_some]
  have unrolled : (pending position token before key columns).unroll =
      ⟨position, endings position.column columns ++ token :: before, some key, [],
        staying position.column columns, false⟩ := rfl
  rw [unrolled, none, same]
  rfl

theorem accept_colon_pending {inner : List Nat} {opened : List Token}
    (slot : key.slot = before.length)
    (enters : Enters .blockMappingStart key.position.column columns opened inner) :
    (pending position token before key columns).accept .value false =
      some (standing position (.value :: token :: .key :: (opened ++ before)) inner false) := by
  have announced : (pending position token before key columns).insert key.slot .key =
      ⟨position, [token, .key] ++ before, some key, [], columns, false⟩ := by
    rw [insert, slot]
    simp [pending]
  have valued : (pending position token before key columns).accept .value false =
      some (({ ((pending position token before key columns).insert key.slot .key).roll
        key.position.column key.slot
        .blockMappingStart with candidate := none }.allowKey false).emit .value) := rfl
  rw [valued, announced, slot, roll_enters enters]
  rfl

/-- The colon behind a pending key makes it one, whatever the mapping has been so far. -/
theorem tokens_from_colon {after : List Char} {inner : List Nat} {opened : List Token}
    (fresh : Candidate.stale position key = false) (slot : key.slot = before.length)
    (inside : key.position.column < position.column) (gap : atGap after = true)
    (enters : Enters .blockMappingStart key.position.column columns opened inner) :
    (pending position token before key columns).tokensFrom .whole (':' :: after) =
      (standing (position.after [':']) (.value :: token :: .key :: (opened ++ before)) inner
        false).tokensFrom .whole
        after := by
  have reaches : ∀ head ∈ columns.head?, head ≤ position.column :=
    fun head member => Nat.le_of_lt (Nat.lt_of_le_of_lt (enters.reaches head member) inside)
  have right : 0 < position.column := Nat.zero_lt_of_lt inside
  have there : (pending position token before key columns).advance (':' :: after) = _ :=
    advance_pending fresh reaches ⟨':', after, rfl, by decide⟩
  have read : readLexeme (pending position token before key columns).site (':' :: after) =
      some (⟨.value, false⟩, after) := by
    apply read_lexeme_of_indicator right
    change (if false || atGap after then some Token.value else none) = _
    rw [gap]
    rfl
  have reached : position.upTo (':' :: after) after = position.after [':'] :=
    Position.up_to_append position [':'] after
  have taken :
      (pending position token before key columns).take ⟨.value, false⟩ (':' :: after) after =
      some (standing (position.after [':']) (.value :: token :: .key :: (opened ++ before)) inner
        false) := by
    rw [take, accept_colon_pending slot enters, Option.bind_eq_bind, Option.bind_some, ← reached]
    rfl
  exact tokens_from_of_steps there read taken

end

theorem tokens_from_key {word : WordKey} {after : List Char} {inner : List Nat}
    {opened : List Token}
    (ready : layout.Ready text column before columns true (word.text.toList ++ ':' :: after))
    (gap : atGap after = true) (enters : Enters .blockMappingStart column columns opened inner) :
    ∃ position : Position, column < position.column ∧ layout.tokensFrom .whole text =
      (standing position (.value :: .scalar .plain word.text :: .key :: (opened ++ before)) inner
        false).tokensFrom .whole
        after := by
  obtain ⟨position, rfl, advanced⟩ := ready
  have printable : ∀ char ∈ word.text.toList, Printable char :=
    fun char member => (bare_char_facts char (word.bare.chars char member)).1
  have behind := after_printable printable position
  have long : 0 < word.text.toList.length := List.length_pos_iff.2 word.bare.nonempty
  have short : word.text.toList.length ≤ 100 := by
    rw [String.length_toList]
    exact word.short
  let key : Candidate := ⟨before.length, position, columns.head? == some position.column⟩
  have fresh : Candidate.stale (position.after word.text.toList) key = false := by
    have near : ¬ position.index + 1024 < position.index + word.text.toList.length := by omega
    rw [behind, Candidate.stale]
    simp [key, near]
  have read :
      readLexeme (standing position before columns true).site (word.text.toList ++ ':' :: after) =
      some (⟨.scalar .plain word.text, false⟩, ':' :: after) :=
    read_lexeme_bare rfl word.bare (.inr word.head_ne) (.colon gap)
  have taken : (standing position before columns true).take ⟨.scalar .plain word.text, false⟩
      (word.text.toList ++ ':' :: after) (':' :: after) =
        some (pending (position.after word.text.toList) (.scalar .plain word.text) before key
          columns) := by
    rw [take]
    change (⟨position.upTo _ _, _, _, _, _, _⟩ : Layout).refresh = _
    rw [Position.up_to_append]
    exact refresh_pending fresh
  have inside : position.column < (position.after word.text.toList).column := by
    rw [behind]
    exact Nat.lt_add_of_pos_right long
  refine ⟨(position.after word.text.toList).after [':'], ?_,
    (tokens_from_of_steps advanced read taken).trans
    (tokens_from_colon fresh rfl inside gap enters)⟩
  rw [after_printable (printable_one (by decide))]
  exact Nat.lt_add_right 1 inside

theorem read_lexeme_dash (site : Site) (block : site.flow = false) (rest : List Char) :
    readLexeme site ('-' :: ' ' :: rest) = some (⟨.blockEntry, false⟩, ' ' :: rest) := by
  have unmarked (mark : Char) (other : mark ≠ ' ') :
      isMarker mark ('-' :: ' ' :: rest) = false := by
    cases rest with
    | nil => rfl
    | cons third rest =>
        rw [isMarker, beq_eq_false_iff_ne.2 other.symm]
        simp
  rw [readLexeme, if_neg (by simp), if_neg (by simp [unmarked '-' (by decide)]),
    if_neg (by simp [unmarked '.' (by decide)]), block]
  rfl

theorem comes_dash {inner : List Nat} {opened : List Token}
    (ready : layout.Ready text column before columns true ('-' :: ' ' :: here)) (ink : Ink here)
    (enters : Enters .blockSequenceStart column columns opened inner) :
    layout.Comes text (column + 2) (.blockEntry :: (opened ++ before)) inner true here := by
  obtain ⟨position, rfl, advanced⟩ := ready
  have read := read_lexeme_dash (standing position before columns true).site rfl here
  have reached : position.upTo ('-' :: ' ' :: here) (' ' :: here) = position.after ['-'] :=
    Position.up_to_append position ['-'] (' ' :: here)
  have rolled :
      (standing position before columns true).roll position.column before.length
      .blockSequenceStart =
      standing position (opened ++ before) inner true :=
      roll_enters enters position [] before none true
  have accepted : (standing position before columns true).accept .blockEntry false =
      some (standing position (.blockEntry :: (opened ++ before)) inner true) := by
    have opens : (standing position before columns true).rollHere .blockSequenceStart =
        some (standing position (opened ++ before) inner true) := congrArg some rolled
    rw [accept, opens]
    rfl
  have taken :
      (standing position before columns true).take ⟨.blockEntry, false⟩ ('-' :: ' ' :: here)
      (' ' :: here) =
      some (standing (position.after ['-']) (.blockEntry :: (opened ++ before)) inner true) := by
    rw [take, accepted, Option.bind_eq_bind, Option.bind_some, ← reached]
    rfl
  have stands :
      (standing (position.after ['-']) (.blockEntry :: (opened ++ before)) inner true).advance
      ([' '] ++ here) = _ := advance_standing (skip_indentation false true 1 (.inl ink))
  have column : ((position.after ['-']).after [' ']).column = position.column + 2 := rfl
  obtain ⟨outer, rfl⟩ := enters.inner_eq
  have shallow : ∀ head ∈ (position.column :: outer).head?, head ≤ position.column + 2 := by
    intro head same
    cases same
    exact Nat.le_add_right _ 2
  rw [column, (endings_of_shallow shallow).1, (endings_of_shallow shallow).2] at stands
  exact ⟨_, _, tokens_from_of_steps advanced read taken, _, column, stands⟩

end

end Layout

namespace Block

theorem ink_write (step column : Nat) (block : Block) (rest : List Char) :
    Ink (block.write step column ++ rest) := by
  cases block with
  | scalar bare => exact bare.ink rest
  | sequence first others => exact ⟨'-', _, rfl, by decide, by decide, by decide⟩
  | mapping key value others =>
      rw [write, List.append_assoc]
      exact key.bare.ink _

open Layout

/-- From where a value starts, to the right of the collection around it, a layout comes to the line
behind the value with the tokens of the value, and with the ends of all collections that this line
leaves. -/
def Scans (step : Nat) (block : Block) : Prop :=
  ∀ {layout : Layout} {text here : List Char} {column head count : Nat} {before : List Token}
    {outer : List Nat} {allowed : Bool},
    layout.Ready text column before (head :: outer) allowed
      (block.write step column ++ '\n' :: (blanks count ++ here)) →
    (allowed = true ∨ ∃ bare, block = .scalar bare) → head < column → count ≤ head → InkOrEnd here →
    layout.Comes text count (endings count (head :: outer) ++ (block.tokens.reverse ++ before))
      (staying count (head :: outer)) true here

section
variable {step column count : Nat} {layout : Layout} {text here : List Char}
  {before opened : List Token}
  {columns inner : List Nat}

theorem comes_value {value : Block} (scans : value.Scans step) {position : Position}
    {outer : List Nat} (inside : column < position.column) (shallow : count ≤ column)
    (start : InkOrEnd here) :
    (standing position before (column :: outer) false).Comes
      (value.lead step column ++ (value.write step (column + step + 1) ++
        '\n' :: (blanks count ++ here))) count
      (endings count (column :: outer) ++ (value.tokens.reverse ++ before))
        (staying count (column :: outer)) true
      here := by
  by_cases inline : ∃ bare, value = .scalar bare
  · obtain ⟨bare, rfl⟩ := inline
    have blank : ((position.after [' ']).column) = position.column + 1 := rfl
    have near : ∀ head ∈ (column :: outer).head?, head ≤ position.column + 1 := by
      intro head same
      cases same
      omega
    have stands : (standing position before (column :: outer) false).advance
        ([' '] ++ (bare.text.toList ++ '\n' :: (blanks count ++ here))) = _ :=
      advance_standing (skip_indentation false false 1 (.inl (bare.ink _)))
    rw [blank, (endings_of_shallow near).1, (endings_of_shallow near).2] at stands
    exact scans ⟨_, blank, stands⟩ (.inr ⟨bare, rfl⟩) (by omega) shallow start
  · have below : value.lead step column = '\n' :: blanks (column + step + 1) := by
      cases value with
      | scalar bare => exact absurd ⟨bare, rfl⟩ inline
      | sequence first others => rfl
      | mapping key inner others => rfl
    have near : ∀ head ∈ (column :: outer).head?, head ≤ column + step + 1 := by
      intro head same
      cases same
      omega
    have stands :
        (standing position before (column :: outer) false).Ready
        ('\n' :: (blanks (column + step + 1) ++
        (value.write step (column + step + 1) ++ '\n' :: (blanks count ++ here)))) _ _ _ _ _ :=
      ready_below (.inl (value.ink_write step _ _))
    rw [(endings_of_shallow near).1, (endings_of_shallow near).2] at stands
    rw [below]
    exact scans stands (.inl rfl) (by omega) shallow start

theorem at_gap_lead (value : Block) (rest : List Char) :
    atGap (value.lead step column ++ rest) = true := by
  cases value <;> rfl

theorem comes_entry {key : WordKey} {value : Block} (scans : value.Scans step)
    (ready : layout.Ready text column before columns true
      (key.text.toList ++ ':' :: (value.lead step column ++
      (value.write step (column + step + 1) ++ '\n' :: (blanks count ++ here)))))
    (enters : Enters .blockMappingStart column columns opened inner) (shallow : count ≤ column)
    (start : InkOrEnd here) :
    layout.Comes text count (endings count inner ++ (value.tokens.reverse ++
      (.value :: .scalar .plain key.text :: .key :: (opened ++ before)))) (staying count inner) true
        here := by
  obtain ⟨outer, rfl⟩ := enters.inner_eq
  obtain ⟨position, inside, same⟩ := tokens_from_key ready (at_gap_lead value _) enters
  obtain ⟨later, rest, again, there⟩ := comes_value scans inside shallow start
  exact ⟨later, rest, same.trans again, there⟩

theorem comes_entries {key : WordKey} {value : Block} {others : List (WordKey × Block)}
    (scans : value.Scans step) (all : ∀ entry ∈ others, entry.2.Scans step)
    (ready : layout.Ready text column before columns true
      (key.text.toList ++ ':' :: (value.lead step column ++
      (value.write step (column + step + 1) ++
        (writeEntries step column others ++ '\n' :: (blanks count ++ here))))))
    (enters : Enters .blockMappingStart column columns opened inner) (shallow : count ≤ column)
    (start : InkOrEnd here) :
    layout.Comes text count
      (endings count inner ++ ((tokensOfEntries ((key, value) :: others)).reverse ++
        (opened ++ before)))
      (staying count inner) true here := by
  induction others generalizing key value layout text before columns opened with
  | nil =>
      have one := comes_entry scans ready enters shallow start
      simpa [tokensOfEntries] using one
  | cons entry others induction =>
      obtain ⟨nextKey, nextValue⟩ := entry
      rw [List.forall_mem_cons] at all
      have line : writeEntries step column ((nextKey, nextValue) :: others) ++
          '\n' :: (blanks count ++ here) =
          '\n' :: (blanks column ++ (nextKey.text.toList ++ ':' :: (nextValue.lead step column ++
            (nextValue.write step (column + step + 1) ++
              (writeEntries step column others ++ '\n' :: (blanks count ++ here)))))) := by
        simp [writeEntries]
      rw [line] at ready
      have one := comes_entry scans ready enters (Nat.le_refl column) (.inl (nextKey.bare.ink _))
      obtain ⟨outer, rfl⟩ := enters.inner_eq
      have near : ∀ head ∈ (column :: outer).head?, head ≤ column := by
        intro head same
        cases same
        exact Nat.le_refl column
      rw [(endings_of_shallow near).1, (endings_of_shallow near).2] at one
      have rest := one.trans fun _ _ there => induction all.1 all.2 there .later
      simpa [tokensOfEntries] using rest

theorem comes_items {item : Block} {others : List Block} (scans : item.Scans step)
    (all : ∀ item ∈ others, item.Scans step)
    (ready : layout.Ready text column before columns true
      ('-' :: ' ' :: (item.write step (column + 2) ++
      (writeItems step column others ++ '\n' :: (blanks count ++ here)))))
    (enters : Enters .blockSequenceStart column columns opened inner) (shallow : count ≤ column)
    (start : InkOrEnd here) :
    layout.Comes text count
      (endings count inner ++ ((tokensOfItems (item :: others)).reverse ++ (opened ++ before)))
      (staying count inner) true here := by
  induction others generalizing item layout text before columns opened with
  | nil =>
      have dashed := comes_dash ready (item.ink_write step _ _) enters
      obtain ⟨outer, rfl⟩ := enters.inner_eq
      have one := dashed.trans fun _ _ there => scans there (.inl rfl) (by omega) shallow start
      simpa [tokensOfItems] using one
  | cons next others induction =>
      rw [List.forall_mem_cons] at all
      have line : writeItems step column (next :: others) ++ '\n' :: (blanks count ++ here) =
          '\n' :: (blanks column ++ ('-' :: ' ' :: (next.write step (column + 2) ++
            (writeItems step column others ++ '\n' :: (blanks count ++ here))))) := by
        simp [writeItems]
      rw [line] at ready
      have dashed := comes_dash ready (item.ink_write step _ _) enters
      obtain ⟨outer, rfl⟩ := enters.inner_eq
      have near : ∀ head ∈ (column :: outer).head?, head ≤ column := by
        intro head same
        cases same
        exact Nat.le_refl column
      have one := dashed.trans fun _ _ there =>
        scans there (.inl rfl) (by omega) (Nat.le_refl column)
          (.inl ⟨'-', _, rfl, by decide, by decide, by decide⟩)
      rw [(endings_of_shallow near).1, (endings_of_shallow near).2] at one
      have rest := one.trans fun _ _ there => induction all.1 all.2 there .later
      simpa [tokensOfItems] using rest

theorem scans_bare (bare : Bare) : (Block.scalar bare).Scans step :=
  fun ready _ deeper shallow start => comes_bare ready deeper shallow start

theorem scans_sequence {first : Block} {others : List Block} (scans : first.Scans step)
    (all : ∀ item ∈ others, item.Scans step) : (Block.sequence first others).Scans step := by
  intro layout text here column head count before outer allowed ready may deeper shallow start
  obtain rfl | ⟨bare, impossible⟩ := may
  · have enters :
        Enters .blockSequenceStart column (head :: outer) [.blockSequenceStart]
        (column :: head :: outer) :=
      .first fun _ same => Option.some.inj same ▸ deeper
    have line : (Block.sequence first others).write step column ++ '\n' :: (blanks count ++ here) =
        '-' :: ' ' :: (first.write step (column + 2) ++
          (writeItems step column others ++ '\n' :: (blanks count ++ here))) := by
      simp [write]
    rw [line] at ready
    have items := comes_items scans all ready enters (by omega) start
    have left := endings_cons_of_deep (Nat.lt_of_le_of_lt shallow deeper) (head :: outer)
    rw [left.1, left.2, List.cons_append, ← endings_append_end] at items
    have tokens : (Block.sequence first others).tokens.reverse ++ before = .blockEnd ::
        ((tokensOfItems (first :: others)).reverse ++ ([.blockSequenceStart] ++ before)) := by
      simp [Block.tokens, tokensOfItems]
    rw [tokens]
    exact items
  · cases impossible

theorem scans_mapping {key : WordKey} {value : Block} {others : List (WordKey × Block)}
    (scans : value.Scans step) (all : ∀ entry ∈ others, entry.2.Scans step) :
    (Block.mapping key value others).Scans step := by
  intro layout text here column head count before outer allowed ready may deeper shallow start
  obtain rfl | ⟨bare, impossible⟩ := may
  · have enters :
        Enters .blockMappingStart column (head :: outer) [.blockMappingStart]
        (column :: head :: outer) :=
      .first fun _ same => Option.some.inj same ▸ deeper
    have line : (Block.mapping key value others).write step column ++
        '\n' :: (blanks count ++ here) = key.text.toList ++
        ':' :: (value.lead step column ++ (value.write step (column + step + 1) ++
          (writeEntries step column others ++ '\n' :: (blanks count ++ here)))) := by
      simp [write]
    rw [line] at ready
    have entries := comes_entries scans all ready enters (by omega) start
    have left := endings_cons_of_deep (Nat.lt_of_le_of_lt shallow deeper) (head :: outer)
    rw [left.1, left.2, List.cons_append, ← endings_append_end] at entries
    have tokens : (Block.mapping key value others).tokens.reverse ++ before = .blockEnd ::
        ((tokensOfEntries ((key, value) :: others)).reverse ++
          ([.blockMappingStart] ++ before)) := by
      simp [Block.tokens, tokensOfEntries]
    rw [tokens]
    exact entries
  · cases impossible

mutual

theorem scans : ∀ block : Block, block.Scans step
  | .scalar bare => scans_bare bare
  | .sequence first others => scans_sequence (scans first) (items_scan others)
  | .mapping _ value others => scans_mapping (scans value) (entries_scan others)

theorem items_scan : ∀ items : List Block, ∀ item ∈ items, item.Scans step
  | [] => nofun
  | item :: items => List.forall_mem_cons.2 ⟨scans item, items_scan items⟩

theorem entries_scan : ∀ entries : List (WordKey × Block), ∀ entry ∈ entries, entry.2.Scans step
  | [] => nofun
  | (_, value) :: entries => List.forall_mem_cons.2 ⟨scans value, entries_scan entries⟩

end

theorem tokens_at_text_end (ready : layout.Ready text 0 before [0] true []) :
    layout.tokensFrom .whole text = before.reverse ++ [.blockEnd, .streamEnd] := by
  obtain ⟨position, left, advanced⟩ := ready
  have ended : position.endLine = position := if_pos left
  have finished : (standing position before [0] true).finish =
      some (before.reverse ++ [.blockEnd, .streamEnd]) := by
    rw [finish]
    change some ((Token.streamEnd :: .blockEnd :: before).reverse) = _
    simp
  rw [tokens_from_at_end advanced, if_pos (Supply.whole_serves _), finished]
  rfl

theorem tokens_of_mapping (step : Nat) (key : WordKey) (value : Block)
    (others : List (WordKey × Block)) :
    Yaml.tokens .whole ((Block.mapping key value others).write step 0 ++ ['\n']) =
      (Block.mapping key value others).tokens ++ [.streamEnd] := by
  have line : (Block.mapping key value others).write step 0 ++ ['\n'] = key.text.toList ++ ':' ::
      (value.lead step 0 ++ (value.write step (0 + step + 1) ++
        (writeEntries step 0 others ++ '\n' :: (blanks 0 ++ [])))) := by
    simp [write, blanks]
  have start :
      Layout.start.Ready (key.text.toList ++
      ':' :: (value.lead step 0 ++ (value.write step (0 + step + 1) ++
      (writeEntries step 0 others ++ '\n' :: (blanks 0 ++ []))))) 0 [] [] true _ :=
    ready_here (.inl (key.bare.ink _)) rfl
  obtain ⟨later, rest, same, there⟩ :=
    comes_entries (scans value) (entries_scan others) start (.first nofun)
    (Nat.le_refl 0) (.inr rfl)
  have whole := same.trans (tokens_at_text_end there)
  have left : endings 0 [0] = [] := rfl
  obtain ⟨char, behind, spelled⟩ := key.bare.eq_cons
  have unmarked : char ≠ byteOrderMark := by
    rintro rfl
    have member : byteOrderMark ∈ key.bare.text.toList := by
      rw [spelled]
      exact List.mem_cons_self
    exact absurd (key.bare.chars byteOrderMark member) (by decide)
  change key.text.toList = char :: behind at spelled
  rw [line]
  rw [spelled] at whole ⊢
  rw [List.cons_append, Yaml.tokens, if_neg unmarked, ← List.cons_append, whole]
  simp [Block.tokens, tokensOfEntries, left]

end

end Block

end ManifestLint.Yaml
