import ManifestLint.Proofs.Yaml.Lexemes
import ManifestLint.Yaml.TokenStream

/-!
The tokens of a value in flow style. Whatever stands before it in its line, a scanner that comes to
such a value leaves it with the tokens of the value behind those it had, and as deep in collections
as before.
-/

namespace ManifestLint.Yaml

theorem skip_filler_ink (flow allowed : Bool) {text : List Char} (ink : Ink text) :
    skipFiller flow false allowed text = (allowed, text) := by
  obtain ⟨char, rest, rfl, noSpace, noBreak, noComment⟩ := ink
  rw [isSpace, Bool.or_eq_false_iff] at noSpace
  rw [skipFiller, noBreak, noSpace.1, noSpace.2, beq_eq_false_iff_ne.2 noComment]
  rfl

theorem skip_filler_blanks (flow allowed : Bool) (count : Nat) {text : List Char} (ink : Ink text) :
    skipFiller flow false allowed (List.replicate count ' ' ++ text) = (allowed, text) := by
  induction count with
  | zero => exact skip_filler_ink flow allowed ink
  | succ count induction =>
      rw [List.replicate_succ, List.cons_append, skipFiller]
      exact induction

theorem after_printable {text : List Char} (printable : ∀ char ∈ text, Printable char)
    (position : Position) :
    position.after text =
      ⟨position.index + text.length, position.line, position.column + text.length⟩ := by
  induction text generalizing position with
  | nil => rfl
  | cons char text induction =>
      rw [List.forall_mem_cons] at printable
      have others := induction printable.2 (position.next char)
      rw [Position.after, List.foldl_cons, ← Position.after, others, Position.next,
        printable_is_no_break printable.1, List.length_cons]
      simp only [Bool.false_eq_true, if_false, Position.mk.injEq, true_and]
      omega

theorem printable_one {char : Char} (printable : Printable char) :
    ∀ other ∈ [char], Printable other := by
  rw [List.forall_mem_singleton]
  exact printable

theorem printable_blanks (count : Nat) : ∀ char ∈ List.replicate count ' ', Printable char := by
  intro char member
  rw [List.eq_of_mem_replicate member]
  decide

namespace Layout

/-- No possible key has to be one. -/
def Loose (layout : Layout) : Prop :=
  ∀ candidate ∈ layout.candidate :: layout.outer, ∀ key ∈ candidate, key.required = false

/-- A text that can be passed over: no key that has to come is lost, and no block ends. -/
structure Passes (layout : Layout) (text : List Char) : Prop where
  keys : ∀ candidate ∈ layout.candidate :: layout.outer, ∀ key ∈ candidate,
    key.required = true → Candidate.stale (layout.position.after text) key = false
  columns : ∀ column ∈ layout.columns, column ≤ (layout.position.after text).column

def past (layout : Layout) (text : List Char) : Layout :=
  let fresh (candidate : Option Candidate) :=
    candidate.filter (!Candidate.stale (layout.position.after text) ·)
  { layout with
    position := layout.position.after text
    candidate := fresh layout.candidate
    outer := layout.outer.map fresh }

theorem refresh_of_passes {layout : Layout} {text : List Char} (passes : layout.Passes text) :
    ({ layout with position := layout.position.after text } : Layout).refresh =
      some (layout.past text) := by
  have kept : ¬ (layout.candidate :: layout.outer).any (·.any fun key =>
      Candidate.stale (layout.position.after text) key && key.required) = true := by
    intro lost
    obtain ⟨candidate, member, found⟩ := List.any_eq_true.1 lost
    obtain ⟨key, present, both⟩ := (Option.any_eq_true _ _).1 found
    rw [Bool.and_eq_true] at both
    have fresh := passes.keys candidate member key present both.2
    rw [fresh] at both
    exact Bool.false_ne_true both.1
  exact if_neg kept

theorem unroll_of_columns {layout : Layout}
    (columns : ∀ column ∈ layout.columns, column ≤ layout.position.column) :
    layout.unroll = layout := by
  rw [unroll, unrollWhile]
  by_cases flow : layout.inFlow = true
  · rw [if_pos flow]
  · rw [if_neg flow]
    cases layout with
    | mk position tokens candidate outer openColumns allowed =>
        cases openColumns with
        | nil => rfl
        | cons column others =>
            have shallow : ¬ position.column < column :=
              Nat.not_lt.2 (columns column List.mem_cons_self)
            simp [shallow]

theorem advance_blanks {layout : Layout} {count : Nat} {here : List Char}
    (passes : layout.Passes (List.replicate count ' ')) (ink : Ink here) :
    layout.advance (List.replicate count ' ' ++ here) =
      (some (layout.past (List.replicate count ' ')), here) := by
  have steady : (layout.past (List.replicate count ' ')).unroll = _ :=
    unroll_of_columns passes.columns
  rw [advance, skip_filler_blanks _ _ count ink]
  dsimp only
  simp [refresh_of_passes passes, Option.map_some, steady]

theorem take_of_accept {ready taken : Layout} {token : Token} {ended : Bool}
    {written rest : List Char} (accepted : ready.accept token ended = some taken)
    (still : taken.position = ready.position) (passes : taken.Passes written) :
    ready.take ⟨token, ended⟩ (written ++ rest) rest = some (taken.past written) := by
  rw [take, accepted]
  change ({ taken with position := _ } : Layout).refresh = _
  rw [Position.up_to_append, ← still]
  exact refresh_of_passes passes

theorem tokens_from_of_served {layout ready taken : Layout} {supply : Supply}
    {text here rest : List Char} {lexeme : Lexeme}
    (advanced : layout.advance text = (some ready, here))
    (read : readLexeme ready.site here = some (lexeme, rest))
    (served : supply.serves (lexemeDemands ready.site here rest) = true)
    (accepted : ready.take lexeme here rest = some taken) :
    layout.tokensFrom supply text = taken.tokensFrom supply rest := by
  cases here with
  | nil => simp [readLexeme] at read
  | cons char after =>
      rw [tokensFrom]
      split
      · next stopped => simp [advanced] at stopped
      · next ended => simp [advanced] at ended
      · next went =>
        rw [advanced] at went
        cases went
        split
        · next unread => simp [read] at unread
        · next found =>
          rw [read] at found
          cases found
          rw [if_pos served, accepted]

theorem advance_eq {layout : Layout} {text here : List Char} {allowed : Bool}
    (skipped : skipFiller layout.inFlow false layout.keyAllowed text = (allowed, here)) :
    layout.advance text =
      (({ layout with position := layout.position.upTo text here, keyAllowed :=
        allowed } : Layout).refresh.map
        unroll, here) := by
  rw [advance, skipped]

theorem tokens_from_at_end {layout ready : Layout} {supply : Supply} {text : List Char}
    (advanced : layout.advance text = (some ready, [])) :
    layout.tokensFrom supply text =
      if supply.serves [⟨0, 4⟩] then ready.finish.getD layout.settled else layout.settled := by
  rw [tokensFrom]
  split
  · next stopped => simp [advanced] at stopped
  · next went =>
    rw [advanced] at went
    cases went
    rfl
  · next more => simp [advanced] at more

theorem tokens_from_of_steps {layout ready taken : Layout} {text here rest : List Char}
    {lexeme : Lexeme} (advanced : layout.advance text = (some ready, here))
    (read : readLexeme ready.site here = some (lexeme, rest))
    (accepted : ready.take lexeme here rest = some taken) :
    layout.tokensFrom .whole text = taken.tokensFrom .whole rest :=
  tokens_from_of_served advanced read (Supply.whole_serves _) accepted

theorem tokens_from_lexeme {layout taken : Layout} {count : Nat} {written rest : List Char}
    {token : Token} (passes : layout.Passes (List.replicate count ' '))
    (ink : Ink (written ++ rest))
    (read : readLexeme (layout.past (List.replicate count ' ')).site (written ++ rest) =
      some (⟨token, false⟩, rest))
    (accepted : (layout.past (List.replicate count ' ')).accept token false = some taken)
    (still : taken.position = (layout.past (List.replicate count ' ')).position)
    (passed : taken.Passes written) :
    layout.tokensFrom .whole (List.replicate count ' ' ++ (written ++ rest)) =
      (taken.past written).tokensFrom .whole rest :=
  tokens_from_of_steps (advance_blanks passes ink) read (take_of_accept accepted still passed)

/-- A layout inside a line of a block mapping, behind the given tokens and so deep in flow
collections. -/
structure Within (layout : Layout) (tokens : List Token) (depth : Nat) : Prop where
  behind : layout.tokens = tokens
  deep : layout.outer.length = depth
  block : layout.columns = [0]
  inside : 0 < layout.position.column
  loose : layout.Loose
  closed : depth = 0 → layout.keyAllowed = false

section
variable {layout : Layout} {before : List Token} {depth : Nat}

theorem Loose.passes (loose : layout.Loose) (columns : layout.columns = [0]) (text : List Char) :
    layout.Passes text := by
  constructor
  · intro candidate member key present required
    rw [loose candidate member key present] at required
    cases required
  · intro column member
    rw [columns, List.mem_singleton] at member
    rw [member]
    exact Nat.zero_le _

theorem Within.passes (within : layout.Within before depth) (text : List Char) :
    layout.Passes text :=
  within.loose.passes within.block text

theorem in_flow_iff (layout : Layout) : layout.inFlow = true ↔ layout.outer.length ≠ 0 := by
  rw [inFlow, Bool.not_eq_true', List.isEmpty_eq_false_iff, ne_eq, ne_eq, List.length_eq_zero_iff]

theorem Loose.past (loose : layout.Loose) (text : List Char) : (layout.past text).Loose := by
  intro candidate member key present
  rcases List.mem_cons.1 member with rfl | inner
  · exact loose _ List.mem_cons_self key (Option.mem_filter_iff.1 present).1
  · obtain ⟨old, was, rfl⟩ := List.mem_map.1 inner
    exact loose old (List.mem_cons_of_mem _ was) key (Option.mem_filter_iff.1 present).1

theorem Within.past (within : layout.Within before depth) {text : List Char}
    (printable : ∀ char ∈ text, Printable char) : (layout.past text).Within before depth := by
  refine ⟨within.behind, ?_, within.block, ?_, within.loose.past text, within.closed⟩
  · rw [Layout.past, List.length_map]
    exact within.deep
  · have inside := within.inside
    rw [Layout.past, after_printable printable]
    dsimp only
    omega

theorem drop_key_of_loose (loose : layout.Loose) :
    layout.dropKey = some { layout with candidate := none } := by
  rw [dropKey]
  apply if_neg
  rw [Option.any_eq_true]
  rintro ⟨key, present, required⟩
  rw [loose layout.candidate List.mem_cons_self key present] at required
  cases required

theorem Loose.without_key (loose : layout.Loose) :
    ({ layout with candidate := none } : Layout).Loose := by
  intro candidate member key present
  rcases List.mem_cons.1 member with rfl | inner
  · cases present
  · exact loose candidate (List.mem_cons_of_mem _ inner) key present

theorem save_key_within (within : layout.Within before depth) :
    ∃ candidate, layout.saveKey = some { layout with candidate } ∧
      (∀ key ∈ candidate, key.required = false) ∧
      (layout.keyAllowed = true → candidate = some ⟨before.length, layout.position, false⟩) := by
  rw [saveKey]
  by_cases allowed : layout.keyAllowed = true
  · have flow : layout.inFlow = true := by
      rw [in_flow_iff, within.deep]
      intro shallow
      rw [within.closed shallow] at allowed
      cases allowed
    rw [if_pos allowed, drop_key_of_loose within.loose, flow, within.behind]
    refine ⟨_, rfl, ?_, fun _ => rfl⟩
    intro key present
    cases present
    rfl
  · rw [if_neg allowed]
    refine ⟨layout.candidate, rfl, ?_, fun found => absurd found allowed⟩
    intro key present
    exact within.loose _ List.mem_cons_self key present

theorem accept_scalar (within : layout.Within before depth) (spelling : Spelling) :
    ∃ taken, layout.accept spelling.token false = some taken ∧ taken.position = layout.position ∧
      taken.Within (spelling.token :: before) depth ∧ taken.keyAllowed = false ∧
      (layout.keyAllowed = true →
        taken.candidate = some ⟨before.length, layout.position, false⟩) := by
  obtain ⟨candidate, saved, free, noted⟩ := save_key_within within
  refine ⟨{ layout with candidate, tokens := spelling.token :: layout.tokens, keyAllowed := false },
    ?_, rfl, ?_, rfl, noted⟩
  · have expected : layout.accept spelling.token false =
        layout.saveKey.bind fun saved => some ((saved.allowKey false).emit spelling.token) := by
      cases spelling <;> rfl
    rw [expected, saved]
    rfl
  · refine ⟨?_, within.deep, within.block, within.inside, ?_, fun _ => rfl⟩
    · rw [within.behind]
    · intro other member key present
      rcases List.mem_cons.1 member with rfl | inner
      · exact free key present
      · exact within.loose other (List.mem_cons_of_mem _ inner) key present

theorem accept_open (within : layout.Within before depth) {token : Token}
    (opening : token = .flowSequenceStart ∨ token = .flowMappingStart) :
    ∃ taken, layout.accept token false = some taken ∧ taken.position = layout.position ∧
      taken.Within (token :: before) (depth + 1) ∧ taken.keyAllowed = true := by
  obtain ⟨candidate, saved, free, _⟩ := save_key_within within
  refine ⟨{ layout with
    candidate := none, outer := candidate :: layout.outer, tokens := token :: layout.tokens,
    keyAllowed := true }, ?_, rfl, ?_, rfl⟩
  · rcases opening with rfl | rfl
    all_goals
      rw [accept, saved]
      rfl
  · refine ⟨?_, ?_, within.block, within.inside, ?_,
      fun shallow => absurd shallow (Nat.succ_ne_zero _)⟩
    · rw [within.behind]
    · rw [List.length_cons, within.deep]
    · intro other member key present
      rcases List.mem_cons.1 member with rfl | inner
      · cases present
      · rcases List.mem_cons.1 inner with rfl | older
        · exact free key present
        · exact within.loose other (List.mem_cons_of_mem _ older) key present

theorem accept_close (within : layout.Within before (depth + 1)) {token : Token}
    (closing : token = .flowSequenceEnd ∨ token = .flowMappingEnd) :
    ∃ taken, layout.accept token false = some taken ∧ taken.position = layout.position ∧
      taken.Within (token :: before) depth ∧ taken.keyAllowed = false := by
  refine ⟨{ layout with
    candidate := layout.outer.head?.join, outer := layout.outer.tail, tokens :=
    token :: layout.tokens,
    keyAllowed := false }, ?_, rfl, ?_, rfl⟩
  · rcases closing with rfl | rfl
    all_goals
      rw [accept, drop_key_of_loose within.loose]
      rfl
  · have deep := within.deep
    refine ⟨?_, ?_, within.block, within.inside, ?_, fun _ => rfl⟩
    · rw [within.behind]
    · rw [List.length_tail, deep]
      rfl
    · cases outer : layout.outer with
      | nil =>
          rw [outer] at deep
          cases deep
      | cons candidate others =>
          have inner := within.loose
          rw [Loose, outer] at inner
          exact fun other member => inner other (List.mem_cons_of_mem _ member)

theorem accept_comma (within : layout.Within before (depth + 1)) :
    ∃ taken, layout.accept .flowEntry false = some taken ∧ taken.position = layout.position ∧
      taken.Within (.flowEntry :: before) (depth + 1) ∧ taken.keyAllowed = true := by
  refine ⟨{ layout with
    candidate := none, tokens := .flowEntry :: layout.tokens, keyAllowed :=
    true }, ?_, rfl, ?_, rfl⟩
  · rw [accept, drop_key_of_loose within.loose]
    rfl
  · refine ⟨?_, within.deep, within.block, within.inside, within.loose.without_key,
      fun shallow => absurd shallow (Nat.succ_ne_zero _)⟩
    rw [within.behind]

/-- A colon behind a scalar that is a possible key makes it one. -/
theorem accept_colon {token : Token} (within : layout.Within (token :: before) (depth + 1))
    {position : Position} (noted : layout.candidate = some ⟨before.length, position, false⟩) :
    ∃ taken, layout.accept .value false = some taken ∧ taken.position = layout.position ∧
      taken.Within (.value :: token :: .key :: before) (depth + 1) ∧ taken.keyAllowed = false := by
  have flow : layout.inFlow = true := by
    rw [in_flow_iff, within.deep]
    exact Nat.succ_ne_zero _
  have announced : layout.insert before.length .key =
      { layout with tokens := token :: .key :: before } := by
    rw [insert, within.behind, List.length_cons, Nat.add_sub_cancel_left]
    rfl
  refine ⟨{ layout with
    candidate := none, tokens := .value :: token :: .key :: before, keyAllowed :=
    false }, ?_, rfl, ?_, rfl⟩
  · have rolled : ({ layout with tokens := token :: .key :: before } : Layout).inFlow = true := flow
    rw [accept, acceptValue, noted]
    dsimp only
    rw [announced, roll, rolled]
    rfl
  · exact ⟨rfl, within.deep, within.block, within.inside, within.loose.without_key, fun _ => rfl⟩

/-- A scanner comes from a text to a rest of it, and is then inside a line behind the given tokens.
-/
def Scans (layout : Layout) (text rest : List Char) (tokens : List Token) (depth : Nat)
    (allowed : Bool) : Prop :=
  ∃ later : Layout, layout.tokensFrom .whole text = later.tokensFrom .whole rest ∧
    later.Within tokens depth ∧
    later.keyAllowed = allowed

theorem scan_of_accept (within : layout.Within before depth) {count : Nat}
    {written rest : List Char} {token : Token} {after : List Token} {deeper : Nat} {allowed : Bool}
    (ink : Ink (written ++ rest)) (printable : ∀ char ∈ written, Printable char)
    (read : readLexeme (layout.past (List.replicate count ' ')).site (written ++ rest) =
      some (⟨token, false⟩, rest))
    (accepted : ∃ taken, (layout.past (List.replicate count ' ')).accept token false = some taken ∧
      taken.position = (layout.past (List.replicate count ' ')).position ∧
      taken.Within after deeper ∧ taken.keyAllowed = allowed) :
    layout.Scans (List.replicate count ' ' ++ (written ++ rest)) rest after deeper allowed := by
  obtain ⟨taken, took, still, held, key⟩ := accepted
  exact ⟨taken.past written, tokens_from_lexeme (within.passes _) ink read took still
    (held.passes _),
    held.past printable, key⟩

theorem site_of_within (within : layout.Within before depth) :
    0 < layout.site.column ∧ layout.site.flow = !(depth == 0) := by
  refine ⟨within.inside, ?_⟩
  rw [← within.deep, site, inFlow]
  cases layout.outer <;> rfl

theorem scan_scalar (within : layout.Within before depth) (count : Nat) (spelling : Spelling)
    {rest : List Char} (ending : spelling.style = .plain → EndsWord (!(depth == 0)) rest) :
    layout.Scans (List.replicate count ' ' ++ (spelling.write ++ rest)) rest
      (spelling.token :: before)
      depth false := by
  have there := within.past (printable_blanks count)
  obtain ⟨taken, accepted, still, held, key, _⟩ := accept_scalar there spelling
  apply scan_of_accept within (spelling.ink_write rest) spelling.printable_write
  · apply read_lexeme_spelling
    rw [(site_of_within there).2]
    exact ending
  · exact ⟨taken, accepted, still, held, key⟩

theorem scan_indicator (within : layout.Within before depth) (count : Nat) {char : Char}
    {rest : List Char} {token : Token} {after : List Token} {deeper : Nat} {allowed : Bool}
    (printable : Printable char) (ink : Ink (char :: rest))
    (plain : ∀ flow, indicator flow char rest = some token)
    (accepted : ∀ there : Layout, there.Within before depth →
      ∃ taken, there.accept token false = some taken ∧ taken.position = there.position ∧
        taken.Within after deeper ∧ taken.keyAllowed = allowed) :
    layout.Scans (List.replicate count ' ' ++ char :: rest) rest after deeper allowed := by
  have there := within.past (printable_blanks count)
  exact scan_of_accept within ink (printable_one printable)
    (read_lexeme_of_indicator (site_of_within there).1 (plain _)) (accepted _ there)

theorem scan_sequence_start (within : layout.Within before depth) (count : Nat) (rest : List Char) :
    layout.Scans (List.replicate count ' ' ++ '[' :: rest) rest (.flowSequenceStart :: before)
      (depth + 1) true :=
  scan_indicator within count (by decide) ⟨_, _, rfl, by decide⟩ (fun _ => rfl)
    fun _ there => accept_open there (.inl rfl)

theorem scan_mapping_start (within : layout.Within before depth) (count : Nat) (rest : List Char) :
    layout.Scans (List.replicate count ' ' ++ '\x7b' :: rest) rest (.flowMappingStart :: before)
      (depth + 1) true :=
  scan_indicator within count (by decide) ⟨_, _, rfl, by decide⟩ (fun _ => rfl)
    fun _ there => accept_open there (.inr rfl)

theorem scan_sequence_end (within : layout.Within before (depth + 1)) (rest : List Char) :
    layout.Scans (']' :: rest) rest (.flowSequenceEnd :: before) depth false :=
  scan_indicator within 0 (by decide) ⟨_, _, rfl, by decide⟩ (fun _ => rfl)
    fun _ there => accept_close there (.inl rfl)

theorem scan_mapping_end (within : layout.Within before (depth + 1)) (rest : List Char) :
    layout.Scans ('\x7d' :: rest) rest (.flowMappingEnd :: before) depth false :=
  scan_indicator within 0 (by decide) ⟨_, _, rfl, by decide⟩ (fun _ => rfl)
    fun _ there => accept_close there (.inr rfl)

theorem scan_comma (within : layout.Within before (depth + 1)) (rest : List Char) :
    layout.Scans (',' :: rest) rest (.flowEntry :: before) (depth + 1) true :=
  scan_indicator within 0 (by decide) ⟨_, _, rfl, by decide⟩ (fun _ => rfl)
    fun _ there => accept_comma there

theorem past_keeps_key {key : Candidate} (noted : layout.candidate = some key) {text : List Char}
    (fresh : Candidate.stale (layout.position.after text) key = false) :
    (layout.past text).candidate = some key := by
  rw [Layout.past]
  dsimp only
  rw [noted, Option.filter_some, fresh]
  rfl

/-- A key is so short that its colon comes before the text has run past it. -/
theorem fresh_behind_key (position : Position) (key : Key) (slot : Nat) (required : Bool) :
    Candidate.stale (position.after key.spelling.write) ⟨slot, position, required⟩ = false := by
  have short := key.length_write_le
  have near : ¬ position.index + 1024 < position.index + key.spelling.write.length := by omega
  rw [after_printable key.spelling.printable_write, Candidate.stale]
  simp [near]

theorem scan_key (within : layout.Within before (depth + 1)) (allowed : layout.keyAllowed = true)
    (count : Nat) (key : Key) (rest : List Char) :
    layout.Scans (List.replicate count ' ' ++ (key.spelling.write ++ (':' :: ' ' :: rest)))
      (' ' :: rest)
      (.value :: key.spelling.token :: .key :: before) (depth + 1) false := by
  have there := within.past (printable_blanks count)
  obtain ⟨taken, accepted, still, held, _, noted⟩ := accept_scalar there key.spelling
  have keyed := noted allowed
  have read : readLexeme (layout.past (List.replicate count ' ')).site
      (key.spelling.write ++ (':' :: ' ' :: rest)) =
        some (⟨key.spelling.token, false⟩, ':' :: ' ' :: rest) :=
    read_lexeme_spelling _ _ fun _ => .inl ⟨rest, rfl⟩
  have one := tokens_from_lexeme (within.passes _) (key.spelling.ink_write _) read accepted still
    (held.passes _)
  -- The candidate is looked at twice before the colon is: behind the key, and where the colon
  -- stands.
  have behind := held.past key.spelling.printable_write
  have fresh := fresh_behind_key taken.position key before.length false
  rw [← still] at keyed
  have kept := past_keeps_key keyed fresh
  have again : ((taken.past key.spelling.write).past []).candidate = _ := past_keeps_key kept fresh
  have colon :
      (taken.past key.spelling.write).Scans (List.replicate 0 ' ' ++ ([':'] ++ ' ' :: rest))
      (' ' :: rest) _ _ _ :=
    scan_of_accept behind ⟨_, _, rfl, by decide⟩ (printable_one (by decide))
      (read_lexeme_of_indicator (behind.past (printable_blanks 0)).inside
        (by rw [indicator]; simp [atGap, isSpace]))
      (accept_colon (behind.past (printable_blanks 0)) again)
  obtain ⟨later, same, reached, closed⟩ := colon
  exact ⟨later, one.trans same, reached, closed⟩

theorem scan_separator (within : layout.Within before (depth + 1)) (first : Bool)
    (allowed : first = true → layout.keyAllowed = true) (text : List Char) :
    ∃ count, layout.Scans (Flow.separator first ++ text) (List.replicate count ' ' ++ text)
      ((Flow.separatorTokens first).reverse ++ before) (depth + 1) true := by
  cases first with
  | true => exact ⟨0, layout, rfl, within, allowed rfl⟩
  | false => exact ⟨1, scan_comma within (' ' :: text)⟩

theorem Scans.trans {text middle rest : List Char} {between after : List Token} {deep deeper : Nat}
    {first second : Bool} (scans : layout.Scans text middle between deep first)
    (next : ∀ later : Layout, later.Within between deep → later.keyAllowed = first →
      later.Scans middle rest after deeper second) :
      layout.Scans text rest after deeper second := by
  obtain ⟨later, same, within, key⟩ := scans
  obtain ⟨last, again, held, allowed⟩ := next later within key
  exact ⟨last, same.trans again, held, allowed⟩

end

end Layout

namespace Flow

/-- What may follow a value: anything unless it is a word. -/
def EndsBefore (flow : Flow) (inside : Bool) (rest : List Char) : Prop :=
  ∀ spelling, flow = .scalar spelling → spelling.style = .plain → EndsWord inside rest

theorem ends_before_items (flow : Flow) (items : List Flow) (rest : List Char) :
    flow.EndsBefore true (writeItems false items ++ rest) := by
  intro _ _ _
  cases items with
  | nil => exact .inr ⟨rfl, ']', rest, rfl, by decide⟩
  | cons item items => exact .inr ⟨rfl, ',', _, rfl, by decide⟩

theorem ends_before_entries (flow : Flow) (entries : List (Key × Flow)) (rest : List Char) :
    flow.EndsBefore true (writeEntries false entries ++ rest) := by
  intro _ _ _
  cases entries with
  | nil => exact .inr ⟨rfl, '\x7d', rest, rfl, by decide⟩
  | cons entry entries => exact .inr ⟨rfl, ',', _, rfl, by decide⟩

end Flow

namespace Layout

mutual

theorem scan_flow : ∀ (flow : Flow) {layout : Layout} {before : List Token} {depth : Nat}
    (_ : layout.Within before depth) (count : Nat) {rest : List Char}
    (_ : flow.EndsBefore (!(depth == 0)) rest),
    layout.Scans (List.replicate count ' ' ++ (flow.write ++ rest)) rest
      (flow.tokens.reverse ++ before)
      depth false
  | .scalar spelling, _, _, _, within, count, _, ending =>
      scan_scalar within count spelling (ending spelling rfl)
  | .sequence items, _, before, _, within, count, rest, _ => by
      rw [Flow.tokens, List.reverse_cons, List.append_assoc]
      exact (scan_sequence_start within count (Flow.writeItems true items ++ rest)).trans
        fun _ inside allowed => scan_items items inside true fun _ => allowed
  | .mapping entries, _, before, _, within, count, rest, _ => by
      rw [Flow.tokens, List.reverse_cons, List.append_assoc]
      exact (scan_mapping_start within count (Flow.writeEntries true entries ++ rest)).trans
        fun _ inside allowed => scan_entries entries inside true fun _ => allowed

theorem scan_items : ∀ (items : List Flow) {layout : Layout} {before : List Token} {depth : Nat}
    (_ : layout.Within before (depth + 1)) (first : Bool)
      (_ : first = true → layout.keyAllowed = true)
    {rest : List Char},
    layout.Scans (Flow.writeItems first items ++ rest) rest
      ((Flow.tokensOfItems first items).reverse ++ before) depth false
  | [], _, _, _, within, _, _, rest => scan_sequence_end within rest
  | item :: items, layout, before, depth, within, first, allowed, rest => by
      obtain ⟨count, separated⟩ := scan_separator within first allowed
        (item.write ++ (Flow.writeItems false items ++ rest))
      rw [Flow.writeItems, Flow.tokensOfItems, List.append_assoc, List.append_assoc,
        List.reverse_append, List.reverse_append, List.append_assoc, List.append_assoc]
      refine separated.trans fun _ inside _ => ?_
      refine (scan_flow item inside count (item.ends_before_items items rest)).trans
        fun _ behind _ => ?_
      exact scan_items items behind false fun impossible => absurd impossible Bool.false_ne_true

theorem scan_entries : ∀ (entries : List (Key × Flow)) {layout : Layout} {before : List Token}
    {depth : Nat} (_ : layout.Within before (depth + 1)) (first : Bool)
    (_ : first = true → layout.keyAllowed = true) {rest : List Char},
    layout.Scans (Flow.writeEntries first entries ++ rest) rest
      ((Flow.tokensOfEntries first entries).reverse ++ before) depth false
  | [], _, _, _, within, _, _, rest => scan_mapping_end within rest
  | (key, value) :: entries, layout, before, depth, within, first, allowed, rest => by
      obtain ⟨count, separated⟩ := scan_separator within first allowed
        (key.spelling.write ++ (':' :: ' ' ::
          (value.write ++ (Flow.writeEntries false entries ++ rest))))
      have tokens : (Flow.tokensOfEntries first ((key, value) :: entries)).reverse ++ before =
          (Flow.tokensOfEntries false entries).reverse ++ (value.tokens.reverse ++
            (.value :: key.spelling.token :: .key ::
              ((Flow.separatorTokens first).reverse ++ before))) := by
        simp [Flow.tokensOfEntries]
      have text : Flow.writeEntries first ((key, value) :: entries) ++ rest =
          Flow.separator first ++ (key.spelling.write ++
            (':' :: ' ' :: (value.write ++ (Flow.writeEntries false entries ++ rest)))) := by
        simp [Flow.writeEntries]
      rw [text, tokens]
      refine separated.trans fun _ inside keyAllowed => ?_
      refine (scan_key inside keyAllowed count key _).trans fun _ behind _ => ?_
      refine (scan_flow value behind 1 (value.ends_before_entries entries rest)).trans
        fun _ last _ => ?_
      exact scan_entries entries last false fun impossible => absurd impossible Bool.false_ne_true

end

end Layout

end ManifestLint.Yaml
