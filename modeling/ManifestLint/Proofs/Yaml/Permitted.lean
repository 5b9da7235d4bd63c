import ManifestLint.Proofs.Text.Utf8
import ManifestLint.Yaml.Reading
import Mathlib.Algebra.GroupWithZero.Nat
import Mathlib.Data.List.Infix

/-!
Texts with a character that is not permitted. Their tokens never reach the end of the stream, so
such a text is no sound document, and no value is read from it. If the first such character lies in
the first chunk, there is no token at all.
-/

namespace ManifestLint.Yaml

namespace Layout

def Unended (layout : Layout) : Prop := Token.streamEnd ∉ layout.tokens

section
variable {layout : Layout}

theorem Unended.emit (unended : layout.Unended) {token : Token} (inner : token ≠ .streamEnd) :
    (layout.emit token).Unended := List.not_mem_cons_of_ne_of_not_mem (Ne.symm inner) unended

theorem Unended.insert (unended : layout.Unended) (slot : Nat) {token : Token}
    (inner : token ≠ .streamEnd) :
    (layout.insert slot token).Unended := by
  unfold Unended Layout.insert
  rw [List.mem_append, List.mem_cons, not_or, not_or]
  exact ⟨fun early => unended (List.mem_of_mem_take early), Ne.symm inner,
    fun late => unended (List.mem_of_mem_drop late)⟩

theorem Unended.unroll_while (unended : layout.Unended) (deeper : Nat → Bool) :
    (layout.unrollWhile deeper).Unended := by
  unfold unrollWhile
  split
  · exact unended
  · unfold Unended
    rw [List.mem_append, not_or]
    refine ⟨fun ended => ?_, unended⟩
    obtain ⟨_, _, same⟩ := List.mem_map.1 ended
    cases same

theorem Unended.roll (unended : layout.Unended) (column slot : Nat) {token : Token}
    (inner : token ≠ .streamEnd) : (layout.roll column slot token).Unended := by
  unfold Layout.roll
  split
  · exact unended
  · exact unended.insert slot inner

theorem Unended.roll_here (unended : layout.Unended) {token : Token} {rolled : Layout}
    (made : layout.rollHere token = some rolled) (inner : token ≠ .streamEnd) : rolled.Unended := by
  unfold rollHere at made
  split at made
  · cases made
    exact unended
  · split at made
    · cases made
      exact unended.roll _ _ inner
    · cases made

theorem Unended.drop_key (unended : layout.Unended) {dropped : Layout}
    (made : layout.dropKey = some dropped) : dropped.Unended := by
  unfold dropKey at made
  split at made
  · cases made
  · cases made
    exact unended

theorem Unended.save_key (unended : layout.Unended) {saved : Layout}
    (made : layout.saveKey = some saved) : saved.Unended := by
  unfold saveKey at made
  split at made
  · obtain ⟨dropped, lost, same⟩ := Option.bind_eq_some_iff.1 made
    have inner := unended.drop_key lost
    cases same
    exact inner
  · cases made
    exact unended

theorem Unended.accept_value (unended : layout.Unended) {taken : Layout}
    (made : layout.acceptValue = some taken) : taken.Unended := by
  unfold acceptValue at made
  split at made
  · next key found =>
    have keyed : (layout.insert key.slot .key).Unended := unended.insert _ nofun
    have inner : Token.blockMappingStart ≠ .streamEnd := nofun
    have announced := keyed.roll key.position.column key.slot inner
    rw [← Option.some.inj made]
    exact Unended.emit announced nofun
  · obtain ⟨rolled, begun, same⟩ := Option.bind_eq_some_iff.1 made
    have inner := unended.roll_here begun nofun
    rw [← Option.some.inj same]
    exact Unended.emit inner nofun

theorem Unended.accept (unended : layout.Unended) {token : Token} (inner : token ≠ .streamEnd)
    {ended : Bool} {taken : Layout} (accepted : layout.accept token ended = some taken) :
    taken.Unended := by
  have emitted {before after : Layout} (held : before.Unended)
      (same : after.tokens = before.tokens) :
      (after.emit token).Unended := by
    refine Unended.emit ?_ inner
    rw [Unended, same]
    exact held
  have unrolled : layout.unrollAll.Unended := unended.unroll_while _
  cases token with
  | versionDirective _ _ | tagDirective _ _ | documentStart | documentEnd =>
      obtain ⟨dropped, lost, same⟩ := Option.bind_eq_some_iff.1 accepted
      rw [← Option.some.inj same]
      exact emitted (unrolled.drop_key lost) rfl
  | flowSequenceEnd | flowMappingEnd | flowEntry =>
      obtain ⟨dropped, lost, same⟩ := Option.bind_eq_some_iff.1 accepted
      rw [← Option.some.inj same]
      exact emitted (unended.drop_key lost) rfl
  | blockEntry | key =>
      obtain ⟨rolled, begun, later⟩ := Option.bind_eq_some_iff.1 accepted
      obtain ⟨dropped, lost, same⟩ := Option.bind_eq_some_iff.1 later
      rw [← Option.some.inj same]
      exact emitted ((unended.roll_here begun nofun).drop_key lost) rfl
  | value => exact unended.accept_value accepted
  | scalar style text =>
      cases style with
      | literal | folded =>
          obtain ⟨dropped, lost, same⟩ := Option.bind_eq_some_iff.1 accepted
          rw [← Option.some.inj same]
          exact emitted (unended.drop_key lost) rfl
      | plain | singleQuoted | doubleQuoted =>
          obtain ⟨saved, noted, same⟩ := Option.bind_eq_some_iff.1 accepted
          rw [← Option.some.inj same]
          exact emitted (unended.save_key noted) rfl
  | streamEnd => exact absurd rfl inner
  | _ =>
      obtain ⟨saved, noted, same⟩ := Option.bind_eq_some_iff.1 accepted
      rw [← Option.some.inj same]
      exact emitted (unended.save_key noted) rfl

theorem Unended.refresh (unended : layout.Unended) {ready : Layout}
    (made : layout.refresh = some ready) :
    ready.Unended := by
  unfold Layout.refresh at made
  dsimp only at made
  split at made
  · cases made
  · rw [← Option.some.inj made]
    exact unended

theorem Unended.advance (unended : layout.Unended) {text rest : List Char} {ready : Layout}
    (advanced : layout.advance text = (some ready, rest)) : ready.Unended := by
  obtain ⟨fresh, made, same⟩ := Option.map_eq_some_iff.1 (Prod.mk.inj advanced).1
  rw [← same]
  have held : fresh.Unended := Unended.refresh (by exact unended) made
  exact held.unroll_while _

theorem Unended.take (unended : layout.Unended) {lexeme : Lexeme}
    (inner : lexeme.token ≠ .streamEnd) {text rest : List Char} {taken : Layout}
    (took : layout.take lexeme text rest = some taken) :
    taken.Unended := by
  obtain ⟨accepted, held, made⟩ := Option.bind_eq_some_iff.1 took
  have kept := unended.accept inner held
  exact Unended.refresh (by exact kept) made

theorem Unended.settled (unended : layout.Unended) : Token.streamEnd ∉ layout.settled :=
  fun member =>
  unended (List.mem_reverse.1 (List.mem_of_mem_take member))

end

theorem version_is_inner {text rest : List Char} {token : Token}
    (read : readVersion text = some (token, rest)) : token ≠ .streamEnd := by
  obtain ⟨⟨major, after⟩, _, minor⟩ := Option.bind_eq_some_iff.1 read
  dsimp only at minor
  split at minor
  · obtain ⟨⟨value, last⟩, _, same⟩ := Option.bind_eq_some_iff.1 minor
    cases same
    nofun
  · cases minor

theorem declaration_is_inner {text rest : List Char} {token : Token}
    (read : readDeclaration text = some (token, rest)) : token ≠ .streamEnd := by
  obtain ⟨⟨handle, after⟩, _, behind⟩ := Option.bind_eq_some_iff.1 read
  dsimp only at behind
  split at behind
  · cases behind
  · obtain ⟨⟨expansion, last⟩, _, same⟩ := Option.bind_eq_some_iff.1 behind
    dsimp only at same
    split at same
    · cases same
    · cases same
      nofun

theorem directive_is_inner {text rest : List Char} {token : Token}
    (read : readDirective text = some (token, rest)) : token ≠ .streamEnd := by
  obtain ⟨⟨found, after⟩, parameters, ended⟩ := Option.bind_eq_some_iff.1 read
  obtain ⟨last, _, same⟩ := Option.bind_eq_some_iff.1 ended
  cases same
  unfold readParameters at parameters
  split at parameters
  · cases parameters
  split at parameters
  · exact version_is_inner parameters
  split at parameters
  · exact declaration_is_inner parameters
  · cases parameters

theorem indicator_is_inner {flow : Bool} {char : Char} {rest : List Char} {token : Token}
    (read : indicator flow char rest = some token) : token ≠ .streamEnd := by
  intro ended
  rw [ended] at read
  unfold indicator at read
  split at read <;> simp at read

theorem word_is_inner {site : Site} {char : Char} {text rest : List Char} {lexeme : Lexeme}
    (read : readWord site char text = some (lexeme, rest)) : lexeme.token ≠ .streamEnd := by
  have made {Part : Type} {found : Option Part} {make : Part → Lexeme × List Char}
      (read : found.map make = some (lexeme, rest))
        (inner : ∀ part, (make part).1.token ≠ .streamEnd) :
      lexeme.token ≠ .streamEnd := by
    obtain ⟨part, _, same⟩ := Option.map_eq_some_iff.1 read
    have kind := inner part
    rw [same] at kind
    exact kind
  unfold readWord at read
  split at read
  · exact made read fun _ => nofun
  split at read
  · exact made read fun _ => nofun
  split at read
  · exact made read fun _ => nofun
  split at read
  · exact made read fun _ => nofun
  split at read
  · exact made read fun _ => nofun
  split at read
  · exact made read fun _ => nofun
  split at read
  · exact made read fun _ => nofun
  split at read
  · exact made read fun _ => nofun
  · cases read

theorem lexeme_is_inner {site : Site} {text rest : List Char} {lexeme : Lexeme}
    (read : readLexeme site text = some (lexeme, rest)) : lexeme.token ≠ .streamEnd := by
  unfold readLexeme at read
  split at read
  · cases read
  split at read
  · obtain ⟨⟨token, after⟩, found, same⟩ := Option.map_eq_some_iff.1 read
    cases same
    exact directive_is_inner found
  split at read
  · cases read
    exact Token.noConfusion
  split at read
  · cases read
    exact Token.noConfusion
  split at read
  · next char rest token found =>
    cases read
    exact indicator_is_inner found
  · exact word_is_inner read

theorem stream_end_not_mem {layout : Layout} {supply : Supply}
    (hidden : supply.serves [⟨0, 4⟩] = false) (unended : layout.Unended) (text : List Char) :
    Token.streamEnd ∉ layout.tokensFrom supply text := by
  fun_induction tokensFrom layout supply text with
  | case1 layout text rest stopped => exact unended.settled
  | case2 layout text ready advanced served =>
      rw [hidden] at served
      cases served
  | case3 => exact unended.settled
  | case4 => exact unended.settled
  | case5 => exact unended.settled
  | case6 layout text ready char after advanced lexeme rest read served taken took induction =>
      exact induction ((unended.advance advanced).take (lexeme_is_inner read) took)
  | case7 => exact unended.settled

end Layout

theorem suffix_of_properties {handles : Handles} {properties : Properties}
    {tokens rest : List Token} (read : readProperties handles tokens = some (properties, rest)) :
    rest <:+ tokens := by
  unfold readProperties at read
  split at read
  · obtain ⟨_, _, same⟩ := Option.bind_eq_some_iff.1 read
    cases same
    exact ⟨[_, _], rfl⟩
  · obtain ⟨_, _, same⟩ := Option.bind_eq_some_iff.1 read
    cases same
    exact ⟨[_, _], rfl⟩
  · cases read
    exact ⟨[_], rfl⟩
  · obtain ⟨_, _, same⟩ := Option.bind_eq_some_iff.1 read
    cases same
    exact ⟨[_], rfl⟩
  · cases read
    exact List.suffix_refl _

section
variable {tokens : List Token} {next : Advance}

theorem suffix_of_node_unless {stops : List Token} {node : Goal} {goals : List Goal}
    (read : nodeUnless stops node goals tokens = some next) : next.rest <:+ tokens := by
  unfold nodeUnless at read
  split at read
  · cases read
  · split at read
    · cases read
      exact List.suffix_refl _
    · cases read
      exact List.suffix_refl _

theorem suffix_of_omitted {properties : Properties}
    (read : omittedNode properties tokens = some next) :
    next.rest <:+ tokens := by
  simp only [omittedNode, Option.ite_none_left_eq_some] at read
  cases read.2
  exact List.suffix_refl _

theorem suffix_of_body {block indentless : Bool} {properties : Properties}
    (read : readBody block indentless properties tokens = some next) : next.rest <:+ tokens := by
  unfold readBody at read
  split at read
  · cases read
  · split at read
    · cases read
      exact List.suffix_cons _ _
    · cases read
      exact List.suffix_cons _ _
    · cases read
      exact List.suffix_cons _ _
    · split at read
      · cases read
        exact List.suffix_refl _
      · exact suffix_of_omitted read
    · split at read
      · cases read
        exact List.suffix_cons _ _
      · exact suffix_of_omitted read
    · split at read
      · cases read
        exact List.suffix_cons _ _
      · exact suffix_of_omitted read
    · exact suffix_of_omitted read

theorem suffix_of_node {handles : Handles} {block indentless : Bool}
    (read : readNode handles block indentless tokens = some next) : next.rest <:+ tokens := by
  unfold readNode at read
  split at read
  · cases read
    exact List.suffix_cons _ _
  · obtain ⟨⟨properties, behind⟩, found, body⟩ := Option.bind_eq_some_iff.1 read
    exact (suffix_of_body body).trans (suffix_of_properties found)

theorem suffix_of_flow_item (read : readFlowItem tokens = some next) : next.rest <:+ tokens := by
  unfold readFlowItem at read
  split at read
  · cases read
    exact List.suffix_cons _ _
  · cases read
    exact List.suffix_cons _ _
  · cases read
    exact List.suffix_refl _
  · cases read

theorem suffix_of_flow_entry (read : readFlowEntry tokens = some next) : next.rest <:+ tokens := by
  unfold readFlowEntry at read
  split at read
  · cases read
    exact List.suffix_cons _ _
  · exact (suffix_of_node_unless read).trans (List.suffix_cons _ _)
  · cases read
    exact List.suffix_refl _
  · cases read

/-- A line of the grammar takes one token, or none and leaves the rest to a goal. -/
theorem suffix_of_step {handles : Handles} {goal : Goal}
    (stepped : goal.step handles tokens = some next) :
    next.rest <:+ tokens := by
  unfold Goal.step at stepped
  split at stepped
  all_goals first
    | exact suffix_of_node stepped
    | exact suffix_of_flow_item stepped
    | exact suffix_of_flow_entry stepped
    | exact (suffix_of_node_unless stepped).trans (List.suffix_cons _ _)
    | exact (suffix_of_flow_item stepped).trans (List.suffix_cons _ _)
    | exact (suffix_of_flow_entry stepped).trans (List.suffix_cons _ _)
    | (cases stepped; done)
    | (cases stepped; exact List.suffix_refl _)
    | (cases stepped; exact List.suffix_cons _ _)

end

theorem suffix_of_pursue {handles : Handles} {goals : List Goal} {tokens rest : List Token}
    (left : (pursue handles goals tokens).2 = some rest) : rest <:+ tokens := by
  fun_induction pursue handles goals tokens with
  | case1 tokens =>
      cases left
      exact List.suffix_refl _
  | case2 => cases left
  | case3 goal goals tokens next stepped later induction =>
    exact (induction left).trans (suffix_of_step stepped)

theorem suffix_of_directives {known directives : Directives} {tokens rest : List Token}
    (read : readDirectives known tokens = some (directives, rest)) : rest <:+ tokens := by
  fun_induction readDirectives known tokens with
  | case1 => cases read
  | case2 _ _ _ _ _ induction => exact (induction read).trans (List.suffix_cons _ _)
  | case3 => cases read
  | case4 _ _ _ _ _ induction => exact (induction read).trans (List.suffix_cons _ _)
  | case5 =>
      cases read
      exact List.suffix_refl _

theorem suffix_of_announced {handles : Handles} {tokens rest : List Token}
    (left : (readAnnounced handles tokens).2 = some rest) : rest <:+ tokens := by
  unfold readAnnounced at left
  split at left
  · cases left
  · cases left
    exact List.suffix_refl _
  · cases left
    exact List.suffix_refl _
  · cases left
    exact List.suffix_refl _
  · cases left
    exact List.suffix_refl _
  · cases left
    exact List.suffix_refl _
  · exact suffix_of_pursue left

theorem suffix_of_document {tokens rest : List Token} (left : (readDocument tokens).2 = some rest) :
    rest <:+ tokens := by
  unfold readDocument at left
  split at left
  · cases left
  · next found =>
    exact (suffix_of_announced left).trans
      ((List.suffix_cons _ _).trans (suffix_of_directives found))
  · next found =>
    split at left
    · exact (suffix_of_pursue left).trans (suffix_of_directives found)
    · cases left

theorem unsound_of_unended {tokens : List Token} (unended : Token.streamEnd ∉ tokens) :
    (EventStream.ofTokens tokens).sound = false := by
  have more : tokens ≠ [.streamEnd] := by
    intro ended
    rw [ended] at unended
    exact unended List.mem_cons_self
  rw [EventStream.ofTokens, if_neg more]
  cases left : (readDocument tokens).2 with
  | none => simp only [left, endsStream, Option.any_none]
  | some rest =>
      have within : rest ⊆ tokens := (suffix_of_document left).subset
      simp only [left, endsStream, Option.any_some, beq_eq_false_iff_ne]
      intro last
      have member : Token.streamEnd ∈ rest.dropWhile (· == .documentEnd) := by
        rw [last]
        exact List.mem_cons_self
      exact unended (within ((List.dropWhile_sublist _).mem member))

theorem unsound_of_forbidden {text : String} (forbidden : text.toList.all isPermitted = false) :
    (Document.ofText text).sound = false := by
  have hidden : (Supply.ofStream text.toList).serves [⟨0, 4⟩] = false := by
    simp [Supply.ofStream, forbidden]
  have unended : Token.streamEnd ∉ tokens (.ofStream text.toList) (normalise text.toList) := by
    have nothing : Layout.start.Unended := List.not_mem_nil
    unfold tokens
    split
    · split
      · exact Layout.stream_end_not_mem hidden (by exact nothing) _
      · exact Layout.stream_end_not_mem hidden nothing _
    · exact Layout.stream_end_not_mem hidden nothing _
  have unsound := unsound_of_unended unended
  rw [Document.ofText, Document.ofEvents, unsound, Bool.and_false]
  rfl

theorem read_fails_of_unsound {Value : Type} {text : String}
    (unsound : (Document.ofText text).sound = false) (reader : Reader Value) :
    ∃ fault, readDocumentAs reader text = .error fault := by
  unfold readDocumentAs
  dsimp only
  cases ran : (reader .root (Document.ofText text).root).run (Document.ofText text).root
      (aliasesPerEvent * (Document.ofText text).eventCount) with
  | error fault => exact ⟨fault, rfl⟩
  | ok result =>
      rw [unsound]
      exact ⟨.malformed, rfl⟩

section
variable {before after : List Char} {char : Char}

theorem total_eq_sum (widths : List Nat) : total widths = widths.sum := rfl

theorem sum_widths (stream : List Char) : (widths stream).sum = stream.length := by
  fun_induction widths stream with
  | case1 rest induction =>
      rw [List.sum_cons, induction, List.length_cons, List.length_cons]
      omega
  | case2 char rest _ induction =>
      rw [List.sum_cons, induction, List.length_cons]
      omega
  | case3 => rfl

/-- What is hidden is everything, so nothing that is asked for can be had. -/
theorem hidden_serves_nothing {hidden : Nat} {widths : List Nat} (all : widths.sum ≤ hidden)
    {demand : Demand} (asked : 0 < demand.count) (demands : List Demand) :
    (Supply.without hidden widths).serves (demand :: demands) = false := by
  have below : (widths.take demand.left).sum ≤ widths.sum := by
    have parts := congrArg List.sum (List.take_append_drop demand.left widths)
    rw [List.sum_append] at parts
    omega
  have short : ¬ demand.count + hidden ≤ total (widths.take demand.left) := by
    rw [total_eq_sum]
    omega
  rw [Supply.serves, List.all_cons, decide_eq_false short, Bool.false_and]

theorem tokens_from_hidden {hidden : Nat} {widths : List Nat} (all : widths.sum ≤ hidden)
    (layout : Layout) (text : List Char) :
    layout.tokensFrom (.without hidden widths) text = layout.settled := by
  rw [Layout.tokensFrom]
  split
  · rfl
  · rw [hidden_serves_nothing all (by decide)]
    rfl
  · split
    · rfl
    · rw [lexemeDemands, hidden_serves_nothing all (Nat.succ_pos 3)]
      rfl

theorem tokens_of_hidden {hidden : Nat} {widths : List Nat} (all : widths.sum ≤ hidden)
    (text : List Char) :
    tokens (.without hidden widths) text = [] := by
  unfold tokens
  split
  · split
    · exact tokens_from_hidden all _ _
    · exact tokens_from_hidden all _ _
  · exact tokens_from_hidden all _ _

theorem stream_of_nothing : EventStream.ofTokens [] = ⟨[], false⟩ := by decide +kernel

theorem checked_length_of_forbidden (clean : before.all isPermitted = true)
    (bad : isPermitted char = false) {room : Nat}
    (fits : Text.byteCount before + char.utf8Size ≤ room) (held : Nat) :
    checkedLength room held (before ++ char :: after) = 0 := by
  induction before generalizing room held with
  | nil =>
      have inside : char.utf8Size ≤ room := by
        rw [Text.byteCount] at fits
        exact Nat.le_trans (Nat.le_add_left _ _) fits
      rw [List.nil_append, checkedLength, if_pos inside, bad]
      rfl
  | cons first before induction =>
      rw [List.all_cons, Bool.and_eq_true] at clean
      rw [Text.byte_count_cons] at fits
      have inside : first.utf8Size ≤ room := by omega
      rw [List.cons_append, checkedLength, if_pos inside, if_pos clean.1]
      exact induction clean.2 (by omega) _

/-- Nothing is read of a text whose first chunk holds a character that is not permitted. -/
theorem document_of_forbidden (clean : before.all isPermitted = true)
    (bad : isPermitted char = false) (fits : Text.byteCount before + char.utf8Size ≤ chunkSize) :
    Document.ofText (String.ofList (before ++ char :: after)) = .ofEvents ⟨[], false⟩ := by
  have forbidden : ¬ (before ++ char :: after).all isPermitted = true := by
    rw [List.all_append, List.all_cons, bad, Bool.false_and, Bool.and_false]
    exact Bool.false_ne_true
  have all : (widths (before ++ char :: after)).reverse.sum ≤ (before ++ char :: after).length := by
    rw [List.sum_reverse, sum_widths]
  rw [Document.ofText, String.toList_ofList, Supply.ofStream, if_neg forbidden,
    checked_length_of_forbidden clean bad fits, Nat.sub_zero, tokens_of_hidden all,
    stream_of_nothing]

end

end ManifestLint.Yaml
