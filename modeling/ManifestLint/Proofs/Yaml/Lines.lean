import ManifestLint.Proofs.Yaml.Scanning

/-!
The tokens of a mapping that is written line by line, each line with a key and a value in flow
style. The first key opens the mapping, every later one stands in its column, and the end of the
text closes it.
-/

namespace ManifestLint.Yaml

namespace Flow

/-- A value that ends by itself, which a word does not. -/
def EndsItself (flow : Flow) : Prop := ∀ spelling, flow = .scalar spelling → spelling.style ≠ .plain

def writeLine (entry : Key × Flow) : List Char :=
  entry.1.spelling.write ++ (':' :: ' ' :: (entry.2.write ++ ['\n']))

def tokensOfLine (entry : Key × Flow) : List Token :=
  .key :: entry.1.spelling.token :: .value :: entry.2.tokens

def writeLines (entries : List (Key × Flow)) : List Char := entries.flatMap writeLine

end Flow

namespace Spelling

theorem write_eq_cons (spelling : Spelling) : ∃ char rest, spelling.write = char :: rest := by
  obtain ⟨char, rest, same, _⟩ := spelling.ink_write []
  rw [List.append_nil] at same
  exact ⟨char, rest, same⟩

theorem length_write_pos (spelling : Spelling) : 0 < spelling.write.length := by
  obtain ⟨char, rest, same⟩ := spelling.write_eq_cons
  rw [same]
  exact Nat.succ_pos _

end Spelling

namespace Layout

structure AtLineStart (layout : Layout) (tokens : List Token) (columns : List Nat) : Prop where
  behind : layout.tokens = tokens
  flat : layout.outer = []
  block : layout.columns = columns
  left : layout.position.column = 0
  loose : layout.Loose
  allowed : layout.keyAllowed = true

/-- Whether a key that starts a line opens a block mapping or goes on with the one that is open. -/
inductive Opens : List Nat → List Token → Prop where
  | first : Opens [] [.blockMappingStart]
  | later : Opens [0] []

section
variable {layout : Layout} {before : List Token}

theorem advance_to_next_line (within : layout.Within before 0) {here : List Char}
    (start : Ink here ∨ here = []) :
    ∃ ready, layout.advance ('\n' :: here) = (some ready, here) ∧ ready.AtLineStart before [0] := by
  have flat : layout.outer = [] := List.length_eq_zero_iff.1 within.deep
  have outside : layout.inFlow = false := by
    rw [inFlow, flat]
    rfl
  have skipped : skipFiller layout.inFlow false layout.keyAllowed ('\n' :: here) =
      (true, here) := by
    rw [outside, within.closed rfl]
    rcases start with ink | rfl
    · exact skip_filler_ink false true ink
    · rfl
  have passes := within.passes ['\n']
  have allowed : ({ layout with keyAllowed := true } : Layout).Passes ['\n'] :=
    ⟨passes.keys, passes.columns⟩
  have moved := refresh_of_passes allowed
  have read : layout.position.upTo ('\n' :: here) here = layout.position.after ['\n'] :=
    Position.up_to_append layout.position ['\n'] here
  refine ⟨{ layout.past ['\n'] with keyAllowed := true }, ?_, ?_⟩
  · rw [advance, skipped]
    dsimp only
    rw [read, moved, Option.map_some, unroll_of_columns]
    · rfl
    · exact passes.columns
  · refine ⟨within.behind, ?_, within.block, rfl, within.loose.past ['\n'], rfl⟩
    rw [past, flat]
    rfl

/-- A layout outside flow collections whose last token may become the key of the line. -/
structure BehindKey (layout : Layout) (tokens : List Token) (columns : List Nat) (token : Token)
    (key : Candidate) : Prop where
  behind : layout.tokens = token :: tokens
  flat : layout.outer = []
  block : layout.columns = columns
  noted : layout.candidate = some key
  slot : key.slot = tokens.length
  left : key.position.column = 0

variable {columns : List Nat} {opened : List Token} {token : Token} {key : Candidate}

theorem BehindKey.passes (found : layout.BehindKey before columns token key)
    (opens : Opens columns opened) {text : List Char}
    (fresh : Candidate.stale (layout.position.after text) key = false) : layout.Passes text := by
  constructor
  · intro candidate member other present _
    rw [found.flat, found.noted] at member
    rw [List.mem_singleton.1 member] at present
    cases present
    exact fresh
  · intro column member
    rw [found.block] at member
    cases opens with
    | first => cases member
    | later =>
        rw [List.mem_singleton.1 member]
        exact Nat.zero_le _

theorem BehindKey.past (found : layout.BehindKey before columns token key) {text : List Char}
    (fresh : Candidate.stale (layout.position.after text) key = false) :
    (layout.past text).BehindKey before columns token key := by
  refine ⟨found.behind, ?_, found.block, past_keeps_key found.noted fresh, found.slot, found.left⟩
  rw [Layout.past, found.flat]
  rfl

theorem accept_line_key (start : layout.AtLineStart before columns) (spelling : Spelling) :
    ∃ taken required, layout.accept spelling.token false = some taken ∧
      taken.position = layout.position ∧
      taken.BehindKey before columns spelling.token ⟨before.length, layout.position, required⟩ := by
  have expected : layout.accept spelling.token false =
      layout.saveKey.bind fun saved => some ((saved.allowKey false).emit spelling.token) := by
    cases spelling <;> rfl
  refine ⟨{ layout with
    candidate := some ⟨before.length, layout.position, !layout.inFlow &&
      layout.columns.head? == some layout.position.column⟩
    tokens := spelling.token :: before
    keyAllowed := false }, _, ?_, rfl, rfl, start.flat, start.block, rfl, rfl, start.left⟩
  rw [expected, saveKey, if_pos start.allowed, drop_key_of_loose start.loose, start.behind]
  rfl

/-- A key is announced behind its token, and before the first key the mapping. -/
theorem announce_key (found : layout.BehindKey before columns token key)
    (opens : Opens columns opened) :
    (layout.insert key.slot .key).roll key.position.column key.slot .blockMappingStart =
      { layout with tokens := token :: .key :: (opened ++ before), columns := [0] } := by
  have inserted :
      layout.insert key.slot .key = { layout with tokens := token :: .key :: before } := by
    rw [insert, found.behind, found.slot, List.length_cons, Nat.add_sub_cancel_left]
    rfl
  have outside : ({ layout with tokens := token :: .key :: before } : Layout).inFlow = false := by
    rw [inFlow]
    dsimp only
    rw [found.flat]
    rfl
  have block := found.block
  rw [inserted, found.left, roll, outside]
  cases opens with
  | first =>
      have later : (token :: .key :: before).length - before.length = 2 := by
        rw [List.length_cons, List.length_cons]
        omega
      rw [if_neg (by rw [least, block]; decide), insert, found.slot]
      dsimp only
      rw [later, block]
      rfl
  | later =>
      rw [if_pos (by rw [least, block]; decide), ← block]
      rfl

theorem accept_line_colon (found : layout.BehindKey before columns token key)
    (opens : Opens columns opened) (inside : 0 < layout.position.column) :
    ∃ taken, layout.accept .value false = some taken ∧ taken.position = layout.position ∧
      taken.Within (.value :: token :: .key :: (opened ++ before)) 0 ∧
        taken.keyAllowed = false := by
  refine ⟨{ layout with
    candidate := none, tokens := .value :: token :: .key :: (opened ++ before), columns := [0],
    keyAllowed := false }, ?_, rfl, ⟨rfl, ?_, rfl, inside, ?_, fun _ => rfl⟩, rfl⟩
  · rw [accept, acceptValue, found.noted]
    dsimp only
    rw [announce_key found opens]
    rfl
  · rw [found.flat]
    rfl
  · intro candidate member other present
    rw [found.flat] at member
    rw [List.mem_singleton.1 member] at present
    cases present

theorem scan_line_colon (found : layout.BehindKey before columns token key)
    (opens : Opens columns opened) (inside : 0 < layout.position.column)
    (fresh : Candidate.stale layout.position key = false) (rest : List Char) :
    layout.Scans (':' :: ' ' :: rest) (' ' :: rest)
      (.value :: token :: .key :: (opened ++ before)) 0
      false := by
  have there : (layout.past (List.replicate 0 ' ')).BehindKey before columns token key :=
    found.past fresh
  have passes : layout.Passes (List.replicate 0 ' ') := found.passes opens fresh
  obtain ⟨valued, took, still, within, closed⟩ := accept_line_colon there opens inside
  have gap : indicator (layout.past (List.replicate 0 ' ')).site.flow ':' (' ' :: rest) =
      some .value := by
    rw [indicator]
    simp [atGap, isSpace]
  have read : readLexeme (layout.past (List.replicate 0 ' ')).site ([':'] ++ ' ' :: rest) =
      some (⟨.value, false⟩, ' ' :: rest) := read_lexeme_of_indicator inside gap
  have ink : Ink ([':'] ++ ' ' :: rest) := ⟨_, _, rfl, by decide⟩
  have scanned := tokens_from_lexeme passes ink read took still (within.passes _)
  exact ⟨valued.past [':'], scanned, within.past (printable_one (by decide)), closed⟩

theorem scan_line_key {start : Layout} {text : List Char} (key : Key) (rest : List Char)
    (advanced : layout.advance text = (some start, key.spelling.write ++ (':' :: ' ' :: rest)))
    (atStart : start.AtLineStart before columns) (opens : Opens columns opened) :
    layout.Scans text (' ' :: rest) (.value :: key.spelling.token :: .key :: (opened ++ before)) 0
      false := by
  obtain ⟨taken, required, accepted, still, found⟩ := accept_line_key atStart key.spelling
  have read : readLexeme start.site (key.spelling.write ++ (':' :: ' ' :: rest)) =
      some (⟨key.spelling.token, false⟩, ':' :: ' ' :: rest) :=
    read_lexeme_spelling _ _ fun _ => .inl ⟨rest, rfl⟩
  have fresh := fresh_behind_key start.position key before.length required
  rw [← still] at fresh found
  have one := tokens_from_of_steps advanced read
    (take_of_accept accepted still (found.passes opens fresh))
  have inside : 0 < (taken.past key.spelling.write).position.column := by
    have nonempty := key.spelling.length_write_pos
    rw [past, after_printable key.spelling.printable_write]
    dsimp only
    omega
  obtain ⟨later, same, within, closed⟩ :=
    scan_line_colon (found.past fresh) opens inside fresh rest
  exact ⟨later, one.trans same, within, closed⟩

theorem scan_line {start : Layout} {text : List Char} (entry : Key × Flow)
    (ends : entry.2.EndsItself) (rest : List Char)
    (advanced : layout.advance text = (some start, Flow.writeLine entry ++ rest))
    (atStart : start.AtLineStart before columns) (opens : Opens columns opened) :
    layout.Scans text ('\n' :: rest) ((Flow.tokensOfLine entry).reverse ++ (opened ++ before)) 0
      false := by
  have line : Flow.writeLine entry ++ rest =
      entry.1.spelling.write ++ (':' :: ' ' :: (entry.2.write ++ '\n' :: rest)) := by
    simp [Flow.writeLine]
  have tokens : (Flow.tokensOfLine entry).reverse ++ (opened ++ before) =
      entry.2.tokens.reverse ++ (.value :: entry.1.spelling.token :: .key ::
        (opened ++ before)) := by
    simp [Flow.tokensOfLine]
  rw [line] at advanced
  rw [tokens]
  refine (scan_line_key entry.1 _ advanced atStart opens).trans fun _ within _ => ?_
  apply scan_flow entry.2 within 1
  intro spelling same plain
  exact absurd plain (ends spelling same)

theorem tokens_at_end (within : layout.Within before 0) :
    layout.tokensFrom .whole ['\n'] = before.reverse ++ [.blockEnd, .streamEnd] := by
  obtain ⟨ready, advanced, start⟩ := advance_to_next_line within (.inr rfl)
  have outside : ¬ ready.inFlow = true := by
    rw [inFlow, start.flat]
    decide
  have ended : ready.position.endLine = ready.position := if_pos start.left
  have unrolled : ({ ready with position := ready.position.endLine } : Layout).unrollAll =
      { ready with tokens := .blockEnd :: before, columns := [] } := by
    rw [ended, unrollAll, unrollWhile, if_neg outside, start.block, start.behind]
    rfl
  have dropped :
      ({ ready with tokens := .blockEnd :: before, columns := [] } : Layout).dropKey = _ :=
    drop_key_of_loose start.loose
  have finished : ready.finish = some (before.reverse ++ [.blockEnd, .streamEnd]) := by
    rw [finish, unrolled, dropped]
    change some (Token.streamEnd :: .blockEnd :: before).reverse = _
    simp
  rw [tokens_from_at_end advanced, if_pos (Supply.whole_serves _), finished]
  rfl

theorem ink_write_lines (entry : Key × Flow) (entries : List (Key × Flow)) :
    Ink (Flow.writeLines (entry :: entries)) := by
  rw [Flow.writeLines, List.flatMap_cons, Flow.writeLine, List.append_assoc]
  exact entry.1.spelling.ink_write _

theorem tokens_from_lines (within : layout.Within before 0) (entries : List (Key × Flow))
    (ends : ∀ entry ∈ entries, entry.2.EndsItself) :
    layout.tokensFrom .whole ('\n' :: Flow.writeLines entries) =
      before.reverse ++ (entries.flatMap Flow.tokensOfLine ++ [.blockEnd, .streamEnd]) := by
  induction entries generalizing layout before with
  | nil => exact tokens_at_end within
  | cons entry entries induction =>
      rw [List.forall_mem_cons] at ends
      obtain ⟨ready, advanced, start⟩ :=
        advance_to_next_line within (.inl (ink_write_lines entry entries))
      obtain ⟨later, same, reached, _⟩ :=
        scan_line entry ends.1 (Flow.writeLines entries) advanced start .later
      rw [same, induction reached ends.2]
      simp

end

end Layout

namespace Flow

def tokensOfLines (entries : List (Key × Flow)) : List Token :=
  .blockMappingStart :: (entries.flatMap tokensOfLine ++ [.blockEnd, .streamEnd])

theorem unmarked_write_lines (entry : Key × Flow) (entries : List (Key × Flow)) :
    Yaml.tokens .whole (writeLines (entry :: entries)) =
      Layout.start.tokensFrom .whole (writeLines (entry :: entries)) := by
  obtain ⟨char, rest, same⟩ := entry.1.spelling.write_eq_cons
  have printable : Printable char := by
    apply entry.1.spelling.printable_write
    rw [same]
    exact List.mem_cons_self
  have unmarked : char ≠ byteOrderMark := by
    rintro rfl
    revert printable
    decide
  rw [writeLines, List.flatMap_cons, writeLine, same, List.cons_append, List.cons_append,
    Yaml.tokens, if_neg unmarked]

theorem tokens_write_lines (entry : Key × Flow) (entries : List (Key × Flow))
    (ends : ∀ line ∈ entry :: entries, line.2.EndsItself) :
    Yaml.tokens .whole (writeLines (entry :: entries)) = tokensOfLines (entry :: entries) := by
  have ink := Layout.ink_write_lines entry entries
  have loose : Layout.start.Loose := by
    intro candidate member key present
    rw [List.mem_singleton.1 member] at present
    cases present
  have passes : Layout.start.Passes (List.replicate 0 ' ') := by
    constructor
    · intro candidate member key present required
      rw [loose candidate member key present] at required
      cases required
    · intro column member
      cases member
  have advanced := Layout.advance_blanks passes ink
  have start : (Layout.start.past (List.replicate 0 ' ')).AtLineStart [] [] :=
    ⟨rfl, rfl, rfl, rfl, loose.past _, rfl⟩
  rw [List.forall_mem_cons] at ends
  obtain ⟨later, same, within, _⟩ :=
    Layout.scan_line entry ends.1 (writeLines entries) advanced start .first
  have others := Layout.tokens_from_lines within entries ends.2
  change Layout.start.tokensFrom .whole (writeLines (entry :: entries)) = _ at same
  rw [unmarked_write_lines, same, others]
  simp [tokensOfLines]

end Flow

end ManifestLint.Yaml
