import Mathlib.Data.List.Basic
import ManifestLint.Proofs.Json.RoundTrip

/-!
The layout of indented JSON. Strings show no control characters. Each line feed stands between two
tokens, and two blanks for each list and object that is open on the next line follow it.
-/

namespace ManifestLint.Json

/-- How many more lists and objects are open behind a token than before it. -/
def Token.turn : Token → Int
  | .openArray | .openObject => 1
  | .closeArray | .closeObject => -1
  | _ => 0

def depth : List Token → Int
  | [] => 0
  | token :: rest => token.turn + depth rest

/-- A line that starts with a closing bracket stands where the line of the opening one does. -/
def closing (char : Char) : Int := if char = ']' ∨ char = '\x7d' then 1 else 0

/-- Whole tokens stand before each line feed; behind it, two blanks for each list and object that is
open on the new line, and then what the line shows. -/
def LaidOut (opened : Int) (text : List Char) : Prop :=
  ∀ before after, text = before ++ '\n' :: after →
    ∃ (tokens : List Token) (level : Nat) (first : Char) (rest : List Char),
    lex before = some tokens ∧
      after = Text.blanks (2 * level) ++ first :: rest ∧ isBlank first = false ∧
      (level : Int) + closing first = opened + depth tokens

@[simp] theorem depth_append (first second : List Token) :
    depth (first ++ second) = depth first + depth second := by
  induction first with
  | nil => exact (Int.zero_add _).symm
  | cons token first induction => rw [List.cons_append, depth, depth, induction, Int.add_assoc]

theorem hex_digit_shows : ∀ value : Fin 16, 0x20 ≤ (hexDigit value.val).toNat := by decide

theorem escape_shows (char : Char) : ∀ part ∈ escape char, 0x20 ≤ part.toNat := by
  have written := written_as_escape char
  generalize escape char = form at written ⊢
  cases written with
  | short known shown =>
      rw [List.forall_mem_cons, List.forall_mem_singleton]
      exact ⟨by decide, shown⟩
  | byNumber control =>
      simp only [List.forall_mem_cons]
      exact ⟨by decide, by decide, by decide, by decide,
        hex_digit_shows ⟨char.toNat / 16, by omega⟩, hex_digit_shows ⟨char.toNat % 16, by omega⟩,
        fun _ member => nomatch member⟩
  | asItself shown =>
      rw [List.forall_mem_singleton]
      exact shown

theorem quote_shows (text : String) : ∀ char ∈ quote text, 0x20 ≤ char.toNat := by
  rw [quote, List.forall_mem_append, List.forall_mem_append, List.forall_mem_singleton]
  refine ⟨⟨by decide, ?_⟩, by decide⟩
  intro part member
  obtain ⟨char, _, inside⟩ := List.mem_flatMap.1 member
  exact escape_shows char part inside

theorem digits_show (number : Nat) : ∀ char ∈ Text.digits number, 0x20 ≤ char.toNat := by
  intro char member
  have digit := digits_are_digits number char member
  simp only [Char.isDigit, Bool.and_eq_true, decide_eq_true_eq] at digit
  exact Nat.le_trans (by decide) (UInt32.le_iff_toNat_le.1 digit.1)

def NoOtherControl (text : List Char) : Prop := ∀ char ∈ text, char.toNat < 0x20 → char = '\n'

theorem no_control_of_shows {text : List Char} (shows : ∀ char ∈ text, 0x20 ≤ char.toNat) :
    NoOtherControl text := by
  intro char member control
  exact absurd control (Nat.not_lt_of_le (shows char member))

theorem shows_of_all {text : List Char}
    (all : (text.all fun char => decide (0x20 ≤ char.toNat)) = true) :
    ∀ char ∈ text, 0x20 ≤ char.toNat := by
  intro char member
  exact of_decide_eq_true (List.all_eq_true.1 all char member)

theorem no_control_of_all {text : List Char}
    (all : (text.all fun char => decide (0x20 ≤ char.toNat)) = true) : NoOtherControl text :=
  no_control_of_shows (shows_of_all all)

theorem NoOtherControl.append {first second : List Char} (before : NoOtherControl first)
    (behind : NoOtherControl second) : NoOtherControl (first ++ second) :=
  List.forall_mem_append.2 ⟨before, behind⟩

theorem newline_controls (level : Nat) : NoOtherControl (newline level) := by
  intro char member control
  rw [newline, List.mem_cons] at member
  obtain same | blank := member
  · exact same
  · rw [List.eq_of_mem_replicate blank] at control
    exact absurd control (by decide)

mutual

theorem render_controls : ∀ (json : Json) (level : Nat), NoOtherControl (render level json)
  | .string text, level => by
      rw [render]
      exact no_control_of_shows (quote_shows text)
  | .boolean true, level => by
      rw [render]
      exact no_control_of_all rfl
  | .boolean false, level => by
      rw [render]
      exact no_control_of_all rfl
  | .number value, level => by
      rw [render]
      exact no_control_of_shows (digits_show value)
  | .array [], level => by
      rw [render]
      exact no_control_of_all rfl
  | .array (item :: items), level => by
      have opened := (no_control_of_all rfl : NoOtherControl ['[']).append
          (newline_controls (level + 1))
      have listed := (opened.append (render_controls item (level + 1))).append
          (items_controls items (level + 1))
      rw [render]
      exact (listed.append (newline_controls level)).append (no_control_of_all rfl)
  | .object [], level => by
      rw [render]
      exact no_control_of_all rfl
  | .object (entry :: entries), level => by
      have opened := (no_control_of_all rfl : NoOtherControl ['\x7b']).append
          (newline_controls (level + 1))
      have listed := (opened.append (entry_controls entry (level + 1))).append
          (entries_controls entries (level + 1))
      rw [render]
      exact (listed.append (newline_controls level)).append (no_control_of_all rfl)

theorem items_controls :
    ∀ (items : List Json) (level : Nat), NoOtherControl (renderItems level items)
  | [], level => fun _ member => nomatch member
  | item :: items, level => by
      have opened := (no_control_of_all rfl : NoOtherControl [',']).append (newline_controls level)
      rw [renderItems]
      exact (opened.append (render_controls item level)).append (items_controls items level)

theorem entry_controls :
    ∀ (entry : String × Json) (level : Nat), NoOtherControl (renderEntry level entry)
  | (key, json), level => by
      have named := (no_control_of_shows (quote_shows key)).append
        (no_control_of_all rfl : NoOtherControl [':', ' '])
      rw [renderEntry]
      exact named.append (render_controls json level)

theorem entries_controls : ∀ (entries : List (String × Json)) (level : Nat),
    NoOtherControl (renderEntries level entries)
  | [], level => fun _ member => nomatch member
  | entry :: entries, level => by
      have opened := (no_control_of_all rfl : NoOtherControl [',']).append (newline_controls level)
      rw [renderEntries]
      exact (opened.append (entry_controls entry level)).append (entries_controls entries level)

end

theorem one_line_of_shows {text : List Char} (shows : ∀ char ∈ text, 0x20 ≤ char.toNat) :
    '\n' ∉ text := by
  intro member
  exact absurd (shows '\n' member) (by decide)

theorem Ends.of_prefix {part text : List Char} (ends : Ends text) (first : part <+: text) :
    Ends part := by
  obtain ⟨rest, rfl⟩ := first
  cases part with
  | nil => exact fun _ member => nomatch member
  | cons char part => exact ends

/-- A piece of a line before a text. It is whole tokens wherever the text is cut. -/
theorem laid_out_piece (tokens : List Token) {piece text : List Char} {opened inner : Int}
    (oneLine : '\n' ∉ piece) (agrees : inner = opened + depth tokens)
    (cut : ∀ part, part <+: text → lex (piece ++ part) = (lex part).map (tokens ++ ·))
    (laid : LaidOut inner text) : LaidOut opened (piece ++ text) := by
  intro before after same
  have behind : ∃ between, before = piece ++ between ∧ text = between ++ '\n' :: after := by
    obtain behind | ⟨between, whole, split⟩ := List.append_eq_append_iff.1 same
    · exact behind
    · cases between with
      | nil => exact ⟨[], by rw [whole, List.append_nil, List.append_nil], split.symm⟩
      | cons char between =>
          rw [List.cons_append, List.cons.injEq] at split
          rw [whole, ← split.1] at oneLine
          exact absurd (List.mem_append_right before List.mem_cons_self) oneLine
  obtain ⟨between, whole, split⟩ := behind
  obtain ⟨others, level, first, rest, read, shape, visible, balanced⟩ := laid between after split
  refine ⟨tokens ++ others, level, first, rest, ?_, shape, visible, ?_⟩
  · rw [whole, cut between ⟨_, split.symm⟩, read]
    rfl
  · simp [balanced, agrees, Int.add_assoc]

theorem laid_out_mark (char : Char) {token : Token} (mark : mark? char = some token)
    (noBlank : isBlank char = false) {text : List Char} {opened inner : Int}
    (agrees : inner = opened + token.turn) (laid : LaidOut inner text) :
    LaidOut opened (char :: text) := by
  have oneLine : '\n' ∉ [char] := by
    rw [List.mem_singleton]
    intro same
    rw [← same] at noBlank
    cases noBlank
  refine laid_out_piece [token] oneLine ?_ (fun part _ => lex_mark mark noBlank part) laid
  rw [agrees, depth, depth, Int.add_zero]

theorem laid_out_blanks (count : Nat) {text : List Char} {opened : Int}
    (laid : LaidOut opened text) :
    LaidOut opened (Text.blanks count ++ text) := by
  have oneLine : '\n' ∉ Text.blanks count := by
    intro member
    exact absurd (List.eq_of_mem_replicate member) (by decide)
  refine laid_out_piece [] oneLine (Int.add_zero opened).symm ?_ laid
  intro part _
  rw [lex_blanks]
  exact Option.map_id'.symm

theorem laid_out_newline {level : Nat} {first : Char} {rest : List Char} {opened : Int}
    (visible : isBlank first = false) (agrees : (level : Int) + closing first = opened)
    (laid : LaidOut opened (first :: rest)) : LaidOut opened (newline level ++ first :: rest) := by
  intro before after same
  rw [newline, List.cons_append] at same
  cases before with
  | nil =>
      rw [List.nil_append, List.cons.injEq] at same
      refine ⟨[], level, first, rest, by rw [lex], same.2.symm, visible, ?_⟩
      rw [agrees]
      exact (Int.add_zero opened).symm
  | cons char before =>
      rw [List.cons_append, List.cons.injEq] at same
      obtain ⟨tokens, inner, shown, others, read, shape⟩ :=
        laid_out_blanks (2 * level) laid before after same.2
      refine ⟨tokens, inner, shown, others, ?_, shape⟩
      rw [← same.1, lex_blank rfl, read]

def Starts (text : List Char) : Prop :=
  ∃ (first : Char) (rest : List Char), text = first :: rest ∧ isBlank first = false ∧
    closing first = 0

theorem starts_cons {char : Char} (visible : isBlank char = false) (opens : closing char = 0)
    (rest : List Char) : Starts (char :: rest) := ⟨char, rest, rfl, visible, opens⟩

theorem starts_render (json : Json) (level : Nat) (rest : List Char) :
    Starts (render level json ++ rest) := by
  cases json with
  | string text =>
      rw [render]
      exact starts_cons rfl rfl _
  | boolean value =>
      cases value with
      | true =>
          rw [render]
          exact starts_cons rfl rfl _
      | false =>
          rw [render]
          exact starts_cons rfl rfl _
  | number value =>
      have opens : ∀ digit : Fin 10, closing (Text.digit digit.val) = 0 := by decide
      obtain ⟨first, others, same, _⟩ := digits_eq_cons value
      rw [render, same]
      exact starts_cons (digit_facts first).2.1 (opens first) _
  | array items =>
      cases items with
      | nil =>
          rw [render]
          exact starts_cons rfl rfl _
      | cons item items =>
          rw [render]
          exact starts_cons rfl rfl _
  | object entries =>
      cases entries with
      | nil =>
          rw [render]
          exact starts_cons rfl rfl _
      | cons entry entries =>
          rw [render]
          exact starts_cons rfl rfl _

theorem starts_entry (entry : String × Json) (level : Nat) (rest : List Char) :
    Starts (renderEntry level entry ++ rest) := by
  rw [renderEntry]
  exact starts_cons rfl rfl _

theorem laid_out_line {level : Nat} {text : List Char} (starts : Starts text)
    (laid : LaidOut level text) : LaidOut level (newline level ++ text) := by
  obtain ⟨first, rest, rfl, visible, opens⟩ := starts
  refine laid_out_newline visible ?_ laid
  rw [opens, Int.add_zero]

theorem laid_out_close (bracket : Char) {level : Nat} {token : Token}
    (mark : mark? bracket = some token) (visible : isBlank bracket = false)
    (turns : token.turn = -1) (closes : closing bracket = 1) {rest : List Char}
    (laid : LaidOut level rest) :
    LaidOut ((level + 1 : Nat) : Int) (newline level ++ bracket :: rest) := by
  apply laid_out_newline visible
  · rw [closes]
    rfl
  · apply laid_out_mark bracket mark visible _ laid
    rw [turns]
    omega

mutual

theorem laid_out_render : ∀ (json : Json) (level : Nat) (rest : List Char), Ends rest →
    LaidOut level rest → LaidOut level (render level json ++ rest)
  | .string text, level, rest, _, laid => by
      rw [render]
      exact laid_out_piece [.string text] (one_line_of_shows (quote_shows text))
        (Int.add_zero _).symm (fun part _ => lex_quote text part) laid
  | .boolean value, level, rest, _, laid => by
      have oneLine : '\n' ∉ render level (.boolean value) := by
        cases value with
        | true =>
            rw [render]
            decide
        | false =>
            rw [render]
            decide
      exact laid_out_piece [.boolean value] oneLine (Int.add_zero _).symm
        (fun part _ => lex_boolean value level part) laid
  | .number value, level, rest, ends, laid => by
      rw [render]
      exact laid_out_piece [.number value 0] (one_line_of_shows (digits_show value))
        (Int.add_zero _).symm (fun part first => lex_digits value (ends.of_prefix first)) laid
  | .array [], level, rest, _, laid => by
      have closed : LaidOut (level + 1) (']' :: rest) :=
        laid_out_mark ']' rfl rfl (Int.add_neg_cancel_right _ _).symm laid
      rw [render]
      exact laid_out_mark '[' rfl rfl rfl closed
  | .array (item :: items), level, rest, _, laid => by
      have closed := laid_out_close ']' rfl rfl rfl rfl laid
      have listed := laid_out_items items (level + 1) _ (ends_newline level _) closed
      have first := laid_out_render item (level + 1)
          _ (ends_items items _ (ends_newline level _)) listed
      have lines := laid_out_line (starts_render item (level + 1) _) first
      have whole := laid_out_mark '[' rfl rfl (Int.natCast_succ level) lines
      simpa only [render, List.append_assoc, List.cons_append, List.nil_append] using whole
  | .object [], level, rest, _, laid => by
      have closed : LaidOut (level + 1) ('\x7d' :: rest) :=
        laid_out_mark '\x7d' rfl rfl (Int.add_neg_cancel_right _ _).symm laid
      rw [render]
      exact laid_out_mark '\x7b' rfl rfl rfl closed
  | .object (entry :: entries), level, rest, _, laid => by
      have closed := laid_out_close '\x7d' rfl rfl rfl rfl laid
      have listed := laid_out_entries entries (level + 1) _ (ends_newline level _) closed
      have first := laid_out_entry entry (level + 1)
          _ (ends_entries entries _ (ends_newline level _)) listed
      have lines := laid_out_line (starts_entry entry (level + 1) _) first
      have whole := laid_out_mark '\x7b' rfl rfl (Int.natCast_succ level) lines
      simpa only [render, List.append_assoc, List.cons_append, List.nil_append] using whole

theorem laid_out_items : ∀ (items : List Json) (level : Nat) (rest : List Char), Ends rest →
    LaidOut level rest → LaidOut level (renderItems level items ++ rest)
  | [], level, rest, _, laid => laid
  | item :: items, level, rest, ends, laid => by
      have listed := laid_out_items items level rest ends laid
      have first := laid_out_render item level _ (ends_items items _ ends) listed
      have lines := laid_out_line (starts_render item level _) first
      have whole := laid_out_mark ',' rfl rfl (Int.add_zero _).symm lines
      simpa only [renderItems, List.append_assoc, List.cons_append, List.nil_append] using whole

theorem laid_out_entry : ∀ (entry : String × Json) (level : Nat) (rest : List Char), Ends rest →
    LaidOut level rest → LaidOut level (renderEntry level entry ++ rest)
  | (key, json), level, rest, ends, laid => by
      have after : LaidOut level (' ' :: (render level json ++ rest)) :=
        laid_out_blanks 1 (laid_out_render json level rest ends laid)
      have colon := laid_out_mark ':' rfl rfl (Int.add_zero _).symm after
      have whole := laid_out_piece [.string key] (one_line_of_shows (quote_shows key))
        (Int.add_zero _).symm (fun part _ => lex_quote key part) colon
      simpa only [renderEntry, List.append_assoc, List.cons_append, List.nil_append] using whole

theorem laid_out_entries : ∀ (entries : List (String × Json)) (level : Nat) (rest : List Char),
    Ends rest → LaidOut level rest → LaidOut level (renderEntries level entries ++ rest)
  | [], level, rest, _, laid => laid
  | entry :: entries, level, rest, ends, laid => by
      have listed := laid_out_entries entries level rest ends laid
      have first := laid_out_entry entry level _ (ends_entries entries _ ends) listed
      have lines := laid_out_line (starts_entry entry level _) first
      have whole := laid_out_mark ',' rfl rfl (Int.add_zero _).symm lines
      simpa only [renderEntries, List.append_assoc, List.cons_append, List.nil_append] using whole

end

theorem laid_out_pretty (json : Json) : LaidOut 0 json.pretty.toList := by
  have nothing : LaidOut 0 [] := by
    intro before after same
    cases before with
    | nil => cases same
    | cons char before => cases same
  have whole := laid_out_render json 0 [] (fun _ member => nomatch member) nothing
  rw [List.append_nil] at whole
  rw [pretty, String.toList_ofList]
  exact whole

theorem pretty_controls (json : Json) : NoOtherControl json.pretty.toList := by
  rw [pretty, String.toList_ofList]
  exact render_controls json 0

end ManifestLint.Json
