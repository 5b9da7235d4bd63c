import Mathlib.Data.List.Basic
import ManifestLint.Proofs.Json.Reading

/-!
Indented JSON is read back. What is written of a value is cut into its tokens whatever the
indentation, and its tokens are put together to the value again.
-/

namespace ManifestLint.Json

def continuesNumber (char : Char) : Bool :=
  char.isDigit || char == '.' || char == 'e' || char == 'E'

def Ends (text : List Char) : Prop := ∀ char ∈ text.head?, continuesNumber char = false

theorem ends_cons {char : Char} (stops : continuesNumber char = false) (rest : List Char) :
    Ends (char :: rest) := by
  intro first member
  cases member
  exact stops

theorem hex_value_digit :
    ∀ value : Fin 16, Yaml.hexValue (hexDigit value.val) = some value.val := by
  decide

theorem read_numeric_escape_control {char : Char} (control : char.toNat < 0x20) (rest : List Char) :
    readNumericEscape
      ('0' :: '0' :: hexDigit (char.toNat / 16) :: hexDigit (char.toNat % 16) :: rest) =
      some (char, rest) := by
  have high := hex_value_digit ⟨char.toNat / 16, by omega⟩
  have low := hex_value_digit ⟨char.toNat % 16, by omega⟩
  have number : Yaml.hexNumber 0 4
      ('0' :: '0' :: hexDigit (char.toNat / 16) :: hexDigit (char.toNat % 16) :: rest) =
      some (char.toNat, rest) := by
    change (Yaml.hexValue (hexDigit (char.toNat / 16))).bind (fun first =>
      (Yaml.hexValue (hexDigit (char.toNat % 16))).bind fun second =>
        some ((((0 * 16 + 0) * 16 + 0) * 16 + first) * 16 + second, rest)) = _
    dsimp only at high low
    rw [high, low, Option.bind_some, Option.bind_some]
    congr 2
    omega
  have valid : char.toNat.isValidChar := char.valid
  rw [readNumericEscape, number]
  change (if char.toNat.isValidChar then some (Char.ofNat char.toNat, rest) else _) = _
  rw [if_pos valid, Char.ofNat_toNat]

inductive WrittenAs (char : Char) : List Char → Prop where
  | short {mark : Char} (known : simpleEscape mark = some char) (shown : 0x20 ≤ mark.toNat) :
      WrittenAs char ['\\', mark]
  | byNumber (control : char.toNat < 0x20) :
      WrittenAs char ['\\', 'u', '0', '0', hexDigit (char.toNat / 16), hexDigit (char.toNat % 16)]
  | asItself (shown : 0x20 ≤ char.toNat) (noQuote : char ≠ '"') (noBackslash : char ≠ '\\') :
      WrittenAs char [char]

theorem written_as_escape (char : Char) : WrittenAs char (escape char) := by
  unfold escape
  split
  · exact .short rfl (by decide)
  · exact .short rfl (by decide)
  · exact .short rfl (by decide)
  · exact .short rfl (by decide)
  · exact .short rfl (by decide)
  · exact .short rfl (by decide)
  · exact .short rfl (by decide)
  · next noQuote noBackslash _ _ _ _ _ =>
    split
    · next control => exact .byNumber control
    · next shown => exact .asItself (Nat.le_of_not_lt shown) noQuote noBackslash

theorem read_piece_escape (char : Char) (rest : List Char) :
    readPiece (escape char ++ rest) = some (char, rest) := by
  have written := written_as_escape char
  generalize escape char = form at written ⊢
  cases written with
  | @short mark known _ =>
      have notByNumber : mark ≠ 'u' := by
        intro same
        rw [same] at known
        cases known
      change readPiece ('\\' :: mark :: rest) = _
      rw [readPiece]
      · rw [known]
        rfl
      · exact notByNumber
  | byNumber control => exact read_numeric_escape_control control rest
  | asItself shown noQuote noBackslash =>
      change readPiece (char :: rest) = _
      rw [readPiece]
      · rw [if_neg]
        exact not_or.2 ⟨noQuote, Nat.not_lt_of_le shown⟩
      · exact noBackslash

theorem escape_starts_no_quote (char : Char) (rest : List Char) :
    (escape char ++ rest).head? ≠ some '"' := by
  have written := written_as_escape char
  generalize escape char = form at written ⊢
  cases written with
  | short known shown => exact fun same => nomatch same
  | byNumber control => exact fun same => nomatch same
  | asItself shown noQuote noBackslash =>
      intro same
      exact noQuote (Option.some.inj same)

theorem read_string_body (chars rest : List Char) :
    readString (chars.flatMap escape ++ '"' :: rest) = some (chars, rest) := by
  induction chars with
  | nil =>
      rw [readString]
      exact if_pos rfl
  | cons char chars induction =>
      rw [List.flatMap_cons, List.append_assoc, readString, if_neg (escape_starts_no_quote char _)]
      split
      · next failed =>
        rw [read_piece_escape] at failed
        cases failed
      · next found =>
        rw [read_piece_escape] at found
        cases found
        rw [induction]
        rfl

theorem lex_of_read {char : Char} {rest after : List Char} {token : Token}
    (noBlank : isBlank char = false) (read : readToken char rest = some (token, after)) :
    lex (char :: rest) = (lex after).map (token :: ·) := by
  rw [lex, noBlank]
  simp only [Bool.false_eq_true, if_false]
  split
  · next failed =>
    rw [read] at failed
    cases failed
  · next found =>
    rw [read] at found
    cases found
    rfl

theorem lex_blank {char : Char} (blank : isBlank char = true) (rest : List Char) :
    lex (char :: rest) = lex rest := by
  rw [lex, if_pos blank]

theorem lex_blanks (count : Nat) (rest : List Char) :
    lex (Text.blanks count ++ rest) = lex rest := by
  rw [Text.blanks]
  induction count with
  | zero => rfl
  | succ count induction => rw [List.replicate_succ, List.cons_append, lex_blank rfl, induction]

@[simp] theorem lex_newline (level : Nat) (rest : List Char) :
    lex (newline level ++ rest) = lex rest := by
  rw [newline, List.cons_append, lex_blank rfl, lex_blanks]

theorem lex_mark {char : Char} {token : Token} (mark : mark? char = some token)
    (noBlank : isBlank char = false) (rest : List Char) :
    lex (char :: rest) = (lex rest).map (token :: ·) := by
  apply lex_of_read noBlank
  rw [readToken, mark]

theorem lex_quote (text : String) (rest : List Char) :
    lex (quote text ++ rest) = (lex rest).map (.string text :: ·) := by
  have read :
      readToken '"' (text.toList.flatMap escape ++ '"' :: rest) = some (.string text, rest) := by
    change (readString _).map _ = _
    rw [read_string_body, Option.map_some]
    dsimp only
    rw [String.ofList_toList]
  rw [quote, List.append_assoc, List.append_assoc, List.singleton_append, List.singleton_append]
  exact lex_of_read rfl read

theorem lex_boolean (value : Bool) (level : Nat) (rest : List Char) :
    lex ((Json.boolean value).render level ++ rest) = (lex rest).map (.boolean value :: ·) := by
  cases value with
  | true =>
      rw [render]
      exact lex_of_read rfl rfl
  | false =>
      rw [render]
      exact lex_of_read rfl rfl

/-- Digits are no other start of a token. -/
theorem digit_facts : ∀ value : Fin 10, (Text.digit value.val).isDigit = true ∧
    isBlank (Text.digit value.val) = false ∧ mark? (Text.digit value.val) = none ∧
    Text.digit value.val ≠ '"' ∧ Text.digit value.val ≠ '-' ∧
    (Text.digit value.val = '0' → value.val = 0) := by
  decide

theorem literal_of_digit {char : Char} (digit : char.isDigit = true) (rest : List Char) :
    literal? (char :: rest) = none := by
  rw [literal?]
  all_goals
    intro after same
    cases same
    cases digit

theorem digits_are_digits (number : Nat) : ∀ char ∈ Text.digits number, char.isDigit = true := by
  fun_induction Text.digits number with
  | case1 number small =>
      rw [List.forall_mem_singleton]
      exact (digit_facts ⟨number, small⟩).1
  | case2 number large induction =>
      rw [List.forall_mem_append, List.forall_mem_singleton]
      exact ⟨induction, (digit_facts ⟨number % 10, Nat.mod_lt _ (by decide)⟩).1⟩

/-- The first digit is zero for zero only. -/
theorem digits_eq_cons (number : Nat) :
    ∃ (first : Fin 10) (rest : List Char), Text.digits number = Text.digit first.val :: rest ∧
      (first.val = 0 → number = 0) := by
  fun_induction Text.digits number with
  | case1 number small => exact ⟨⟨number, small⟩, [], rfl, id⟩
  | case2 number large induction =>
      obtain ⟨first, rest, same, zero⟩ := induction
      refine ⟨first, rest ++ [Text.digit (number % 10)], ?_, ?_⟩
      · rw [same, List.cons_append]
      · intro none
        have few := zero none
        omega

theorem read_run_digits (number : Nat) {rest : List Char} (ends : Ends rest) :
    readRun (Text.digits number ++ rest) = some (Text.digits number, rest) := by
  obtain ⟨first, others, same, _⟩ := digits_eq_cons number
  have nothing : rest.takeWhile Char.isDigit = [] ∧ rest.dropWhile Char.isDigit = rest := by
    cases rest with
    | nil => exact ⟨rfl, rfl⟩
    | cons char rest =>
        have stops := ends char rfl
        simp only [continuesNumber, Bool.or_eq_false_iff] at stops
        have other : ¬ char.isDigit = true := by
          rw [stops.1.1.1]
          exact Bool.false_ne_true
        exact ⟨List.takeWhile_cons_of_neg other, List.dropWhile_cons_of_neg other⟩
  rw [readRun, List.takeWhile_append_of_pos (digits_are_digits number),
    List.dropWhile_append_of_pos (digits_are_digits number), nothing.1, nothing.2,
    List.append_nil, same]
  rfl

theorem read_fraction_at_end {rest : List Char} (ends : Ends rest) :
    readFraction rest = some ([], rest) := by
  cases rest with
  | nil => rfl
  | cons char rest =>
      rw [readFraction]
      intro after same
      cases same
      cases ends '.' rfl

theorem read_exponent_at_end {rest : List Char} (ends : Ends rest) :
    readExponent rest = some (0, rest) := by
  cases rest with
  | nil => rfl
  | cons char rest =>
      rw [readExponent, if_neg]
      rintro (rfl | rfl)
      · cases ends 'e' rfl
      · cases ends 'E' rfl

theorem read_number_digits (number : Nat) {rest : List Char} (ends : Ends rest) :
    readNumber (Text.digits number ++ rest) = some (.number number 0, rest) := by
  obtain ⟨first, others, same, zero⟩ := digits_eq_cons number
  have facts := digit_facts first
  have unsigned : ((Text.digits number ++ rest).head? == some '-') = false := by
    rw [same, List.cons_append, List.head?_cons, beq_eq_false_iff_ne]
    exact fun minus => facts.2.2.2.2.1 (Option.some.inj minus)
  have whole : ¬ ((Text.digits number).head? = some '0' ∧ Text.digits number ≠ ['0']) := by
    rintro ⟨leads, several⟩
    rw [same, List.head?_cons] at leads
    have none := zero (facts.2.2.2.2.2 (Option.some.inj leads))
    rw [none] at several
    exact several (by rw [Text.digits]; rfl)
  rw [readNumber, unsigned]
  simp only [Bool.false_eq_true, if_false, read_run_digits number ends, Option.bind_eq_bind,
    Option.bind_some, if_neg whole, read_fraction_at_end ends, read_exponent_at_end ends,
    List.append_nil, Text.read_digits_digits, Option.pure_def]
  simp

theorem lex_digits (number : Nat) {rest : List Char} (ends : Ends rest) :
    lex (Text.digits number ++ rest) = (lex rest).map (.number number 0 :: ·) := by
  obtain ⟨first, others, same, _⟩ := digits_eq_cons number
  have facts := digit_facts first
  have read := read_number_digits number ends
  rw [same, List.cons_append] at read ⊢
  apply lex_of_read facts.2.1
  rw [readToken, facts.2.2.1]
  dsimp only
  rw [if_neg facts.2.2.2.1, literal_of_digit facts.1, read]

mutual

def tokens : Json → List Token
  | .string text => [.string text]
  | .boolean value => [.boolean value]
  | .number value => [.number value 0]
  | .array [] => [.openArray, .closeArray]
  | .array (item :: items) => .openArray :: (tokens item ++ (tokensOfItems items ++ [.closeArray]))
  | .object [] => [.openObject, .closeObject]
  | .object (entry :: entries) =>
      .openObject :: (tokensOfEntry entry ++ (tokensOfEntries entries ++ [.closeObject]))

def tokensOfItems : List Json → List Token
  | [] => []
  | item :: items => .comma :: (tokens item ++ tokensOfItems items)

def tokensOfEntry : String × Json → List Token
  | (key, value) => .string key :: .colon :: tokens value

def tokensOfEntries : List (String × Json) → List Token
  | [] => []
  | entry :: entries => .comma :: (tokensOfEntry entry ++ tokensOfEntries entries)

end

mutual

def value : Json → Value
  | .string text => .string text
  | .boolean value => .boolean value
  | .number value => .number value 0
  | .array items => .array (valuesOfItems items)
  | .object entries => .object (valuesOfEntries entries)

def valuesOfItems : List Json → List Value
  | [] => []
  | item :: items => value item :: valuesOfItems items

def valuesOfEntries : List (String × Json) → List (String × Value)
  | [] => []
  | (key, json) :: entries => (key, value json) :: valuesOfEntries entries

end

@[simp] theorem values_of_items_eq_map (items : List Json) :
    valuesOfItems items = items.map value := by
  induction items with
  | nil => rfl
  | cons item items induction => rw [valuesOfItems, List.map_cons, induction]

theorem ends_newline (level : Nat) (rest : List Char) : Ends (newline level ++ rest) :=
  ends_cons rfl _

theorem ends_items (items : List Json) (level : Nat) {rest : List Char} (ends : Ends rest) :
    Ends (renderItems level items ++ rest) := by
  cases items with
  | nil => exact ends
  | cons item items => exact ends_cons rfl _

theorem ends_entries (entries : List (String × Json)) (level : Nat) {rest : List Char}
    (ends : Ends rest) : Ends (renderEntries level entries ++ rest) := by
  cases entries with
  | nil => exact ends
  | cons entry entries => exact ends_cons rfl _

mutual

/-- What is written of a value is cut into its tokens, unless it ends in a number that goes on
behind it. -/
theorem lex_render : ∀ (json : Json) (level : Nat) (rest : List Char), Ends rest →
    lex (render level json ++ rest) = (lex rest).map (json.tokens ++ ·)
  | .string text, level, rest, _ => by
      rw [render, tokens]
      exact lex_quote text rest
  | .boolean value, level, rest, _ => by
      rw [tokens]
      exact lex_boolean value level rest
  | .number value, level, rest, ends => by
      rw [render, tokens]
      exact lex_digits value ends
  | .array [], level, rest, _ => by
      rw [render, List.cons_append, List.singleton_append, lex_mark rfl rfl, lex_mark rfl rfl,
        Option.map_map]
      rfl
  | .array (item :: items), level, rest, _ => by
      simp only [render, List.append_assoc, List.cons_append, List.nil_append]
      rw [lex_mark rfl rfl, lex_newline, lex_render item, lex_render_items items, lex_newline,
        lex_mark rfl rfl]
      · cases lex rest with
        | none => rfl
        | some rest => simp [tokens]
      · exact ends_newline level _
      · exact ends_items items _ (ends_newline level _)
  | .object [], level, rest, _ => by
      rw [render, List.cons_append, List.singleton_append, lex_mark rfl rfl, lex_mark rfl rfl,
        Option.map_map]
      rfl
  | .object (entry :: entries), level, rest, _ => by
      simp only [render, List.append_assoc, List.cons_append, List.nil_append]
      rw [lex_mark rfl rfl, lex_newline, lex_render_entry entry, lex_render_entries entries,
        lex_newline, lex_mark rfl rfl]
      · cases lex rest with
        | none => rfl
        | some rest => simp [tokens]
      · exact ends_newline level _
      · exact ends_entries entries _ (ends_newline level _)

theorem lex_render_items : ∀ (items : List Json) (level : Nat) (rest : List Char), Ends rest →
    lex (renderItems level items ++ rest) = (lex rest).map (tokensOfItems items ++ ·)
  | [], level, rest, _ => by
      rw [renderItems, tokensOfItems]
      exact Option.map_id'.symm
  | item :: items, level, rest, ends => by
      simp only [renderItems, List.append_assoc, List.cons_append, List.nil_append]
      rw [lex_mark rfl rfl, lex_newline, lex_render item, lex_render_items items]
      · cases lex rest with
        | none => rfl
        | some rest => simp [tokensOfItems]
      · exact ends
      · exact ends_items items _ ends

theorem lex_render_entry : ∀ (entry : String × Json) (level : Nat) (rest : List Char), Ends rest →
    lex (renderEntry level entry ++ rest) = (lex rest).map (tokensOfEntry entry ++ ·)
  | (key, json), level, rest, ends => by
      simp only [renderEntry, List.append_assoc, List.cons_append, List.nil_append]
      rw [lex_quote, lex_mark rfl rfl, lex_blank rfl, lex_render json level rest ends]
      cases lex rest with
      | none => rfl
      | some rest => rfl

theorem lex_render_entries : ∀ (entries : List (String × Json)) (level : Nat) (rest : List Char),
    Ends rest → lex (renderEntries level entries ++ rest) =
      (lex rest).map (tokensOfEntries entries ++ ·)
  | [], level, rest, _ => by
      rw [renderEntries, tokensOfEntries]
      exact Option.map_id'.symm
  | entry :: entries, level, rest, ends => by
      simp only [renderEntries, List.append_assoc, List.cons_append, List.nil_append]
      rw [lex_mark rfl rfl, lex_newline, lex_render_entry entry, lex_render_entries entries]
      · cases lex rest with
        | none => rfl
        | some rest => simp [tokensOfEntries]
      · exact ends
      · exact ends_entries entries _ ends

end

/-- No value is taken for the end of an empty list. -/
theorem start_item (item : Json) (frames : List Frame) (rest : List Token) :
    start frames (.openArray :: (item.tokens ++ rest)) =
      start (.array [] :: frames) (item.tokens ++ rest) := by
  have other : ∀ after, item.tokens ++ rest ≠ .closeArray :: after := by
    intro after
    cases item with
    | array items => cases items <;> simp [tokens]
    | object entries => cases entries <;> simp [tokens]
    | string text => simp [tokens]
    | boolean value => simp [tokens]
    | number value => simp [tokens]
  rw [start]
  exact other

mutual

theorem start_tokens : ∀ (json : Json) (frames : List Frame) (rest : List Token),
    start frames (json.tokens ++ rest) = proceed frames json.value rest
  | .string text, frames, rest => by
      rw [tokens, value, List.singleton_append, start]
  | .boolean value, frames, rest => by
      rw [tokens, Json.value, List.singleton_append, start]
  | .number value, frames, rest => by
      rw [tokens, Json.value, List.singleton_append, start]
  | .array [], frames, rest => by
      rw [tokens, value, List.cons_append, List.singleton_append, start, valuesOfItems]
  | .array (item :: items), frames, rest => by
      rw [tokens, value, valuesOfItems, List.cons_append, List.append_assoc, start_item,
        start_tokens item, List.append_assoc, List.singleton_append, proceed_items items]
      rfl
  | .object [], frames, rest => by
      rw [tokens, value, List.cons_append, List.singleton_append, start, valuesOfEntries]
  | .object ((key, json) :: entries), frames, rest => by
      rw [tokens, tokensOfEntry, value, valuesOfEntries, List.cons_append, List.append_assoc,
        List.cons_append, List.cons_append, start, startEntry, start_tokens json, List.append_assoc,
        List.singleton_append, proceed_entries entries]
      · rfl
      · exact fun after same => nomatch same

theorem proceed_items :
    ∀ (items : List Json) (before : List Value) (last : Value) (frames : List Frame)
    (rest : List Token),
    proceed (.array before :: frames) last (tokensOfItems items ++ .closeArray :: rest) =
      proceed frames (.array (before.reverse ++ last :: valuesOfItems items)) rest
  | [], before, last, frames, rest => by
      rw [tokensOfItems, List.nil_append, proceed, List.reverse_cons, valuesOfItems]
  | item :: items, before, last, frames, rest => by
      rw [tokensOfItems, List.cons_append, List.append_assoc, proceed, start_tokens item,
        proceed_items items, valuesOfItems, List.reverse_cons, List.append_assoc,
        List.singleton_append]

theorem proceed_entries : ∀ (entries : List (String × Json)) (before : List (String × Value))
    (key : String) (last : Value) (frames : List Frame) (rest : List Token),
    proceed (.object before key :: frames) last (tokensOfEntries entries ++ .closeObject :: rest) =
      proceed frames (.object (before.reverse ++ (key, last) :: valuesOfEntries entries)) rest
  | [], before, key, last, frames, rest => by
      rw [tokensOfEntries, List.nil_append, proceed, List.reverse_cons, valuesOfEntries]
  | (next, json) :: entries, before, key, last, frames, rest => by
      rw [tokensOfEntries, tokensOfEntry, List.cons_append, List.append_assoc, List.cons_append,
        List.cons_append, proceed, startEntry, start_tokens json, proceed_entries entries,
        valuesOfEntries, List.reverse_cons, List.append_assoc, List.singleton_append]

end

theorem read_pretty (json : Json) : read json.pretty = some json.value := by
  have cut := lex_render json 0 [] (fun _ member => nomatch member)
  have built := start_tokens json [] []
  rw [List.append_nil] at cut built
  rw [read, pretty, String.toList_ofList, cut, lex, Option.map_some, Option.bind_some,
    List.append_nil, built, proceed]
  rfl

end ManifestLint.Json
