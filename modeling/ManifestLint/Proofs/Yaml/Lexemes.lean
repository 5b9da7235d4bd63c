import ManifestLint.Proofs.Yaml.Flow
import ManifestLint.Yaml.Lexeme

/-!
Lexemes of flow style: the indicators, quoted texts, and words up to what ends them.
-/

namespace ManifestLint.Yaml

theorem read_lexeme_of_indicator {site : Site} (inside : 0 < site.column) {char : Char}
    {rest : List Char} {token : Token} (plain : indicator site.flow char rest = some token) :
    readLexeme site (char :: rest) = some (⟨token, false⟩, rest) := by
  have column : ¬ site.column = 0 := by omega
  rw [readLexeme]
  simp only [column, false_and, if_false, plain]

theorem is_marker_of_other {mark char : Char} (other : char ≠ mark) (rest : List Char) :
    isMarker mark (char :: rest) = false := by
  match rest with
  | [] => rfl
  | [_] => rfl
  | _ :: _ :: _ =>
      rw [isMarker, beq_eq_false_iff_ne.2 other]
      rfl

theorem read_lexeme_of_word {site : Site} {char : Char} {rest : List Char} (directive : char ≠ '%')
    (dash : char ≠ '-') (dot : char ≠ '.') (word : indicator site.flow char rest = none) :
    readLexeme site (char :: rest) = readWord site char rest := by
  rw [readLexeme]
  simp only [directive, and_false, is_marker_of_other dash, is_marker_of_other dot,
    Bool.false_eq_true, if_false, word]

theorem read_lexeme_quote (site : Site) (text : String) (rest : List Char) :
    readLexeme site (quote text ++ rest) = some (⟨.scalar .doubleQuoted text, false⟩, rest) := by
  have body := read_quoted_quote text rest
  have opened : quote text ++ rest = '"' :: ((quote text).tail ++ rest) := rfl
  rw [opened, read_lexeme_of_word (by decide) (by decide) (by decide) rfl, readWord,
    if_pos rfl, body]
  change some (scalarLexeme .doubleQuoted text.toList false, rest) = _
  rw [scalarLexeme, String.ofList_toList]

/-- What ends a word: a colon with a blank behind it, or in a flow collection an indicator. -/
def EndsWord (flow : Bool) (rest : List Char) : Prop :=
  (∃ others, rest = ':' :: ' ' :: others) ∨
    flow = true ∧ ∃ char others, rest = char :: others ∧ isFlowIndicator char = true

theorem word_char_continues :
    ∀ char ∈ wordChars, (char == ':') = false ∧ isFlowIndicator char = false := by
  apply of_all_word_chars
  decide

theorem flow_indicator_facts {char : Char} (flow : isFlowIndicator char = true) :
    (isSpace char || isBreak char) = false ∧ (char == ':') = false := by
  rw [isFlowIndicator, Bool.or_eq_true, Bool.or_eq_true, Bool.or_eq_true, Bool.or_eq_true,
    beq_iff_eq, beq_iff_eq, beq_iff_eq, beq_iff_eq, beq_iff_eq] at flow
  rcases flow with (((rfl | rfl) | rfl) | rfl) | rfl <;> decide

theorem read_run_of_end {flow : Bool} {rest : List Char} (ending : EndsWord flow rest) :
    readRun flow rest = some ([], rest) := by
  rcases ending with ⟨others, rfl⟩ | ⟨rfl, char, others, rfl, found⟩
  · cases flow <;> rfl
  · have facts := flow_indicator_facts found
    rw [readRun, facts.1, facts.2, found]
    rfl

theorem read_run_word {flow : Bool} {word rest : List Char}
    (chars : ∀ char ∈ word, char ∈ wordChars) (ending : EndsWord flow rest) :
    readRun flow (word ++ rest) = some (word, rest) := by
  induction word with
  | nil => exact read_run_of_end ending
  | cons char word induction =>
      rw [List.forall_mem_cons] at chars
      have facts := word_char_facts char chars.1
      have continues := word_char_continues char chars.1
      rw [List.cons_append, readRun, facts.2.1, facts.2.2.1, continues.1, continues.2,
        induction chars.2]
      simp

theorem end_is_solid {flow : Bool} {rest : List Char} (ending : EndsWord flow rest) :
    ∃ char others, rest = char :: others ∧ (isSpace char || isBreak char) = false := by
  rcases ending with ⟨others, rfl⟩ | ⟨_, char, others, rfl, found⟩
  · exact ⟨':', ' ' :: others, rfl, by decide⟩
  · exact ⟨char, others, rfl, (flow_indicator_facts found).1⟩

theorem read_plain_word {flow : Bool} (least : Nat) {word rest : List Char}
    (chars : ∀ char ∈ word, char ∈ wordChars) (ending : EndsWord flow rest) :
    readPlain flow least (word ++ rest) = some (word, false, rest) := by
  have run := read_run_word chars ending
  obtain ⟨char, others, rfl, solid⟩ := end_is_solid ending
  rw [readPlain]
  split
  · next missing =>
    rw [run] at missing
    cases missing
  · next found =>
    rw [run] at found
    cases found
  · next found =>
    rw [run] at found
    cases found
    rw [dif_neg (by rw [solid]; decide)]

theorem indicator_of_word_char (flow : Bool) {char : Char} (member : char ∈ wordChars)
    (rest : List Char) : indicator flow char rest = none := by
  unfold indicator
  split
  case h_9 => rfl
  all_goals exact absurd member (by decide)

theorem word_char_starts : ∀ char ∈ wordChars, ∀ flow,
    (char ≠ '%' ∧ char ≠ '-' ∧ char ≠ '.') ∧ startsPlain flow char = true ∧
      char ≠ '"' ∧ char ≠ '\'' ∧ char ≠ '*' ∧ char ≠ '&' ∧ char ≠ '!' ∧ char ≠ '|' ∧
        char ≠ '>' := by
  apply of_all_word_chars
  decide

theorem read_lexeme_word (site : Site) {text : String} (word : IsWord text) {rest : List Char}
    (ending : EndsWord site.flow rest) :
    readLexeme site (text.toList ++ rest) = some (⟨.scalar .plain text, false⟩, rest) := by
  have chars := word.chars
  cases spelled : text.toList with
  | nil => exact absurd spelled word.1
  | cons char others =>
      rw [spelled, List.forall_mem_cons] at chars
      obtain ⟨⟨directive, dash, dot⟩, starts, special⟩ := word_char_starts char chars.1 site.flow
      have plain := read_plain_word site.least chars.2 ending
      have whole : String.ofList (char :: others) = text := by
        rw [← spelled, String.ofList_toList]
      rw [List.cons_append, read_lexeme_of_word directive dash dot
        (indicator_of_word_char _ chars.1 _), readWord]
      simp only [special, starts, plain, if_false, if_true, false_and, Option.map_some,
        scalarLexeme, whole]

/-- A scalar is read as its token, quoted ones whatever follows and words up to what ends them. -/
theorem read_lexeme_spelling (site : Site) (spelling : Spelling) {rest : List Char}
    (ending : spelling.style = .plain → EndsWord site.flow rest) :
    readLexeme site (spelling.write ++ rest) = some (⟨spelling.token, false⟩, rest) := by
  cases spelling with
  | plain text word => exact read_lexeme_word site word (ending rfl)
  | quoted text => exact read_lexeme_quote site text rest

end ManifestLint.Yaml
