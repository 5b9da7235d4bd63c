import ManifestLint.Yaml.Directive
import ManifestLint.Yaml.Scalar.Plain

/-!
Lexemes: tokens that stand in the text itself. What the next one is depends on its first characters,
on whether a flow collection is open, and on the column. Main statement: a lexeme takes at least one
character.
-/

namespace ManifestLint.Yaml

/-- A token that stands in the text, and whether a line ended between its last character and the
next lexeme while it was read. -/
structure Lexeme where
  token : Token
  endedAfterBreak : Bool
deriving DecidableEq, Repr

/-- Where a lexeme stands: in a flow collection or not, in which column, and the least column that
continues a scalar of the enclosing block. -/
structure Site where
  flow : Bool
  column : Nat
  least : Nat
deriving DecidableEq, Repr

/-- Indicators of one character. Dashes, question marks and colons are indicators before a gap, and
the last two always are in a flow collection. -/
def indicator (flow : Bool) (char : Char) (rest : List Char) : Option Token :=
  match char with
  | '[' => some .flowSequenceStart
  | ']' => some .flowSequenceEnd
  | '\x7b' => some .flowMappingStart
  | '\x7d' => some .flowMappingEnd
  | ',' => some .flowEntry
  | '-' => if atGap rest then some .blockEntry else none
  | '?' => if flow || atGap rest then some .key else none
  | ':' => if flow || atGap rest then some .value else none
  | _ => none

def readName (text : List Char) : Option (List Char × List Char) :=
  let rest := text.dropWhile isWord
  let ended := atGap rest || ['?', ':', ',', ']', '\x7d', '%', '@', '`'].any (startsWith · rest)
  if ended && !(text.takeWhile isWord).isEmpty then some (text.takeWhile isWord, rest) else none

def reserved : List Char :=
  [',', '[', ']', '\x7b', '\x7d', '#', '&', '*', '!', '|', '>', '\'', '"', '%', '@', '`']

def startsPlain (flow : Bool) (char : Char) : Bool :=
  if char == '?' || char == ':' then !flow
  else !(isSpace char || isBreak char || reserved.contains char)

def scalarLexeme (style : Style) (text : List Char) (endedAfterBreak : Bool) : Lexeme :=
  ⟨.scalar style (String.ofList text), endedAfterBreak⟩

def readWord (site : Site) (char : Char) (rest : List Char) : Option (Lexeme × List Char) :=
  if char = '"' then
    (readQuoted true rest).map fun (text, rest) => (scalarLexeme .doubleQuoted text false, rest)
  else if char = '\'' then
    (readQuoted false rest).map fun (text, rest) => (scalarLexeme .singleQuoted text false, rest)
  else if char = '*' then
    (readName rest).map fun (name, rest) => (⟨.alias name, false⟩, rest)
  else if char = '&' then
    (readName rest).map fun (name, rest) => (⟨.anchor name, false⟩, rest)
  else if char = '!' then
    (readTag site.flow rest).map fun (name, rest) => (⟨.tag name, false⟩, rest)
  else if char = '|' ∧ !site.flow then
    (readBlock true site.least rest).map fun (text, rest) =>
      (scalarLexeme .literal text false, rest)
  else if char = '>' ∧ !site.flow then
    (readBlock false site.least rest).map fun (text, rest) =>
      (scalarLexeme .folded text false, rest)
  else if startsPlain site.flow char then
    (readPlain site.flow site.least rest).map fun (text, ended, rest) =>
      (scalarLexeme .plain (char :: text) ended, rest)
  else none

/-- The lexeme at the start of a text, and what follows it. Directives and document markers stand at
the start of a line only. -/
def readLexeme (site : Site) (text : List Char) : Option (Lexeme × List Char) :=
  match text with
  | [] => none
  | char :: rest =>
      if site.column = 0 ∧ char = '%' then
        (readDirective rest).map fun (token, rest) => (⟨token, false⟩, rest)
      else if site.column = 0 ∧ isMarker '-' text then some (⟨.documentStart, false⟩, rest.drop 2)
      else if site.column = 0 ∧ isMarker '.' text then some (⟨.documentEnd, false⟩, rest.drop 2)
      else
        match indicator site.flow char rest with
        | some token => some (⟨token, false⟩, rest)
        | none => readWord site char rest

/-- What is asked for to read the lexeme between a text and the rest of it: as many characters as a
document marker may take, those on the way through a scalar, and the one behind a name, a tag or a
block scalar. A directive takes its line with it, and asks for two characters at the end of the
line. -/
def lexemeDemands (site : Site) (text rest : List Char) : List Demand :=
  ⟨text.length, 4⟩ ::
    match text with
    | [] => []
    | char :: after =>
        if site.column = 0 ∧ char = '%' then [⟨rest.length + 1, 2⟩]
        else if site.column = 0 ∧ atMarker text then []
        else if (indicator site.flow char after).isSome then []
        else if char = '"' ∨ char = '\'' then
          ⟨after.length, 4⟩ :: quotedDemands (char = '"') after
        else if startsPlain site.flow char then plainDemands site.flow site.least after
        else [⟨rest.length, 1⟩]

theorem length_le_of_read_name {text rest name : List Char}
    (read : readName text = some (name, rest)) : rest.length ≤ text.length := by
  simp only [readName, Option.ite_none_right_eq_some] at read
  cases read.2
  exact length_drop_while_le _ _

theorem length_le_of_read_word {site : Site} {char : Char} {text rest : List Char} {lexeme : Lexeme}
    (read : readWord site char text = some (lexeme, rest)) : rest.length ≤ text.length := by
  unfold readWord at read
  split at read
  · obtain ⟨⟨found, last⟩, inner, same⟩ := Option.map_eq_some_iff.1 read
    cases same
    exact Nat.le_of_lt (length_lt_of_read_quoted inner)
  · split at read
    · obtain ⟨⟨found, last⟩, inner, same⟩ := Option.map_eq_some_iff.1 read
      cases same
      exact Nat.le_of_lt (length_lt_of_read_quoted inner)
    · split at read
      · obtain ⟨⟨found, last⟩, inner, same⟩ := Option.map_eq_some_iff.1 read
        cases same
        exact length_le_of_read_name inner
      · split at read
        · obtain ⟨⟨found, last⟩, inner, same⟩ := Option.map_eq_some_iff.1 read
          cases same
          exact length_le_of_read_name inner
        · split at read
          · obtain ⟨⟨found, last⟩, inner, same⟩ := Option.map_eq_some_iff.1 read
            cases same
            exact length_le_of_read_tag inner
          · split at read
            · obtain ⟨⟨found, last⟩, inner, same⟩ := Option.map_eq_some_iff.1 read
              cases same
              exact length_le_of_read_block inner
            · split at read
              · obtain ⟨⟨found, last⟩, inner, same⟩ := Option.map_eq_some_iff.1 read
                cases same
                exact length_le_of_read_block inner
              · simp only [Option.ite_none_right_eq_some] at read
                obtain ⟨⟨found, ended, last⟩, inner, same⟩ := Option.map_eq_some_iff.1 read.2
                cases same
                exact length_le_of_read_plain inner

theorem length_lt_of_read_lexeme {site : Site} {text rest : List Char} {lexeme : Lexeme}
    (read : readLexeme site text = some (lexeme, rest)) : rest.length < text.length := by
  unfold readLexeme at read
  split at read
  · simp at read
  · split at read
    · obtain ⟨⟨found, last⟩, inner, same⟩ := Option.map_eq_some_iff.1 read
      cases same
      exact Nat.lt_succ_of_le (length_le_of_read_directive inner)
    · split at read
      · cases read
        simp only [List.length_drop, List.length_cons]
        omega
      · split at read
        · cases read
          simp only [List.length_drop, List.length_cons]
          omega
        · split at read
          · cases read
            exact Nat.lt_succ_self _
          · exact Nat.lt_succ_of_le (length_le_of_read_word read)

end ManifestLint.Yaml
