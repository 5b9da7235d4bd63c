import ManifestLint.Yaml.Layout
import ManifestLint.Yaml.Lexeme

/-!
The tokens of a text. A text with a fault has the tokens that stand before it and are settled by
then, and so has one of which more is asked for than can be had; the tokens of a sound text end in
the end of the stream.
-/

namespace ManifestLint.Yaml

/-- Skips blanks, line breaks and comments. Outside flow collections a key may begin after a break,
and a tab is no blank where a key may begin. -/
def skipFiller (flow comment allowed : Bool) : List Char → Bool × List Char
  | [] => (allowed, [])
  | char :: rest =>
      if isBreak char then skipFiller flow false (allowed || !flow) rest
      else if comment || char == '#' then skipFiller flow true allowed rest
      else if char == ' ' || (char == '\t' && (flow || !allowed))
        then skipFiller flow false allowed rest
      else (allowed, char :: rest)

theorem length_skip_filler_le (flow comment allowed : Bool) (text : List Char) :
    (skipFiller flow comment allowed text).2.length ≤ text.length := by
  induction text generalizing comment allowed with
  | nil => exact Nat.le_refl _
  | cons char text induction =>
      rw [skipFiller]
      split
      · exact Nat.le_succ_of_le (induction _ _)
      · split
        · exact Nat.le_succ_of_le (induction _ _)
        · split
          · exact Nat.le_succ_of_le (induction _ _)
          · exact Nat.le_refl _

namespace Layout

/-- The layout at the next lexeme, or at the end of the text, and the text from there. -/
def advance (layout : Layout) (text : List Char) : Option Layout × List Char :=
  let skipped := skipFiller layout.inFlow false layout.keyAllowed text
  let there := { layout with
    position := layout.position.upTo text skipped.2
    keyAllowed := skipped.1 }
  (there.refresh.map unroll, skipped.2)

def site (layout : Layout) : Site := ⟨layout.inFlow, layout.position.column, layout.least⟩

def take (layout : Layout) (lexeme : Lexeme) (text rest : List Char) : Option Layout := do
  let taken ← layout.accept lexeme.token lexeme.endedAfterBreak
  { taken with position := layout.position.upTo text rest }.refresh

def tokensFrom (layout : Layout) (supply : Supply) (text : List Char) : List Token :=
  match _next : layout.advance text with
  | (none, _) => layout.settled
  | (some ready, []) =>
      if supply.serves [⟨0, 4⟩] then ready.finish.getD layout.settled else layout.settled
  | (some ready, char :: after) =>
      match _read : readLexeme ready.site (char :: after) with
      | none => layout.settled
      | some (lexeme, rest) =>
          if supply.serves (lexemeDemands ready.site (char :: after) rest) then
            match ready.take lexeme (char :: after) rest with
            | none => layout.settled
            | some taken => taken.tokensFrom supply rest
          else layout.settled
termination_by text.length
decreasing_by
  have skipped := length_skip_filler_le layout.inFlow false layout.keyAllowed text
  have shorter := length_lt_of_read_lexeme _read
  have same : (layout.advance text).2 = char :: after := by rw [_next]
  rw [advance] at same
  dsimp only at same
  rw [same] at skipped
  omega

end Layout

/-- The tokens of a text. A byte order mark at its very start is no part of its first token. -/
def tokens (supply : Supply) (text : List Char) : List Token :=
  match text with
  | char :: rest =>
      if char = byteOrderMark then
        { Layout.start with position := Position.start.next char }.tokensFrom supply rest
      else Layout.start.tokensFrom supply text
  | [] => Layout.start.tokensFrom supply []

end ManifestLint.Yaml
