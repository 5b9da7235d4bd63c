import ManifestLint.Text.Digits
import ManifestLint.Yaml.Scalar.Block
import ManifestLint.Yaml.Tag

/-!
Directives, which stand before a document: one gives the version, others declare tag handles. Any
other directive is refused.
-/

namespace ManifestLint.Yaml

/-- A number of at most nine digits. -/
def readVersionNumber (text : List Char) : Option (Nat × List Char) :=
  let found := text.takeWhile Char.isDigit
  if found.isEmpty || 9 < found.length then none
  else some (Text.readDigits found, text.dropWhile Char.isDigit)

def readVersion (text : List Char) : Option (Token × List Char) := do
  let (major, rest) ← readVersionNumber (text.dropWhile isSpace)
  match rest with
  | '.' :: rest =>
      let (minor, rest) ← readVersionNumber rest
      some (.versionDirective major minor, rest)
  | _ => none

/-- A handle in a declaration: one exclamation mark, or a word between two. -/
def readHandle : List Char → Option (List Char × List Char)
  | '!' :: text =>
      let word := text.takeWhile isWord
      match text.dropWhile isWord with
      | '!' :: rest => some ('!' :: word ++ ['!'], rest)
      | rest => if word.isEmpty then some (['!'], rest) else none
  | _ => none

def readDeclaration (text : List Char) : Option (Token × List Char) := do
  let (handle, rest) ← readHandle (text.dropWhile isSpace)
  if !(rest.take 1).all isSpace || rest.isEmpty then none
  else
    let (expansion, rest) ← readUri true (rest.dropWhile isSpace)
    if expansion.isEmpty || !atGap rest then none else some (.tagDirective handle expansion, rest)

def readParameters (name text : List Char) : Option (Token × List Char) :=
  if !atGap text then none
  else if name = ['Y', 'A', 'M', 'L'] then readVersion text
  else if name = ['T', 'A', 'G'] then readDeclaration text
  else none

def readDirective (text : List Char) : Option (Token × List Char) := do
  let (token, rest) ← readParameters (text.takeWhile isWord) (text.dropWhile isWord)
  some (token, ← endOfLine rest)

theorem length_drop_while_le (keep : Char → Bool) (text : List Char) :
    (text.dropWhile keep).length ≤ text.length :=
  (List.dropWhile_sublist keep).length_le

theorem length_le_of_read_version_number {text rest : List Char} {value : Nat}
    (read : readVersionNumber text = some (value, rest)) : rest.length ≤ text.length := by
  simp only [readVersionNumber, Option.ite_none_left_eq_some] at read
  cases read.2
  exact length_drop_while_le _ _

theorem length_le_of_read_version {text rest : List Char} {token : Token}
    (read : readVersion text = some (token, rest)) : rest.length ≤ text.length := by
  simp only [readVersion, Option.bind_eq_bind, Option.bind_eq_some_iff] at read
  obtain ⟨⟨major, after⟩, first, read⟩ := read
  have shorter := length_le_of_read_version_number first
  have spaces := length_drop_while_le isSpace text
  dsimp only at read
  split at read
  · obtain ⟨⟨minor, last⟩, second, same⟩ := Option.bind_eq_some_iff.1 read
    have lastShorter := length_le_of_read_version_number second
    cases same
    simp only [List.length_cons] at shorter
    show last.length ≤ text.length
    omega
  · simp at read

theorem length_le_of_read_handle {text rest handle : List Char}
    (read : readHandle text = some (handle, rest)) : rest.length ≤ text.length := by
  unfold readHandle at read
  split at read
  · next text =>
    have word := length_drop_while_le isWord text
    dsimp only at read
    split at read
    · next dropped =>
      cases read
      rw [dropped, List.length_cons] at word
      simp only [List.length_cons]
      omega
    · simp only [Option.ite_none_right_eq_some] at read
      cases read.2
      exact Nat.le_succ_of_le word
  · simp at read

theorem length_le_of_read_declaration {text rest : List Char} {token : Token}
    (read : readDeclaration text = some (token, rest)) : rest.length ≤ text.length := by
  simp only [readDeclaration, Option.bind_eq_bind, Option.bind_eq_some_iff] at read
  obtain ⟨⟨handle, after⟩, first, read⟩ := read
  have shorter := length_le_of_read_handle first
  have spaces := length_drop_while_le isSpace text
  have gap := length_drop_while_le isSpace after
  dsimp only at read
  split at read
  · simp at read
  · obtain ⟨⟨expansion, last⟩, uri, checked⟩ := Option.bind_eq_some_iff.1 read
    have lastShorter := length_le_of_read_uri uri
    simp only [Option.ite_none_left_eq_some, Option.some.injEq, Prod.mk.injEq] at checked
    rw [← checked.2.2]
    omega

theorem length_le_of_read_directive {text rest : List Char} {token : Token}
    (read : readDirective text = some (token, rest)) : rest.length ≤ text.length := by
  simp only [readDirective, Option.bind_eq_bind, Option.bind_eq_some_iff] at read
  obtain ⟨⟨found, after⟩, inner, last, ended, same⟩ := read
  have word := length_drop_while_le isWord text
  have line : last.length ≤ after.length := length_le_of_end_of_line ended
  have parameters : after.length ≤ (text.dropWhile isWord).length := by
    simp only [readParameters, Option.ite_none_left_eq_some] at inner
    obtain ⟨_, inner⟩ := inner
    split at inner
    · exact length_le_of_read_version inner
    · simp only [Option.ite_none_right_eq_some] at inner
      exact length_le_of_read_declaration inner.2
  cases same
  exact Nat.le_trans line (Nat.le_trans parameters word)

end ManifestLint.Yaml
