import ManifestLint.Glob.Pattern
import ManifestLint.Proofs.Faults

/-!
Which names a pattern describes, by the text of the pattern alone: stars, question marks and sets
are taken as they are written. A pattern without two stars in a row that can be read fits the same
names, and the position it is read at does not matter.
-/

namespace ManifestLint.Glob

/-- Three characters with a dash in the middle are a range. -/
def StartsRange (set : List Char) : Prop := ∃ first last rest, set = first :: '-' :: last :: rest

/-- The characters of a set, whose ranges are taken from the left. -/
inductive SetHas : List Char → Char → Prop where
  | inRange {first last char : Char} {rest : List Char} (low : first ≤ char) (high : char ≤ last) :
      SetHas (first :: '-' :: last :: rest) char
  | behindRange {first last char : Char} {rest : List Char} (later : SetHas rest char) :
      SetHas (first :: '-' :: last :: rest) char
  | itself {char : Char} {rest : List Char} (single : ¬ StartsRange (char :: rest)) : SetHas
      (char :: rest) char
  | behind {first char : Char} {rest : List Char} (single : ¬ StartsRange (first :: rest))
      (later : SetHas rest char) : SetHas (first :: rest) char

/-- The names that a pattern describes. The first character of a set is no closing bracket of it. -/
inductive Describes : List Char → List Char → Prop where
  | nothing : Describes [] []
  | literal {char : Char} {pattern name : List Char} (plain : char ≠ '*' ∧ char ≠ '?' ∧ char ≠ '[')
      (rest : Describes pattern name) : Describes (char :: pattern) (char :: name)
  | one {char : Char} {pattern name : List Char} (rest : Describes pattern name) :
      Describes ('?' :: pattern) (char :: name)
  | star {pattern name : List Char} (skipped : List Char) (rest : Describes pattern name) :
      Describes ('*' :: pattern) (skipped ++ name)
  | inside {first char : Char} {set pattern name : List Char} (plain : first ≠ '!')
      (closed : ']' ∉ set)
      (has : SetHas (first :: set) char) (rest : Describes pattern name) :
      Describes ('[' :: first :: (set ++ ']' :: pattern)) (char :: name)
  | outside {first char : Char} {set pattern name : List Char} (closed : ']' ∉ set)
      (lacks : ¬ SetHas (first :: set) char) (rest : Describes pattern name) :
      Describes ('[' :: '!' :: first :: (set ++ ']' :: pattern)) (char :: name)

@[simp] theorem holds_cons_iff (low high char : Char) (set : CharSet) :
    CharSet.holds ((low, high) :: set) char = true ↔
      (low ≤ char ∧ char ≤ high) ∨ set.holds char = true := by
  simp [CharSet.holds]

theorem set_holds_iff (set : List Char) (char : Char) :
    (readSet set).holds char = true ↔ SetHas set char := by
  induction set using readSet.induct with
  | case1 first last rest induction =>
      rw [readSet, holds_cons_iff, induction]
      constructor
      · rintro (⟨low, high⟩ | later)
        · exact .inRange low high
        · exact .behindRange later
      · intro has
        cases has with
        | inRange low high => exact .inl ⟨low, high⟩
        | behindRange later => exact .inr later
        | itself single => exact absurd ⟨_, _, _, rfl⟩ single
        | behind single => exact absurd ⟨_, _, _, rfl⟩ single
  | case2 first rest other induction =>
      have single : ¬ StartsRange (first :: rest) := by
        rintro ⟨_, last, after, same⟩
        cases same
        exact other last after rfl
      rw [readSet, holds_cons_iff, induction]
      · constructor
        · rintro (⟨low, high⟩ | later)
          · cases Char.le_antisymm low high
            exact .itself single
          · exact .behind single later
        · intro has
          cases has with
          | inRange => exact absurd ⟨_, _, _, rfl⟩ single
          | behindRange => exact absurd ⟨_, _, _, rfl⟩ single
          | itself => exact .inl ⟨Char.le_refl _, Char.le_refl _⟩
          | behind _ later => exact .inr later
      · exact other
  | case3 =>
      rw [readSet]
      constructor
      · intro holds
        cases holds
      · intro has
        cases has

/-- How a pattern without two stars in a row is read, apart from positions. -/
inductive Reads : List Char → List Piece → Prop where
  | nothing : Reads [] []
  | literal {char : Char} {text : List Char} {pieces : List Piece}
      (plain : char ≠ '*' ∧ char ≠ '?' ∧ char ≠ '[') (rest : Reads text pieces) :
      Reads (char :: text) (.literal char :: pieces)
  | one {text : List Char} {pieces : List Piece} (rest : Reads text pieces) : Reads ('?' :: text)
      (.one :: pieces)
  | star {text : List Char} {pieces : List Piece} (alone : text.head? ≠ some '*')
      (rest : Reads text pieces) :
      Reads ('*' :: text) (.any :: pieces)
  | inside {first : Char} {set text : List Char} {pieces : List Piece} (plain : first ≠ '!')
      (closed : ']' ∉ set)
      (rest : Reads text pieces) :
      Reads ('[' :: first :: (set ++ ']' :: text)) (.oneOf (readSet (first :: set)) :: pieces)
  | outside {first : Char} {set text : List Char} {pieces : List Piece} (closed : ']' ∉ set)
      (rest : Reads text pieces) :
      Reads ('[' :: '!' :: first :: (set ++ ']' :: text))
        (.oneOutside (readSet (first :: set)) :: pieces)

theorem fits_some_end_iff (fits : List Char → Bool) (name : List Char) :
    fitsSomeEnd fits name = true ↔ ∃ skipped rest, name = skipped ++ rest ∧ fits rest = true := by
  induction name with
  | nil =>
      rw [fitsSomeEnd]
      constructor
      · intro fit
        exact ⟨[], [], rfl, fit⟩
      · rintro ⟨skipped, rest, parts, fit⟩
        obtain ⟨rfl, rfl⟩ := List.append_eq_nil_iff.1 parts.symm
        exact fit
  | cons char name induction =>
      rw [fitsSomeEnd, Bool.or_eq_true, induction]
      constructor
      · rintro (fit | ⟨skipped, rest, rfl, fit⟩)
        · exact ⟨[], char :: name, rfl, fit⟩
        · exact ⟨char :: skipped, rest, rfl, fit⟩
      · rintro ⟨skipped, rest, parts, fit⟩
        cases skipped with
        | nil =>
            cases parts
            exact .inl fit
        | cons other skipped =>
            cases parts
            exact .inr ⟨skipped, rest, rfl, fit⟩

theorem set_split_unique {set other text rest : List Char} (closed : ']' ∉ set)
    (otherClosed : ']' ∉ other) (same : set ++ ']' :: text = other ++ ']' :: rest) :
    set = other ∧ text = rest := by
  induction set generalizing other with
  | nil =>
      cases other with
      | nil => exact ⟨rfl, (List.cons.inj same).2⟩
      | cons char other => exact absurd (List.mem_cons.2 (.inl (List.cons.inj same).1)) otherClosed
  | cons char set induction =>
      rw [List.mem_cons, not_or] at closed
      cases other with
      | nil => exact absurd (List.cons.inj same).1.symm closed.1
      | cons second other =>
          rw [List.mem_cons, not_or] at otherClosed
          obtain ⟨heads, tails⟩ := List.cons.inj same
          obtain ⟨sets, rests⟩ := induction closed.2 otherClosed.2 tails
          exact ⟨by rw [heads, sets], rests⟩

theorem describes_inside_iff {first : Char} {set pattern name : List Char} (plain : first ≠ '!')
    (closed : ']' ∉ set) :
    Describes ('[' :: first :: (set ++ ']' :: pattern)) name ↔
      ∃ char rest, name = char :: rest ∧ SetHas (first :: set) char ∧ Describes pattern rest := by
  constructor
  · generalize written : '[' :: first :: (set ++ ']' :: pattern) = whole
    intro describes
    cases describes with
    | nothing => cases written
    | literal other =>
        cases written
        exact absurd rfl other.2.2
    | one => cases written
    | star => cases written
    | inside _ otherClosed has rest =>
        rw [List.cons.injEq, List.cons.injEq] at written
        obtain ⟨_, rfl, same⟩ := written
        obtain ⟨rfl, rfl⟩ := set_split_unique closed otherClosed same
        exact ⟨_, _, rfl, has, rest⟩
    | outside =>
        rw [List.cons.injEq, List.cons.injEq] at written
        exact absurd written.2.1 plain
  · rintro ⟨char, rest, rfl, has, describes⟩
    exact .inside plain closed has describes

theorem describes_outside_iff {first : Char} {set pattern name : List Char} (closed : ']' ∉ set) :
    Describes ('[' :: '!' :: first :: (set ++ ']' :: pattern)) name ↔
      ∃ char rest, name = char :: rest ∧ ¬ SetHas (first :: set) char ∧ Describes pattern rest := by
  constructor
  · generalize written : '[' :: '!' :: first :: (set ++ ']' :: pattern) = whole
    intro describes
    cases describes with
    | nothing => cases written
    | literal other =>
        cases written
        exact absurd rfl other.2.2
    | one => cases written
    | star => cases written
    | inside plain =>
        rw [List.cons.injEq, List.cons.injEq] at written
        exact absurd written.2.1.symm plain
    | outside otherClosed lacks rest =>
        rw [List.cons.injEq, List.cons.injEq, List.cons.injEq] at written
        obtain ⟨_, _, rfl, same⟩ := written
        obtain ⟨rfl, rfl⟩ := set_split_unique closed otherClosed same
        exact ⟨_, _, rfl, lacks, rest⟩
  · rintro ⟨char, rest, rfl, lacks, describes⟩
    exact .outside closed lacks describes

theorem describes_literal_iff {first : Char} {pattern name : List Char}
    (plain : first ≠ '*' ∧ first ≠ '?' ∧ first ≠ '[') :
    Describes (first :: pattern) name ↔ ∃ rest, name = first :: rest ∧ Describes pattern rest := by
  constructor
  · intro describes
    cases describes with
    | literal _ rest => exact ⟨_, rfl, rest⟩
    | one => exact absurd rfl plain.2.1
    | star => exact absurd rfl plain.1
    | inside => exact absurd rfl plain.2.2
    | outside => exact absurd rfl plain.2.2
  · rintro ⟨rest, rfl, describes⟩
    exact .literal plain describes

theorem describes_one_iff {pattern name : List Char} :
    Describes ('?' :: pattern) name ↔
      ∃ char rest, name = char :: rest ∧ Describes pattern rest := by
  constructor
  · intro describes
    cases describes with
    | literal plain => exact absurd rfl plain.2.1
    | one rest => exact ⟨_, _, rfl, rest⟩
  · rintro ⟨char, rest, rfl, describes⟩
    exact .one describes

theorem describes_star_iff {pattern name : List Char} :
    Describes ('*' :: pattern) name ↔ ∃ skipped rest, name = skipped ++ rest ∧
      Describes pattern rest := by
  constructor
  · intro describes
    cases describes with
    | literal plain => exact absurd rfl plain.1
    | star skipped rest => exact ⟨skipped, _, rfl, rest⟩
  · rintro ⟨skipped, rest, rfl, describes⟩
    exact .star skipped describes

/-- A piece for one character fits the first character of a name, and the other pieces fit the rest.
-/
theorem fits_piece_iff (piece : Piece) (single : piece ≠ .any) (pieces : List Piece)
    (name : List Char) :
    fits (piece :: pieces) name = true ↔
      ∃ char rest, name = char :: rest ∧ piece.fits char = true ∧ fits pieces rest = true := by
  cases name with
  | nil => cases piece <;> simp_all [fits]
  | cons char rest =>
      have step :
          fits (piece :: pieces) (char :: rest) = (piece.fits char && fits pieces rest) := by
        cases piece <;> first | rfl | exact absurd rfl single
      rw [step, Bool.and_eq_true]
      constructor
      · rintro ⟨first, others⟩
        exact ⟨char, rest, rfl, first, others⟩
      · rintro ⟨other, after, same, first, others⟩
        cases same
        exact ⟨first, others⟩

theorem fits_iff_describes {pattern : List Char} {pieces : List Piece}
    (reads : Reads pattern pieces) (name : List Char) :
    fits pieces name = true ↔ Describes pattern name := by
  induction reads generalizing name with
  | nothing =>
      rw [fits, List.isEmpty_iff]
      constructor
      · rintro rfl
        exact .nothing
      · intro describes
        cases describes
        rfl
  | literal plain _ induction =>
      rw [fits_piece_iff (.literal _) nofun, describes_literal_iff plain]
      simp [Piece.fits, induction]
  | one _ induction =>
      rw [fits_piece_iff Piece.one nofun, describes_one_iff]
      simp only [Piece.fits, induction, true_and]
  | star _ _ induction =>
      rw [fits, fits_some_end_iff, describes_star_iff]
      simp only [induction]
  | inside plain closed _ induction =>
      rw [fits_piece_iff (.oneOf _) nofun, describes_inside_iff plain closed]
      simp only [Piece.fits, set_holds_iff, induction]
  | outside closed _ induction =>
      rw [fits_piece_iff (.oneOutside _) nofun, describes_outside_iff closed]
      simp only [Piece.fits, Bool.not_eq_true', ← Bool.not_eq_true, set_holds_iff, induction]

theorem alone_facts {rest : List Char} (alone : rest.head? ≠ some '*') :
    rest.takeWhile (· == '*') = [] ∧ rest.dropWhile (· == '*') = rest := by
  cases rest with
  | nil => exact ⟨rfl, rfl⟩
  | cons char rest =>
      have other : (char == '*') = false := by simpa using alone
      simp [other]

theorem add_piece_eq_map (read : Except PatternFault (List Piece)) (piece : Piece) :
    (read >>= fun pieces => pure (piece :: pieces)) = read.map (piece :: ·) := by
  cases read <;> rfl

section
variable (position : Nat) (atStart : Bool) {rest : List Char}

theorem read_pieces_stars {after : List Char} {piece : Piece}
    (read : readStars position atStart ((rest.takeWhile (· == '*')).length + 1)
      (rest.dropWhile (· == '*')) =
      .ok (piece, after)) :
    ∃ next, readPieces position atStart ('*' :: rest) =
      (readPieces next (piece == .anyDirectories) after).map (piece :: ·) := by
  rw [readPieces, if_pos rfl]
  split
  · next failed =>
    rw [read] at failed
    cases failed
  · next found =>
    rw [read] at found
    cases found
    exact ⟨_, add_piece_eq_map _ piece⟩

theorem read_pieces_star (alone : rest.head? ≠ some '*') :
    ∃ next, readPieces position atStart ('*' :: rest) =
      (readPieces next false rest).map (.any :: ·) := by
  obtain ⟨stars, others⟩ := alone_facts alone
  apply read_pieces_stars
  rw [stars, others]
  rfl

theorem read_pieces_directories (ends : rest = [] ∨ rest.head? = some '/') :
    ∃ next, readPieces position true ('*' :: '*' :: rest) =
      (readPieces next true rest.tail).map (.anyDirectories :: ·) := by
  apply read_pieces_stars
  obtain rfl | slash := ends
  · rfl
  · cases rest with
    | nil => cases slash
    | cons char rest =>
        cases slash
        rfl

theorem read_pieces_set {after : List Char} {piece : Piece}
    (set : readSetPiece rest = some (piece, after)) :
    ∃ next, readPieces position atStart ('[' :: rest) =
      (readPieces next false after).map (piece :: ·) := by
  rw [readPieces, if_neg (by decide), if_pos rfl]
  split
  · next failed =>
    rw [set] at failed
    cases failed
  · next found =>
    rw [set] at found
    cases found
    exact ⟨_, add_piece_eq_map _ piece⟩

theorem read_pieces_unclosed (unclosed : readSetPiece rest = none) :
    readPieces position atStart ('[' :: rest) = .error ⟨position, .badSet⟩ := by
  rw [readPieces, if_neg (by decide), if_pos rfl]
  split
  · rfl
  · next found =>
    rw [unclosed] at found
    cases found

theorem read_pieces_one (rest : List Char) :
    ∃ next, readPieces position atStart ('?' :: rest) =
      (readPieces next false rest).map (.one :: ·) := by
  rw [readPieces, if_neg (by decide), if_neg (by decide)]
  exact ⟨_, add_piece_eq_map _ .one⟩

theorem read_pieces_literal {char : Char} (plain : char ≠ '*' ∧ char ≠ '?' ∧ char ≠ '[')
    (rest : List Char) :
    ∃ next, readPieces position atStart (char :: rest) =
      (readPieces next (char = '/') rest).map (.literal char :: ·) := by
  rw [readPieces, if_neg plain.1, if_neg plain.2.2, if_neg plain.2.1]
  exact ⟨_, add_piece_eq_map _ (.literal char)⟩

end

theorem not_closing {set : List Char} (closed : ']' ∉ set) :
    ∀ char ∈ set, (char != ']') = true := by
  intro char member
  have other : char ≠ ']' := by
    intro same
    exact closed (same ▸ member)
  simpa using other

theorem split_set_of_closed {first : Char} {set : List Char} (closed : ']' ∉ set)
    (rest : List Char) :
    splitSet (first :: (set ++ ']' :: rest)) = some (first :: set, rest) := by
  have others := not_closing closed
  rw [splitSet, List.dropWhile_append_of_pos others, List.takeWhile_append_of_pos others]
  simp

theorem closed_of_split_set {text set rest : List Char} (split : splitSet text = some (set, rest)) :
    ∃ first others, set = first :: others ∧ ']' ∉ others ∧
      text = first :: (others ++ ']' :: rest) := by
  cases text with
  | nil => cases split
  | cons first text =>
      rw [splitSet] at split
      have closing := List.head?_dropWhile_not (· != ']') text
      have whole := List.takeWhile_append_dropWhile (p := (· != ']')) (l := text)
      cases dropped : text.dropWhile (· != ']') with
      | nil =>
          rw [dropped] at split
          cases split
      | cons char after =>
          rw [dropped] at split closing whole
          cases split
          have same : char = ']' := by simpa using closing
          refine ⟨first, text.takeWhile (· != ']'), rfl, ?_, ?_⟩
          · intro member
            have other := List.all_eq_true.1 (List.all_takeWhile (l := text)) ']' member
            simp at other
          · rw [same] at whole
            rw [whole]

theorem read_set_piece_inside {first : Char} {set : List Char} (plain : first ≠ '!')
    (closed : ']' ∉ set) (rest : List Char) :
    readSetPiece (first :: (set ++ ']' :: rest)) =
      some (.oneOf (readSet (first :: set)), rest) := by
  rw [readSetPiece, split_set_of_closed closed]
  · rfl
  · intro text same
    exact plain (List.cons.inj same).1

theorem read_set_piece_outside {first : Char} {set : List Char} (closed : ']' ∉ set)
    (rest : List Char) :
    readSetPiece ('!' :: first :: (set ++ ']' :: rest)) =
      some (.oneOutside (readSet (first :: set)), rest) := by
  rw [readSetPiece, split_set_of_closed closed]
  rfl

theorem closed_of_read_set_piece {text rest : List Char} {piece : Piece}
    (read : readSetPiece text = some (piece, rest)) :
    (∃ first set, first ≠ '!' ∧ ']' ∉ set ∧ text = first :: (set ++ ']' :: rest) ∧
      piece = .oneOf (readSet (first :: set))) ∨
    ∃ first set, ']' ∉ set ∧ text = '!' :: first :: (set ++ ']' :: rest) ∧
      piece = .oneOutside (readSet (first :: set)) := by
  unfold readSetPiece at read
  split at read
  · next text =>
    obtain ⟨⟨set, after⟩, split, same⟩ := Option.map_eq_some_iff.1 read
    cases same
    obtain ⟨first, others, rfl, closed, rfl⟩ := closed_of_split_set split
    exact .inr ⟨first, others, closed, rfl, rfl⟩
  · next text other =>
    obtain ⟨⟨set, after⟩, split, same⟩ := Option.map_eq_some_iff.1 read
    cases same
    obtain ⟨first, others, rfl, closed, rfl⟩ := closed_of_split_set split
    refine .inl ⟨first, others, ?_, closed, rfl, rfl⟩
    rintro rfl
    exact other _ rfl

/-- A set that can be read is read as its text tells, if what stands behind it is. -/
theorem reads_of_read_set {position : Nat} {atStart : Bool} {rest : List Char} {pieces : List Piece}
    (read : readPieces position atStart ('[' :: rest) = .ok pieces)
    (behind : ∀ {part : List Char} {next : Nat} {start : Bool} {others : List Piece},
      part <:+ rest →
      readPieces next start part = .ok others → Reads part others) :
    Reads ('[' :: rest) pieces := by
  cases set : readSetPiece rest with
  | none =>
      rw [read_pieces_unclosed position atStart set] at read
      cases read
  | some found =>
      obtain ⟨next, step⟩ := read_pieces_set position atStart set
      rw [step] at read
      obtain ⟨others, again, rfl⟩ := map_eq_ok_iff.1 read
      rcases closed_of_read_set_piece set with
        ⟨first, chars, plain, closed, rfl, same⟩ | ⟨first, chars, closed, rfl, same⟩
      · rw [same]
        exact .inside plain closed (behind ⟨first :: chars ++ [']'], by simp⟩ again)
      · rw [same]
        exact .outside closed (behind ⟨'!' :: first :: chars ++ [']'], by simp⟩ again)

/-- A pattern without two stars in a row that can be read is read as its text tells. The induction
is on its length, because a set is read at once. -/
theorem reads_of_read_pieces {position : Nat} {atStart : Bool} {pattern : List Char}
    {pieces : List Piece} (single : ¬ ['*', '*'] <:+: pattern)
    (read : readPieces position atStart pattern = .ok pieces) :
    Reads pattern pieces := by
  induction size : pattern.length using Nat.strongRecOn generalizing position atStart pattern
    pieces with
  | ind size induction =>
    cases pattern with
    | nil =>
        rw [readPieces] at read
        cases read
        exact .nothing
    | cons char rest =>
        have behind {part : List Char} (last : part <:+ rest) {next : Nat} {start : Bool}
            {others : List Piece}
            (again : readPieces next start part = .ok others) : Reads part others := by
          apply induction part.length
          · rw [← size, List.length_cons]
            exact Nat.lt_succ_of_le last.length_le
          · intro double
            exact single (double.trans (last.isInfix.trans (List.suffix_cons char rest).isInfix))
          · exact again
          · rfl
        by_cases star : char = '*'
        · subst star
          have alone : rest.head? ≠ some '*' := by
            intro same
            obtain ⟨others, rfl⟩ := List.head?_eq_some_iff.1 same
            exact single ⟨[], others, rfl⟩
          obtain ⟨next, step⟩ := read_pieces_star position atStart alone
          rw [step] at read
          obtain ⟨others, again, rfl⟩ := map_eq_ok_iff.1 read
          exact .star alone (behind List.suffix_rfl again)
        by_cases bracket : char = '['
        · subst bracket
          exact reads_of_read_set read fun last again => behind last again
        by_cases mark : char = '?'
        · subst mark
          obtain ⟨next, step⟩ := read_pieces_one position atStart rest
          rw [step] at read
          obtain ⟨others, again, rfl⟩ := map_eq_ok_iff.1 read
          exact .one (behind List.suffix_rfl again)
        · obtain ⟨next, step⟩ := read_pieces_literal position atStart ⟨star, mark, bracket⟩ rest
          rw [step] at read
          obtain ⟨others, again, rfl⟩ := map_eq_ok_iff.1 read
          exact .literal ⟨star, mark, bracket⟩ (behind List.suffix_rfl again)

/-- A pattern that can be read wherever it stands behind a slash. -/
def Readable (pattern : List Char) : Prop :=
  ∀ position, ∃ pieces, readPieces position true pattern = .ok pieces

theorem read_of_step {whole rest : List Char} {piece : Piece} {start : Bool} {position : Nat}
    {atStart : Bool}
    (step : ∃ next, readPieces position atStart whole =
      (readPieces next start rest).map (piece :: ·))
    (others : ∀ position atStart, ∃ pieces, readPieces position atStart rest = .ok pieces) :
    ∃ pieces, readPieces position atStart whole = .ok pieces := by
  obtain ⟨next, step⟩ := step
  obtain ⟨pieces, read⟩ := others next start
  rw [step, read]
  exact ⟨_, rfl⟩

/-- What can be read ahead of a text that no star starts can be read with it. -/
theorem readable_append {pattern tail : List Char} {pieces : List Piece}
    (reads : Reads pattern pieces) (alone : tail.head? ≠ some '*')
    (behind : ∀ position atStart, ∃ others, readPieces position atStart tail = .ok others) :
    ∀ position atStart, ∃ others, readPieces position atStart (pattern ++ tail) = .ok others := by
  induction reads with
  | nothing => exact behind
  | literal plain _ induction =>
      intro position atStart
      exact read_of_step (read_pieces_literal position atStart plain _) induction
  | one _ induction =>
      intro position atStart
      exact read_of_step (read_pieces_one position atStart _) induction
  | @star text pieces otherAlone _ induction =>
      intro position atStart
      have stillAlone : (text ++ tail).head? ≠ some '*' := by
        cases text with
        | nil => exact alone
        | cons char text => exact otherAlone
      exact read_of_step (read_pieces_star position atStart stillAlone) induction
  | @inside first set text pieces plain closed _ induction =>
      intro position atStart
      have same : '[' :: first :: (set ++ ']' :: text) ++ tail =
          '[' :: first :: (set ++ ']' :: (text ++ tail)) := by
        simp
      rw [same]
      exact read_of_step (read_pieces_set position atStart (read_set_piece_inside plain closed _))
        induction
  | @outside first set text pieces closed _ induction =>
      intro position atStart
      have same : '[' :: '!' :: first :: (set ++ ']' :: text) ++ tail =
          '[' :: '!' :: first :: (set ++ ']' :: (text ++ tail)) := by
        simp
      rw [same]
      exact read_of_step (read_pieces_set position atStart (read_set_piece_outside closed _))
        induction

end ManifestLint.Glob
