import Mathlib.Data.List.Infix
import ManifestLint.Proofs.Glob.Describing
import ManifestLint.Proofs.Glob.Expanding

/-!
Patterns of several parts. A pattern between slashes that is sound on its own becomes a part that
fits the names it describes, and a pattern of sound parts can be read as a whole. It takes the names
of a path as its text describes them.
-/

namespace ManifestLint.Glob

/-- A pattern between two slashes that does not start with a dot, can be read on its own, and is two
stars or has no two stars in a row. -/
structure SoundPart (part : List Char) : Prop where
  nonempty : part ≠ []
  shown : part.head? ≠ some '.'
  valid : (Component.ofText part).isOk = true
  stars : part = ['*', '*'] ∨ ¬ ['*', '*'] <:+: part

instance : DecidablePred SoundPart := fun part =>
  decidable_of_iff (part ≠ [] ∧ part.head? ≠ some '.' ∧ (Component.ofText part).isOk = true ∧
      (part = ['*', '*'] ∨ ¬ ['*', '*'] <:+: part))
    ⟨fun ⟨nonempty, shown, valid, stars⟩ => ⟨nonempty, shown, valid, stars⟩,
      fun sound => ⟨sound.nonempty, sound.shown, sound.valid, sound.stars⟩⟩

theorem SoundPart.component {part : List Char} (sound : SoundPart part) :
    ∃ component, Component.ofText part = .ok component := by
  have valid := sound.valid
  cases read : Component.ofText part with
  | error fault =>
      rw [read] at valid
      cases valid
  | ok component => exact ⟨component, rfl⟩

/-- How the parts of a pattern describe the names of a path: two stars any directories ahead of
other names, and each other part one name. -/
def DescribesPath : List (List Char) → List String → Prop :=
  Along (· = ['*', '*']) fun part name => Describes part name.toList

theorem read_pieces_nothing (position : Nat) (atStart : Bool) :
    readPieces position atStart [] = .ok [] := by
  rw [readPieces]

theorem component_of_stars : Component.ofText ['*', '*'] = .ok .anyDirectories := by
  obtain ⟨next, step⟩ := read_pieces_directories 0 (.inl rfl)
  rw [Component.ofText, step, List.tail_nil, read_pieces_nothing]
  rfl

theorem no_directories_in_reads {text : List Char} {pieces : List Piece}
    (reads : Reads text pieces) :
    .anyDirectories ∉ pieces := by
  induction reads with
  | nothing => exact List.not_mem_nil
  | literal _ _ induction => simpa using induction
  | one _ induction => simpa using induction
  | star _ _ induction => simpa using induction
  | inside _ _ _ induction => simpa using induction
  | outside _ _ induction => simpa using induction

theorem read_stars_eq_ok {position count : Nat} {atStart : Bool} {after rest : List Char}
    {piece : Piece} (read : readStars position atStart count after = .ok (piece, rest)) :
    piece = .any ∨ piece = .anyDirectories ∧ count ≠ 1 ∧ count ≤ 2 ∧
      (after = [] ∨ after.head? = some '/') := by
  unfold readStars at read
  split at read
  · cases read
    exact .inl rfl
  · next many =>
    split at read
    · cases read
    · next few =>
      split at read
      · cases read
      · split at read
        · cases read
          exact .inr ⟨rfl, many, Nat.not_lt.1 few, .inl rfl⟩
        · split at read
          · next slash =>
            cases read
            exact .inr ⟨rfl, many, Nat.not_lt.1 few, .inr (congrArg some slash)⟩
          · cases read

theorem first_piece_of_read {position : Nat} {atStart : Bool} {char : Char} {rest : List Char}
    {pieces : List Piece} (read : readPieces position atStart (char :: rest) = .ok pieces) :
    ∃ piece others, pieces = piece :: others ∧
      (piece = .anyDirectories → char = '*' ∧ (rest.takeWhile (· == '*')).length = 1 ∧
        (rest.dropWhile (· == '*') = [] ∨ (rest.dropWhile (· == '*')).head? = some '/')) ∧
      ∀ shown, piece = .literal shown → shown = char := by
  rw [readPieces] at read
  split at read
  · next star =>
    split at read
    · cases read
    · next piece after stars =>
      obtain ⟨others, _, same⟩ := bind_eq_ok_iff.1 read
      cases same
      refine ⟨piece, others, rfl, ?_, ?_⟩
      · intro many
        rcases read_stars_eq_ok stars with any | ⟨_, several, few, ends⟩
        · rw [any] at many
          cases many
        · exact ⟨star, by omega, ends⟩
      · intro shown literal
        rcases read_stars_eq_ok stars with any | ⟨many, _⟩
        · rw [any] at literal
          cases literal
        · rw [many] at literal
          cases literal
  · split at read
    · split at read
      · cases read
      · next piece after set =>
        obtain ⟨others, _, same⟩ := bind_eq_ok_iff.1 read
        cases same
        refine ⟨piece, others, rfl, ?_, ?_⟩ <;>
          rcases closed_of_read_set_piece set with ⟨_, _, _, _, _, rfl⟩ | ⟨_, _, _, _, rfl⟩ <;>
          nofun
    · obtain ⟨others, _, same⟩ := bind_eq_ok_iff.1 read
      cases same
      refine ⟨_, others, rfl, ?_, ?_⟩
      · split <;> nofun
      · intro shown
        split
        · nofun
        · intro literal
          exact (Piece.literal.inj literal).symm

theorem head_of_read {position : Nat} {atStart : Bool} {text : List Char} {pieces : List Piece}
    (read : readPieces position atStart text = .ok pieces) {char : Char}
    (first : pieces.head? = some (.literal char)) : text.head? = some char := by
  cases text with
  | nil =>
      rw [read_pieces_nothing] at read
      cases read
      cases first
  | cons other rest =>
      obtain ⟨piece, others, rfl, _, literal⟩ := first_piece_of_read read
      exact congrArg some (literal char (Option.some.inj first)).symm

theorem literals_eq_some_iff {pieces : List Piece} {text : List Char} :
    literals? pieces = some text ↔ pieces = text.map .literal := by
  induction pieces generalizing text with
  | nil =>
      rw [literals?, Option.some.injEq]
      cases text <;> simp
  | cons piece pieces induction =>
      cases piece with
      | literal char =>
          rw [literals?, Option.map_eq_some_iff]
          simp only [induction]
          cases text with
          | nil => simp
          | cons other text => simp [and_comm]
      | _ =>
          rw [literals?]
          · cases text <;> simp
          · exact nofun

theorem fits_literals_iff (text name : List Char) :
    fits (text.map .literal) name = true ↔ name = text := by
  induction text generalizing name with
  | nil => rw [List.map_nil, fits, List.isEmpty_iff]
  | cons char text induction =>
      have single : Piece.literal char ≠ .any := by simp
      rw [List.map_cons, fits_piece_iff _ single]
      simp [Piece.fits, induction]

theorem of_pieces_fits_iff {pieces : List Piece} (single : .anyDirectories ∉ pieces)
    (name : String) :
    Component.ofPieces pieces ≠ .anyDirectories ∧
      ((Component.ofPieces pieces).fits name = true ↔ fits pieces name.toList = true) := by
  have other : pieces ≠ [.anyDirectories] := by
    intro same
    exact single (same ▸ List.mem_singleton_self _)
  rw [Component.ofPieces, if_neg other]
  cases literal : literals? pieces with
  | none => exact ⟨nofun, Iff.rfl⟩
  | some text =>
      refine ⟨nofun, ?_⟩
      rw [literals_eq_some_iff.1 literal, fits_literals_iff]
      exact beq_iff_eq

theorem of_pieces_regular {pieces : List Piece} (nonempty : pieces ≠ [])
    (shown : pieces.head? ≠ some (.literal '.')) : (Component.ofPieces pieces).Regular := by
  rw [Component.ofPieces]
  split
  · trivial
  · cases literal : literals? pieces with
    | none => exact shown
    | some text =>
        rw [literals_eq_some_iff.1 literal] at nonempty shown
        constructor
        · intro nothing
          exact nonempty (by rw [nothing]; rfl)
        · intro dot
          exact shown (by rw [List.head?_map, dot]; rfl)

theorem directories_of_pieces {pieces : List Piece}
    (many : Component.ofPieces pieces = .anyDirectories) :
    pieces = [.anyDirectories] := by
  rw [Component.ofPieces] at many
  split at many
  · next same => exact same
  · split at many <;> cases many

/-- Between two slashes only two stars stand for any directories. -/
theorem many_iff_stars {part : List Char} (plain : '/' ∉ part) {component : Component}
    (read : Component.ofText part = .ok component) :
    component = .anyDirectories ↔ part = ['*', '*'] := by
  constructor
  · rintro rfl
    obtain ⟨pieces, valid, same⟩ := map_eq_ok_iff.1 read
    rw [directories_of_pieces same] at valid
    cases part with
    | nil =>
        rw [read_pieces_nothing] at valid
        cases valid
    | cons char rest =>
        obtain ⟨piece, others, pieces, stars, _⟩ := first_piece_of_read valid
        cases pieces
        obtain ⟨rfl, one, ends⟩ := stars rfl
        have done : rest.dropWhile (· == '*') = [] := by
          apply ends.resolve_right
          intro slash
          exact plain (List.mem_cons_of_mem
            _ ((List.dropWhile_sublist _).subset (List.mem_of_head? slash)))
        have all : ∀ char ∈ rest.takeWhile (· == '*'), char = '*' := by
          intro char member
          exact beq_iff_eq.1 (List.all_eq_true.1 List.all_takeWhile char member)
        have single := List.eq_replicate_of_mem all
        rw [one] at single
        rw [← List.takeWhile_append_dropWhile (p := (· == '*')) (l := rest), done, single]
        rfl
  · rintro rfl
    rw [component_of_stars] at read
    cases read
    rfl

/-- A part that leads nowhere but to listed names, or an empty part, which stays where it is. -/
def Component.Plain (part : Component) : Prop := part = .name [] ∨ part.Regular

theorem plain_of_text {part : List Char} (shown : part.head? ≠ some '.') {component : Component}
    (read : Component.ofText part = .ok component) : component.Plain := by
  obtain ⟨pieces, valid, rfl⟩ := map_eq_ok_iff.1 read
  by_cases nothing : pieces = []
  · rw [nothing]
    exact .inl rfl
  · right
    apply of_pieces_regular nothing
    intro dot
    exact shown (head_of_read valid dot)

/-- What a part of a pattern is read as: a part that fits just what the text describes. -/
structure ReadAs (part : List Char) (component : Component) : Prop where
  regular : component.Regular
  many : component = .anyDirectories ↔ part = ['*', '*']
  describes : component ≠ .anyDirectories → ∀ name, component.fits name = true ↔
    Describes part name.toList

theorem read_as_of_sound {part : List Char} (sound : SoundPart part) :
    ∃ component, Component.ofText part = .ok component ∧ ReadAs part component := by
  rcases sound.stars with stars | single
  · rw [stars]
    exact ⟨_, component_of_stars, trivial, ⟨fun _ => rfl, fun _ => rfl⟩,
      fun other => absurd rfl other⟩
  · obtain ⟨component, valid⟩ := sound.component
    obtain ⟨pieces, read, rfl⟩ := map_eq_ok_iff.1 valid
    have reads := reads_of_read_pieces single read
    have fit := of_pieces_fits_iff (no_directories_in_reads reads)
    have notStars : part ≠ ['*', '*'] := by
      intro stars
      exact single (stars ▸ List.infix_rfl)
    refine ⟨_, valid, ?_, ⟨fun many => absurd many (fit "").1, fun stars => absurd stars notStars⟩,
      ?_⟩
    · apply of_pieces_regular
      · intro nothing
        rw [nothing] at reads
        cases reads
        exact sound.nonempty rfl
      · intro dot
        exact sound.shown (head_of_read read dot)
    · intro _ name
      rw [(fit name).2, fits_iff_describes reads]

theorem readable_directories {rest : List Char} (ends : rest = [] ∨ rest.head? = some '/')
    (behind : Readable rest.tail) : Readable ('*' :: '*' :: rest) := by
  intro position
  obtain ⟨next, step⟩ := read_pieces_directories position ends
  obtain ⟨pieces, read⟩ := behind next
  rw [step, read]
  exact ⟨_, rfl⟩

theorem readable_nothing : Readable [] := by
  intro position
  exact ⟨[], read_pieces_nothing position true⟩

theorem readable_part {part : List Char} (sound : SoundPart part) : Readable part := by
  rcases sound.stars with stars | single
  · rw [stars]
    exact readable_directories (.inl rfl) readable_nothing
  · obtain ⟨component, valid⟩ := sound.component
    obtain ⟨pieces, read, _⟩ := map_eq_ok_iff.1 valid
    intro position
    rw [← List.append_nil part]
    apply readable_append (reads_of_read_pieces single read)
    · exact nofun
    · intro position atStart
      exact ⟨[], read_pieces_nothing position atStart⟩

theorem readable_part_ahead {part rest : List Char} (sound : SoundPart part)
    (behind : Readable rest) :
    Readable (part ++ '/' :: rest) := by
  rcases sound.stars with stars | single
  · rw [stars]
    exact readable_directories (.inr rfl) behind
  · obtain ⟨component, valid⟩ := sound.component
    obtain ⟨pieces, read, _⟩ := map_eq_ok_iff.1 valid
    intro position
    apply readable_append (reads_of_read_pieces single read)
    · rw [List.head?_cons]
      decide
    · intro position atStart
      have plain : '/' ≠ '*' ∧ '/' ≠ '?' ∧ '/' ≠ '[' := by decide
      obtain ⟨next, step⟩ := read_pieces_literal position atStart plain rest
      obtain ⟨others, read⟩ := behind next
      rw [step, decide_eq_true rfl, read]
      exact ⟨_, rfl⟩

theorem readable_parts {parts : List (List Char)} (sound : ∀ part ∈ parts, SoundPart part) :
    Readable (List.intercalate ['/'] parts) := by
  induction parts with
  | nil => exact readable_nothing
  | cons part parts induction =>
      rw [List.forall_mem_cons] at sound
      cases parts with
      | nil =>
          rw [List.intercalate_singleton]
          exact readable_part sound.1
      | cons other parts =>
          rw [List.intercalate_cons_cons, List.append_assoc, List.singleton_append]
          exact readable_part_ahead sound.1 (induction sound.2)

theorem read_as_of_parts {parts : List (List Char)} (sound : ∀ part ∈ parts, SoundPart part) :
    ∃ found, AllSucceed Component.ofText parts found ∧
      List.Forall₂ (fun component part => ReadAs part component) found parts := by
  induction parts with
  | nil => exact ⟨[], .nil, .nil⟩
  | cons part parts induction =>
      rw [List.forall_mem_cons] at sound
      obtain ⟨component, valid, readAs⟩ := read_as_of_sound sound.1
      obtain ⟨found, succeed, related⟩ := induction sound.2
      exact ⟨component :: found, .cons valid succeed, .cons readAs related⟩

theorem components_of_parts {parts : List (List Char)} (sound : ∀ part ∈ parts, SoundPart part) :
    ∃ found, AllSucceed Component.ofText parts found ∧ (∀ component ∈ found, component.Regular) ∧
      ∀ names, Takes found names ↔ DescribesPath parts names := by
  obtain ⟨found, succeed, related⟩ := read_as_of_parts sound
  obtain ⟨regular, same⟩ := (List.forall₂_and_left found parts).1
    (related.imp fun _ _ readAs => ⟨readAs.regular, readAs⟩)
  refine ⟨found, succeed, regular, ?_⟩
  apply along_iff_of_related
  apply same.imp
  intro component part readAs
  exact ⟨readAs.many, readAs.describes⟩

section
variable {pattern : String} (sound : ∀ part ∈ splitSegments pattern.toList, SoundPart part)

include sound

theorem no_empty_part : [] ∉ splitSegments pattern.toList := by
  intro member
  exact (sound [] member).nonempty rfl

theorem pattern_is_relative : FileTree.isAbsolute pattern = false := by
  rw [FileTree.isAbsolute, beq_eq_false_iff_ne]
  exact starts_with_no_slash (no_empty_part sound)

theorem pattern_is_for_files : wantsDirectory pattern = false := by
  rw [wantsDirectory, beq_eq_false_iff_ne]
  exact ends_with_no_slash (no_empty_part sound)

theorem parts_of_pattern : parts pattern.toList = splitSegments pattern.toList := by
  rw [parts, if_neg]
  intro last
  exact no_empty_part sound (List.mem_of_getLast? last)

/-- The parts that a pattern of sound parts is read as take the names that its text describes. -/
theorem components_of_sound :
    ∃ found, components pattern = .ok found ∧ (∀ component ∈ found, component.Regular) ∧
      ∀ names, Takes found names ↔ DescribesPath (splitSegments pattern.toList) names := by
  obtain ⟨pieces, read⟩ := readable_parts sound 0
  rw [join_split_segments] at read
  obtain ⟨found, succeed, described⟩ := components_of_parts sound
  refine ⟨found, ?_, described⟩
  rw [components, read, pattern_is_relative sound, if_neg Bool.false_ne_true, List.drop_zero,
    parts_of_pattern sound, map_m_eq_ok_iff.2 succeed]
  rfl

end

end ManifestLint.Glob
