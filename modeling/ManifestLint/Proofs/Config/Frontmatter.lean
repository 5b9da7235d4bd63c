import ManifestLint.Proofs.Engine.Construction
import ManifestLint.Proofs.Text.Utf8
import Mathlib.Data.List.DropRight

/-!
What a document with frontmatter looks like: white space, three dashes with a line ending right
behind them, whole lines that are no fences, and a line that is one. The lines are gone through in
their order while their bytes are counted; a count reached in this way always ends between two
characters of the text.
-/

namespace ManifestLint.Frontmatter

theorem split_line_of_line {line : List Char} (unbroken : '\n' ∉ line) (rest : List Char) :
    splitLine (line ++ '\n' :: rest) = (line ++ ['\n'], rest) := by
  induction line with
  | nil => rfl
  | cons char line induction =>
      rw [List.mem_cons, not_or] at unbroken
      have other : char ≠ '\n' := Ne.symm unbroken.1
      rw [List.cons_append, splitLine, if_neg other, induction unbroken.2]
      rfl

theorem split_line_of_last {line : List Char} (unbroken : '\n' ∉ line) :
    splitLine line = (line, []) := by
  induction line with
  | nil => rfl
  | cons char line induction =>
      rw [List.mem_cons, not_or] at unbroken
      have other : char ≠ '\n' := Ne.symm unbroken.1
      rw [splitLine, if_neg other, induction unbroken.2]

def IsLine (line : List Char) : Prop := ∃ text, '\n' ∉ text ∧ line = text ++ ['\n']

/-- A line that a text may go on behind, or the rest of the text. -/
def IsLineBefore (rest line : List Char) : Prop := IsLine line ∨ '\n' ∉ line ∧ rest = []

theorem split_line_append {line rest : List Char} (before : IsLineBefore rest line) :
    splitLine (line ++ rest) = (line, rest) := by
  cases before with
  | inl whole =>
      obtain ⟨text, unbroken, rfl⟩ := whole
      rw [List.append_assoc]
      exact split_line_of_line unbroken rest
  | inr last =>
      rw [last.2, List.append_nil]
      exact split_line_of_last last.1

theorem line_of_split (text : List Char) : IsLineBefore (splitLine text).2 (splitLine text).1 := by
  induction text with
  | nil => exact .inr ⟨List.not_mem_nil, rfl⟩
  | cons char text induction =>
      rw [splitLine]
      split
      · next feed => exact .inl ⟨[], List.not_mem_nil, by rw [feed]; rfl⟩
      · next other =>
        have added {line : List Char} (unbroken : '\n' ∉ line) : '\n' ∉ char :: line := by
          rw [List.mem_cons, not_or]
          exact ⟨Ne.symm other, unbroken⟩
        cases induction with
        | inl whole =>
            obtain ⟨line, unbroken, same⟩ := whole
            exact .inl ⟨char :: line, added unbroken, congrArg (char :: ·) same⟩
        | inr last => exact .inr ⟨added last.1, last.2⟩

/-- A fact about texts goes from what follows the first line to the whole. -/
theorem by_lines {Holds : List Char → Prop} (nothing : Holds [])
    (line : ∀ text, text ≠ [] → Holds (splitLine text).2 → Holds text) (text : List Char) :
    Holds text :=
  if empty : text = [] then empty ▸ nothing
  else line text empty (by_lines nothing line (splitLine text).2)
termination_by text.length
decreasing_by exact length_split_line_lt empty

theorem fence_offset_behind (passed more : Nat) (text : List Char) :
    fenceOffset (passed + more) text = (fenceOffset more text).map (passed + ·) := by
  fun_induction fenceOffset more text with
  | case1 =>
      rw [fenceOffset, dif_pos rfl]
      rfl
  | case2 more text nonempty fenced =>
      rw [fenceOffset, dif_neg nonempty, if_pos fenced]
      rfl
  | case3 more text nonempty other induction =>
      rw [fenceOffset, dif_neg nonempty, if_neg other, Nat.add_assoc, induction]

theorem until_fence_eq (text : List Char) :
    untilFence text =
      if text = [] then none
      else if trimEnd (splitLine text).1 = fence then some []
      else (untilFence (splitLine text).2).map ((splitLine text).1 ++ ·) := by
  unfold untilFence
  rw [fenceOffset]
  split
  · rfl
  · split
    · rw [Option.bind_some, Text.takeBytes]
    · next other =>
      rw [Nat.zero_add, ← Nat.add_zero (Text.byteCount _), fence_offset_behind]
      have cut (offset : Nat) : Text.takeBytes (Text.byteCount (splitLine text).1 + offset) text =
          (Text.takeBytes offset (splitLine text).2).map ((splitLine text).1 ++ ·) := by
        have behind := Text.take_bytes_behind (splitLine text).1 (splitLine text).2 offset
        rw [split_line_parts] at behind
        exact behind
      cases fenceOffset 0 (splitLine text).2 with
      | none => rfl
      | some offset => exact cut offset

/-- Wherever lines end, a count of their bytes ends between two characters. -/
theorem offset_between_characters {passed offset : Nat} {text : List Char}
    (found : fenceOffset passed text = some offset) :
    ∃ before after, text = before ++ after ∧ offset = passed + Text.byteCount before := by
  fun_induction fenceOffset passed text with
  | case1 => cases found
  | case2 passed text =>
      cases found
      exact ⟨[], text, rfl, rfl⟩
  | case3 passed text nonempty other induction =>
      obtain ⟨before, after, same, count⟩ := induction found
      refine ⟨(splitLine text).1 ++ before, after, ?_, ?_⟩
      · rw [List.append_assoc, ← same, split_line_parts]
      · simp [count, Nat.add_assoc]

/-- The number of bytes counted never fails to cut the text. -/
theorem take_bytes_of_offset {text : List Char} {offset : Nat}
    (found : fenceOffset 0 text = some offset) :
    ∃ settings, Text.takeBytes offset text = some settings := by
  obtain ⟨before, after, same, count⟩ := offset_between_characters found
  have behind := Text.take_bytes_behind before after 0
  rw [← same, Nat.add_zero, ← Nat.zero_add (Text.byteCount before), ← count] at behind
  refine ⟨before, behind.trans ?_⟩
  rw [Text.takeBytes, Option.map_some, List.append_nil]

/-- Three dashes and white space behind them, which may hold the end of the line. -/
def IsFence (line : List Char) : Prop :=
  ∃ blanks, line = fence ++ blanks ∧ ∀ char ∈ blanks, char.toNat ∈ Text.whiteSpace

theorem trim_end_eq_fence_iff (line : List Char) : trimEnd line = fence ↔ IsFence line := by
  constructor
  · intro trimmed
    refine ⟨line.rtakeWhile Text.isBlank, ?_, ?_⟩
    · rw [← trimmed]
      exact List.rdropWhile_append_rtakeWhile.symm
    · intro char member
      exact (is_blank_iff_white_space char).1 (List.mem_rtakeWhile_imp member)
  · intro fenced
    obtain ⟨blanks, same, white⟩ := fenced
    have blank : ∀ char ∈ blanks.reverse, Text.isBlank char = true := by
      intro char member
      exact (is_blank_iff_white_space char).2 (white char (List.mem_reverse.1 member))
    rw [trimEnd, same, List.reverse_append, List.dropWhile_append_of_pos blank]
    rfl

def IsInside (line : List Char) : Prop := IsLine line ∧ ¬ IsFence line

/-- The text behind the opening fence: whole lines that are no fences, and one that is. -/
def Closes (text settings : List Char) : Prop :=
  ∃ lines closing rest, text = settings ++ (closing ++ rest) ∧ settings = List.flatten lines ∧
    (∀ line ∈ lines, IsInside line) ∧ IsFence closing ∧ IsLineBefore rest closing

theorem closes_nothing (settings : List Char) : ¬ Closes [] settings := by
  intro closes
  obtain ⟨lines, closing, rest, same, _, _, fenced, _⟩ := closes
  obtain ⟨blanks, rfl, _⟩ := fenced
  have nothing := List.append_eq_nil_iff.1 same.symm
  cases nothing.2

theorem closes_of_fence {closing rest : List Char} (fenced : IsFence closing)
    (before : IsLineBefore rest closing) (settings : List Char) :
    Closes (closing ++ rest) settings ↔ settings = [] := by
  constructor
  · intro closes
    obtain ⟨lines, other, otherRest, same, rfl, inside, _, _⟩ := closes
    cases lines with
    | nil => rfl
    | cons line lines =>
        have lineInside := inside line List.mem_cons_self
        have split := split_line_append before
        rw [same, List.flatten_cons, List.append_assoc, split_line_append (.inl lineInside.1)]
          at split
        exact absurd ((Prod.mk.inj split).1 ▸ fenced) lineInside.2
  · intro empty
    rw [empty]
    exact ⟨[], closing, rest, rfl, rfl, fun _ member => absurd member List.not_mem_nil,
      fenced, before⟩

theorem closes_behind_line {line rest : List Char} (other : ¬ IsFence line)
    (before : IsLineBefore rest line) (settings : List Char) :
    Closes (line ++ rest) settings ↔ ∃ others, Closes rest others ∧ line ++ others = settings := by
  constructor
  · intro closes
    obtain ⟨lines, closing, last, same, rfl, inside, fenced, closed⟩ := closes
    have split := split_line_append before
    cases lines with
    | nil =>
        rw [same, List.flatten_nil, List.nil_append, split_line_append closed] at split
        exact absurd ((Prod.mk.inj split).1 ▸ fenced) other
    | cons first lines =>
        have firstInside := inside first List.mem_cons_self
        rw [same, List.flatten_cons, List.append_assoc, split_line_append (.inl firstInside.1)]
          at split
        obtain ⟨rfl, rfl⟩ := Prod.mk.inj split
        refine ⟨lines.flatten, ⟨lines, closing, last, rfl, rfl, ?_, fenced, closed⟩, rfl⟩
        intro line member
        exact inside line (List.mem_cons_of_mem _ member)
  · intro later
    obtain ⟨others, closes, rfl⟩ := later
    have whole : IsLine line := by
      cases before with
      | inl whole => exact whole
      | inr last => exact absurd (last.2 ▸ closes) (closes_nothing others)
    obtain ⟨lines, closing, last, rfl, rfl, inside, fenced, closed⟩ := closes
    refine ⟨line :: lines, closing, last, ?_, rfl, ?_, fenced, closed⟩
    · rw [List.append_assoc]
    · exact List.forall_mem_cons.2 ⟨⟨whole, other⟩, inside⟩

theorem until_fence_eq_some_iff (text settings : List Char) :
    untilFence text = some settings ↔ Closes text settings := by
  induction text using by_lines generalizing settings with
  | nothing =>
      rw [until_fence_eq, if_pos rfl]
      exact iff_of_false nofun (closes_nothing settings)
  | line text nonempty induction =>
      have before := line_of_split text
      have whole := split_line_parts text
      rw [until_fence_eq, if_neg nonempty]
      by_cases fenced : trimEnd (splitLine text).1 = fence
      · have closes := closes_of_fence ((trim_end_eq_fence_iff _).1 fenced) before settings
        rw [whole] at closes
        rw [if_pos fenced, closes, Option.some.injEq]
        exact eq_comm
      · have other : ¬ IsFence (splitLine text).1 :=
          fun found => fenced ((trim_end_eq_fence_iff _).2 found)
        have closes := closes_behind_line other before settings
        rw [whole] at closes
        rw [if_neg fenced, closes, Option.map_eq_some_iff]
        simp only [induction]

theorem after_fence_eq_some_iff (text rest : List Char) :
    afterFence text = some rest ↔
      ∃ ending, (ending = ['\n'] ∨ ending = ['\r', '\n']) ∧ text = fence ++ (ending ++ rest) := by
  constructor
  · intro opened
    unfold afterFence at opened
    split at opened
    · cases opened
      exact ⟨['\n'], .inl rfl, rfl⟩
    · cases opened
      exact ⟨['\r', '\n'], .inr rfl, rfl⟩
    · cases opened
  · intro opens
    obtain ⟨ending, feeds, rfl⟩ := opens
    cases feeds with
    | inl feed =>
        rw [feed]
        rfl
    | inr feeds =>
        rw [feeds]
        rfl

/-- The parts of a document with frontmatter in their order, but for the opening fence. -/
structure Parts where
  blanks : List Char
  ending : List Char
  lines : List (List Char)
  closing : List Char
  rest : List Char

/-- A document that some parts make, and the frontmatter that they give it. -/
structure Parts.Make (parts : Parts) (content settings : List Char) : Prop where
  whole : content = parts.blanks ++
    (fence ++ (parts.ending ++ (settings ++ (parts.closing ++ parts.rest))))
  blanks : parts.blanks = content.takeWhile fun char => char.toNat ∈ Text.whiteSpace
  ending : parts.ending = ['\n'] ∨ parts.ending = ['\r', '\n']
  settings : settings = parts.lines.flatten
  lines : ∀ line ∈ parts.lines, IsInside line
  closing : IsFence parts.closing
  closes : IsLineBefore parts.rest parts.closing

theorem is_blank_eq : Text.isBlank = fun char => decide (char.toNat ∈ Text.whiteSpace) := by
  funext char
  rw [Bool.eq_iff_iff, is_blank_iff_white_space, decide_eq_true_iff]

theorem split_eq_some_iff (content settings : List Char) :
    split content = some settings ↔ ∃ parts : Parts, parts.Make content settings := by
  unfold split
  rw [Option.bind_eq_some_iff]
  constructor
  · intro found
    obtain ⟨text, opened, closed⟩ := found
    obtain ⟨ending, feeds, behind⟩ := (after_fence_eq_some_iff _ _).1 opened
    obtain ⟨lines, closing, rest, same, flat, inside, fenced, closes⟩ :=
      (until_fence_eq_some_iff _ _).1 closed
    refine ⟨⟨content.takeWhile Text.isBlank, ending, lines, closing, rest⟩, ?_, ?_, feeds,
      flat, inside,
      fenced, closes⟩
    · dsimp only
      rw [← same, ← behind, List.takeWhile_append_dropWhile]
    · rw [is_blank_eq]
  · intro made
    obtain ⟨parts, made⟩ := made
    have blanks : parts.blanks = content.takeWhile Text.isBlank := by
      rw [is_blank_eq]
      exact made.blanks
    have behind : content.dropWhile Text.isBlank =
        fence ++ (parts.ending ++ (settings ++ (parts.closing ++ parts.rest))) := by
      have whole := made.whole
      rw [blanks] at whole
      exact List.append_cancel_left (List.takeWhile_append_dropWhile.trans whole)
    refine ⟨settings ++ (parts.closing ++ parts.rest), ?_, ?_⟩
    · exact (after_fence_eq_some_iff _ _).2 ⟨parts.ending, made.ending, behind⟩
    · exact (until_fence_eq_some_iff _ _).2
        ⟨parts.lines, parts.closing, parts.rest, rfl, made.settings, made.lines, made.closing,
          made.closes⟩

theorem of_document_eq_some_iff (content settings : String) :
    ofDocument content = some settings ↔
      ∃ parts : Parts, parts.Make content.toList settings.toList := by
  rw [← split_eq_some_iff, ofDocument, Option.map_eq_some_iff]
  constructor
  · intro found
    obtain ⟨chars, split, rfl⟩ := found
    rw [String.toList_ofList]
    exact split
  · intro split
    exact ⟨settings.toList, split, String.ofList_toList⟩

theorem closes_before {text settings : List Char} (closes : Closes text settings)
    (ended : text.getLast? = some '\n') (body : List Char) : Closes (text ++ body) settings := by
  obtain ⟨lines, closing, rest, same, flat, inside, fenced, before⟩ := closes
  have whole : IsLine closing := by
    cases before with
    | inl whole => exact whole
    | inr last =>
        -- A closing line without a line feed would end the text.
        obtain ⟨blanks, dashes, _⟩ := fenced
        have nonempty : closing ≠ [] := by
          rw [dashes]
          exact List.cons_ne_nil _ _
        rw [same, last.2, List.append_nil, List.getLast?_append_of_ne_nil _ nonempty] at ended
        exact absurd (List.mem_of_getLast? ended) last.1
  refine ⟨lines, closing, rest ++ body, ?_, flat, inside, fenced, .inl whole⟩
  rw [same, List.append_assoc, List.append_assoc]

/-- Text behind the line of the closing fence changes nothing. -/
theorem of_document_append {head settings : String} (found : ofDocument head = some settings)
    (ended : head.toList.getLast? = some '\n') (body : String) :
    ofDocument (head ++ body) = some settings := by
  rw [ofDocument, Option.map_eq_some_iff] at found ⊢
  obtain ⟨chars, split, same⟩ := found
  refine ⟨chars, ?_, same⟩
  obtain ⟨text, opened, closed⟩ := Option.bind_eq_some_iff.1 split
  obtain ⟨ending, feeds, behind⟩ := (after_fence_eq_some_iff _ _).1 opened
  have closes := (until_fence_eq_some_iff _ _).1 closed
  have started : (head.toList ++ body.toList).dropWhile Text.isBlank =
      fence ++ (ending ++ (text ++ body.toList)) := by
    rw [List.dropWhile_append, behind, if_neg (by simp [fence]), List.append_assoc,
      List.append_assoc]
  have textEnded : text.getLast? = some '\n' := by
    have nonempty : text ≠ [] := by
      intro empty
      rw [empty] at closes
      exact closes_nothing chars closes
    rw [← List.takeWhile_append_dropWhile (p := Text.isBlank) (l := head.toList), behind,
      ← List.append_assoc, ← List.append_assoc, List.getLast?_append_of_ne_nil _ nonempty] at ended
    exact ended
  rw [Frontmatter.split, String.toList_append, started, Option.bind_eq_some_iff]
  refine ⟨text ++ body.toList, ?_, ?_⟩
  · exact (after_fence_eq_some_iff _ _).2 ⟨ending, feeds, rfl⟩
  · exact (until_fence_eq_some_iff _ _).2 (closes_before closes textEnded body.toList)

/-- A number of bytes that ends in a text, and there between two characters. -/
structure IsBoundary (text : List Char) (offset : Nat) : Prop where
  inside : offset ≤ (Text.encode text).length
  between : ∃ before after, text = before ++ after ∧ (Text.encode before).length = offset

theorem boundary_of_offset {text : List Char} {offset : Nat}
    (found : fenceOffset 0 text = some offset) :
    IsBoundary text offset := by
  obtain ⟨before, after, same, count⟩ := offset_between_characters found
  rw [Nat.zero_add] at count
  obtain ⟨settings, cut⟩ := take_bytes_of_offset found
  exact ⟨(Text.encode_of_take_bytes cut).1, before, after, same, count.symm⟩

/-- A document has frontmatter exactly when it is made of such parts, and otherwise none. The offset
at which the frontmatter is cut off the text behind the opening fence always is a boundary of that
text. -/
theorem frontmatter_is_framed (content : String) :
    (∀ settings, ofDocument content = some settings ↔
      ∃ parts : Parts, parts.Make content.toList settings.toList) ∧
    (ofDocument content = none ↔
      ∀ settings : List Char, ¬ ∃ parts : Parts, parts.Make content.toList settings) ∧
    (∀ text offset, afterFence (content.toList.dropWhile Text.isBlank) = some text →
      fenceOffset 0 text = some offset →
        IsBoundary text offset ∧
        ∃ settings, Text.takeBytes offset text = some settings ∧
          ofDocument content = some (String.ofList settings)) := by
  refine ⟨of_document_eq_some_iff content, ?_, ?_⟩
  · rw [ofDocument, Option.map_eq_none_iff, Option.eq_none_iff_forall_ne_some]
    simp only [split_eq_some_iff, ne_eq]
  · intro text offset opened found
    obtain ⟨settings, cut⟩ := take_bytes_of_offset found
    refine ⟨boundary_of_offset found, settings, cut, ?_⟩
    rw [ofDocument, split, opened, Option.bind_some, untilFence, found, Option.bind_some, cut]
    rfl

example : ofDocument "\uFEFF---\n---\n" = none ∧ ofDocument "--- \n---\n" = none ∧
    ofDocument "---\nlint:\n ---" = none := by decide +kernel

/-- The offset counts bytes: a letter before the closing fence takes up two. -/
theorem frontmatter_behind_two_byte_letter :
    afterFence ("\u2003---\r\n# ä ---\n ---\n---\u00a0\nbody".toList.dropWhile Text.isBlank) =
      some "# ä ---\n ---\n---\u00a0\nbody".toList ∧
    fenceOffset 0 "# ä ---\n ---\n---\u00a0\nbody".toList = some 14 ∧
    IsBoundary "# ä ---\n ---\n---\u00a0\nbody".toList 14 ∧
    ofDocument "\u2003---\r\n# ä ---\n ---\n---\u00a0\nbody" = some "# ä ---\n ---\n" := by
  have opened :
      afterFence ("\u2003---\r\n# ä ---\n ---\n---\u00a0\nbody".toList.dropWhile Text.isBlank) =
      some "# ä ---\n ---\n---\u00a0\nbody".toList := by decide +kernel
  have found : fenceOffset 0 "# ä ---\n ---\n---\u00a0\nbody".toList = some 14 := by decide +kernel
  obtain ⟨boundary, settings, cut, same⟩ := (frontmatter_is_framed _).2.2 _ _ opened found
  have slice : Text.takeBytes 14 "# ä ---\n ---\n---\u00a0\nbody".toList =
      some "# ä ---\n ---\n".toList := by decide +kernel
  rw [slice, Option.some.injEq] at cut
  rw [← cut, String.ofList_toList] at same
  exact ⟨opened, found, boundary, same⟩

end ManifestLint.Frontmatter
