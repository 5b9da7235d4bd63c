import ManifestLint.Config.Document
import ManifestLint.Proofs.Config.Frontmatter
import ManifestLint.Proofs.Yaml.Permitted
import ManifestLint.Proofs.Yaml.Scanning

/-!
Line endings. A carriage return before every line feed of a document changes no settings: the fences
are found at the same lines, the frontmatter between them has the same carriage returns more, and
they are gone once its line breaks are normalised. They do count where characters are checked in
chunks, so what a faulty document is refused for may change with them.
-/

namespace ManifestLint

namespace Text

/-- The text with a carriage return before every line feed. -/
def withReturns (text : List Char) : List Char :=
  text.flatMap fun char => if char = '\n' then ['\r', '\n'] else [char]

@[simp] theorem with_returns_feed (rest : List Char) :
    withReturns ('\n' :: rest) = '\r' :: '\n' :: withReturns rest := rfl

@[simp] theorem with_returns_other {char : Char} (other : char ≠ '\n') (rest : List Char) :
    withReturns (char :: rest) = char :: withReturns rest := by
  unfold withReturns
  rw [List.flatMap_cons, if_neg other]
  rfl

@[simp] theorem with_returns_append (first second : List Char) :
    withReturns (first ++ second) = withReturns first ++ withReturns second := by
  unfold withReturns
  exact List.flatMap_append

theorem with_returns_eq_cons {char : Char} {text later : List Char} (visible : char ≠ '\r')
    (same : withReturns text = char :: later) :
    ∃ rest, text = char :: rest ∧ withReturns rest = later := by
  cases text with
  | nil => cases same
  | cons first rest =>
      by_cases feed : first = '\n'
      · rw [feed, with_returns_feed] at same
        exact absurd (List.cons.inj same).1.symm visible
      · rw [with_returns_other feed] at same
        have parts := List.cons.inj same
        rw [parts.1]
        exact ⟨rest, rfl, parts.2⟩

theorem with_returns_eq_append {start text later : List Char} (visible : '\r' ∉ start)
    (same : withReturns text = start ++ later) :
    ∃ rest, text = start ++ rest ∧ withReturns rest = later := by
  induction start generalizing text with
  | nil => exact ⟨text, rfl, same⟩
  | cons char start induction =>
      rw [List.mem_cons, not_or] at visible
      obtain ⟨behind, rfl, sameBehind⟩ := with_returns_eq_cons (Ne.symm visible.1) same
      obtain ⟨rest, rfl, sameRest⟩ := induction visible.2 sameBehind
      exact ⟨rest, rfl, sameRest⟩

theorem with_returns_eq_nil_iff (text : List Char) : withReturns text = [] ↔ text = [] := by
  constructor
  · intro empty
    cases text with
    | nil => rfl
    | cons char text =>
        by_cases feed : char = '\n'
        · rw [feed, with_returns_feed] at empty
          cases empty
        · rw [with_returns_other feed] at empty
          cases empty
  · intro empty
    rw [empty]
    rfl

/-- A line ending of two characters comes from a line feed, if no carriage return was there before.
-/
theorem with_returns_eq_ending {text later : List Char} (plain : '\r' ∉ text)
    (same : withReturns text = '\r' :: '\n' :: later) :
    ∃ rest, text = '\n' :: rest ∧ withReturns rest = later := by
  cases text with
  | nil => cases same
  | cons first rest =>
      by_cases feed : first = '\n'
      · rw [feed, with_returns_feed] at same
        cases same
        rw [feed]
        exact ⟨rest, rfl, rfl⟩
      · rw [with_returns_other feed] at same
        have returned := (List.cons.inj same).1
        rw [returned] at plain
        exact absurd List.mem_cons_self plain

theorem all_with_returns {test : Char → Bool} (feed : test '\n' = true) (back : test '\r' = true)
    (text : List Char) : (withReturns text).all test = text.all test := by
  induction text with
  | nil => rfl
  | cons char text induction =>
      by_cases feeds : char = '\n'
      · simp [feeds, induction, feed, back]
      · simp [feeds, induction]

theorem drop_blanks_with_returns (text : List Char) :
    (withReturns text).dropWhile isBlank = withReturns (text.dropWhile isBlank) := by
  induction text with
  | nil => rfl
  | cons char text induction =>
      by_cases feed : char = '\n'
      · have feedBlank : isBlank '\n' = true := by decide
        have returnBlank : isBlank '\r' = true := by decide
        rw [feed, with_returns_feed, List.dropWhile_cons_of_pos returnBlank,
          List.dropWhile_cons_of_pos feedBlank, List.dropWhile_cons_of_pos feedBlank, induction]
      · rw [with_returns_other feed]
        by_cases blank : isBlank char = true
        · rw [List.dropWhile_cons_of_pos blank, List.dropWhile_cons_of_pos blank, induction]
        · rw [List.dropWhile_cons_of_neg blank, List.dropWhile_cons_of_neg blank,
            with_returns_other feed]

end Text

namespace Yaml

/-- A character that is no carriage return is read without a look at what follows. -/
theorem normalise_alone {char : Char} (visible : char ≠ '\r') :
    ∃ read, ∀ rest, normalise (char :: rest) = read :: normalise rest := by
  by_cases nextLine : char = '\u0085'
  · rw [nextLine]
    exact ⟨'\n', fun _ => rfl⟩
  · refine ⟨char, fun rest => ?_⟩
    rw [normalise]
    · exact fun _ same _ => visible same
    · exact visible
    · exact nextLine

theorem normalise_with_returns {text : List Char} (plain : '\r' ∉ text) :
    normalise (Text.withReturns text) = normalise text := by
  induction text with
  | nil => rfl
  | cons char text induction =>
      rw [List.mem_cons, not_or] at plain
      have same := induction plain.2
      by_cases feed : char = '\n'
      · have read (rest : List Char) :
            normalise ('\r' :: '\n' :: rest) = normalise ('\n' :: rest) := rfl
        rw [feed, Text.with_returns_feed, read]
        exact congrArg ('\n' :: ·) same
      · obtain ⟨read, alone⟩ := normalise_alone (Ne.symm plain.1)
        rw [Text.with_returns_other feed, alone, alone, same]

theorem document_with_returns {text : List Char} (plain : '\r' ∉ text)
    (permitted : text.all isPermitted = true) :
    Document.ofText (String.ofList (Text.withReturns text)) =
      Document.ofText (String.ofList text) := by
  have stillPermitted : (Text.withReturns text).all isPermitted = true := by
    rw [Text.all_with_returns (by decide) (by decide)]
    exact permitted
  unfold Document.ofText
  rw [String.toList_ofList, String.toList_ofList, Supply.of_permitted stillPermitted,
    Supply.of_permitted permitted, normalise_with_returns plain]

/-- The first character that is not permitted ends behind the first chunk. -/
def ForbiddenBehindChunk (text : List Char) : Prop :=
  ∃ before char after, text = before ++ char :: after ∧ before.all isPermitted = true ∧
    isPermitted char = false ∧ chunkSize < Text.byteCount before + char.utf8Size

theorem byte_count_le_with_returns (text : List Char) :
    Text.byteCount text ≤ Text.byteCount (Text.withReturns text) := by
  induction text with
  | nil => exact Nat.le_refl _
  | cons char text induction =>
      by_cases feed : char = '\n'
      · rw [feed, Text.with_returns_feed, Text.byte_count_cons, Text.byte_count_cons,
          Text.byte_count_cons]
        omega
      · rw [Text.with_returns_other feed, Text.byte_count_cons, Text.byte_count_cons]
        omega

/-- A text with a character that is not permitted is the same document with either line endings,
unless the character gets behind the first chunk. -/
theorem forbidden_with_returns {text : List Char} (forbidden : text.all isPermitted = false) :
    Document.ofText (String.ofList (Text.withReturns text)) = Document.ofText (String.ofList text) ∨
      ForbiddenBehindChunk (Text.withReturns text) := by
  obtain ⟨found, member, refused⟩ := List.all_eq_false.1 forbidden
  have present : (text.find? (!isPermitted ·)).isSome = true :=
    List.find?_isSome.2 ⟨found, member, by simpa using refused⟩
  obtain ⟨char, first⟩ := Option.isSome_iff_exists.1 present
  obtain ⟨bad, before, after, rfl, clean⟩ := List.find?_eq_some_iff_append.1 first
  rw [Bool.not_eq_true'] at bad
  have permitted : before.all isPermitted = true := by
    rw [List.all_eq_true]
    intro other inside
    have kept := clean other inside
    rw [Bool.not_not] at kept
    exact kept
  have visible : char ≠ '\n' := by
    rintro rfl
    exact absurd bad (by decide)
  have stillPermitted : (Text.withReturns before).all isPermitted = true := by
    rw [Text.all_with_returns (by decide) (by decide)]
    exact permitted
  have parts : Text.withReturns (before ++ char :: after) =
      Text.withReturns before ++ char :: Text.withReturns after := by
    rw [Text.with_returns_append, Text.with_returns_other visible]
  by_cases fits : Text.byteCount (Text.withReturns before) + char.utf8Size ≤ chunkSize
  · have shorter := byte_count_le_with_returns before
    left
    rw [parts, document_of_forbidden stillPermitted bad fits,
      document_of_forbidden permitted bad (by omega)]
  · right
    exact ⟨_, _, _, parts, stillPermitted, bad, Nat.lt_of_not_le fits⟩

end Yaml

namespace Frontmatter

theorem split_line_with_returns (text : List Char) :
    splitLine (Text.withReturns text) =
      (Text.withReturns (splitLine text).1, Text.withReturns (splitLine text).2) := by
  induction text with
  | nil => rfl
  | cons char text induction =>
      by_cases feed : char = '\n'
      · rw [feed]
        rfl
      · rw [Text.with_returns_other feed, splitLine, if_neg feed, splitLine, if_neg feed, induction,
          Text.with_returns_other feed]

theorem trim_end_of_blank {char : Char} (blank : Text.isBlank char = true) (line : List Char) :
    trimEnd (line ++ [char]) = trimEnd line :=
  List.rdropWhile_concat_pos _ _ _ blank

theorem trim_end_with_returns (line : List Char) :
    trimEnd (Text.withReturns line) = Text.withReturns (trimEnd line) := by
  induction line using List.reverseRecOn with
  | nil => rfl
  | append_singleton line char induction =>
      rw [Text.with_returns_append]
      by_cases feed : char = '\n'
      · have ending : Text.withReturns ['\n'] = ['\r'] ++ ['\n'] := rfl
        rw [feed, ending, ← List.append_assoc, trim_end_of_blank (by decide),
          trim_end_of_blank (by decide), trim_end_of_blank (by decide), induction]
      · rw [Text.with_returns_other feed]
        by_cases blank : Text.isBlank char = true
        · rw [trim_end_of_blank blank, ← induction]
          exact trim_end_of_blank blank _
        · have stays (line : List Char) : trimEnd (line ++ [char]) = line ++ [char] :=
            List.rdropWhile_concat_neg _ _ _ blank
          rw [stays, Text.with_returns_append, Text.with_returns_other feed]
          exact stays _

theorem is_fence_with_returns (line : List Char) :
    trimEnd (Text.withReturns line) = fence ↔ trimEnd line = fence := by
  rw [trim_end_with_returns]
  constructor
  · intro same
    have visible : '\r' ∉ fence := by decide
    rw [← List.append_nil fence] at same
    obtain ⟨rest, behind, nothing⟩ := Text.with_returns_eq_append visible same
    rw [behind, (Text.with_returns_eq_nil_iff rest).1 nothing, List.append_nil]
  · intro same
    rw [same]
    rfl

theorem until_fence_with_returns (text : List Char) :
    untilFence (Text.withReturns text) = (untilFence text).map Text.withReturns := by
  induction text using by_lines with
  | nothing =>
      rw [until_fence_eq []]
      exact until_fence_eq []
  | line text nonempty induction =>
      have stillNonempty : Text.withReturns text ≠ [] := fun empty =>
        nonempty ((Text.with_returns_eq_nil_iff text).1 empty)
      rw [until_fence_eq (Text.withReturns text), until_fence_eq text, if_neg stillNonempty,
        if_neg nonempty, split_line_with_returns]
      dsimp only
      by_cases fenced : trimEnd (splitLine text).1 = fence
      · rw [if_pos fenced, if_pos ((is_fence_with_returns _).2 fenced)]
        rfl
      · rw [if_neg fenced, if_neg fun found => fenced ((is_fence_with_returns _).1 found),
          induction, Option.map_map, Option.map_map]
        apply congrArg (Option.map · _)
        funext others
        exact (Text.with_returns_append _ _).symm

theorem after_fence_with_returns {text : List Char} (plain : '\r' ∉ text) :
    afterFence (Text.withReturns text) = (afterFence text).map Text.withReturns := by
  apply Option.ext
  intro later
  simp only [Option.map_eq_some_iff, after_fence_eq_some_iff]
  constructor
  · intro opened
    obtain ⟨ending, feeds, same⟩ := opened
    obtain ⟨behind, rfl, sameBehind⟩ := Text.with_returns_eq_append (by decide) same
    cases feeds with
    | inl alone =>
        -- a line feed alone is never written
        rw [alone] at sameBehind
        obtain ⟨rest, rfl, _⟩ := Text.with_returns_eq_cons (by decide) sameBehind
        cases sameBehind
    | inr both =>
        rw [both] at sameBehind
        have plainBehind : '\r' ∉ behind := fun member => plain (List.mem_append_right _ member)
        obtain ⟨rest, rfl, sameRest⟩ := Text.with_returns_eq_ending plainBehind sameBehind
        exact ⟨rest, ⟨['\n'], .inl rfl, rfl⟩, sameRest⟩
  · intro opened
    obtain ⟨rest, ⟨ending, feeds, rfl⟩, rfl⟩ := opened
    cases feeds with
    | inl alone =>
        rw [alone]
        exact ⟨['\r', '\n'], .inr rfl, rfl⟩
    | inr both =>
        rw [both] at plain
        have member : '\r' ∈ fence ++ (['\r', '\n'] ++ rest) :=
          List.mem_append_right _ List.mem_cons_self
        exact absurd member plain

theorem split_with_returns {content : List Char} (plain : '\r' ∉ content) :
    split (Text.withReturns content) = (split content).map Text.withReturns := by
  have plainBehind : '\r' ∉ content.dropWhile Text.isBlank := fun member =>
    plain ((List.dropWhile_sublist _).mem member)
  unfold split
  rw [Text.drop_blanks_with_returns, after_fence_with_returns plainBehind]
  cases afterFence (content.dropWhile Text.isBlank) with
  | none => rfl
  | some text => exact until_fence_with_returns text

theorem plain_of_split {content settings : List Char} (plain : '\r' ∉ content)
    (found : split content = some settings) : '\r' ∉ settings := by
  obtain ⟨parts, made⟩ := (split_eq_some_iff content settings).1 found
  intro member
  rw [made.whole] at plain
  apply plain
  simp only [List.mem_append]
  exact .inr (.inr (.inr (.inl member)))

end Frontmatter

section
variable {content settings : List Char}

theorem layer_of_split (found : Frontmatter.split content = some settings) :
    Layer.ofDocument (String.ofList content) =
      if Text.Blank (String.ofList settings) then .ok .empty
      else (Yaml.readDocumentAs LayerEntry.read (String.ofList settings)).mapError .unreadable := by
  rw [Layer.ofDocument, Frontmatter.ofDocument, String.toList_ofList, found]
  rfl

theorem blank_with_returns (settings : List Char) :
    Text.Blank (String.ofList (Text.withReturns settings)) =
      Text.Blank (String.ofList settings) := by
  unfold Text.Blank
  rw [String.toList_ofList, String.toList_ofList]
  exact Text.all_with_returns (by decide) (by decide) settings

theorem layer_of_same_document (found : Frontmatter.split content = some settings)
    (plain : '\r' ∉ content)
    (same : Yaml.Document.ofText (String.ofList (Text.withReturns settings)) =
      Yaml.Document.ofText (String.ofList settings)) :
    Layer.ofDocument (String.ofList (Text.withReturns content)) =
      Layer.ofDocument (String.ofList content) := by
  have foundCopy :
      Frontmatter.split (Text.withReturns content) = some (Text.withReturns settings) := by
    rw [Frontmatter.split_with_returns plain, found]
    rfl
  rw [layer_of_split foundCopy, layer_of_split found, blank_with_returns]
  unfold Yaml.readDocumentAs
  rw [same]

theorem layer_of_forbidden (found : Frontmatter.split content = some settings)
    (forbidden : settings.all Yaml.isPermitted = false)
    (shown : ¬ Text.Blank (String.ofList settings)) :
    ∃ fault, Layer.ofDocument (String.ofList content) = .error (.unreadable fault) := by
  have unsound : (Yaml.Document.ofText (String.ofList settings)).sound = false :=
    Yaml.unsound_of_forbidden (by rw [String.toList_ofList]; exact forbidden)
  obtain ⟨fault, failed⟩ := Yaml.read_fails_of_unsound unsound LayerEntry.read
  rw [layer_of_split found, if_neg shown, failed]
  exact ⟨fault, rfl⟩

/-- The settings are the same, or the frontmatter is refused with either line endings. -/
theorem layer_with_returns (plain : '\r' ∉ content) :
    Layer.ofDocument (String.ofList (Text.withReturns content)) =
      Layer.ofDocument (String.ofList content) ∨
      ∃ settings, Frontmatter.split (Text.withReturns content) = some settings ∧
        Yaml.ForbiddenBehindChunk settings ∧
        (∃ fault, Layer.ofDocument (String.ofList content) = .error (.unreadable fault)) ∧
        ∃ fault, Layer.ofDocument (String.ofList (Text.withReturns content)) =
          .error (.unreadable fault) := by
  cases found : Frontmatter.split content with
  | none =>
      left
      rw [Layer.ofDocument, Layer.ofDocument, Frontmatter.ofDocument, Frontmatter.ofDocument,
        String.toList_ofList, String.toList_ofList, Frontmatter.split_with_returns plain, found]
      rfl
  | some settings =>
      have plainSettings := Frontmatter.plain_of_split plain found
      have foundCopy :
          Frontmatter.split (Text.withReturns content) = some (Text.withReturns settings) := by
        rw [Frontmatter.split_with_returns plain, found]
        rfl
      have blankness := blank_with_returns settings
      by_cases permitted : settings.all Yaml.isPermitted = true
      · left
        exact layer_of_same_document found plain
          (Yaml.document_with_returns plainSettings permitted)
      · rw [Bool.not_eq_true] at permitted
        rcases Yaml.forbidden_with_returns permitted with same | behind
        · left
          exact layer_of_same_document found plain same
        · by_cases blank : Text.Blank (String.ofList settings)
          · left
            rw [layer_of_split foundCopy, layer_of_split found, blankness, if_pos blank,
              if_pos blank]
          · right
            have permittedCopy : (Text.withReturns settings).all Yaml.isPermitted = false := by
              rw [Text.all_with_returns (by decide) (by decide)]
              exact permitted
            exact ⟨_, foundCopy, behind, layer_of_forbidden found permitted blank,
              layer_of_forbidden foundCopy permittedCopy (blankness ▸ blank)⟩

end

/-- Whether the lines of a document end in line feeds or in a carriage return and a line feed, the
document gives the same settings or is refused. It is refused for the same cause, unless the first
character of its frontmatter that is not permitted gets behind the first chunk; then the frontmatter
is refused either way. -/
theorem Config.line_endings_change_no_settings (content : String) (plain : '\r' ∉ content.toList) :
    (∀ config, Config.ofDocument (String.ofList (Text.withReturns content.toList)) = .ok config ↔
      Config.ofDocument content = .ok config) ∧
    (Config.ofDocument (String.ofList (Text.withReturns content.toList)) =
      Config.ofDocument content ∨
      ∃ settings, Frontmatter.split (Text.withReturns content.toList) = some settings ∧
        Yaml.ForbiddenBehindChunk settings ∧
        (∃ fault, Config.ofDocument content = .error (.document (.unreadable fault))) ∧
        ∃ fault, Config.ofDocument (String.ofList (Text.withReturns content.toList)) =
          .error (.document (.unreadable fault))) := by
  have refused {document : String}
      (failed : ∃ fault, Layer.ofDocument document = .error (.unreadable fault)) :
      ∃ fault, Config.ofDocument document = .error (.document (.unreadable fault)) := by
    obtain ⟨fault, failed⟩ := failed
    refine ⟨fault, ?_⟩
    rw [Config.ofDocument, failed]
    rfl
  rcases layer_with_returns plain with same | ⟨settings, found, behind, failed, failedCopy⟩
  · rw [String.ofList_toList] at same
    have equal : Config.ofDocument (String.ofList (Text.withReturns content.toList)) =
        Config.ofDocument content := by
      unfold Config.ofDocument
      rw [same]
    exact ⟨fun config => by rw [equal], .inl equal⟩
  · rw [String.ofList_toList] at failed
    obtain ⟨fault, first⟩ := refused failed
    obtain ⟨faultCopy, second⟩ := refused failedCopy
    refine ⟨fun config => ?_, .inr ⟨settings, found, behind, ⟨fault, first⟩, faultCopy, second⟩⟩
    rw [first, second]
    exact iff_of_false nofun nofun

/-- A folded message over two lines reads the same with either line endings. -/
theorem Config.folded_message_with_returns :
    '\r' ∉ ("---\nlint:\n rules:\n - name: a\n   message: >\n    x\n    y\n" ++
      "   when: {type: missing, needle: z}\n---").toList ∧
    Config.ofDocument (String.ofList (Text.withReturns
      ("---\nlint:\n rules:\n - name: a\n   message: >\n    x\n    y\n" ++
        "   when: {type: missing, needle: z}\n---").toList)) =
      .ok ⟨⟨[], [⟨"a", "x y\n", .missing "z"⟩]⟩, .text, true⟩ := by
  have plain : '\r' ∉ ("---\nlint:\n rules:\n - name: a\n   message: >\n    x\n    y\n" ++
      "   when: {type: missing, needle: z}\n---").toList := by decide
  have read : Config.ofDocument ("---\nlint:\n rules:\n - name: a\n   message: >\n    x\n    y\n" ++
      "   when: {type: missing, needle: z}\n---") =
      .ok ⟨⟨[], [⟨"a", "x y\n", .missing "z"⟩]⟩, .text, true⟩ := by decide +kernel
  exact ⟨plain, ((line_endings_change_no_settings _ plain).1 _).2 read⟩

section
open Yaml

def commented (count : Nat) (text : List Char) : List Char :=
  '#' :: (List.replicate count 'a' ++ text)

section
variable (count : Nat) (text : List Char)

theorem with_returns_commented :
    Text.withReturns (commented count text) = commented count (Text.withReturns text) := by
  have letters : Text.withReturns (List.replicate count 'a' ++ text) =
      List.replicate count 'a' ++ Text.withReturns text := by
    induction count with
    | zero => rfl
    | succ count induction => exact congrArg ('a' :: ·) induction
  exact congrArg ('#' :: ·) letters

theorem normalise_commented :
    normalise (commented count text) = commented count (normalise text) := by
  have letters : normalise (List.replicate count 'a' ++ text) =
      List.replicate count 'a' ++ normalise text := by
    induction count with
    | zero => rfl
    | succ count induction => exact congrArg ('a' :: ·) induction
  exact congrArg ('#' :: ·) letters

theorem checked_length_commented {count room : Nat} (fits : count < room) :
    checkedLength room 0 (commented count text) =
      checkedLength (room - (count + 1)) (count + 1) text := by
  have letters (held : Nat) (few : count ≤ room - 1) :
      checkedLength (room - 1) held (List.replicate count 'a' ++ text) =
        checkedLength (room - 1 - count) (held + count) text := by
    generalize room - 1 = left at few
    clear fits
    induction count generalizing left held with
    | zero => rfl
    | succ count induction =>
        have inside : ('a').utf8Size ≤ left := Nat.le_trans (Nat.succ_pos count) few
        have one : ('a').utf8Size = 1 := rfl
        rw [List.replicate_succ, List.cons_append, checkedLength, if_pos inside,
          if_pos (by decide), one, induction (held + 1) (left - 1) (by omega), Nat.sub_sub,
          Nat.add_comm 1 count, Nat.add_assoc, Nat.add_comm 1 count]
  have first : ('#').utf8Size ≤ room := Nat.lt_of_le_of_lt (Nat.zero_le count) fits
  have one : ('#').utf8Size = 1 := rfl
  rw [commented, checkedLength, if_pos first, if_pos (by decide), one, letters _ (by omega),
    Nat.sub_sub, Nat.zero_add, Nat.add_comm 1 count]

theorem widths_commented :
    widths (commented count text) = List.replicate (count + 1) 1 ++ widths text := by
  have letters :
      widths (List.replicate count 'a' ++ text) = List.replicate count 1 ++ widths text := by
    induction count with
    | zero => rfl
    | succ count induction => exact congrArg (1 :: ·) induction
  exact congrArg (1 :: ·) letters

theorem skip_filler_commented (allowed : Bool) :
    skipFiller false false allowed (commented count text) = skipFiller false true allowed text := by
  have letters : skipFiller false true allowed (List.replicate count 'a' ++ text) =
      skipFiller false true allowed text := by
    induction count with
    | zero => rfl
    | succ count induction => exact induction
  exact letters

theorem byte_count_commented :
    Text.byteCount (commented count text) = count + 1 + Text.byteCount text := by
  have letters :
      Text.byteCount (List.replicate count 'a' ++ text) = count + Text.byteCount text := by
    induction count with
    | zero => exact (Nat.zero_add _).symm
    | succ count induction =>
        have one : ('a').utf8Size = 1 := rfl
        rw [List.replicate_succ, List.cons_append, Text.byte_count_cons, induction, one]
        omega
  have one : ('#').utf8Size = 1 := rfl
  rw [commented, Text.byte_count_cons, letters, one]
  omega

theorem after_commented :
    Position.start.after (commented count []) = ⟨count + 1, 0, count + 1⟩ := by
  have printable : ∀ char ∈ commented count [], Printable char := by
    intro char member
    rw [commented, List.append_nil, List.mem_cons] at member
    rcases member with rfl | letter
    · decide
    · rw [List.eq_of_mem_replicate letter]
      decide
  rw [after_printable printable, commented, List.append_nil, List.length_cons,
    List.length_replicate]
  simp [Position.start]

end

/-- An empty item of a list, and a comment that ends in a character that is not permitted. -/
def faultyItem : List Char := '-' :: '\n' :: '#' :: (List.replicate 30 'b' ++ ['\x01', '\n'])

def faultySettings (count : Nat) : List Char :=
  commented count (List.replicate 20 '\n' ++ faultyItem)

def faultyDocument (count : Nat) : List Char :=
  Frontmatter.fence ++ '\n' :: (faultySettings count ++ Frontmatter.fence)

section
variable (count : Nat)

theorem faulty_parts : faultySettings count =
    (commented count [] ++ List.replicate 20 '\n') ++ faultyItem := by
  rw [faultySettings, commented, commented, List.append_nil, List.cons_append, List.cons_append,
    List.append_assoc]

theorem faulty_document_split :
    Frontmatter.split (faultyDocument count) = some (faultySettings count) := by
  have opened : Frontmatter.afterFence ((faultyDocument count).dropWhile Text.isBlank) =
      some (faultySettings count ++ Frontmatter.fence) := rfl
  have unbroken : '\n' ∉ commented count [] := by
    rw [commented, List.append_nil, List.mem_cons, List.mem_replicate]
    exact fun feed => feed.elim (by decide) fun letter => absurd letter.2 (by decide)
  have parts : faultySettings count ++ Frontmatter.fence =
      commented count [] ++ '\n' ::
      (List.replicate 19 '\n' ++ (faultyItem ++ Frontmatter.fence)) := by
    rw [faulty_parts, List.append_assoc, List.append_assoc]
    rfl
  have noFence : Frontmatter.trimEnd (commented count [] ++ ['\n']) ≠ Frontmatter.fence := by
    intro fenced
    obtain ⟨blanks, same, _⟩ := (Frontmatter.trim_end_eq_fence_iff _).1 fenced
    cases same
  have rest : Frontmatter.untilFence (List.replicate 19 '\n' ++ (faultyItem ++ Frontmatter.fence)) =
      some (List.replicate 19 '\n' ++ faultyItem) := by decide +kernel
  rw [Frontmatter.split, opened, Option.bind_some, parts, Frontmatter.until_fence_eq,
    if_neg (List.append_ne_nil_of_right_ne_nil _ (List.cons_ne_nil _ _)),
    Frontmatter.split_line_of_line unbroken]
  dsimp only
  rw [if_neg noFence, rest, Option.map_some, faulty_parts, List.append_assoc, List.append_assoc]
  rfl

theorem faulty_settings_shown : ¬ Text.Blank (String.ofList (faultySettings count)) := by
  rw [Text.Blank, String.toList_ofList]
  exact Bool.false_ne_true

theorem faulty_settings_normalised :
    normalise (Text.withReturns (faultySettings count)) = faultySettings count := by
  rw [faultySettings, with_returns_commented, normalise_commented]
  exact congrArg (commented count) (by decide +kernel)

theorem advance_to_item :
    Layout.start.advance (faultySettings count) =
      (some { Layout.start with position := ⟨count + 21, 20, 0⟩ }, faultyItem) := by
  have skipped : skipFiller false false true (faultySettings count) = (true, faultyItem) := by
    rw [faultySettings, skip_filler_commented]
    decide +kernel
  have there : Position.start.upTo (faultySettings count) faultyItem = ⟨count + 21, 20, 0⟩ := by
    rw [faulty_parts, Position.up_to_append, Position.after_append, after_commented]
    rfl
  have advanced : Layout.start.advance (faultySettings count) = _ := Layout.advance_eq skipped
  rw [advanced]
  change (Option.map _ (Layout.refresh { Layout.start with position := Position.start.upTo _ _ }),
    _) = _
  rw [there]
  rfl

end

/-- So many letters leave the faulty character in the first chunk, and with returns before the line
feeds it gets behind that. -/
def borderCount : Nat := 16319

def atItem : Layout := { Layout.start with position := ⟨borderCount + 21, 20, 0⟩ }

def behindItem : Layout :=
  ⟨⟨borderCount + 22, 20, 1⟩, [.blockEntry, .blockSequenceStart], none, [], [0], true⟩

theorem faulty_settings_forbidden (count : Nat) :
    ¬ (Text.withReturns (faultySettings count)).all isPermitted = true := by
  have last : '\x01' ∈ faultyItem := by decide
  rw [Text.all_with_returns (by decide) (by decide), List.all_eq_true, faulty_parts]
  exact fun permitted => absurd (permitted _ (List.mem_append_right _ last)) (by decide)

theorem border_supply :
    Supply.ofStream (Text.withReturns (faultySettings borderCount)) =
      .without 13 (widths (Text.withReturns (faultySettings borderCount))).reverse := by
  have checked : checkedLength chunkSize 0 (Text.withReturns (faultySettings borderCount)) =
      16384 := by
    rw [faultySettings, with_returns_commented, checked_length_commented _ (by decide)]
    decide +kernel
  have size : (Text.withReturns (faultySettings borderCount)).length = 16397 := by
    rw [faultySettings, with_returns_commented, commented, List.length_cons, List.length_append,
      List.length_replicate]
    decide +kernel
  rw [Supply.ofStream, if_neg (faulty_settings_forbidden _), checked, size]

theorem border_tokens :
    tokens (.ofStream (Text.withReturns (faultySettings borderCount)))
      (faultySettings borderCount) =
      [.blockSequenceStart, .blockEntry] := by
  have read :
      readLexeme atItem.site faultyItem = some (⟨.blockEntry, false⟩, faultyItem.drop 1) := by
    decide +kernel
  have served : (Supply.ofStream (Text.withReturns (faultySettings borderCount))).serves
      (lexemeDemands atItem.site faultyItem (faultyItem.drop 1)) = true := by
    rw [border_supply, faultySettings, with_returns_commented, widths_commented,
      List.reverse_append]
    have asked : lexemeDemands atItem.site faultyItem (faultyItem.drop 1) = [⟨35, 4⟩] := by
      decide +kernel
    rw [asked, Supply.serves, List.all_cons, List.take_append_of_le_length (by decide +kernel)]
    decide +kernel
  have took : atItem.take ⟨.blockEntry, false⟩ faultyItem (faultyItem.drop 1) =
      some behindItem := by
    decide +kernel
  have ended : behindItem.advance (faultyItem.drop 1) =
      (some { behindItem with position := ⟨borderCount + 56, 22, 0⟩ }, []) := by
    decide +kernel
  have first : ¬ '#' = byteOrderMark := by decide
  have settled : behindItem.settled = [.blockSequenceStart, .blockEntry] := by decide +kernel
  rw [faultySettings, commented, tokens, if_neg first, ← commented, ← faultySettings,
    Layout.tokens_from_of_served (advance_to_item borderCount) read served took,
    Layout.tokens_from_at_end ended, border_supply, Supply.without_serves_no_end, settled]
  rfl

theorem border_documents :
    Document.ofText (String.ofList (faultySettings borderCount)) = .ofEvents ⟨[], false⟩ ∧
    Document.ofText (String.ofList (Text.withReturns (faultySettings borderCount))) =
      .ofEvents (.ofTokens [.blockSequenceStart, .blockEntry]) := by
  constructor
  · have clean :
        (List.replicate 20 '\n' ++ '-' :: '\n' :: '#' :: List.replicate 30 'b').all isPermitted =
        true := by
      decide
    have parts : faultySettings borderCount = commented borderCount
        (List.replicate 20 '\n' ++ '-' :: '\n' :: '#' :: List.replicate 30 'b') ++
          '\x01' :: ['\n'] := by
      rw [faultySettings, commented, commented, List.cons_append, List.append_assoc]
      rfl
    rw [parts]
    apply document_of_forbidden
    · rw [commented, List.all_cons, List.all_append, clean, Bool.and_true, List.all_replicate]
      rfl
    · decide
    · rw [byte_count_commented]
      decide +kernel
  · rw [Document.ofText, String.toList_ofList, faulty_settings_normalised, border_tokens]

/-- With line feeds alone the frontmatter is no document, and with carriage returns it is a list. -/
theorem Config.line_endings_change_fault :
    '\r' ∉ (String.ofList (faultyDocument borderCount)).toList ∧
    Config.ofDocument (String.ofList (faultyDocument borderCount)) =
      .error (.document (.unreadable .malformed)) ∧
    Config.ofDocument
      (String.ofList (Text.withReturns (String.ofList (faultyDocument borderCount)).toList)) =
      .error (.document
        (.unreadable (.mistyped .root (.wrongType .sequence "struct PartialConfig")))) := by
  have plain : '\r' ∉ faultyDocument borderCount := by
    have others : '\r' ∉ faultyItem := by decide
    simp only [faultyDocument, faultySettings, commented, List.mem_append, List.mem_cons,
      List.mem_replicate]
    simp [others, Frontmatter.fence]
  have copied : Frontmatter.split (Text.withReturns (faultyDocument borderCount)) =
      some (Text.withReturns (faultySettings borderCount)) := by
    rw [Frontmatter.split_with_returns plain, faulty_document_split]
    rfl
  have shown := faulty_settings_shown borderCount
  have layerFeeds : Layer.ofDocument (String.ofList (faultyDocument borderCount)) =
      .error (.unreadable .malformed) := by
    rw [layer_of_split (faulty_document_split _), if_neg shown, readDocumentAs, border_documents.1]
    decide +kernel
  have layerReturns :
      Layer.ofDocument (String.ofList (Text.withReturns (faultyDocument borderCount))) =
      .error (.unreadable (.mistyped .root (.wrongType .sequence "struct PartialConfig"))) := by
    rw [layer_of_split copied, blank_with_returns, if_neg shown, readDocumentAs, border_documents.2]
    decide +kernel
  rw [String.toList_ofList, Config.ofDocument, Config.ofDocument, layerFeeds, layerReturns]
  exact ⟨plain, rfl, rfl⟩

end

end ManifestLint
