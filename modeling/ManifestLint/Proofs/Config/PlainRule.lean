import ManifestLint.Proofs.Config.Conditions
import ManifestLint.Proofs.Config.Fences
import ManifestLint.Proofs.Yaml.BlockBuilding
import ManifestLint.Proofs.Yaml.Resolution

/-!
A rule that is written without quotes, in block style. Its name and its message are texts whatever
they look like. Its needle is taken for what its form says, so it is kept as it is written or the
document is refused.
-/

namespace ManifestLint

open Yaml

structure PlainRule where
  name : Bare
  message : Bare
  needle : Bare

namespace PlainRule

def rule (plain : PlainRule) : Rule :=
  ⟨plain.name.text, plain.message.text, .contains plain.needle.text⟩

def pad (column : Nat) : String := String.ofList (List.replicate column ' ')

/-- The lines of settings with one rule, each level so many columns further to the right. -/
def lines (plain : PlainRule) (width : Nat) : List String :=
  ["lint:",
   pad width ++ "rules:",
   pad (2 * width) ++ "- name: " ++ plain.name.text,
   pad (2 * width + 2) ++ "message: " ++ plain.message.text,
   pad (2 * width + 2) ++ "when:",
   pad (3 * width + 2) ++ "type: contains",
   pad (3 * width + 2) ++ "needle: " ++ plain.needle.text]

def settings (plain : PlainRule) (width : Nat) : String :=
  String.join ((plain.lines width).map (· ++ "\n"))

def document (plain : PlainRule) (width : Nat) (body : String) : String :=
  "---\n" ++ plain.settings width ++ "---" ++ body

def condition (plain : PlainRule) : Block :=
  .mapping (.of "type") (.scalar (.of "contains"))
    [(.of "needle", .scalar plain.needle)]

def entry (plain : PlainRule) : Block :=
  .mapping (.of "name") (.scalar plain.name)
    [(.of "message", .scalar plain.message), (.of "when", plain.condition)]

def rules (plain : PlainRule) : Block :=
  .mapping (.of "rules") (.sequence plain.entry []) []

def sections (plain : PlainRule) : Block := .mapping (.of "lint") plain.rules []

theorem settings_eq_write (plain : PlainRule) (step : Nat) :
    (plain.settings (step + 1)).toList = plain.sections.write step 0 ++ ['\n'] := by
  have two : 2 * (step + 1) = 0 + step + 1 + step + 1 := by omega
  have three : 3 * (step + 1) + 2 = 0 + step + 1 + step + 1 + 2 + step + 1 := by omega
  simp only [settings, lines, two, three, pad, String.join, List.map, List.foldl,
    String.toList_append, String.toList_ofList]
  simp only [sections, rules, entry, condition, Block.write, Block.writeItems, Block.writeEntries,
    Block.lead, Block.blanks, WordKey.of, Bare.of, Nat.zero_add, List.append_assoc, List.nil_append,
    List.cons_append, String.reduceToList]

section
variable {plain : PlainRule} {width : Nat}

theorem bare_has_no_break (bare : Bare) : '\n' ∉ bare.text.toList := by
  intro member
  exact absurd (bare.chars '\n' member) (by decide)

theorem pad_has_no_break (column : Nat) : '\n' ∉ (pad column).toList := by
  rw [pad, String.toList_ofList]
  intro member
  exact absurd (List.eq_of_mem_replicate member) (by decide)

theorem lines_are_lines : ∀ line ∈ plain.lines width, '\n' ∉ line.toList ∧ ':' ∈ line.toList := by
  simp [lines, bare_has_no_break, pad_has_no_break]

theorem inside_of_line {line : List Char} (unbroken : '\n' ∉ line) (coloned : ':' ∈ line) :
    Frontmatter.IsInside (line ++ ['\n']) := by
  refine ⟨⟨line, unbroken, rfl⟩, ?_⟩
  rintro ⟨blanks, same, white⟩
  have member : ':' ∈ Frontmatter.fence ++ blanks := by
    rw [← same]
    exact List.mem_append_left _ coloned
  rcases List.mem_append.1 member with dashes | blank
  · exact absurd dashes (by decide)
  · exact absurd (white ':' blank) (by decide)

theorem settings_eq_flatten :
    (plain.settings width).toList =
      ((plain.lines width).map fun line => line.toList ++ ['\n']).flatten := by
  simp [settings, lines, String.join]

theorem of_document {body : String} (ends : body = "" ∨ ∃ rest, body = "\n" ++ rest) :
    Frontmatter.ofDocument (plain.document width body) = some (plain.settings width) := by
  have inside : ∀ line ∈ (plain.lines width).map fun line => line.toList ++ ['\n'],
      Frontmatter.IsInside line := by
    intro line member
    obtain ⟨text, known, rfl⟩ := List.mem_map.1 member
    obtain ⟨unbroken, coloned⟩ := lines_are_lines text known
    exact inside_of_line unbroken coloned
  have start : "---\n".toList = Frontmatter.fence ++ ['\n'] := by decide
  have closing : "---".toList = Frontmatter.fence := by decide
  have white : 45 ∉ Text.whiteSpace := by decide
  have unbroken : '\n' ∉ Frontmatter.fence := by decide
  rw [Frontmatter.of_document_eq_some_iff]
  rcases ends with rfl | ⟨rest, rfl⟩
  · refine ⟨⟨[], ['\n'], _, Frontmatter.fence, []⟩, ?_, ?_, .inl rfl, settings_eq_flatten, inside,
      ⟨[], rfl, nofun⟩, .inr ⟨unbroken, rfl⟩⟩
    · simp [document, start, closing]
    · simp [document, start, Frontmatter.fence, white]
  · refine ⟨⟨[], ['\n'], _, Frontmatter.fence ++ ['\n'], rest.toList⟩, ?_, ?_, .inl rfl,
      settings_eq_flatten, inside, ⟨['\n'], rfl, List.forall_mem_singleton.2 (by decide)⟩,
      .inl ⟨Frontmatter.fence, unbroken, rfl⟩⟩
    · simp [document, start, closing]
    · simp [document, start, Frontmatter.fence, white]

theorem settings_show : ¬ Text.Blank (plain.settings width) = true := by
  have first : Text.isBlank 'l' = false := by decide
  have member : 'l' ∈ (plain.settings width).toList := by
    simp [settings, lines, String.join]
  intro blank
  rw [List.all_eq_true.1 blank 'l' member] at first
  cases first

end

end PlainRule

theorem follow_mapping (label : Label) (entries : List (Node × Node)) (closed : Bool) :
    follow (.mapping label entries closed) = pure (.mapping label entries closed) := rfl

theorem read_entries_of_known {Record : Type} {fields : List (FieldReader Record)}
    {field : FieldReader Record} {text : String}
    (found : fields.find? (·.name == text) = some field) {seen : List String} (fresh : text ∉ seen)
    (path : Path) (record : Record) (value : Node) (entries : List (Node × Node)) :
    readEntries fields path seen record ((.scalar ⟨none, none⟩ .plain text, value) :: entries) =
      field.read (path.key text) value record >>= fun record =>
        readEntries fields path (text :: seen) record entries := by
  have unseen : ¬ seen.contains text = true := fun member => fresh (List.contains_iff_mem.1 member)
  have named : readTextAs "field identifier" path (.scalar ⟨none, none⟩ .plain text) = pure text :=
    rfl
  rw [readEntries, named, pure_bind, found]
  dsimp only
  rw [if_neg unseen]
  rfl

theorem read_record_of_entries {Record : Type} (title : String) (fields : List (FieldReader Record))
    (initial : Record) (path : Path) (label : Label) (entries : List (Node × Node)) :
    readRecord title fields initial path (.mapping label entries true) =
      readEntries fields path [] initial entries := by
  rw [readRecord, follow_mapping, pure_bind]
  exact bind_pure _

theorem read_plain_content (room : Nat) (path : Path) (text : String) :
    readContent room path (.scalar ⟨none, none⟩ .plain text) =
      match Atom.ofPlain text with
      | .wide value => fail path (.wrongType (.wide value) "any value")
      | atom => pure (.atom atom) := by
  have read : readContent room path (.scalar ⟨none, none⟩ .plain text) =
      readAtom "any value" path ⟨none, none⟩ .plain text >>= fun atom =>
      pure (Content.atom atom) := by
    cases room <;> rfl
  have untagged : ¬ (localTag? none).isSome = true := by decide
  have plain : Atom.ofScalar none .plain text = .ok (.ofPlain text) := rfl
  rw [read, readAtom, if_neg untagged, plain]
  cases Atom.ofPlain text <;> rfl

namespace ConditionEntry

theorem read_key_of_name {name : String} (word : IsWord name) (known : name ∈ Condition.names)
    (path : Path) :
    readKey LayerEntry.conditionRoom path (.scalar ⟨none, none⟩ .plain name) =
      pure (if name = "type" then none else some (.atom (.text name))) := by
  have text : (Spelling.plain name word).IsText := is_text_of_name known
  exact read_key_of_text text _ path

theorem read_plain_entries (needle : Node) (path : Path) :
    readEntries LayerEntry.conditionRoom path none
      [(.scalar ⟨none, none⟩ .plain "type", .scalar ⟨none, none⟩ .plain "contains"),
        (.scalar ⟨none, none⟩ .plain "needle", needle)] =
      readContent LayerEntry.conditionRoom (path.key "needle") needle >>= fun content =>
        pure (some .contains, [(.atom (.text "needle"), content)]) := by
  have typed : readKey _ path _ = _ := read_key_of_name (by decide : IsWord "type") (by decide) path
  have named : readKey _ path _ = _ :=
    read_key_of_name (by decide : IsWord "needle") (by decide) path
  have kind (place : Path) :
      readKind place (.scalar ⟨none, none⟩ .plain "contains") = pure .contains := rfl
  rw [readEntries, typed, pure_bind, if_pos rfl]
  dsimp only
  rw [if_neg (by decide), kind, pure_bind, readEntries, named, pure_bind, if_neg (by decide)]
  rfl

theorem of_plain_entries (around : Path) (content : Content) :
    ofEntries around .contains [(.atom (.text "needle"), content)] =
      textOf around content >>= fun needle => pure (.contains needle) := by
  have read : readNeedles around .contains [] [(.atom (.text "needle"), content)] =
      textOf around content >>= fun needle => pure [("needle", needle)] := rfl
  rw [ofEntries, read, bind_assoc]
  rfl

end ConditionEntry

namespace PlainRule

/-- What is read behind the needle's key is the needle if it is a text. -/
theorem read_condition (plain : PlainRule) (around path : Path) :
    ConditionEntry.read LayerEntry.conditionRoom around path plain.condition.node =
      (readContent LayerEntry.conditionRoom (path.key "needle")
        (.scalar ⟨none, none⟩ .plain plain.needle.text) >>=
        fun content => ConditionEntry.textOf around content >>= fun needle =>
          pure (.contains needle)) := by
  have untagged : ¬ (localTag? none).isSome = true := by decide
  have node : plain.condition.node = .mapping ⟨none, none⟩
      [(.scalar ⟨none, none⟩ .plain "type", .scalar ⟨none, none⟩ .plain "contains"),
        (.scalar ⟨none, none⟩ .plain "needle", .scalar ⟨none, none⟩ .plain plain.needle.text)]
        true := rfl
  have entries := ConditionEntry.read_plain_entries
      (.scalar ⟨none, none⟩ .plain plain.needle.text) path
  rw [node, ConditionEntry.read, follow_mapping, pure_bind]
  dsimp only
  rw [if_neg untagged, entries, bind_assoc]
  refine bind_congr fun content => ?_
  rw [pure_bind]
  exact ConditionEntry.of_plain_entries around content

/-- A plain needle is read as itself, or the fault says what it is instead. -/
theorem read_condition_of_untyped {plain : PlainRule} (untyped : ¬ TypedForm plain.needle.text)
    (around path : Path) :
    ConditionEntry.read LayerEntry.conditionRoom around path plain.condition.node =
      pure (.contains plain.needle.text) := by
  rw [read_condition, read_plain_content, of_plain_of_untyped untyped]
  rfl

theorem read_condition_of_typed {plain : PlainRule} (typed : TypedForm plain.needle.text)
    (around path : Path) :
    ∃ place expected, ConditionEntry.read LayerEntry.conditionRoom around path
      plain.condition.node =
      fail place (.wrongType (Atom.ofPlain plain.needle.text).shape expected) := by
  have other := of_plain_of_typed typed
  rw [read_condition, read_plain_content]
  cases atom : Atom.ofPlain plain.needle.text with
  | wide value => exact ⟨_, _, rfl⟩
  | text value => exact absurd atom (other value)
  | unit => exact ⟨around, "a string", rfl⟩
  | boolean value => exact ⟨around, "a string", rfl⟩
  | integer negative value => exact ⟨around, "a string", rfl⟩
  | float value => exact ⟨around, "a string", rfl⟩

theorem read_entry (plain : PlainRule) (path : Path) :
    RuleEntry.read LayerEntry.conditionRoom path plain.entry.node =
      ConditionEntry.read LayerEntry.conditionRoom path (path.key "when") plain.condition.node >>=
        fun condition =>
        pure ⟨plain.name.text, plain.message.text, condition⟩ := by
  have node : plain.entry.node = .mapping ⟨none, none⟩
      [(.scalar ⟨none, none⟩ .plain "name", .scalar ⟨none, none⟩ .plain plain.name.text),
        (.scalar ⟨none, none⟩ .plain "message", .scalar ⟨none, none⟩ .plain plain.message.text),
        (.scalar ⟨none, none⟩ .plain "when", plain.condition.node)] true := rfl
  have text (place : Path) (text : String) :
      readText place (.scalar ⟨none, none⟩ .plain text) = pure text := rfl
  rw [RuleEntry.read, node, read_record_of_entries, read_entries_of_known rfl (by decide)]
  dsimp only
  rw [text, pure_bind, pure_bind, read_entries_of_known rfl (by decide)]
  dsimp only
  rw [text, pure_bind, pure_bind, read_entries_of_known rfl (by decide)]
  simp only [readEntries, bind_assoc, pure_bind]
  rfl

theorem read_rules (plain : PlainRule) (path : Path) :
    LayerEntry.readLint path plain.rules.node =
      RuleEntry.read LayerEntry.conditionRoom ((path.key "rules").item 0) plain.entry.node >>=
        fun rule =>
        pure ⟨[], [rule]⟩ := by
  have node : plain.rules.node = .mapping ⟨none, none⟩
      [(.scalar ⟨none, none⟩ .plain "rules", .sequence ⟨none, none⟩ [plain.entry.node] true)]
        true := rfl
  rw [LayerEntry.readLint, node, read_record_of_entries, read_entries_of_known rfl (by decide)]
  dsimp only
  rw [readSequence]
  simp only [follow, readItems, readEntries, bind_assoc, pure_bind]
  rfl

theorem read_sections (plain : PlainRule) (path : Path) :
    LayerEntry.read path plain.sections.node =
      LayerEntry.readLint (path.key "lint") plain.rules.node >>= fun lint =>
        pure ⟨some lint, none, none⟩ := by
  have node : plain.sections.node = .mapping ⟨none, none⟩
      [(.scalar ⟨none, none⟩ .plain "lint", plain.rules.node)] true := rfl
  have present (place : Path) : readOptional .root LayerEntry.readLint place plain.rules.node =
      LayerEntry.readLint place plain.rules.node >>= fun lint => pure (some lint) := rfl
  rw [LayerEntry.read, node, read_record_of_entries, read_entries_of_known rfl (by decide)]
  dsimp only
  rw [present]
  simp only [readEntries, bind_assoc, pure_bind]
  rfl

/-- All that is read before and after the condition is always there. -/
theorem read_sections_eq (plain : PlainRule) :
    LayerEntry.read .root plain.sections.node =
      ConditionEntry.read LayerEntry.conditionRoom (((Path.root.key "lint").key "rules").item 0)
        ((((Path.root.key "lint").key "rules").item 0).key "when") plain.condition.node >>=
          fun condition =>
          pure ⟨some ⟨[], [⟨plain.name.text, plain.message.text, condition⟩]⟩, none, none⟩ := by
  rw [read_sections, read_rules, read_entry]
  simp only [bind_assoc, pure_bind]

theorem document_of_settings (plain : PlainRule) {width : Nat} (wide : 0 < width) :
    ∃ count, Document.ofText (plain.settings width) = ⟨plain.sections.node, count, true⟩ := by
  obtain ⟨step, rfl⟩ := Nat.exists_eq_succ_of_ne_zero wide.ne'
  obtain ⟨count, same⟩ := Block.document_of_mapping step (.of "lint") plain.rules []
  rw [← sections, ← settings_eq_write, String.ofList_toList] at same
  exact ⟨count, same⟩

theorem layer_of_document (plain : PlainRule) {width : Nat} (wide : 0 < width) {body : String}
    (ends : body = "" ∨ ∃ rest, body = "\n" ++ rest) :
    ∃ count, Layer.ofDocument (plain.document width body) =
      (do
        let (layer, _) ← (LayerEntry.read .root plain.sections.node).run plain.sections.node count
        return layer : Except ReadFault Layer).mapError .unreadable := by
  obtain ⟨count, same⟩ := plain.document_of_settings wide
  refine ⟨aliasesPerEvent * count, ?_⟩
  rw [Layer.ofDocument, of_document ends]
  dsimp only
  rw [if_neg settings_show, readDocumentAs, same]
  rfl

theorem bare_shows (bare : Bare) : Text.Shows bare.text := by
  obtain ⟨char, others, spelled⟩ := bare.eq_cons
  have member : char ∈ bare.text.toList := by
    rw [spelled]
    exact List.mem_cons_self
  have visible : ∀ char ∈ bareChars, char.toNat ∉ Text.whiteSpace := by
    apply of_all_bare_chars
    decide
  exact ⟨char, member, visible char (bare.chars char member)⟩

theorem acceptable {plain : PlainRule} (own : plain.name.text ∉ Rule.builtinNames) :
    LintSection.Acceptable ⟨[], [plain.rule]⟩ where
  wellFormed := by
    rw [List.forall_mem_singleton]
    refine ⟨bare_shows plain.name, bare_shows plain.message, ?_⟩
    rw [rule, Condition.needles, List.forall_mem_singleton]
    intro empty
    have nonempty := plain.needle.nonempty
    rw [empty] at nonempty
    exact nonempty rfl
  distinct := List.nodup_singleton _
  unshadowed := by
    rw [List.forall_mem_singleton]
    exact own
  known := nofun

theorem checked {plain : PlainRule} (own : plain.name.text ∉ Rule.builtinNames) :
    (⟨⟨[], [plain.rule]⟩, .text, true⟩ : Config).checked =
      .ok ⟨⟨[], [plain.rule]⟩, .text, true⟩ := by
  rw [Config.checked, Config.engine, LintSection.of_section_accepted _ (acceptable own)]
  rfl

section
variable {plain : PlainRule} {width : Nat} {body : String}

theorem document_of_untyped (untyped : ¬ TypedForm plain.needle.text)
    (own : plain.name.text ∉ Rule.builtinNames) (wide : 0 < width)
    (ends : body = "" ∨ ∃ rest, body = "\n" ++ rest) :
    Config.ofDocument (plain.document width body) = .ok ⟨⟨[], [plain.rule]⟩, .text, true⟩ := by
  obtain ⟨count, layer⟩ := plain.layer_of_document wide ends
  have read :
      LayerEntry.read .root plain.sections.node = pure ⟨some ⟨[], [plain.rule]⟩, none, none⟩ := by
    rw [read_sections_eq, read_condition_of_untyped untyped, pure_bind]
    rfl
  have found :
      Layer.ofDocument (plain.document width body) = .ok ⟨some ⟨[], [plain.rule]⟩, none, none⟩ := by
    rw [layer, read]
    rfl
  rw [Config.ofDocument, found]
  change (Config.checked ⟨⟨[], [plain.rule]⟩, .text, true⟩).mapError ConfigFault.lint = _
  rw [checked own]
  rfl

theorem document_of_typed (typed : TypedForm plain.needle.text) (wide : 0 < width)
    (ends : body = "" ∨ ∃ rest, body = "\n" ++ rest) : ∃ place expected,
      Config.ofDocument (plain.document width body) = .error (.document (.unreadable
        (.mistyped place (.wrongType (Atom.ofPlain plain.needle.text).shape expected)))) := by
  obtain ⟨count, layer⟩ := plain.layer_of_document wide ends
  obtain ⟨place, expected, condition⟩ :=
    read_condition_of_typed typed (((Path.root.key "lint").key "rules").item 0)
    ((((Path.root.key "lint").key "rules").item 0).key "when")
  have read : LayerEntry.read .root plain.sections.node =
      fail place (.wrongType (Atom.ofPlain plain.needle.text).shape expected) := by
    rw [read_sections_eq, condition]
    rfl
  have refused : Layer.ofDocument (plain.document width body) =
      .error (.unreadable (.mistyped place
        (.wrongType (Atom.ofPlain plain.needle.text).shape expected))) := by
    rw [layer, read]
    rfl
  refine ⟨place, expected, ?_⟩
  rw [Config.ofDocument, refused]
  rfl

end

/-- A document with one rule whose texts are plain scalars is accepted exactly when the form of the
needle is that of a text. Then the name, the message and the needle are those that are written,
whatever the first two look like; otherwise the fault is that the needle is of another type. -/
theorem accepted_iff_needle_untyped (plain : PlainRule) (own : plain.name.text ∉ Rule.builtinNames)
    {width : Nat} (wide : 0 < width) {body : String}
    (ends : body = "" ∨ ∃ rest, body = "\n" ++ rest) :
    ((∃ config, Config.ofDocument (plain.document width body) = .ok config) ↔
      ¬ TypedForm plain.needle.text) ∧
    (∀ config, Config.ofDocument (plain.document width body) = .ok config →
      config = ⟨⟨[], [⟨plain.name.text, plain.message.text, .contains plain.needle.text⟩]⟩, .text,
        true⟩) ∧
    (∀ fault, Config.ofDocument (plain.document width body) = .error fault → ∃ place expected,
      fault = .document (.unreadable (.mistyped place
        (.wrongType (Atom.ofPlain plain.needle.text).shape expected)))) := by
  by_cases typed : TypedForm plain.needle.text
  · obtain ⟨place, expected, refused⟩ := document_of_typed typed wide ends
    rw [refused]
    refine ⟨iff_of_false nofun (not_not.2 typed), nofun, ?_⟩
    intro fault same
    exact ⟨place, expected, (Except.error.inj same).symm⟩
  · rw [document_of_untyped typed own wide ends]
    refine ⟨iff_of_true ⟨_, rfl⟩ typed, ?_, nofun⟩
    intro config same
    exact (Except.ok.inj same).symm

theorem untyped_of_plain {text : String} (plain : Atom.ofPlain text = .text text) :
    ¬ TypedForm text :=
  fun typed => of_plain_of_typed typed text plain

/-- Digits behind a zero are a text, and a name and a message are texts although they look like null
and a number. -/
theorem padded_needle_is_kept :
    "null" ∉ Rule.builtinNames ∧ 0 < 2 ∧
    Config.ofDocument
      ("---\nlint:\n  rules:\n    - name: null\n      message: 1.50\n      when:\n" ++
      "        type: contains\n        needle: 007\n---\nbody") =
        .ok ⟨⟨[], [⟨"null", "1.50", .contains "007"⟩]⟩, .text, true⟩ := by
  let plain : PlainRule := ⟨.of "null", .of "1.50", .of "007"⟩
  have own : plain.name.text ∉ Rule.builtinNames := by decide +kernel
  have ends : "\nbody" = "" ∨ ∃ rest, "\nbody" = "\n" ++ rest := .inr ⟨"body", rfl⟩
  have text : "---\nlint:\n  rules:\n    - name: null\n      message: 1.50\n      when:\n" ++
      "        type: contains\n        needle: 007\n---\nbody" = plain.document 2 "\nbody" := by
        decide +kernel
  have untyped : ¬ TypedForm plain.needle.text := untyped_of_plain (by decide +kernel)
  obtain ⟨accepted, kept, _⟩ := accepted_iff_needle_untyped plain own (by decide : 0 < 2) ends
  obtain ⟨config, found⟩ := accepted.2 untyped
  refine ⟨own, by decide, ?_⟩
  rw [text, found, kept config found]
  rfl

/-- An integer that takes more than 128 bits is not read as a number, so as a needle it is a text.
-/
theorem integer_of_129_bits_is_kept :
    Literal.IsInteger "0x100000000000000000000000000000000".toList (2 ^ 128) ∧
    Config.ofDocument ("---\nlint:\n  rules:\n    - name: n\n      message: m\n      when:\n" ++
      "        type: contains\n        needle: 0x100000000000000000000000000000000\n---\n") =
        .ok ⟨⟨[], [⟨"n", "m", .contains "0x100000000000000000000000000000000"⟩]⟩, .text, true⟩ := by
  let plain : PlainRule := ⟨.of "n", .of "m",
    .of "0x100000000000000000000000000000000"⟩
  have text : "---\nlint:\n  rules:\n    - name: n\n      message: m\n      when:\n" ++
      "        type: contains\n        needle: 0x100000000000000000000000000000000\n---\n" =
        plain.document 2 "\n" := by decide +kernel
  have untyped : ¬ TypedForm plain.needle.text := untyped_of_plain (by decide +kernel)
  have value : (2 : Int) ^ 128 = Literal.Sign.none.apply
      (Literal.numeralValue 16 "100000000000000000000000000000000".toList) := by decide +kernel
  refine ⟨⟨.none, .sixteen, "100000000000000000000000000000000".toList, by decide,
    ⟨by decide, List.all_eq_true.1 (by decide)⟩, nofun, value⟩, ?_⟩
  rw [text]
  exact document_of_untyped untyped (by decide +kernel) (by decide) (.inr ⟨"", rfl⟩)

end PlainRule

end ManifestLint
