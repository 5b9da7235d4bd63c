import Mathlib.Data.Nat.Digits.Lemmas
import Mathlib.Order.Bounds.Basic
import ManifestLint.Listing
import ManifestLint.Proofs.Engine.Construction
import ManifestLint.Proofs.Manifest.Decoding

/-!
The columns of a listing of rules. Names start behind the number of the entry, and messages two
characters behind the room for the largest name. That room is counted in bytes and filled up in
characters, of which a name has at most as many. Each entry ends in the origin of its rule, and an
engine that is built from settings has its built-in rules listed first.
-/

namespace ManifestLint

namespace Text

/-- The part stands in the text, whole and with so many characters before it. -/
def StandsAt (offset : Nat) (part text : String) : Prop :=
  ∃ before after, text = before ++ part ++ after ∧ before.length = offset

theorem stands_last {offset : Nat} {before : String} (column : before.length = offset)
    (part : String) :
    StandsAt offset part (before ++ part) :=
  ⟨before, "", by rw [String.append_empty], column⟩

/-- What comes behind a text moves none of its parts. -/
theorem StandsAt.before {offset : Nat} {part text : String} (stands : StandsAt offset part text)
    (rest : String) :
    StandsAt offset part (text ++ rest) := by
  obtain ⟨before, after, rfl, column⟩ := stands
  exact ⟨before, after ++ rest, String.append_assoc, column⟩

def EndsIn (ending text : String) : Prop := ending.toList <:+ text.toList

theorem EndsIn.behind {ending text : String} (ends : EndsIn ending text) (before : String) :
    EndsIn ending (before ++ text) := by
  rw [EndsIn, String.toList_append]
  exact ends.trans (List.suffix_append _ _)

def spaces (count : Nat) : String := String.ofList (blanks count)

@[simp] theorem length_spaces (count : Nat) : (spaces count).length = count := by
  rw [spaces, String.length_ofList, blanks, List.length_replicate]

@[simp] theorem spaces_append (first second : Nat) :
    spaces first ++ spaces second = spaces (first + second) := by
  rw [spaces, spaces, ← String.ofList_append, blanks, blanks, List.replicate_append_replicate]
  rfl

theorem length_le_byte_count (text : List Char) : text.length ≤ byteCount text := by
  induction text with
  | nil => exact Nat.zero_le _
  | cons char text induction =>
      have positive := char.utf8Size_pos
      rw [List.length_cons, byte_count_cons]
      omega

theorem length_le_size (text : String) : text.length ≤ text.utf8ByteSize := by
  rw [size_eq_length_encode, ← String.length_toList]
  exact length_le_byte_count text.toList

theorem length_decimal {number : Nat} (positive : 0 < number) :
    (decimal number).length = (Nat.digits 10 number).length := by
  rw [decimal, String.length_ofList]
  fun_induction digits number with
  | case1 number small =>
      rw [Nat.digits_of_lt 10 number (Nat.ne_of_gt positive) small]
      rfl
  | case2 number large induction =>
      rw [List.length_append, induction (by omega), Nat.digits_def' (by decide) positive]
      rfl

end Text

@[simp] theorem Hue.column_without_colour (hue : Hue) (width : Nat) (text : String) :
    hue.paintColumn false width text = text ++ Text.spaces (width - text.length) := by
  rw [paintColumn, if_neg Bool.false_ne_true, Text.padRight, String.ofList_append,
    String.ofList_toList, String.length_toList, Text.spaces]

/-- The rules that a section leaves in place keep their order. -/
theorem LintSection.active_rules_parts (lint : LintSection) :
    ∃ builtins customs, lint.activeRules = builtins ++ customs ∧ builtins.Sublist Rule.builtin ∧
      customs.Sublist lint.rules :=
  ⟨_, _, List.filter_append _ _, List.filter_sublist, List.filter_sublist⟩

namespace Listing

open Text (StandsAt EndsIn spaces)

/-- The room for a name is the greatest number of bytes that a name takes. -/
theorem column_width_greatest {rules : List Rule} (nonempty : rules ≠ []) :
    IsGreatest {size | ∃ rule ∈ rules, rule.name.utf8ByteSize = size} (columnWidth rules) := by
  obtain ⟨first, others, rfl⟩ := List.exists_cons_of_ne_nil nonempty
  have largest : ((first :: others).map (·.name.utf8ByteSize)).max? =
      some (columnWidth (first :: others)) := by
    rw [columnWidth, List.map_cons, List.max?_cons', List.foldl_cons, Nat.zero_max]
  obtain ⟨taken, above⟩ := List.max?_eq_some_iff.1 largest
  constructor
  · exact List.mem_map.1 taken
  · rintro size ⟨rule, member, rfl⟩
    exact above _ (List.mem_map_of_mem member)

/-- The numbers go up from the first one and the room for a name stays. -/
theorem entries_eq_map (colour : Bool) (width number : Nat) (rules : List Rule) :
    entries colour width number rules =
      (rules.zipIdx number).map fun numbered => entry colour width numbered.2 numbered.1 := by
  induction rules generalizing number with
  | nil => rfl
  | cons rule rules induction => rw [entries, induction, List.zipIdx_cons, List.map_cons]

theorem entries_append (colour : Bool) (width number : Nat) (first second : List Rule) :
    entries colour width number (first ++ second) =
      entries colour width number first ++ entries colour width (number + first.length) second := by
  rw [entries_eq_map, entries_eq_map, entries_eq_map, List.zipIdx_append, List.map_append]

/-- The parts of an entry. What stands behind the message ends in the origin of the rule. -/
theorem entry_parts {width : Nat} {rule : Rule} (fits : rule.name.length ≤ width) (number : Nat) :
    ∃ below, entry false width number rule =
      spaces (2 - (Text.decimal number).length) ++ (Text.decimal number ++ ". ") ++ rule.name ++
        spaces (width + 2 - rule.name.length) ++ rule.message ++ below ∧
          EndsIn ("(" ++ origin rule ++ ")") below := by
  have start : String.ofList (Text.padLeft 2 (Text.digits number)) =
      spaces (2 - (Text.decimal number).length) ++ Text.decimal number := by
    rw [Text.padLeft, String.ofList_append, spaces, Text.decimal, String.length_ofList]
  have gap : spaces (width + 2 - rule.name.length) = spaces (width - rule.name.length) ++ "  " := by
    rw [show "  " = spaces 2 by decide, Text.spaces_append]
    congr 1
    omega
  have mark : EndsIn ("(" ++ origin rule ++ ")") ("(" ++ origin rule ++ ")") := List.suffix_rfl
  refine ⟨"\n    " ++ Hue.cyan.paint false "→" ++ " when " ++ rule.condition.describe ++ " " ++
    ("(" ++ origin rule ++ ")"), ?_, mark.behind _⟩
  rw [entry, Hue.column_without_colour, start, gap, show " (" = " " ++ "(" by decide]
  simp only [String.append_assoc]

def nameColumn (number : Nat) : Nat := max 2 (Nat.digits 10 number).length + 2

/-- Numbers of one digit are padded to two. -/
theorem name_column_of_two_digits {number : Nat} (small : number ≤ 99) : nameColumn number = 4 := by
  have digits : (Nat.digits 10 number).length ≤ 2 := by
    rw [Nat.digits_length_le_iff (by decide)]
    omega
  rw [nameColumn, Nat.max_eq_left digits]

theorem length_number {number : Nat} (positive : 0 < number) :
    (spaces (2 - (Text.decimal number).length) ++ (Text.decimal number ++ ". ")).length =
      nameColumn number := by
  have mark : ". ".length = 2 := by decide
  rw [String.length_append, String.length_append, Text.length_spaces, Text.length_decimal positive,
    nameColumn, mark]
  omega

theorem origin_of_builtin {rule : Rule} (builtin : rule.name ∈ Rule.builtinNames) :
    origin rule = "built-in" :=
  if_pos ((is_builtin_iff rule.name).2 builtin)

theorem origin_of_custom {rule : Rule} (custom : rule.name ∉ Rule.builtinNames) :
    origin rule = "custom" :=
  if_neg fun builtin => custom ((is_builtin_iff rule.name).1 builtin)

theorem not_ends_in_both {text : String} (builtin : EndsIn "(built-in)" text) :
    ¬ EndsIn "(custom)" text := by
  intro custom
  have inside := List.suffix_of_suffix_length_le custom builtin (by decide)
  exact absurd inside (by decide)

theorem ends_by_origin {rule : Rule} {text : String}
    (ends : EndsIn ("(" ++ origin rule ++ ")") text) :
    (EndsIn "(built-in)" text ↔ rule.name ∈ Rule.builtinNames) ∧
      (EndsIn "(custom)" text ↔ rule.name ∉ Rule.builtinNames) := by
  by_cases builtin : rule.name ∈ Rule.builtinNames
  · rw [origin_of_builtin builtin] at ends
    exact ⟨iff_of_true ends builtin, iff_of_false (not_ends_in_both ends) (not_not_intro builtin)⟩
  · rw [origin_of_custom builtin] at ends
    exact ⟨iff_of_false (fun other => not_ends_in_both other ends) builtin,
      iff_of_true ends builtin⟩

/-- Where the parts of an entry stand, and how it ends. -/
structure InColumns (width number : Nat) (rule : Rule) (entry : String) : Prop where
  numeral : StandsAt (2 - (Text.decimal number).length) (Text.decimal number ++ ". ") entry
  name : StandsAt (nameColumn number) rule.name entry
  fits : rule.name.length ≤ width
  gap : StandsAt (nameColumn number + rule.name.length)
    (spaces (width + 2 - rule.name.length)) entry
  message : StandsAt (nameColumn number + width + 2) rule.message entry
  builtin : EndsIn "(built-in)" entry ↔ rule.name ∈ Rule.builtinNames
  custom : EndsIn "(custom)" entry ↔ rule.name ∉ Rule.builtinNames

theorem entry_in_columns {width number : Nat} {rule : Rule} (fits : rule.name.length ≤ width)
    (positive : 0 < number) :
    InColumns width number rule (entry false width number rule) := by
  obtain ⟨below, parts, last⟩ := entry_parts fits number
  rw [parts]
  have start := length_number positive
  have behind :
      (spaces (2 - (Text.decimal number).length) ++ (Text.decimal number ++ ". ") ++
      rule.name).length =
      nameColumn number + rule.name.length := by
    rw [String.length_append, start]
  constructor
  case numeral =>
    exact ((((Text.stands_last (Text.length_spaces _) _).before _).before _).before _).before _
  case name => exact (((Text.stands_last start _).before _).before _).before _
  case fits => exact fits
  case gap => exact ((Text.stands_last behind _).before _).before _
  case message =>
    refine (Text.stands_last ?_ _).before _
    rw [String.length_append, behind, Text.length_spaces]
    omega
  case builtin => exact (ends_by_origin (last.behind _)).1
  case custom => exact (ends_by_origin (last.behind _)).2

def plainEntries (rules : List Rule) : List String := entries false (columnWidth rules) 1 rules

section
variable {rules : List Rule}

theorem name_fits {rule : Rule} (member : rule ∈ rules) : rule.name.length ≤ columnWidth rules := by
  have widest := column_width_greatest (List.ne_nil_of_mem member)
  exact (Text.length_le_size rule.name).trans (widest.2 ⟨rule, member, rfl⟩)

theorem text_eq_entries (nonempty : rules ≠ []) :
    text false rules = Text.joinLines (plainEntries rules) := by
  rw [text, if_neg, plainEntries]
  rw [List.isEmpty_iff]
  exact nonempty

theorem length_plain_entries (rules : List Rule) : (plainEntries rules).length = rules.length := by
  rw [plainEntries, entries_eq_map, List.length_map, List.length_zipIdx]

theorem in_columns_of_index {index : Nat} {rule : Rule} {shown : String}
    (listed : rules[index]? = some rule) (placed : (plainEntries rules)[index]? = some shown) :
    InColumns (columnWidth rules) (index + 1) rule shown := by
  rw [plainEntries, entries_eq_map, List.getElem?_map, List.getElem?_zipIdx, listed,
    Nat.add_comm 1 index] at placed
  rw [← Option.some.inj placed]
  exact entry_in_columns (name_fits (List.mem_of_getElem? listed)) (Nat.succ_pos index)

/-- The rules may be a part of those that are listed, with the numbers that they have there. -/
theorem rule_of_entry {width number : Nat} (positive : 0 < number)
    (fit : ∀ rule ∈ rules, rule.name.length ≤ width) {shown : String}
    (member : shown ∈ entries false width number rules) :
    ∃ rule ∈ rules, ∃ place, InColumns width place rule shown := by
  rw [entries_eq_map] at member
  obtain ⟨⟨rule, place⟩, numbered, rfl⟩ := List.mem_map.1 member
  have present := List.fst_mem_of_mem_zipIdx numbered
  have later : number ≤ place := List.le_snd_of_mem_zipIdx numbered
  exact ⟨rule, present, place, entry_in_columns (fit rule present)
    (Nat.lt_of_lt_of_le positive later)⟩

end

theorem entries_by_origin {lint : LintSection} {engine : Engine}
    (built : Engine.ofSection lint = .ok engine) :
    ∃ builtins customs, plainEntries engine.rules = builtins ++ customs ∧
      (∀ shown ∈ builtins, EndsIn "(built-in)" shown) ∧ ∀ shown ∈ customs,
        EndsIn "(custom)" shown := by
  obtain ⟨acceptable, rfl⟩ := (lint.of_section_eq_ok_iff engine).1 built
  obtain ⟨builtins, customs, parts, kept, left⟩ := lint.active_rules_parts
  have fit : ∀ rule ∈ builtins ++ customs, rule.name.length ≤ columnWidth lint.activeRules := by
    rw [← parts]
    intro rule member
    exact name_fits member
  rw [List.forall_mem_append] at fit
  refine ⟨entries false (columnWidth lint.activeRules) 1 builtins,
    entries false (columnWidth lint.activeRules) (1 + builtins.length) customs, ?_, ?_, ?_⟩
  · rw [← entries_append, ← parts]
    rfl
  · intro shown member
    obtain ⟨rule, present, _, columns⟩ := rule_of_entry Nat.one_pos fit.1 member
    exact columns.builtin.2 (List.mem_map_of_mem (kept.subset present))
  · intro shown member
    obtain ⟨rule, present, _, columns⟩ :=
      rule_of_entry (Nat.add_pos_left Nat.one_pos _) fit.2 member
    exact columns.custom.2 (acceptable.unshadowed rule (left.subset present))

/-- A listing is a table. Each rule has one entry, in which its name and its message stand whole in
columns of their own with blanks between them, and which says at its end where the rule comes from.
The first 99 entries have the same columns. What comes from settings is listed behind what is built
in. -/
theorem entries_stand_in_columns :
    (∀ rules : List Rule, rules ≠ [] →
      IsGreatest {size | ∃ rule ∈ rules, rule.name.utf8ByteSize = size} (columnWidth rules) ∧
      text false rules = Text.joinLines (plainEntries rules) ∧
        (plainEntries rules).length = rules.length ∧
      ∀ (index : Nat) (rule : Rule) (shown : String),
        rules[index]? = some rule → (plainEntries rules)[index]? = some shown →
          InColumns (columnWidth rules) (index + 1) rule shown ∧
            (index + 1 ≤ 99 → StandsAt (columnWidth rules + 6) rule.message shown)) ∧
    ∀ (lint : LintSection) (engine : Engine), Engine.ofSection lint = .ok engine →
      ∃ builtins customs, plainEntries engine.rules = builtins ++ customs ∧
        (∀ shown ∈ builtins, EndsIn "(built-in)" shown) ∧ ∀ shown ∈ customs,
          EndsIn "(custom)" shown := by
  refine ⟨?_, fun lint engine built => entries_by_origin built⟩
  intro rules nonempty
  refine ⟨column_width_greatest nonempty, text_eq_entries nonempty, length_plain_entries rules, ?_⟩
  intro index rule shown listed placed
  have columns := in_columns_of_index listed placed
  refine ⟨columns, ?_⟩
  intro small
  have message := columns.message
  rw [name_column_of_two_digits small, Nat.add_right_comm, Nat.add_comm] at message
  exact message

def accentedRule : Rule := ⟨"größe-für-alle-prüfen", "Größe fehlt", .missing "SIZE"⟩

def accentedSection : LintSection := ⟨["multi-stage-build"], [accentedRule]⟩

def accentedEntry : String :=
  " 2. größe-für-alle-prüfen      Größe fehlt\n    → when text lacks 'SIZE' (custom)"

/-- The name is followed by two blanks, and by one more for each byte that it has beyond its
characters. -/
theorem columns_of_accented_name :
    Engine.ofSection accentedSection = .ok ⟨accentedSection.activeRules⟩ ∧
      accentedSection.activeRules ≠ [] ∧
      columnWidth accentedSection.activeRules = 25 ∧
      accentedSection.activeRules[1]? = some accentedRule ∧
      (plainEntries accentedSection.activeRules)[1]? = some accentedEntry ∧
      InColumns 25 2 accentedRule accentedEntry ∧ StandsAt 31 "Größe fehlt" accentedEntry ∧
      ∃ builtins customs, plainEntries accentedSection.activeRules = builtins ++ customs ∧
        (∀ shown ∈ builtins, EndsIn "(built-in)" shown) ∧ ∀ shown ∈ customs,
          EndsIn "(custom)" shown := by
  have built : Engine.ofSection accentedSection = .ok ⟨accentedSection.activeRules⟩ := by
    decide +kernel
  have nonempty : accentedSection.activeRules ≠ [] := by decide
  have width : columnWidth accentedSection.activeRules = 25 := by decide +kernel
  have listed : accentedSection.activeRules[1]? = some accentedRule := by decide +kernel
  have placed : (plainEntries accentedSection.activeRules)[1]? = some accentedEntry := by
    decide +kernel
  obtain ⟨_, _, _, each⟩ := entries_stand_in_columns.1 accentedSection.activeRules nonempty
  obtain ⟨columns, message⟩ := each 1 accentedRule accentedEntry listed placed
  rw [width] at columns message
  exact ⟨built, nonempty, width, listed, placed, columns, message (by decide),
    entries_stand_in_columns.2 _ _ built⟩

end Listing

end ManifestLint
