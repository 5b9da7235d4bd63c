import ManifestLint.Proofs.Config.Frontmatter
import ManifestLint.Proofs.Config.Written
import Mathlib.Data.List.DropRight

/-!
Lines between two fences are found again, whatever blanks stand before the first fence and whatever
body follows the second one.
-/

namespace ManifestLint

open Yaml

theorem word_char_starts_line : ∀ char ∈ wordChars, char ≠ '-' ∧ Text.isBlank char = false := by
  apply of_all_word_chars
  decide

/-- No line starts like a fence. -/
theorem write_line_starts (entry : Key × Flow) :
    ∃ char rest, Flow.writeLine entry = char :: rest ∧ char ≠ '-' ∧ Text.isBlank char = false := by
  rw [Flow.writeLine]
  cases entry.1.spelling with
  | quoted text => exact ⟨'"', _, rfl, by decide⟩
  | plain text word =>
      rw [Spelling.write]
      cases spelled : text.toList with
      | nil => exact absurd spelled word.1
      | cons char others =>
          have member : char ∈ wordChars := by
            apply word.chars
            rw [spelled]
            exact List.mem_cons_self
          exact ⟨char, _, rfl, word_char_starts_line char member⟩

namespace Frontmatter

theorem trim_end_prefix (line : List Char) : trimEnd line <+: line :=
  List.rdropWhile_prefix Text.isBlank line

theorem split_write_line (entry : Key × Flow) (rest : List Char) :
    splitLine (Flow.writeLine entry ++ rest) = (Flow.writeLine entry, rest) := by
  have printable : ∀ char ∈ entry.1.spelling.write ++ (':' :: ' ' :: entry.2.write),
      Printable char := by
    rw [List.forall_mem_append, List.forall_mem_cons, List.forall_mem_cons]
    exact ⟨entry.1.spelling.printable_write, by decide, by decide, entry.2.printable_write⟩
  have unbroken : '\n' ∉ entry.1.spelling.write ++ (':' :: ' ' :: entry.2.write) := by
    intro member
    have shown := printable '\n' member
    revert shown
    decide
  have line := split_line_of_line unbroken rest
  rw [List.append_assoc] at line
  rw [Flow.writeLine]
  simp only [List.append_assoc, List.cons_append, List.nil_append] at line ⊢
  exact line

theorem trim_end_of_line (entry : Key × Flow) : trimEnd (Flow.writeLine entry) ≠ fence := by
  intro fenced
  have start := trim_end_prefix (Flow.writeLine entry)
  obtain ⟨char, rest, same, other, _⟩ := write_line_starts entry
  rw [fenced, same, fence, List.cons_prefix_cons] at start
  exact other start.1.symm

theorem until_fence_of_body {body : List Char} (ends : body = [] ∨ ∃ text, body = '\n' :: text) :
    untilFence (fence ++ body) = some [] := by
  have nonempty : fence ++ body ≠ [] := by
    intro empty
    cases empty
  have fenced : trimEnd (splitLine (fence ++ body)).1 = fence := by
    rcases ends with rfl | ⟨text, rfl⟩
    · decide
    · rw [split_line_of_line (by decide)]
      have trimmed : trimEnd (fence ++ ['\n']) = fence := by decide
      exact trimmed
  rw [until_fence_eq, if_neg nonempty, if_pos fenced]

theorem until_fence_of_lines (entries : List (Key × Flow)) {body : List Char}
    (ends : body = [] ∨ ∃ text, body = '\n' :: text) :
    untilFence (Flow.writeLines entries ++ (fence ++ body)) = some (Flow.writeLines entries) := by
  induction entries with
  | nil => exact until_fence_of_body ends
  | cons entry entries induction =>
      have split := split_write_line entry (Flow.writeLines entries ++ (fence ++ body))
      have nonempty : Flow.writeLine entry ++ (Flow.writeLines entries ++ (fence ++ body)) ≠
          [] := by
        obtain ⟨char, rest, same, _⟩ := write_line_starts entry
        rw [same]
        exact List.cons_ne_nil _ _
      rw [Flow.writeLines, List.flatMap_cons, List.append_assoc, ← Flow.writeLines, until_fence_eq,
        if_neg nonempty, split, if_neg (trim_end_of_line entry), induction]
      rfl

theorem of_document_of_lines {blanks body : List Char} {document : String}
    (entries : List (Key × Flow)) (blank : ∀ char ∈ blanks, Text.isBlank char = true)
    (ends : body = [] ∨ ∃ text, body = '\n' :: text)
    (same : document.toList = blanks ++
      (fence ++ '\n' :: (Flow.writeLines entries ++ (fence ++ body)))) :
    ofDocument document = some (String.ofList (Flow.writeLines entries)) := by
  have lines := until_fence_of_lines entries ends
  have start (text : List Char) :
      (blanks ++ (fence ++ text)).dropWhile Text.isBlank = fence ++ text := by
    rw [List.dropWhile_append_of_pos blank]
    rfl
  rw [ofDocument, split, same, start]
  change Option.map String.ofList (untilFence _) = _
  rw [lines]
  rfl

end Frontmatter

theorem lines_are_not_blank (entry : Key × Flow) (entries : List (Key × Flow)) :
    ¬ Text.Blank (String.ofList (Flow.writeLines (entry :: entries))) = true := by
  obtain ⟨char, rest, same, _, shown⟩ := write_line_starts entry
  rw [Text.Blank, String.toList_ofList, Flow.writeLines, List.flatMap_cons, same, List.cons_append,
    List.all_cons, shown, Bool.false_and]
  exact Bool.false_ne_true

end ManifestLint
