import ManifestLint.Text.Lines

/-!
The lines of a text, which are what its line feeds separate. Joining and splitting are inverse: the
lines of joined texts are those of each text, one after the other, and a text has one line more than
line feeds.
-/

namespace ManifestLint.Text

def lines (text : String) : List String := (text.toList.splitOn '\n').map String.ofList

/-- The lines that a text is printed on. An empty text is on none. -/
def shownLines (text : String) : List String := if text = "" then [] else lines text

theorem lines_of_line {line : String} (single : '\n' ∉ line.toList) : lines line = [line] := by
  rw [lines, List.splitOn_eq_singleton single, List.map_singleton, String.ofList_toList]

@[simp] theorem lines_of_broken (first second : String) :
    lines (first ++ "\n" ++ second) = lines first ++ lines second := by
  have chars : (first ++ "\n" ++ second).toList = first.toList ++ '\n' :: second.toList := by
    simp [String.toList_append]
  rw [lines, chars, List.splitOn_append_cons_self, List.map_append, lines, lines]

theorem length_lines (text : String) : (lines text).length = text.toList.count '\n' + 1 := by
  rw [lines, List.length_map]
  induction text.toList with
  | nil => rfl
  | cons char chars induction =>
      rw [List.splitOn_cons_eq_if_modifyHead, List.count_cons]
      split
      · rw [List.length_cons, induction]
      · rw [List.length_modifyHead, induction, Nat.add_zero]

@[simp] theorem join_lines_single (line : String) : joinLines [line] = line := by
  rw [joinLines, List.map_singleton, List.intercalate_singleton, String.ofList_toList]

@[simp] theorem join_lines_cons (line next : String) (lines : List String) :
    joinLines (line :: next :: lines) = line ++ "\n" ++ joinLines (next :: lines) := by
  rw [← String.toList_inj, joinLines, List.map_cons, List.map_cons, List.intercalate_cons_cons,
    joinLines, List.map_cons]
  simp [String.toList_append]

theorem join_lines_append {first second : List String} (left : first ≠ []) (right : second ≠ []) :
    joinLines (first ++ second) = joinLines first ++ "\n" ++ joinLines second := by
  obtain ⟨next, others, rfl⟩ := List.exists_cons_of_ne_nil right
  induction first with
  | nil => exact absurd rfl left
  | cons line lines induction =>
      cases lines with
      | nil => simp
      | cons after lines =>
          rw [List.cons_append, List.cons_append, join_lines_cons, ← List.cons_append,
            induction (List.cons_ne_nil _ _), join_lines_cons]
          simp only [String.append_assoc]

/-- The induction is on the texts; each brings its lines, and the line feed behind it ends the last
of them. -/
theorem lines_of_joined {texts : List String} (some : texts ≠ []) :
    lines (joinLines texts) = texts.flatMap lines := by
  induction texts with
  | nil => exact absurd rfl some
  | cons text texts induction =>
      cases texts with
      | nil => simp
      | cons next texts =>
          rw [join_lines_cons, lines_of_broken, induction (List.cons_ne_nil _ _),
            ← List.flatMap_cons]

theorem flat_map_lines {lines : List String} (single : ∀ line ∈ lines, '\n' ∉ line.toList) :
    lines.flatMap Text.lines = lines := by
  induction lines with
  | nil => rfl
  | cons line lines induction =>
      rw [List.forall_mem_cons] at single
      rw [List.flatMap_cons, lines_of_line single.1, induction single.2, List.singleton_append]

end ManifestLint.Text
