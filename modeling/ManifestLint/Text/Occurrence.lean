/-!
Occurrence of one text inside another, case-sensitive and character by character.
Main statement: the search answers yes exactly for contiguous segments.
-/

namespace ManifestLint.Text

def occursIn (needle : List Char) : List Char → Bool
  | [] => needle.isEmpty
  | char :: rest => needle.isPrefixOf (char :: rest) || occursIn needle rest

theorem occurs_in_iff (needle text : List Char) :
    occursIn needle text = true ↔ needle <:+: text := by
  induction text with
  | nil => simp [occursIn]
  | cons char rest induction =>
      simp [occursIn, induction, List.infix_cons_iff]

theorem occurs_in_nil (text : List Char) : occursIn [] text = true :=
  (occurs_in_iff [] text).2 (List.nil_infix)

end ManifestLint.Text
