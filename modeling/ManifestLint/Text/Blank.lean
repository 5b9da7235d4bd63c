/-!
Blank characters and texts. A character is blank when it has the Unicode property White_Space;
zero-width spaces, the byte order mark and the ASCII separators U+001C to U+001F are not blank.
-/

namespace ManifestLint.Text

def isBlank (char : Char) : Bool :=
  (9 ≤ char.val && char.val ≤ 13) || char.val == 0x20 || char.val == 0x85 || char.val == 0xA0
    || char.val == 0x1680 || (0x2000 ≤ char.val && char.val ≤ 0x200A)
    || char.val == 0x2028 || char.val == 0x2029 || char.val == 0x202F || char.val == 0x205F
    || char.val == 0x3000

/-- A text is blank when it holds blank characters only; the empty text is blank. -/
def Blank (text : String) : Bool := text.toList.all isBlank

theorem is_blank_of_is_whitespace (char : Char) (white : char.isWhitespace = true) :
    isBlank char = true := by
  simp only [Char.isWhitespace, Bool.or_eq_true, decide_eq_true_eq] at white
  rcases white with ((rfl | rfl) | rfl) | rfl <;> decide

end ManifestLint.Text
