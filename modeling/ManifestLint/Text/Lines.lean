/-!
Joining lines and padding columns. Padding counts characters.
-/

namespace ManifestLint.Text

/-- The lines with a line feed between each two; no line feed follows the last one. -/
def joinLines (lines : List String) : String :=
  String.ofList (List.intercalate ['\n'] (lines.map String.toList))

def blanks (count : Nat) : List Char := List.replicate count ' '

def padRight (width : Nat) (text : List Char) : List Char := text ++ blanks (width - text.length)

def padLeft (width : Nat) (text : List Char) : List Char := blanks (width - text.length) ++ text

@[simp] theorem length_pad_right (width : Nat) (text : List Char) :
    (padRight width text).length = max width text.length := by
  simp only [padRight, blanks, List.length_append, List.length_replicate]
  omega

@[simp] theorem length_pad_left (width : Nat) (text : List Char) :
    (padLeft width text).length = max width text.length := by
  simp only [padLeft, blanks, List.length_append, List.length_replicate]
  omega

end ManifestLint.Text
