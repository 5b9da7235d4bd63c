import ManifestLint.Text.Blank
import ManifestLint.Text.Utf8

/-!
Frontmatter: the lines between two fences of three dashes at the start of a document. Blank text may
stand before the first fence, which has nothing else on its line; trailing blanks may stand behind
the second one. The bytes of the lines passed over are counted, and the frontmatter is cut out of
the text by their number.
-/

namespace ManifestLint.Frontmatter

/-- The first line with its line feed, which the last line of a text may lack, and the rest. -/
def splitLine : List Char → List Char × List Char
  | [] => ([], [])
  | char :: rest =>
      if char = '\n' then ([char], rest)
      else
        let (line, rest) := splitLine rest
        (char :: line, rest)

theorem split_line_parts (text : List Char) : (splitLine text).1 ++ (splitLine text).2 = text := by
  induction text with
  | nil => rfl
  | cons char text induction =>
      rw [splitLine]
      split
      · rfl
      · simp only [List.cons_append, induction]

theorem length_split_line_lt {text : List Char} (nonempty : text ≠ []) :
    (splitLine text).2.length < text.length := by
  have split := congrArg List.length (split_line_parts text)
  rw [List.length_append] at split
  cases text with
  | nil => exact absurd rfl nonempty
  | cons char text =>
      have taken : 0 < (splitLine (char :: text)).1.length := by
        rw [splitLine]
        split <;> simp
      omega

def fence : List Char := ['-', '-', '-']

def trimEnd (line : List Char) : List Char := (line.reverse.dropWhile Text.isBlank).reverse

/-- How many bytes lie before the first line that is a fence, when so many were passed over already.
-/
def fenceOffset (passed : Nat) (text : List Char) : Option Nat :=
  if _empty : text = [] then none
  else if trimEnd (splitLine text).1 = fence then some passed
  else fenceOffset (passed + Text.byteCount (splitLine text).1) (splitLine text).2
termination_by text.length
decreasing_by exact length_split_line_lt _empty

def untilFence (text : List Char) : Option (List Char) :=
  (fenceOffset 0 text).bind fun offset => Text.takeBytes offset text

def afterFence : List Char → Option (List Char)
  | '-' :: '-' :: '-' :: '\n' :: rest => some rest
  | '-' :: '-' :: '-' :: '\r' :: '\n' :: rest => some rest
  | _ => none

def split (content : List Char) : Option (List Char) :=
  (afterFence (content.dropWhile Text.isBlank)).bind untilFence

def ofDocument (content : String) : Option String := (split content.toList).map String.ofList

end ManifestLint.Frontmatter
