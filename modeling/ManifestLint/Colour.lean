import ManifestLint.Text.Lines

/-!
Coloured text for terminals. A coloured text stands between an opening code and the reset code;
with colour off it stands alone. Padding belongs to the coloured text.
-/

namespace ManifestLint

inductive Hue where
  | red
  | green
  | cyan
  | dimmed
deriving DecidableEq, Repr

namespace Hue

def opening : Hue → List Char
  | .red => ['\x1b', '[', '3', '1', 'm']
  | .green => ['\x1b', '[', '3', '2', 'm']
  | .cyan => ['\x1b', '[', '3', '6', 'm']
  | .dimmed => ['\x1b', '[', '2', 'm']

def reset : List Char := ['\x1b', '[', '0', 'm']

/-- A reset code inside a coloured text is followed by the text's own opening code again. -/
def reopen (hue : Hue) : List Char → List Char
  | '\x1b' :: '[' :: '0' :: 'm' :: rest => reset ++ hue.opening ++ hue.reopen rest
  | char :: rest => char :: hue.reopen rest
  | [] => []

def paintColumn (hue : Hue) (colour : Bool) (width : Nat) (text : String) : String :=
  String.ofList <|
    if colour then hue.opening ++ Text.padRight width (hue.reopen text.toList) ++ reset
    else Text.padRight width text.toList

def paint (hue : Hue) (colour : Bool) (text : String) : String := hue.paintColumn colour 0 text

end Hue

end ManifestLint
