import ManifestLint.Colour
import ManifestLint.Rule
import ManifestLint.Text.Digits

/-!
The listing of rules in evaluation order: number, name, message, and below them the condition and
where the rule comes from. The name column is as wide as the longest name in bytes, so that no
name overflows it; it has no bound.
-/

namespace ManifestLint.Listing

def columnWidth (rules : List Rule) : Nat := (rules.map (·.name.utf8ByteSize)).foldl max 0

def origin (rule : Rule) : String := if Rule.isBuiltin rule.name then "built-in" else "custom"

def entry (colour : Bool) (width number : Nat) (rule : Rule) : String :=
  String.ofList (Text.padLeft 2 (Text.digits number)) ++ ". "
    ++ Hue.cyan.paintColumn colour width rule.name ++ "  " ++ rule.message ++ "\n    "
    ++ Hue.cyan.paint colour "→" ++ " when " ++ rule.condition.describe
    ++ " (" ++ origin rule ++ ")"

def entries (colour : Bool) (width number : Nat) : List Rule → List String
  | [] => []
  | rule :: rest => entry colour width number rule :: entries colour width (number + 1) rest

def text (colour : Bool) (rules : List Rule) : String :=
  if rules.isEmpty then Hue.dimmed.paint colour "(no rules enabled)"
  else Text.joinLines (entries colour (columnWidth rules) 1 rules)

end ManifestLint.Listing
