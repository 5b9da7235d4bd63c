import ManifestLint.Manifest
import ManifestLint.Text.Blank
import ManifestLint.Text.Occurrence

/-!
Rules: a name, a fixed message, and a condition on which texts occur in a manifest.
-/

namespace ManifestLint

/-- When a rule fires: its needle is missing, is there, or is there without an excuse. -/
inductive Condition where
  | missing (needle : String)
  | contains (needle : String)
  | containsWithout (needle excuse : String)
deriving DecidableEq, Repr

namespace Condition

def holds (condition : Condition) (text : String) : Bool :=
  let occurs (needle : String) := Text.occursIn needle.toList text.toList
  match condition with
  | .missing needle => !occurs needle
  | .contains needle => occurs needle
  | .containsWithout needle excuse => occurs needle && !occurs excuse

def describe : Condition → String
  | .missing needle => s!"text lacks '{needle}'"
  | .contains needle => s!"text contains '{needle}'"
  | .containsWithout needle excuse => s!"text contains '{needle}' but not '{excuse}'"

def needles : Condition → List String
  | .missing needle => [needle]
  | .contains needle => [needle]
  | .containsWithout needle excuse => [needle, excuse]

end Condition

structure Rule where
  name : String
  message : String
  condition : Condition
deriving DecidableEq, Repr

inductive RuleFault where
  | blankName
  | blankMessage (rule : String)
  | emptyNeedle (rule : String)
  | repeated (rule : String)
  | unknown (rule : String)
deriving DecidableEq, Repr

def RuleFault.message : RuleFault → String
  | .blankName => "rule name must not be empty"
  | .blankMessage rule => s!"rule '{rule}' has an empty message"
  | .emptyNeedle rule => s!"rule '{rule}' has an empty needle"
  | .repeated rule => s!"rule '{rule}' is registered more than once"
  | .unknown rule => s!"cannot disable unknown rule '{rule}'"

namespace Rule

/-- A rule that could never be reported meaningfully is refused; the name is looked at first, then
the message, then the needles. -/
def check (rule : Rule) : Except RuleFault Unit :=
  if Text.Blank rule.name then .error .blankName
  else if Text.Blank rule.message then .error (.blankMessage rule.name)
  else if rule.condition.needles.any String.isEmpty then .error (.emptyNeedle rule.name)
  else .ok ()

def fires (rule : Rule) (manifest : Manifest) : Bool := rule.condition.holds manifest.text

def builtin : List Rule :=
  [⟨"multi-stage-build", "Missing multi-stage build", .missing "AS builder"⟩,
   ⟨"production-deps-only", "Installing devDependencies in production",
     .containsWithout "npm install" "--production"⟩]

def isBuiltin (name : String) : Bool := builtin.any (·.name == name)

end Rule

end ManifestLint
