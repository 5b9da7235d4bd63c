import ManifestLint.Rule

/-!
The engine: an ordered list of rules that are well formed and have distinct names, applied to
manifests. It is built from an explicit list or from a lint section, which adds custom rules to the
built-in ones and takes the disabled ones out.
-/

namespace ManifestLint

structure LintSection where
  disable : List String
  rules : List Rule
deriving DecidableEq, Repr

def LintSection.empty : LintSection := ⟨[], []⟩

structure Finding where
  rule : String
  message : String
deriving DecidableEq, Repr

structure Engine where
  rules : List Rule
deriving DecidableEq, Repr

namespace Engine

def builtin : Engine := ⟨Rule.builtin⟩

def checkRules (seen : List String) : List Rule → Except RuleFault Unit
  | [] => .ok ()
  | rule :: rest => do
      rule.check
      if seen.contains rule.name then throw (.repeated rule.name)
      checkRules (rule.name :: seen) rest

def ofRules (rules : List Rule) : Except RuleFault Engine := do
  checkRules [] rules
  return ⟨rules⟩

/-- Custom rules are checked even when they are disabled, and none may bear a built-in name. -/
def ofSection (lint : LintSection) : Except RuleFault Engine := do
  checkRules [] lint.rules
  let known (name : String) := Rule.isBuiltin name || lint.rules.any (·.name == name)
  if let some name := lint.disable.find? (!known ·) then throw (.unknown name)
  if let some rule := lint.rules.find? (Rule.isBuiltin ·.name) then throw (.repeated rule.name)
  ofRules ((Rule.builtin ++ lint.rules).filter fun rule => !lint.disable.contains rule.name)

def names (engine : Engine) : List String := engine.rules.map (·.name)

def findings (engine : Engine) (manifest : Manifest) : List Finding :=
  (engine.rules.filter (·.fires manifest)).map fun rule => ⟨rule.name, rule.message⟩

def messages (engine : Engine) (manifest : Manifest) : List String :=
  (engine.rules.filter (·.fires manifest)).map (·.message)

def messagesOfBytes (engine : Engine) (bytes : List UInt8) : Except ByteFault (List String) :=
  (Manifest.ofBytes bytes).map engine.messages

end Engine

end ManifestLint
