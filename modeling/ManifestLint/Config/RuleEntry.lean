import ManifestLint.Config.ConditionEntry

/-!
Rules in a document: a mapping with a name, a message and the condition under the key `when`.
-/

namespace ManifestLint.RuleEntry

open Yaml

structure Parts where
  name : Option String
  message : Option String
  condition : Option Condition
deriving DecidableEq, Repr

def fields (room : Nat) (around : Path) : List (FieldReader Parts) :=
  [⟨"name", fun path node parts => do
      return { parts with name := some (← readText path node) }⟩,
   ⟨"message", fun path node parts => do
      return { parts with message := some (← readText path node) }⟩,
   ⟨"when", fun path node parts => do
      return { parts with condition := some (← ConditionEntry.read room around path node) }⟩]

def require {Value : Type} (path : Path) (name : String) : Option Value → Reading Value
  | some value => return value
  | none => fail path (.missingField name)

def read (room : Nat) : Reader Rule := fun path node => do
  let parts ← readRecord "struct Rule" (fields room path) ⟨none, none, none⟩ path node
  return ⟨← require path "name" parts.name, ← require path "message" parts.message,
    ← require path "when" parts.condition⟩

/-- How many collections may be inside each other in a document. -/
def greatestDepth : Nat := 128

def ofDocument (text : String) : Except ReadFault Rule :=
  readDocumentAs (read (greatestDepth - 2)) text

end ManifestLint.RuleEntry
