import ManifestLint.Config.Document
import ManifestLint.Proofs.Yaml.Contents

/-!
How settings are written down: a lint section and output settings in flow style, each mapping with
its entries in any order and others among them, between two fences.
-/

namespace ManifestLint

open Yaml

namespace Condition

def names : List String := ["type", "needle", "unless"]

def kindName : Condition → String
  | .missing _ => "missing"
  | .contains _ => "contains"
  | .containsWithout _ _ => "contains_without"

def needleFields : Condition → List (String × String)
  | .missing needle => [("needle", needle)]
  | .contains needle => [("needle", needle)]
  | .containsWithout needle excuse => [("needle", needle), ("unless", excuse)]

def fields (condition : Condition) : List (String × (Flow → Prop)) :=
  ("type", Flow.Spells condition.kindName) ::
    condition.needleFields.map fun field => (field.1, (· = .quoted field.2))

/-- Other values in a condition are limited in how far they are nested. -/
def WrittenAs (condition : Condition) : Flow → Prop :=
  Flow.IsRecord names (fun flow => flow.AllQuoted ∧ flow.height ≤ LayerEntry.conditionRoom)
    condition.fields

end Condition

def Rule.WrittenAs (rule : Rule) : Flow → Prop :=
  Flow.IsRecord ["name", "message", "when"] Flow.AllQuoted
    [("name", (· = .quoted rule.name)), ("message", (· = .quoted rule.message)),
     ("when", rule.condition.WrittenAs)]

namespace LintSection

def RulesWrittenAs (lint : LintSection) (flow : Flow) : Prop :=
  ∃ items, flow = .sequence items ∧ List.Forall₂ Rule.WrittenAs lint.rules items

def WrittenAs (lint : LintSection) : Flow → Prop :=
  Flow.IsRecord ["disable", "rules"] Flow.AllQuoted
    [("disable", (· = .sequence (lint.disable.map .quoted))), ("rules", lint.RulesWrittenAs)]

end LintSection

/-- A boolean is written without quotes. -/
def ColourWrittenAs (colour : Bool) (flow : Flow) : Prop :=
  ∃ spelling, flow = .scalar spelling ∧ spelling.style = .plain ∧
    spelling.text = if colour then "true" else "false"

namespace Layer

def outputFields (format : Option OutputFormat) (colour : Option Bool) :
    List (String × (Flow → Prop)) :=
  format.toList.map (fun format => ("format", Flow.Spells format.name)) ++
    colour.toList.map (fun colour => ("color", ColourWrittenAs colour))

def OutputWrittenAs (format : Option OutputFormat) (colour : Option Bool) : Flow → Prop :=
  Flow.IsRecord ["format", "color"] Flow.AllQuoted (outputFields format colour)

/-- The entries of a settings document. Without output settings there may be no entry for them. -/
def WrittenIn (lint : LintSection) (format : Option OutputFormat) (colour : Option Bool)
    (entries : List (Key × Flow)) : Prop :=
  ∃ output, Flow.HasFields ["lint", "output"] Flow.AllQuoted (("lint", lint.WrittenAs) :: output)
    entries ∧
    (output = [("output", OutputWrittenAs format colour)] ∨ output = [] ∧ format = none ∧
      colour = none)

end Layer

namespace Config

/-- A document with settings: blanks, a fence, the entries line by line, a fence, and any body. -/
def WrittenIn (lint : LintSection) (format : Option OutputFormat) (colour : Option Bool)
    (document : String) : Prop :=
  ∃ blanks entries body, (∀ char ∈ blanks, Text.isBlank char = true) ∧
    Layer.WrittenIn lint format colour entries ∧ (body = [] ∨ ∃ text, body = '\n' :: text) ∧
    document.toList =
      blanks ++ (Frontmatter.fence ++
        '\n' :: (Flow.writeLines entries ++ (Frontmatter.fence ++ body)))

end Config

end ManifestLint
