import ManifestLint.Config.Layer
import ManifestLint.Config.RuleEntry

/-!
Settings in a document: a mapping with a lint section and output settings, all of which may be left
out.
-/

namespace ManifestLint.LayerEntry

open Yaml

/-- The sections lie inside the root, the list of rules and each rule inside that, and a condition
inside its rule. -/
def conditionRoom : Nat := RuleEntry.greatestDepth - 5

def lintFields : List (FieldReader LintSection) :=
  [⟨"disable", fun path node lint => do
      return { lint with disable := ← readSequence readText path node }⟩,
   ⟨"rules", fun path node lint => do
      return { lint with rules := ← readSequence (RuleEntry.read conditionRoom) path node }⟩]

def readLint : Reader LintSection := readRecord "struct LintConfig" lintFields .empty

def formatNames : String := "`text` or `json`"

/-- A format by its name. It may also be the tag of a node that is null or left out. -/
def readFormat (around : Path) : Reader OutputFormat := fun path node => do
  let node ← follow node
  let named (place : Path) (name : String) : Reading OutputFormat :=
    match OutputFormat.ofName? name with
    | some format => return format
    | none => fail place (.unknownVariant name formatNames)
  match node with
  | .scalar label style text =>
      match localTag? label.tag with
      | none => named path text
      | some name => do
          let format ← named around name
          if style == .plain && (text.isEmpty || isNull text) then return format
          else fail path (.wrongValue text "null")
  | .sequence label _ _ =>
      match localTag? label.tag with
      | none => refuse "a YAML tag starting with '!'" path node
      | some name => do
          let _ ← named around name
          refuse "unit" path node
  | .mapping label _ _ =>
      match localTag? label.tag with
      | none => refuse "a YAML tag starting with '!'" path node
      | some name => do
          let _ ← named around name
          refuse "unit" path node
  | node => refuse formatNames path node

def outputFields (around : Path) : List (FieldReader Layer) :=
  [⟨"format", fun path node layer => do
      return { layer with format := ← readOptional around (readFormat around) path node }⟩,
   ⟨"color", fun path node layer => do
      return { layer with colour := ← readOptional around readBoolean path node }⟩]

def readOutput : Reader Layer := fun path node =>
  readRecord "struct PartialOutputConfig" (outputFields path) .empty path node

def layerFields : List (FieldReader Layer) :=
  [⟨"lint", fun path node layer => do
      return { layer with lint := ← readOptional .root readLint path node }⟩,
   ⟨"output", fun path node layer => do
      let output := (← readOptional .root readOutput path node).getD .empty
      return { layer with format := output.format, colour := output.colour }⟩]

def read : Reader Layer := readRecord "struct PartialConfig" layerFields .empty

end ManifestLint.LayerEntry
