import ManifestLint.Config.Format
import ManifestLint.Engine

/-!
Layers of settings. One file may leave out any setting; a later layer replaces the lint section as a
whole and the output settings one at a time, and defaults fill what no layer sets.
-/

namespace ManifestLint

structure Layer where
  lint : Option LintSection
  format : Option OutputFormat
  colour : Option Bool
deriving DecidableEq, Repr

structure Config where
  lint : LintSection
  format : OutputFormat
  colour : Bool
deriving DecidableEq, Repr

def Config.default : Config := ⟨.empty, .text, true⟩

namespace Layer

def empty : Layer := ⟨none, none, none⟩

def above (upper lower : Layer) : Layer :=
  ⟨upper.lint.or lower.lint, upper.format.or lower.format, upper.colour.or lower.colour⟩

def finish (layer : Layer) : Config :=
  ⟨layer.lint.getD Config.default.lint, layer.format.getD Config.default.format,
    layer.colour.getD Config.default.colour⟩

theorem empty_above (layer : Layer) : empty.above layer = layer := by
  cases layer
  rfl

theorem above_empty (layer : Layer) : layer.above empty = layer := by
  cases layer
  simp [above, empty]

theorem above_assoc (first second third : Layer) :
    (first.above second).above third = first.above (second.above third) := by
  simp [above, Option.or_assoc]

end Layer

end ManifestLint
