import ManifestLint.Proofs.Yaml.Records
import ManifestLint.Yaml.Content

/-!
Values that are quoted throughout, read as content. Whatever their texts look like they are texts,
and they are read as far as there is room for the collections inside each other.
-/

namespace ManifestLint.Yaml

/-- Whether a scalar without a tag is a text, not some value that looks like one. -/
def Spelling.IsText (spelling : Spelling) : Prop :=
  Atom.ofScalar none spelling.style spelling.text = .ok (.text spelling.text)

theorem Spelling.is_text_of_quoted {spelling : Spelling} (quoted : spelling.style = .doubleQuoted) :
    spelling.IsText := by
  rw [IsText, Atom.ofScalar, quoted, if_neg (by decide)]

theorem read_atom_text (expected : String) (path : Path) {spelling : Spelling}
    (text : spelling.IsText) :
    readAtom expected path ⟨none, none⟩ spelling.style spelling.text =
      pure (.text spelling.text) := by
  rw [Spelling.IsText] at text
  have untagged : ¬ (localTag? none).isSome = true := by decide
  rw [readAtom, if_neg untagged, text]

namespace Flow

mutual

def AllQuoted : Flow → Prop
  | .scalar spelling => spelling.style = .doubleQuoted
  | .sequence items => ItemsQuoted items
  | .mapping entries => EntriesQuoted entries

def ItemsQuoted : List Flow → Prop
  | [] => True
  | item :: items => item.AllQuoted ∧ ItemsQuoted items

def EntriesQuoted : List (Key × Flow) → Prop
  | [] => True
  | (key, value) :: entries =>
      key.spelling.style = .doubleQuoted ∧ value.AllQuoted ∧ EntriesQuoted entries

end

mutual

def height : Flow → Nat
  | .scalar _ => 0
  | .sequence items => heightOfItems items + 1
  | .mapping entries => heightOfEntries entries + 1

def heightOfItems : List Flow → Nat
  | [] => 0
  | item :: items => max item.height (heightOfItems items)

def heightOfEntries : List (Key × Flow) → Nat
  | [] => 0
  | (_, value) :: entries => max value.height (heightOfEntries entries)

end

mutual

def content : Flow → Content
  | .scalar spelling => .atom (.text spelling.text)
  | .sequence items => .sequence (contentsOfItems items)
  | .mapping entries => .mapping (contentsOfEntries entries)

def contentsOfItems : List Flow → List Content
  | [] => []
  | item :: items => item.content :: contentsOfItems items

def contentsOfEntries : List (Key × Flow) → List (Content × Content)
  | [] => []
  | (key, value) :: entries =>
      (.atom (.text key.spelling.text), value.content) :: contentsOfEntries entries

end

end Flow

theorem read_content_scalar (room : Nat) (path : Path) {spelling : Spelling}
    (text : spelling.IsText) :
    readContent room path spelling.node = pure (.atom (.text spelling.text)) := by
  have atom := read_atom_text "any value" path text
  cases room with
  | zero =>
      change (readAtom "any value" path ⟨none, none⟩ spelling.style spelling.text >>= fun atom =>
        pure (Content.atom atom)) = _
      rw [atom, pure_bind]
  | succ room =>
      change (readAtom "any value" path ⟨none, none⟩ spelling.style spelling.text >>= fun atom =>
        pure (Content.atom atom)) = _
      rw [atom, pure_bind]

mutual

theorem read_content_flow :
    ∀ (flow : Flow) (_ : flow.AllQuoted) {room : Nat} (_ : flow.height ≤ room)
    (path : Path), readContent room path flow.node = pure flow.content
  | .scalar spelling, quoted, room, _, path =>
      read_content_scalar room path (Spelling.is_text_of_quoted quoted)
  | .sequence items, quoted, 0, fits, path => absurd fits (Nat.not_succ_le_zero _)
  | .sequence items, quoted, room + 1, fits, path => by
      have read := read_content_items items quoted (Nat.le_of_succ_le_succ fits) path 0
      change (readItems (readContent room) path 0 (Flow.nodesOfItems items) >>= fun contents =>
        pure (Content.sequence contents)) = _
      rw [read, pure_bind, Flow.content]
  | .mapping entries, quoted, 0, fits, path => absurd fits (Nat.not_succ_le_zero _)
  | .mapping entries, quoted, room + 1, fits, path => by
      have read := read_content_entries entries quoted (Nat.le_of_succ_le_succ fits) path
      change (readContentEntries (readContent room) path (Flow.nodesOfEntries entries) >>=
        fun contents =>
        pure (Content.mapping contents)) = _
      rw [read, pure_bind, Flow.content]

theorem read_content_items : ∀ (items : List Flow) (_ : Flow.ItemsQuoted items) {room : Nat}
    (_ : Flow.heightOfItems items ≤ room) (path : Path) (index : Nat),
    readItems (readContent room) path index (Flow.nodesOfItems items) =
      pure (Flow.contentsOfItems items)
  | [], _, _, _, _, _ => rfl
  | item :: items, quoted, room, fits, path, index => by
      have bounds := Nat.max_le.1 fits
      have one := read_content_flow item quoted.1 bounds.1
      have others := read_content_items items quoted.2 bounds.2 path (index + 1)
      rw [Flow.nodesOfItems, readItems, one, pure_bind, others, pure_bind, Flow.contentsOfItems]

theorem read_content_entries : ∀ (entries : List (Key × Flow)) (_ : Flow.EntriesQuoted entries)
    {room : Nat} (_ : Flow.heightOfEntries entries ≤ room) (path : Path),
    readContentEntries (readContent room) path (Flow.nodesOfEntries entries) =
      pure (Flow.contentsOfEntries entries)
  | [], _, _, _, _ => rfl
  | (key, value) :: entries, quoted, room, fits, path => by
      have bounds := Nat.max_le.1 fits
      have named := read_content_scalar room path (Spelling.is_text_of_quoted quoted.1)
      have one := read_content_flow value quoted.2.1 bounds.1
      have others := read_content_entries entries quoted.2.2 bounds.2 path
      rw [Flow.nodesOfEntries, readContentEntries, named, pure_bind, one, pure_bind, others,
        pure_bind, Flow.contentsOfEntries]

end

end ManifestLint.Yaml
