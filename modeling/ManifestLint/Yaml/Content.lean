import ManifestLint.Yaml.Reading

/-!
Content: values of any type, read before it is known what they are for. Scalars are taken for what
they are, and collections may be nested to a fixed depth.
-/

namespace ManifestLint.Yaml

inductive Content where
  | atom (value : Atom)
  | sequence (items : List Content)
  | mapping (entries : List (Content × Content))
deriving Repr

def Content.shape : Content → Shape
  | .atom value => value.shape
  | .sequence _ => .sequence
  | .mapping _ => .mapping

/-- A scalar as content. Integers beyond 64 bits and local tags are refused. -/
def readAtom (expected : String) (path : Path) (label : Label) (style : Style) (text : String) :
    Reading Atom :=
  if (localTag? label.tag).isSome then unreadable
  else
    match Atom.ofScalar label.tag style text with
    | .ok (.wide value) => fail path (.wrongType (.wide value) expected)
    | .ok atom => return atom
    | .error issue => fail path issue

def readContentEntries (reader : Reader Content) (path : Path) :
    List (Node × Node) → Reading (List (Content × Content))
  | [] => return []
  | (key, value) :: entries => do
      let keyContent ← reader path key
      let content ← reader (path.under key) value
      return (keyContent, content) :: (← readContentEntries reader path entries)

def readContent : Nat → Reader Content
  | 0 => fun path node => do
      match ← follow node with
      | .scalar label style text => return .atom (← readAtom "any value" path label style text)
      | _ => unreadable
  | room + 1 => fun path node => do
      match ← follow node with
      | .scalar label style text => return .atom (← readAtom "any value" path label style text)
      | .sequence label items closed =>
          if (localTag? label.tag).isSome then unreadable
          else
            let contents ← readItems (readContent room) path 0 items
            if closed then return .sequence contents else unreadable
      | .mapping label entries closed =>
          if (localTag? label.tag).isSome then unreadable
          else
            let contents ← readContentEntries (readContent room) path entries
            if closed then return .mapping contents else unreadable
      | _ => unreadable

end ManifestLint.Yaml
