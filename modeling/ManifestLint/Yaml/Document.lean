import ManifestLint.Yaml.Node
import ManifestLint.Yaml.TokenStream

/-!
Documents. A text holds one document, which may be empty; what is no such text gives a document that
breaks off where the fault is.
-/

namespace ManifestLint.Yaml

/-- The root, the number of events it was made of, and whether the text ends well behind it. -/
structure Document where
  root : Node
  eventCount : Nat
  sound : Bool
deriving Repr

namespace Document

/-- An empty document has an empty scalar for its root. -/
def ofEvents (stream : EventStream) : Document :=
  if stream.events.isEmpty && stream.sound then ⟨.scalar ⟨none, none⟩ .plain "", 1, true⟩
  else
    let (root, count) := Node.grow .empty [] stream.events
    ⟨root, count, stream.sound⟩

def ofText (text : String) : Document :=
  ofEvents (EventStream.ofTokens (tokens (.ofStream text.toList) (normalise text.toList)))

end Document

end ManifestLint.Yaml
