import ManifestLint.Yaml.Atom
import ManifestLint.Yaml.Document

/-!
Reading typed values from a document. Reading goes through the document in the order of its text, so
the first fault wins; a subtree that no field asks for must only be whole. An alias is read as the
node it stands for, and the number of aliases followed is limited.
-/

namespace ManifestLint.Yaml

/-- Reads within a tree, with a number of aliases that may still be followed. -/
abbrev Reading := ReaderT Node (StateT Nat (Except ReadFault))

abbrev Reader (Value : Type) := Path → Node → Reading Value

def fail {Value : Type} (path : Path) (issue : Issue) : Reading Value :=
  throw (.mistyped path issue)

def unreadable {Value : Type} : Reading Value := throw .malformed

def follow : Node → Reading Node
  | .alias number => do
      match ← get with
      | 0 => unreadable
      | left + 1 =>
          set left
          match (← read).owner? number with
          | some node => return node
          | none => unreadable
  | node => return node

def refuse {Value : Type} (expected : String) (path : Path) : Node → Reading Value
  | .scalar label style text =>
      match Atom.ofScalar label.tag style text with
      | .ok atom => fail path (.wrongType atom.shape expected)
      | .error issue => fail path issue
  | .sequence _ _ _ => fail path (.wrongType .sequence expected)
  | .mapping _ _ _ => fail path (.wrongType .mapping expected)
  | .alias _ => unreadable
  | .broken => unreadable

def isOmitted : Node → Bool
  | .scalar _ style text => style == .plain && text.isEmpty
  | _ => false

/-- The text of any scalar, whatever its tag. -/
def readTextAs (expected : String) : Reader String := fun path node => do
  match ← follow node with
  | .scalar _ _ text => return text
  | node => refuse expected path node

def readText : Reader String := readTextAs "a string"

/-- The tag that a scalar may have where a boolean is wanted depends on its style. -/
def showsBoolean (label : Label) (style : Style) : Bool :=
  style == .plain || (style == .literal && label.tag == some (coreTag "bool"))

def readBoolean : Reader Bool := fun path node => do
  let node ← follow node
  match node with
  | .scalar label style text =>
      match if showsBoolean label style then booleanOf? text else none with
      | some value => return value
      | none => refuse "a boolean" path node
  | node => refuse "a boolean" path node

def readItems {Value : Type} (reader : Reader Value) (path : Path) (index : Nat) :
    List Node → Reading (List Value)
  | [] => return []
  | item :: items => do
      let value ← reader (path.item index) item
      return value :: (← readItems reader path (index + 1) items)

def readSequence {Value : Type} (reader : Reader Value) : Reader (List Value) := fun path node => do
  let node ← follow node
  match node with
  | .sequence _ items closed => do
      let values ← readItems reader path 0 items
      if closed then return values else unreadable
  | node => if isOmitted node then return [] else refuse "a sequence" path node

/-- A value that may be null or left out. A node with the core tag for null must be null, and is
refused at the collection around it. -/
def readOptional {Value : Type} (around : Path) (reader : Reader Value) : Reader (Option Value) :=
  fun path node => do
    let node ← follow node
    match node with
    | .scalar label .plain text =>
        if label.tag = some (coreTag "null") then
          if isNull text then return none else fail around (.wrongValue text "null")
        else if label.tag.isNone && (text.isEmpty || isNull text) then return none
        else return some (← reader path node)
    | node => return some (← reader path node)

/-- A key of a mapping that is read as a record, and how its value goes into the record. -/
structure FieldReader (Record : Type) where
  name : String
  read : Path → Node → Record → Reading Record

def Path.under (path : Path) : Node → Path
  | .scalar _ _ text => path.key text
  | _ => path.unknown

def readEntries {Record : Type} (fields : List (FieldReader Record)) (path : Path)
    (seen : List String) (record : Record) : List (Node × Node) → Reading Record
  | [] => return record
  | (key, value) :: entries => do
      let name ← readTextAs "field identifier" path key
      match fields.find? (·.name == name) with
      | some field =>
          if seen.contains name then fail path (.repeatedField name)
          else
            let record ← field.read (path.under key) value record
            readEntries fields path (name :: seen) record entries
      | none =>
          if value.isWhole then readEntries fields path seen record entries else unreadable

/-- A record from a mapping with the given fields. Other keys are passed over, and a node that is
left out has no entries. -/
def readRecord {Record : Type} (name : String) (fields : List (FieldReader Record))
    (initial : Record) :
    Reader Record := fun path node => do
  let node ← follow node
  match node with
  | .mapping _ entries closed => do
      let record ← readEntries fields path [] initial entries
      if closed then return record else unreadable
  | node => if isOmitted node then return initial else refuse name path node

/-- How many aliases may be followed for each event of a document. -/
def aliasesPerEvent : Nat := 100

/-- Reads a whole text as one document. Behind the value, the text must end well. -/
def readDocumentAs {Value : Type} (reader : Reader Value) (text : String) :
    Except ReadFault Value := do
  let document := Document.ofText text
  let (value, _) ← (reader .root document.root).run document.root
    (aliasesPerEvent * document.eventCount)
  if document.sound then return value else throw .malformed

end ManifestLint.Yaml
