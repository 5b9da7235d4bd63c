import ManifestLint.Rule
import ManifestLint.Yaml.Content

/-!
Conditions in a document. A mapping names its type under one key, which may come in any place, and
gives the needles under others; a sequence gives the type first and then the needles in order. The
type is read where it stands. The rest is read as content and looked at when the type is known, so
an issue with a needle is one of the rule around.
-/

namespace ManifestLint.ConditionEntry

open Yaml

inductive Kind where
  | missing
  | contains
  | containsWithout
deriving DecidableEq, Repr

def Kind.ofName? (name : String) : Option Kind :=
  if name = "missing" then some .missing
  else if name = "contains" then some .contains
  else if name = "contains_without" then some .containsWithout
  else none

def Kind.fields : Kind → List String
  | .missing => ["needle"]
  | .contains => ["needle"]
  | .containsWithout => ["needle", "unless"]

def Kind.title : Kind → String
  | .missing => "Missing"
  | .contains => "Contains"
  | .containsWithout => "ContainsWithout"

def Kind.condition : Kind → List String → Option Condition
  | .missing, [needle] => some (.missing needle)
  | .contains, [needle] => some (.contains needle)
  | .containsWithout, [needle, excuse] => some (.containsWithout needle excuse)
  | _, _ => none

def wholeType : String := "internally tagged enum Predicate"

def readKind : Reader Kind := fun path node => do
  let name ← readTextAs "variant identifier" path node
  match Kind.ofName? name with
  | some kind => return kind
  | none => fail path (.unknownVariant name "one of `missing`, `contains`, `contains_without`")

def textOf (path : Path) : Content → Reading String
  | .atom (.text text) => return text
  | content => fail path (.wrongType content.shape "a string")

def counted (count : Nat) (noun : String) : String :=
  if count = 1 then "1 " ++ noun else Text.decimal count ++ " " ++ noun ++ "s"

/-- Needles in order, from a number of fields that are still to come and the contents for them. -/
def needlesInOrder (path : Path) (kind : Kind) (total found : Nat) :
    List String → List Content → Reading (List String)
  | [], [] => return []
  | [], _ :: _ =>
      fail path (.wrongLength total (counted kind.fields.length "element" ++ " in sequence"))
  | _ :: _, [] =>
      fail path (.wrongLength found ("struct variant Predicate::" ++ kind.title ++ " with "
        ++ counted kind.fields.length "element"))
  | _ :: fields, content :: contents => do
      let needle ← textOf path content
      return needle :: (← needlesInOrder path kind total (found + 1) fields contents)

/-- The field that a key means: by its name, or by its number. Other names and numbers mean none. -/
def fieldOf (path : Path) (kind : Kind) : Content → Reading (Option String)
  | .atom (.text name) => return if kind.fields.contains name then some name else none
  | .atom (.integer false value) => return kind.fields[value.toNat]?
  | content => fail path (.wrongType content.shape "field identifier")

def readNeedles (path : Path) (kind : Kind) (found : List (String × String)) :
    List (Content × Content) → Reading (List (String × String))
  | [] => return found
  | (key, content) :: entries => do
      match ← fieldOf path kind key with
      | none => readNeedles path kind found entries
      | some field =>
          if (found.lookup field).isSome then fail path (.repeatedField field)
          else readNeedles path kind ((field, ← textOf path content) :: found) entries

def pickNeedles (path : Path) (found : List (String × String)) : List String → Reading (List String)
  | [] => return []
  | field :: fields =>
      match found.lookup field with
      | some needle => return needle :: (← pickNeedles path found fields)
      | none => fail path (.missingField field)

def finish (kind : Kind) (needles : List String) : Reading Condition :=
  match kind.condition needles with
  | some condition => return condition
  | none => unreadable

def ofContents (path : Path) (kind : Kind) (contents : List Content) : Reading Condition := do
  finish kind (← needlesInOrder path kind contents.length 0 kind.fields contents)

def ofEntries (path : Path) (kind : Kind) (entries : List (Content × Content)) :
    Reading Condition := do
  finish kind (← pickNeedles path (← readNeedles path kind [] entries) kind.fields)

def readKey (room : Nat) : Reader (Option Content) := fun path node => do
  let node ← follow node
  match node with
  | .scalar label style text =>
      let atom ← readAtom "a type tag `type` or any other value" path label style text
      return if atom = .text "type" then none else some (.atom atom)
  | node => return some (← readContent room path node)

def readEntries (room : Nat) (path : Path) (kind : Option Kind) :
    List (Node × Node) → Reading (Option Kind × List (Content × Content))
  | [] => return (kind, [])
  | (key, value) :: entries => do
      match ← readKey room path key with
      | none =>
          if kind.isSome then fail path (.repeatedField "type")
          else
            let found ← readKind (path.under key) value
            readEntries room path (some found) entries
      | some key' =>
          let content ← readContent room (path.under key) value
          let (kind, contents) ← readEntries room path kind entries
          return (kind, (key', content) :: contents)

/-- A condition of the rule at the first path, with so many collections allowed inside it. -/
def read (room : Nat) (around : Path) : Reader Condition := fun path node => do
  let node ← follow node
  match node with
  | .scalar label _ _ =>
      if (localTag? label.tag).isSome then fail path (.wrongType .variant wholeType)
      else refuse wholeType path node
  | .sequence label items closed =>
      if (localTag? label.tag).isSome then fail path (.wrongType .variant wholeType)
      else
        match items with
        | [] => if closed then fail path (.missingField "type") else unreadable
        | first :: rest =>
            let kind ← readKind (path.item 0) first
            let contents ← readItems (readContent room) path 1 rest
            if closed then ofContents around kind contents else unreadable
  | .mapping label entries closed =>
      if (localTag? label.tag).isSome then fail path (.wrongType .variant wholeType)
      else
        let (kind, contents) ← readEntries room path none entries
        if !closed then unreadable
        else
          match kind with
          | none => fail path (.missingField "type")
          | some kind => ofEntries around kind contents
  | node => refuse wholeType path node

end ManifestLint.ConditionEntry
