/-!
A tree of files with the directory that a program works in, and how paths lead through it. A path is
a text of segments between slashes. It leads from the working directory, or from the root if it
begins with a slash. Empty segments and single dots stay where they are, but only in a directory;
two dots lead up, and stay where they are at the root. There are no links, and whatever is in a tree
can be read.
-/

namespace ManifestLint

inductive Entry where
  | file (bytes : List UInt8)
  | directory (entries : List (String × Entry))
deriving Repr

namespace Entry

def isDirectory : Entry → Bool
  | .file _ => false
  | .directory _ => true

def isFile : Entry → Bool
  | .file _ => true
  | .directory _ => false

def child? (name : String) : Entry → Option Entry
  | .file _ => none
  | .directory entries => entries.lookup name

/-- Puts a child in the place of the one with its name, or behind all others. -/
def setChild (name : String) (child : Entry) : List (String × Entry) → List (String × Entry)
  | [] => [(name, child)]
  | (other, entry) :: entries =>
      if other == name then (name, child) :: entries
      else (other, entry) :: setChild name child entries

def children : Entry → List (String × Entry)
  | .file _ => []
  | .directory entries => entries

def empty : Entry := .directory []

/-- Puts an entry at the end of a path of names, and makes the directories on the way. -/
def put (target : Entry) : List String → Entry → Entry
  | [], _ => target
  | name :: names, entry =>
      .directory (setChild name (put target names ((entry.child? name).getD empty)) entry.children)

theorem lookup_set_child (name : String) (child : Entry) (entries : List (String × Entry)) :
    (setChild name child entries).lookup name = some child := by
  induction entries with
  | nil => exact List.lookup_cons_self
  | cons first entries induction =>
      rw [setChild]
      split
      · exact List.lookup_cons_self
      · next other =>
        have apart : (name == first.1) = false :=
          beq_eq_false_iff_ne.2 fun same => other (beq_iff_eq.2 same.symm)
        rw [List.lookup_cons, apart]
        exact induction

theorem child_put (target : Entry) (name : String) (names : List String) (entry : Entry) :
    (put target (name :: names) entry).child? name =
      some (put target names ((entry.child? name).getD empty)) :=
  lookup_set_child name _ _

end Entry

inductive FileFault where
  | absent
  | belowFile
  | isDirectory
deriving DecidableEq, Repr

def FileFault.message : FileFault → String
  | .absent => "No such file or directory (os error 2)"
  | .belowFile => "Not a directory (os error 20)"
  | .isDirectory => "Is a directory (os error 21)"

/-- An entry of the tree with the directories above it, the nearest first. -/
structure Place where
  entry : Entry
  above : List Entry
deriving Repr

namespace Place

def ofRoot (root : Entry) : Place := ⟨root, []⟩

/-- The directory above, which for the root is the root itself. -/
def parent (place : Place) : Place :=
  match place.above with
  | entry :: above => ⟨entry, above⟩
  | [] => place

def child? (place : Place) (name : String) : Option Place :=
  (place.entry.child? name).map fun entry => ⟨entry, place.entry :: place.above⟩

def descend (place : Place) : List String → Option Place
  | [] => some place
  | name :: names => (place.child? name).bind fun child => child.descend names

def step (place : Place) (segment : String) : Except FileFault Place :=
  if !place.entry.isDirectory then .error .belowFile
  else if segment = "" ∨ segment = "." then .ok place
  else if segment = ".." then .ok place.parent
  else (place.child? segment).elim (.error .absent) .ok

def walk (place : Place) : List String → Except FileFault Place
  | [] => .ok place
  | segment :: segments => do (← place.step segment).walk segments

theorem descend_put (target : Entry) (behind : List String) {names : List String} {place : Place}
    (leads : (place.descend names).isSome) (above : List Entry) :
    (descend ⟨Entry.put target (names ++ behind) place.entry, above⟩ names).isSome := by
  induction names generalizing place above with
  | nil => rfl
  | cons name names induction =>
      rw [descend, child?] at leads
      rw [descend, child?, List.cons_append, Entry.child_put]
      cases found : place.entry.child? name with
      | none =>
          rw [found] at leads
          cases leads
      | some entry =>
          rw [found] at leads
          exact @induction ⟨entry, _⟩ leads _

end Place

def splitSegments : List Char → List (List Char)
  | [] => [[]]
  | char :: rest =>
      if char = '/' then [] :: splitSegments rest
      else
        match splitSegments rest with
        | [] => [[char]]
        | segment :: segments => (char :: segment) :: segments

def segments (path : String) : List String := (splitSegments path.toList).map String.ofList

/-- Everything below a root, with the names that lead from it to the working directory. -/
structure FileTree where
  root : Entry
  workingNames : List String
  leads : ((Place.ofRoot root).descend workingNames).isSome
deriving Repr

namespace FileTree

def empty : FileTree := ⟨.directory [("work", .empty)], ["work"], rfl⟩

def working (tree : FileTree) : Place :=
  ((Place.ofRoot tree.root).descend tree.workingNames).get tree.leads

def names (path : String) : List String :=
  (segments path).filter fun name => name != "" && name != "."

/-- Puts an entry below the working directory. -/
def put (tree : FileTree) (target : Entry) (path : String) : FileTree :=
  ⟨Entry.put target (tree.workingNames ++ names path) tree.root, tree.workingNames,
    Place.descend_put target (names path) tree.leads []⟩

def addFile (tree : FileTree) (path : String) (bytes : List UInt8) : FileTree :=
  tree.put (.file bytes) path

/-- A directory that is there already is kept. -/
def addDirectory (tree : FileTree) (path : String) : FileTree :=
  match tree.working.walk (names path) with
  | .ok _ => tree
  | .error _ => tree.put .empty path

def isAbsolute (path : String) : Bool := path.toList.head? == some '/'

def start (tree : FileTree) (path : String) : Place :=
  if isAbsolute path then Place.ofRoot tree.root else tree.working

/-- Where a path leads; the empty path leads nowhere. -/
def locate (tree : FileTree) (path : String) : Except FileFault Place :=
  if path.isEmpty then .error .absent else (tree.start path).walk (segments path)

def holds (tree : FileTree) (path : String) : Bool := (tree.locate path).isOk

def hasFile (tree : FileTree) (path : String) : Bool :=
  match tree.locate path with
  | .ok place => place.entry.isFile
  | .error _ => false

def readFile (tree : FileTree) (path : String) : Except FileFault (List UInt8) := do
  match (← tree.locate path).entry with
  | .file bytes => return bytes
  | .directory _ => throw .isDirectory

end FileTree

end ManifestLint
