import ManifestLint.FileTree
import ManifestLint.Glob.Pattern

/-!
Expansion of patterns in a tree. A pattern is taken apart at its slashes; each part leads from a
place to the entries of that place with a fitting name. The files found are sorted by the parts of
their paths.
-/

namespace ManifestLint.Glob

/-- A place and the path that led there; at the start of a relative pattern the path is empty. -/
structure Site where
  path : String
  place : Place
deriving Repr

namespace Site

def join (path name : String) : String :=
  if path.isEmpty then name
  else if path.toList.getLast? = some '/' then path ++ name
  else path ++ "/" ++ name

def child (site : Site) (name : String) (entry : Entry) : Site :=
  ⟨join site.path name, ⟨entry, site.place.entry :: site.place.above⟩⟩

/-- The directory itself by the name of a single dot. At the start the dot is not shown. -/
def stay (site : Site) : Site := ⟨if site.path.isEmpty then "" else join site.path ".", site.place⟩

def up (site : Site) : Site := ⟨join site.path "..", site.place.parent⟩

/-- The place that a part without wildcards leads to. Two slashes in a row say that a directory must
be there, and lead nowhere at the start. -/
def follow (site : Site) (name : String) : Option Site :=
  if !site.place.entry.isDirectory then none
  else if name = "." then some site.stay
  else if name = ".." then some site.up
  else if name = "" then
    if site.path.isEmpty then none else some { site with path := join site.path "" }
  else (site.place.entry.child? name).map (site.child name)

def byName {Value : Type} (values : List (String × Value)) : List (String × Value) :=
  values.mergeSort fun first second => first.1 ≤ second.1

def children (site : Site) : List (String × Site) :=
  byName (site.place.entry.children.map fun (name, entry) => (name, site.child name entry))

mutual

/-- Everything below a place, with names; a directory comes before what is in it. -/
def descendants (path : String) (above : List Entry) : Entry → List (String × Site)
  | .file _ => []
  | .directory entries =>
      (byName (descendantsIn path (.directory entries :: above) entries)).flatMap (·.2)

def descendantsIn (path : String) (above : List Entry) :
    List (String × Entry) → List (String × List (String × Site))
  | [] => []
  | (name, entry) :: entries =>
      (name, (name, ⟨join path name, ⟨entry, above⟩⟩) :: descendants (join path name) above entry)
        :: descendantsIn path above entries

end

/-- The directory and the one above it, where a pattern that starts with a dot fits their names. -/
def specials (site : Site) (pieces : List Piece) : List Site :=
  if site.place.entry.isDirectory ∧ pieces.head? = some (.literal '.') then
    (if fits pieces ['.', '.'] then [site.up] else []) ++
      (if fits pieces ['.'] then [site.stay] else [])
  else []

end Site

mutual

def expand : List Component → Site → List Site
  | [], site => [site]
  | .name text :: components, site =>
      ((site.follow (String.ofList text)).map (expand components)).getD []
  | .wild pieces :: components, site =>
      (site.specials pieces).flatMap (expand components)
        ++ site.children.flatMap fun (name, child) =>
            if fits pieces name.toList then expand components child else []
  | .anyDirectories :: components, site =>
      expandAmong components (Site.descendants site.path site.place.above site.place.entry)

/-- The places that some parts of a pattern lead to from entries that the first of them fits. Where
no part is left only directories are meant. -/
def expandAmong : List Component → List (String × Site) → List Site
  | [], _ => []
  | .anyDirectories :: components, candidates => expandAmong components candidates
  | .name text :: components, candidates =>
      candidates.flatMap fun (name, candidate) =>
        if (Component.name text).fits name then expand components candidate else []
  | .wild pieces :: components, candidates =>
      candidates.flatMap fun (name, candidate) =>
        if (Component.wild pieces).fits name then expand components candidate else []

end

/-- The parts of a pattern; the empty part behind a last slash is left out. -/
def parts (pattern : List Char) : List (List Char) :=
  let all := splitSegments pattern
  if all.getLast? = some [] then all.dropLast else all

def components (pattern : String) : Except PatternFault (List Component) := do
  let _ ← readPieces 0 true pattern.toList
  (parts (pattern.toList.drop (if FileTree.isAbsolute pattern then 1 else 0))).mapM Component.ofText

def wantsDirectory (pattern : String) : Bool := pattern.toList.getLast? == some '/'

/-- Whether a part of a path comes no later than another; the directory above comes first. -/
def partLe (first second : String) : Bool :=
  first == ".." || (second != ".." && first ≤ second)

def partsLe : List String → List String → Bool
  | [], _ => true
  | _ :: _, [] => false
  | first :: firsts, second :: seconds =>
      if first = second then partsLe firsts seconds else partLe first second

def pathLe (first second : String) : Bool := partsLe (FileTree.names first) (FileTree.names second)

def files (tree : FileTree) (pattern : String) : Except PatternFault (List String) := do
  let start : Site :=
    ⟨if FileTree.isAbsolute pattern then "/" else "", tree.start pattern⟩
  let found := expand (← components pattern) start
  let kept := found.filter fun site => site.place.entry.isFile && !wantsDirectory pattern
  return (kept.map (·.path)).mergeSort pathLe

end ManifestLint.Glob
