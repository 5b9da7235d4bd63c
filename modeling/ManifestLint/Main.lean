import Mathlib.Tactic.DeprecateTo
import ManifestLint.Program

/-!
The program. Of the file system it looks at what the settings and the arguments name: at directories
as deep as a pattern can lead, and at the bytes of no files but the settings and the inputs.
-/

namespace ManifestLint

def greatestDepth : Nat := 64

def pathOf (names : List String) : String := "/" ++ "/".intercalate names

def isFixed (segment : String) : Bool := !Input.hasWildcard segment

def openParts (pattern : String) : List String := (segments pattern).dropWhile isFixed

/-- The names to the directory where a pattern begins to search. Parts with a dot in front may lead
up. -/
def openNames (working : List String) (pattern : String) : List String :=
  let start := if FileTree.isAbsolute pattern then [] else working
  let ups := (openParts pattern).filter fun part => part.toList.head? == some '.'
  let steps := (segments pattern).takeWhile isFixed ++ ups.map fun _ => ".."
  steps.foldl (fun names step =>
    if step = "" ∨ step = "." then names
    else if step = ".." then names.dropLast
    else names ++ [step]) start

def openDepth (pattern : String) : Nat :=
  if (openParts pattern).contains "**" then greatestDepth else (openParts pattern).length

def putDirectory (names : List String) (root : Entry) : Entry :=
  if ((Place.ofRoot root).descend names).any (·.entry.isDirectory) then root
  else Entry.put .empty names root

def findAlong (root : Entry) (names : List String) : List String → IO Entry
  | [] => return root
  | segment :: segments => do
      if segment = "" ∨ segment = "." then findAlong root names segments
      else if segment = ".." then findAlong root names.dropLast segments
      else
        let here := names ++ [segment]
        let path := (← IO.currentDir) / pathOf here
        if ← path.isDir then findAlong (putDirectory here root) here segments
        else if ← path.pathExists then
          let bytes ← try IO.FS.readBinFile path catch _ => pure .empty
          return Entry.put (.file bytes.toList) here root
        else return root

def findPath (working : List String) (root : Entry) (path : String) : IO Entry :=
  findAlong root (if FileTree.isAbsolute path then [] else working) (segments path)

/-- Puts into a tree what is found below a directory, without the bytes of files. -/
def findBelow (root : Entry) (names : List String) : Nat → IO Entry
  | 0 => return root
  | depth + 1 => do
      let path := (← IO.currentDir) / pathOf names
      let items ← try path.readDir catch _ => pure #[]
      items.toList.foldlM (fun root item => do
        let here := names ++ [item.fileName]
        if ← item.path.isDir then findBelow (putDirectory here root) here depth
        else return Entry.put (.file []) here root) root

def findArgument (working : List String) (root : Entry) (argument : String) : IO Entry := do
  let found ← findPath working root argument
  if Input.hasWildcard argument then
    findBelow found (openNames working argument) (openDepth argument)
  else return found

def treeOf (working : List String) (root : Entry) : FileTree :=
  if leads : ((Place.ofRoot root).descend working).isSome then ⟨root, working, leads⟩ else .empty

/-- The tree in which a run finds what it finds in the file system. Which inputs the arguments name
does not depend on the bytes of files, so these are read for the inputs only. -/
def findTree (sources : Sources) (arguments : List String) : IO FileTree := do
  let working := (← IO.currentDir).components.filter (· ≠ "")
  let listed ← arguments.foldlM (findArgument working) (Entry.put .empty working .empty)
  let named :=
    match Input.resolve (treeOf working listed) arguments with
    | .ok inputs => inputs.map (·.source)
    | .error _ => []
  let settings := sources.globalPath.toList ++ [sources.projectPath] ++ sources.explicitPath.toList
  return treeOf working (← (settings ++ named).foldlM (findPath working) listed)

def usage : String :=
  "usage: buildlint [-q] [-v] [--no-color] [--config PATH] check|rules|template|completions|version"

def argumentsOf (invocation : CommandLine.Invocation) : List String :=
  match invocation.command with
  | .check paths _ _ => paths
  | _ => []

/-- Standard input is read only where an argument asks for it. -/
def readInput (arguments : List String) : IO (List UInt8) := do
  if arguments.contains "-" then return (← (← IO.getStdin).readBinToEnd).toList else return []

def allowsColour : IO Bool := do
  if !(← (← IO.getStdout).isTty) then return false
  else if (← IO.getEnv "CLICOLOR_FORCE").any (· ≠ "0") then return true
  else if (← IO.getEnv "NO_COLOR").isSome then return false
  else return (← IO.getEnv "CLICOLOR").all (· ≠ "0")

def timeNow : IO String := do
  let now := Std.Time.DateTime.ofTimestamp (← Std.Time.Timestamp.now) .UTC
  return now.format "uuuu-MM-dd'T'HH:mm:ss'Z'"

end ManifestLint

open ManifestLint in
def main (arguments : List String) : IO UInt32 := do
  match CommandLine.parse arguments with
  | .error .helpWanted =>
      IO.println usage
      return 0
  | .error .versionWanted =>
      IO.println ("buildlint " ++ Program.version)
      return 0
  | .error _ =>
      IO.eprintln usage
      return 2
  | .ok invocation =>
      let home ← IO.getEnv "HOME"
      let tree ← findTree (.ofHome home invocation.config) (argumentsOf invocation)
      let around : Surroundings := ⟨tree, home, ← readInput (argumentsOf invocation)⟩
      let environment : Environment := ⟨⟨"unknown", "unknown"⟩, ← allowsColour, ← timeNow⟩
      let outcome := Program.run environment around invocation
      IO.print outcome.output
      if let some fault := outcome.fault then IO.eprintln fault
      return outcome.status.toUInt32
