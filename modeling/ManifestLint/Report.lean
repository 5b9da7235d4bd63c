import ManifestLint.Colour
import ManifestLint.Engine
import ManifestLint.Json

/-!
The report of a run: for each checked manifest, in order, its source label and its findings. A
report is shown as text, as its failure lines alone, or as one JSON document.
-/

namespace ManifestLint

structure ManifestReport where
  source : String
  findings : List Finding
deriving DecidableEq, Repr

def ManifestReport.passed (entry : ManifestReport) : Bool := entry.findings.isEmpty

structure Report where
  entries : List ManifestReport
deriving DecidableEq, Repr

namespace Report

def empty : Report := ⟨[]⟩

def add (report : Report) (entry : ManifestReport) : Report := ⟨report.entries ++ [entry]⟩

def issueCount (report : Report) : Nat := (report.entries.flatMap (·.findings)).length

def hasIssues (report : Report) : Bool := report.entries.any (!·.passed)

def failureLines (colour : Bool) (entry : ManifestReport) : List String :=
  entry.findings.map fun finding =>
    Hue.red.paint colour "✗" ++ " " ++ entry.source ++ ": " ++ finding.message

def passLine (colour : Bool) (entry : ManifestReport) : String :=
  Hue.green.paint colour "✓" ++ " " ++ entry.source

def entryLines (colour : Bool) (entry : ManifestReport) : List String :=
  if entry.passed then [passLine colour entry] else failureLines colour entry

/-- The count and its noun, which is singular exactly for one. -/
def counted (count : Nat) (noun : String) : String :=
  Text.decimal count ++ " " ++ noun ++ (if count = 1 then "" else "s")

def summary (report : Report) : String :=
  let manifests := counted report.entries.length "manifest"
  if report.issueCount = 0 then "All " ++ manifests ++ " passed."
  else "Found " ++ counted report.issueCount "issue" ++ " in " ++ manifests ++ "."

def text (report : Report) (colour : Bool) : String :=
  Text.joinLines (report.entries.flatMap (entryLines colour) ++ ["", report.summary])

def failures (report : Report) (colour : Bool) : String :=
  Text.joinLines (report.entries.flatMap (failureLines colour))

def findingJson (finding : Finding) : Json :=
  .object [("rule", .string finding.rule), ("message", .string finding.message)]

def entryJson (entry : ManifestReport) : Json :=
  .object [("source", .string entry.source), ("passed", .boolean entry.passed),
    ("issues", .array (entry.findings.map findingJson))]

def toJson (report : Report) (checkedAt : String) : Json :=
  .object [("checked_at", .string checkedAt), ("manifests", .array (report.entries.map entryJson)),
    ("total_issues", .number report.issueCount)]

def json (report : Report) (checkedAt : String) : String := (report.toJson checkedAt).pretty

end Report

end ManifestLint
