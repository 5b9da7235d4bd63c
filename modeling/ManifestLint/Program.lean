import ManifestLint.Check
import ManifestLint.CommandLine.Parse
import ManifestLint.Listing
import ManifestLint.Template

/-!
Running an invocation. A run ends with a status and what it prints: 0 when nothing was found, 1 when
a rule fired, 2 when there was a fault, and then nothing is printed but the fault.

Left out are the colour of the label before a fault, the scripts for shells, the texts of help and
of faults of usage, and the log, of which there is only the directive.
-/

namespace ManifestLint

open CommandLine

structure Build where
  commit : String
  date : String
deriving DecidableEq, Repr

structure Environment where
  build : Build
  colour : Bool
  time : String
deriving DecidableEq, Repr

structure Outcome where
  status : Nat
  output : String
  fault : Option String
deriving DecidableEq, Repr

namespace Program

def version : String := "0.3.2"

/-- Diagnostics that are logged unless the surroundings say otherwise; more of them beats fewer. -/
def logDirective (verbose quiet : Bool) : String :=
  if verbose then "buildlint=debug" else if quiet then "error" else "warn"

def versionText (build : Build) (verbose : Bool) : String :=
  "buildlint " ++ version ++ "\n"
    ++ (if verbose then "commit: " ++ build.commit ++ "\nbuilt: " ++ build.date ++ "\n" else "")

/-- What is printed of a report. A quiet text report has its failure lines only. -/
def reportText (environment : Environment) (colour quiet : Bool) (format : OutputFormat)
    (report : Report) : String :=
  match format with
  | .json => report.json environment.time ++ "\n"
  | .text =>
      if quiet then
        let failures := report.failures colour
        if failures.isEmpty then "" else failures ++ "\n"
      else report.text colour ++ "\n"

def reportOutcome (environment : Environment) (colour quiet : Bool) (format : OutputFormat)
    (report : Report) : Outcome :=
  ⟨if report.hasIssues then 1 else 0, reportText environment colour quiet format report, none⟩

def templateReport (engine : Engine) : Report :=
  ⟨[⟨"<template>", engine.findings Template.manifest⟩]⟩

def usesColour (environment : Environment) (invocation : Invocation) (setup : Setup) : Bool :=
  environment.colour && !invocation.noColour && setup.config.colour

def disabledBy : Command → List String
  | .check _ _ disable => disable
  | _ => []

def runWith (environment : Environment) (around : Surroundings) (invocation : Invocation)
    (setup : Setup) : Except CheckFault Outcome := do
  let colour := usesColour environment invocation setup
  match invocation.command with
  | .check paths format _ =>
      let (format, report) ← setup.check around format paths
      return reportOutcome environment colour invocation.quiet format report
  | .rules => return ⟨0, Listing.text colour setup.engine.rules ++ "\n", none⟩
  | .template false _ => return ⟨0, Template.text, none⟩
  | .template true format =>
      let format ← setup.format format
      return reportOutcome environment colour invocation.quiet format (templateReport setup.engine)
  | .completions _ => return ⟨0, "", none⟩
  | .version => return ⟨0, versionText environment.build invocation.verbose, none⟩

def runLoaded (environment : Environment) (around : Surroundings) (invocation : Invocation) :
    Except CheckFault Outcome := do
  let setup ← Setup.load around invocation.config (disabledBy invocation.command)
  runWith environment around invocation setup

/-- Runs an invocation. The version needs no settings, and no scripts for shells are made here. -/
def run (environment : Environment) (around : Surroundings) (invocation : Invocation) : Outcome :=
  match invocation.command with
  | .completions _ => ⟨0, "", none⟩
  | .version => ⟨0, versionText environment.build invocation.verbose, none⟩
  | _ =>
      match runLoaded environment around invocation with
      | .ok outcome => outcome
      | .error fault => ⟨2, "", some ("Error: " ++ fault.message)⟩

end Program

end ManifestLint
