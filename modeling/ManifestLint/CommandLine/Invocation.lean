/-!
Invocations: a command with its own options, and the options that every command has.
-/

namespace ManifestLint.CommandLine

inductive Shell where
  | bash
  | elvish
  | fish
  | powershell
  | zsh
deriving DecidableEq, Repr

def Shell.name : Shell → String
  | .bash => "bash"
  | .elvish => "elvish"
  | .fish => "fish"
  | .powershell => "powershell"
  | .zsh => "zsh"

def Shell.ofName? (name : String) : Option Shell :=
  [Shell.bash, .elvish, .fish, .powershell, .zsh].find? (·.name == name)

inductive Command where
  | check (paths : List String) (format : Option String) (disable : List String)
  | rules
  | template (check : Bool) (format : Option String)
  | completions (shell : Shell)
  | version
deriving DecidableEq, Repr

structure Invocation where
  command : Command
  quiet : Bool
  verbose : Bool
  noColour : Bool
  config : Option String
deriving DecidableEq, Repr

/-- Why arguments make no invocation. Asking for help or for the version is one of the reasons. -/
inductive UsageFault where
  | helpWanted
  | versionWanted
  | nothingGiven
  | missingCommand
  | unknownCommand
  | unknownArgument
  | missingValue
  | badValue
  | repeatedOption
  | needlessValue
  | missingRequired
deriving DecidableEq, Repr

end ManifestLint.CommandLine
