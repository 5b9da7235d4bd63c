import ManifestLint.CommandLine.Invocation

/-!
Levels of a command line: before the command, and behind each command. A level knows its own options
and those that every command has; the latter may be given once on each level.
-/

namespace ManifestLint.CommandLine

inductive Switch where
  | quiet
  | verbose
  | noColour
  | check
  | help
  | version
deriving DecidableEq, Repr

inductive Setting where
  | config
  | format
  | disable
deriving DecidableEq, Repr

inductive Flag where
  | switch (switch : Switch)
  | setting (setting : Setting)
deriving DecidableEq, Repr

inductive Level where
  | top
  | check
  | rules
  | template
  | completions
  | version
deriving DecidableEq, Repr

namespace Level

def ofName? (name : String) : Option Level :=
  if name = "check" then some .check
  else if name = "rules" then some .rules
  else if name = "template" then some .template
  else if name = "completions" then some .completions
  else if name = "version" then some .version
  else none

/-- The name of a command, or `help`, which is one too. -/
def isCommand (name : String) : Bool := (ofName? name).isSome || name == "help"

def knows (level : Level) : Flag → Bool
  | .switch .check => level == .template
  | .switch .version => level == .top
  | .switch _ => true
  | .setting .config => true
  | .setting .format => level == .check || level == .template
  | .setting .disable => level == .check

def longNames : List (String × Flag) :=
  [("quiet", .switch .quiet), ("verbose", .switch .verbose), ("no-color", .switch .noColour),
   ("check", .switch .check), ("help", .switch .help), ("version", .switch .version),
   ("config", .setting .config), ("format", .setting .format), ("disable", .setting .disable)]

def shortNames : List (Char × Flag) :=
  [('q', .switch .quiet), ('v', .switch .verbose), ('h', .switch .help), ('V', .switch .version),
   ('f', .setting .format)]

def long? (level : Level) (name : String) : Option Flag :=
  (longNames.lookup name).filter level.knows

def short? (level : Level) (name : Char) : Option Flag :=
  (shortNames.lookup name).filter level.knows

end Level

end ManifestLint.CommandLine
