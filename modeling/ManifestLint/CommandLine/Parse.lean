import ManifestLint.CommandLine.Given

/-!
Reading a command line. Arguments before the command and behind it are read by the same rules. What
stands behind the command is looked at first where both parts are at fault.
-/

namespace ManifestLint.CommandLine

inductive Shape where
  | dashes
  | long (text : List Char)
  | short (text : List Char)
  | plain
deriving DecidableEq, Repr

/-- A single dash is no option. -/
def Shape.ofText (text : List Char) : Shape :=
  match text with
  | ['-', '-'] => .dashes
  | '-' :: '-' :: rest => .long rest
  | '-' :: char :: rest => .short (char :: rest)
  | _ => .plain

def readLiterally (level : Level) (given : Given) : List String → Except UsageFault Given
  | [] => .ok given
  | argument :: arguments => do
      readLiterally level (← given.takePlain level true argument) arguments

/-- Reads one argument that names no command. An argument that looks like an option is no value of a
setting. -/
def readArgument (level : Level) (given : Given) (argument : String) : Except UsageFault Given :=
  match Shape.ofText argument.toList with
  | .long text => given.takeLong level text
  | .short text => given.takeShort level text
  | _ =>
      match given.awaited with
      | some setting => .ok { given with pending := some (.value setting argument) }
      | none => given.takePlain level false argument

def readLevel (level : Level) (given : Given) : List String → Except UsageFault Given
  | [] => .ok given
  | argument :: arguments =>
      if argument = "--" then readLiterally level given arguments
      else do readLevel level (← readArgument level given argument) arguments

def commandOf (level : Level) (given : Given) : Except UsageFault Command :=
  match level with
  | .top => .error .missingCommand
  | .check => .ok (.check given.paths given.format given.disable)
  | .rules => .ok .rules
  | .template =>
      let check := given.switches.contains .check
      if given.format.isSome && !check then .error .missingRequired
      else .ok (.template check given.format)
  | .completions =>
      match given.shell with
      | some shell => .ok (.completions shell)
      | none => .error .missingRequired
  | .version => .ok .version

/-- The words behind `help` are a command at most. -/
def helpFault : List String → UsageFault
  | [] => .helpWanted
  | [name] => if Level.isCommand name then .helpWanted else .unknownCommand
  | _ :: _ :: _ => .unknownCommand

/-- What was given before the command and behind it together; of two configs the latter counts. -/
def combine (outer inner : Given) (command : Command) : Invocation :=
  let on (switch : Switch) := outer.switches.contains switch || inner.switches.contains switch
  ⟨command, on .quiet, on .verbose, on .noColour, inner.config.or outer.config⟩

def readCommand (outer : Given) (level : Level) (arguments : List String) :
    Except UsageFault Invocation := do
  let inner ← (← readLevel level .empty arguments).settle
  let command ← commandOf level inner
  return combine (← outer.settle) inner command

def withoutCommand (given : Given) : Except UsageFault Invocation := do
  let settled ← given.settle
  throw (if settled.switches.isEmpty &&
    settled.config.isNone then .nothingGiven else .missingCommand)

def readTop (given : Given) : List String → Except UsageFault Invocation
  | [] => withoutCommand given
  | argument :: arguments =>
      if given.awaited.isNone && argument == "help" then .error (helpFault arguments)
      else
        match if given.awaited.isNone then Level.ofName? argument else none with
        | some level => readCommand given level arguments
        | none =>
            if argument = "--" then do withoutCommand (← readLiterally .top given arguments)
            else do readTop (← readArgument .top given argument) arguments

def parse (arguments : List String) : Except UsageFault Invocation := readTop .empty arguments

end ManifestLint.CommandLine
