import ManifestLint.CommandLine.Level

/-!
What one level of a command line was given so far. The latest value is looked at only when it is
clear that the next argument does not belong to it; until then it is pending.
-/

namespace ManifestLint.CommandLine

/-- A value that is still to be looked at, or to come. -/
inductive Pending where
  | awaited (setting : Setting)
  | value (setting : Setting) (text : String)
  | shell (text : String)
deriving DecidableEq, Repr

structure Given where
  switches : List Switch
  config : Option String
  format : Option String
  disable : List String
  paths : List String
  shell : Option Shell
  pending : Option Pending
deriving DecidableEq, Repr

namespace Given

def empty : Given := ⟨[], none, none, [], [], none, none⟩

def awaited (given : Given) : Option Setting :=
  match given.pending with
  | some (.awaited setting) => some setting
  | _ => none

/-- Takes a value for a setting. Only rules to disable may be given repeatedly, and the path of a
config may not be empty. -/
def set (given : Given) (text : String) : Setting → Except UsageFault Given
  | .config =>
      if given.config.isSome then .error .repeatedOption
      else if text.isEmpty then .error .badValue
      else .ok { given with config := some text }
  | .format =>
      if given.format.isSome then .error .repeatedOption
      else .ok { given with format := some text }
  | .disable => .ok { given with disable := given.disable ++ [text] }

def settle (given : Given) : Except UsageFault Given :=
  let rest := { given with pending := none }
  match given.pending with
  | none => .ok rest
  | some (.awaited _) => .error .missingValue
  | some (.value setting text) => rest.set text setting
  | some (.shell text) =>
      match Shell.ofName? text with
      | some shell => .ok { rest with shell := some shell }
      | none => .error .badValue

def turnOn (given : Given) (switch : Switch) : Except UsageFault Given := do
  let settled ← given.settle
  match switch with
  | .help => throw .helpWanted
  | .version => throw .versionWanted
  | switch =>
      if settled.switches.contains switch then throw .repeatedOption
      return { settled with switches := switch :: settled.switches }

def await (given : Given) (setting : Setting) : Except UsageFault Given := do
  return { ← given.settle with pending := some (.awaited setting) }

def attach (given : Given) (setting : Setting) (text : String) : Except UsageFault Given := do
  (← given.settle).set text setting

def takeLong (given : Given) (level : Level) (text : List Char) : Except UsageFault Given :=
  let name := String.ofList (text.takeWhile (· != '='))
  let attached := text.dropWhile (· != '=')
  match level.long? name, attached with
  | none, _ => .error .unknownArgument
  | some (.switch switch), [] => given.turnOn switch
  | some (.switch _), _ :: _ => .error .needlessValue
  | some (.setting setting), [] => given.await setting
  | some (.setting setting), _ :: value => given.attach setting (String.ofList value)

/-- Options by their short names in a row, after the dash. What follows the name of a setting is its
value. -/
def takeShort (given : Given) (level : Level) : List Char → Except UsageFault Given
  | [] => .ok given
  | name :: rest =>
      match level.short? name with
      | none => .error .unknownArgument
      | some (.switch switch) => do (← given.turnOn switch).takeShort level rest
      | some (.setting setting) =>
          match rest with
          | [] => given.await setting
          | '=' :: value => given.attach setting (String.ofList value)
          | value => given.attach setting (String.ofList value)

/-- An argument that is no option. `literally` tells that it stands behind two dashes. -/
def takePlain (given : Given) (level : Level) (literally : Bool) (text : String) :
    Except UsageFault Given :=
  match level with
  | .top =>
      .error (if literally && Level.isCommand text then .unknownArgument else .unknownCommand)
  | .check => do
      let settled ← given.settle
      return { settled with paths := settled.paths ++ [text] }
  | .completions =>
      let pending := match given.pending with
        | some (.shell _) => true
        | _ => false
      if given.shell.isSome || pending then .error .unknownArgument
      else do return { ← given.settle with pending := some (.shell text) }
  | _ => .error .unknownArgument

end Given

end ManifestLint.CommandLine
