import ManifestLint.Glob.Expansion

/-!
Inputs: standard input and files, as arguments name them. An argument with wildcards stands for the
files it leads to, unless a file has that very name.
-/

namespace ManifestLint

inductive Input where
  | stdin
  | file (path : String)
deriving DecidableEq, Repr

inductive InputFault where
  | badPattern (pattern : String) (fault : Glob.PatternFault)
  | noMatch (pattern : String)
  | repeatedStdin
deriving DecidableEq, Repr

def InputFault.message : InputFault → String
  | .badPattern pattern fault => s!"Invalid glob pattern '{pattern}': {fault.message}"
  | .noMatch pattern => s!"No manifests match '{pattern}'"
  | .repeatedStdin => "stdin ('-') can only be given once"

namespace Input

def source : Input → String
  | .stdin => "<stdin>"
  | .file path => path

def hasWildcard (argument : String) : Bool :=
  argument.toList.any fun char => char == '*' || char == '?' || char == '['

def resolveOne (tree : FileTree) (argument : String) : Except InputFault (List Input) :=
  if argument = "-" then .ok [.stdin]
  else if !hasWildcard argument || tree.hasFile argument then .ok [.file argument]
  else
    match Glob.files tree argument with
    | .error fault => .error (.badPattern argument fault)
    | .ok [] => .error (.noMatch argument)
    | .ok paths => .ok (paths.map .file)

def resolveAll (tree : FileTree) : List String → Except InputFault (List Input)
  | [] => .ok []
  | argument :: arguments => do
      let inputs ← resolveOne tree argument
      return inputs ++ (← resolveAll tree arguments)

/-- The inputs that some arguments name in their order; without arguments the usual manifest.
Standard input can be read only once. -/
def resolve (tree : FileTree) (arguments : List String) : Except InputFault (List Input) := do
  if arguments.isEmpty then return [.file "Dockerfile"]
  let inputs ← resolveAll tree arguments
  if 1 < inputs.count .stdin then throw .repeatedStdin
  return inputs

end Input

end ManifestLint
