import ManifestLint.Yaml.Event

/-!
The events of a stream that holds one document. Directives may stand before the document; after it
nothing but document ends may follow.
-/

namespace ManifestLint.Yaml

/-- The events of the only document, up to the first fault. A sound stream without a document has no
events. -/
structure EventStream where
  events : List Event
  sound : Bool
deriving DecidableEq, Repr

/-- The events that goals make of tokens, and the tokens left when every goal is met. -/
def pursue (handles : Handles) (goals : List Goal) (tokens : List Token) :
    List Event × Option (List Token) :=
  match goals with
  | [] => ([], some tokens)
  | goal :: goals =>
      match _stepped : goal.step handles tokens with
      | none => ([], none)
      | some next =>
          let later := pursue handles (next.goals ++ goals) next.rest
          (next.event.toList ++ later.1, later.2)
termination_by work goals tokens
decreasing_by
  have smaller := work_lt_of_step _stepped
  simp only [work, weigh_append, weigh] at smaller ⊢
  omega

structure Directives where
  handles : Handles
  versioned : Bool
deriving DecidableEq, Repr

def supportsVersion (major minor : Nat) : Bool := major == 1 && (minor == 1 || minor == 2)

/-- The directives at the start of some tokens: one version at most, and each handle once. -/
def readDirectives (known : Directives) : List Token → Option (Directives × List Token)
  | .versionDirective major minor :: rest =>
      if known.versioned || !supportsVersion major minor then none
      else readDirectives { known with versioned := true } rest
  | .tagDirective handle expansion :: rest =>
      if known.handles.any (·.1 == handle) then none
      else readDirectives { known with handles := (handle, expansion) :: known.handles } rest
  | rest => some (known, rest)

def readAnnounced (handles : Handles) (tokens : List Token) : List Event × Option (List Token) :=
  match tokens with
  | [] => ([], none)
  | .documentEnd :: _ | .documentStart :: _ | .streamEnd :: _ => ([.omitted .absent], some tokens)
  | .versionDirective _ _ :: _ | .tagDirective _ _ :: _ => ([.omitted .absent], some tokens)
  | tokens => pursue handles [.node true false] tokens

def readDocument (tokens : List Token) : List Event × Option (List Token) :=
  match readDirectives ⟨[], false⟩ tokens with
  | none => ([], none)
  | some (directives, .documentStart :: rest) =>
      readAnnounced (directives.handles ++ Handles.standard) rest
  | some (directives, rest) =>
      if directives = ⟨[], false⟩ then pursue Handles.standard [.node true false] rest
        else ([], none)

def endsStream (rest : Option (List Token)) : Bool :=
  rest.any fun tokens => tokens.dropWhile (· == .documentEnd) == [.streamEnd]

def EventStream.ofTokens (tokens : List Token) : EventStream :=
  if tokens = [.streamEnd] then ⟨[], true⟩
  else
    let document := readDocument tokens
    ⟨document.1, endsStream document.2⟩

end ManifestLint.Yaml
