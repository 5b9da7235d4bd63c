import ManifestLint.Yaml.Gap

/-!
Plain scalars: runs of text with gaps between them. A run ends at a blank or break, at a colon
before a gap, and inside flow collections at a flow indicator. The scalar ends where the next line
is not indented enough, at a comment, at a document marker, or where no run follows a gap.
-/

namespace ManifestLint.Yaml

def isFlowIndicator (char : Char) : Bool :=
  char == ',' || char == '[' || char == ']' || char == '\x7b' || char == '\x7d'

/-- In flow collections a colon may not stand right before a flow indicator or a question mark. -/
def strayColon (rest : List Char) : Bool :=
  match rest with
  | char :: _ => isFlowIndicator char || char == '?'
  | [] => false

def readRun (flow : Bool) : List Char → Option (List Char × List Char)
  | [] => some ([], [])
  | char :: rest =>
      if isSpace char || isBreak char then some ([], char :: rest)
      else if flow && char == ':' && strayColon rest then none
      else if (char == ':' && atGap rest) || (flow && isFlowIndicator char) then
        some ([], char :: rest)
      else (readRun flow rest).map fun (run, rest) => (char :: run, rest)

theorem length_le_of_read_run {flow : Bool} {text run rest : List Char}
    (read : readRun flow text = some (run, rest)) : rest.length ≤ text.length := by
  induction text generalizing run rest with
  | nil =>
      rw [readRun] at read
      cases read
      exact Nat.le_refl _
  | cons char text induction =>
      rw [readRun] at read
      split at read
      · cases read
        exact Nat.le_refl _
      · split at read
        · simp at read
        · split at read
          · cases read
            exact Nat.le_refl _
          · simp only [Option.map_eq_some_iff, Prod.mk.injEq] at read
            obtain ⟨⟨inner, last⟩, found, _, same⟩ := read
            rw [← same]
            exact Nat.le_succ_of_le (induction found)

def leavesBlock (flow : Bool) (indentation : Nat) (gap : Gap) : Bool :=
  !flow && gap.broken && gap.column < indentation

def endsAt (flow : Bool) (indentation : Nat) (gap : Gap) (rest : List Char) : Bool :=
  leavesBlock flow indentation gap || (gap.atLineStart && atMarker rest) || startsWith '#' rest

/-- A plain scalar's text up to its end, whether a line ended behind that text, and what follows.
The gap behind the last run is read and left out. -/
def readPlain (flow : Bool) (indentation : Nat) (text : List Char) :
    Option (List Char × Bool × List Char) :=
  match _run : readRun flow text with
  | none => none
  | some (run, []) => some (run, false, [])
  | some (run, char :: after) =>
      if _inside : (isSpace char || isBreak char) = true then
        match _gap : Gap.empty.take indentation (char :: after) with
        | none => none
        | some (gap, rest) =>
            if endsAt flow indentation gap rest then some (run, gap.broken, rest)
            else
              match readPlain flow indentation rest with
              | none => none
              | some ([], _, last) => some (run, gap.broken, last)
              | some (more, ended, last) => some (run ++ gap.fold ++ more, ended, last)
      else some (run, false, char :: after)
termination_by text.length
decreasing_by
  have shorter := length_le_of_read_run _run
  have gapShorter := Gap.length_lt_of_take _inside _gap
  omega

theorem length_le_of_read_plain {flow ended : Bool} {indentation : Nat} {text read rest : List Char}
    (result : readPlain flow indentation text = some (read, ended, rest)) :
    rest.length ≤ text.length := by
  fun_induction readPlain flow indentation text generalizing read ended rest with
  | case1 => simp at result
  | case2 => cases result; exact Nat.zero_le _
  | case3 => simp at result
  | case4 text run char after found inside gap last taken stops =>
      cases result
      have shorter := length_le_of_read_run found
      have gapShorter := Gap.length_lt_of_take inside taken
      omega
  | case5 => simp at result
  | case6 text run char after found inside gap next taken goes ended last more induction =>
      cases result
      have shorter := length_le_of_read_run found
      have gapShorter := Gap.length_lt_of_take inside taken
      have lastShorter := induction more
      omega
  | case7 text run char after found inside gap next taken goes more ended last nonempty inner
      induction =>
      cases result
      have shorter := length_le_of_read_run found
      have gapShorter := Gap.length_lt_of_take inside taken
      have lastShorter := induction inner
      omega
  | case8 text run char after found =>
      cases result
      exact length_le_of_read_run found

/-- What is asked for on the way through a plain scalar: two characters behind a run, one behind a
gap, and as many as a document marker may take where the indentation allows for more text. -/
def plainDemands (flow : Bool) (indentation : Nat) (text : List Char) : List Demand :=
  match _run : readRun flow text with
  | none => []
  | some (_, []) => [⟨0, 2⟩]
  | some (_, char :: after) =>
      ⟨after.length + 1, 2⟩ ::
        if _inside : (isSpace char || isBreak char) = true then
          match _gap : Gap.empty.take indentation (char :: after) with
          | none => []
          | some (gap, rest) =>
              ⟨rest.length, if leavesBlock flow indentation gap then 1 else 4⟩ ::
                (if endsAt flow indentation gap rest then []
                  else plainDemands flow indentation rest)
        else []
termination_by text.length
decreasing_by
  have shorter := length_le_of_read_run _run
  have gapShorter := Gap.length_lt_of_take _inside _gap
  omega

end ManifestLint.Yaml
