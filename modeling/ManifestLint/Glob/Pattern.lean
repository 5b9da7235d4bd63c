/-!
Patterns of file names. A star stands for any characters, a question mark for one, and brackets for
one of a set of characters or, with an exclamation mark, for one outside it. Two stars are a pattern
of their own between slashes, for any directories.
-/

namespace ManifestLint.Glob

/-- First and last character of each range of a set. -/
abbrev CharSet := List (Char × Char)

def CharSet.holds (set : CharSet) (char : Char) : Bool :=
  set.any fun range => range.1 ≤ char && char ≤ range.2

inductive Piece where
  | literal (char : Char)
  | one
  | oneOf (set : CharSet)
  | oneOutside (set : CharSet)
  | any
  | anyDirectories
deriving DecidableEq, Repr

inductive PatternIssue where
  | tooManyStars
  | starsInsideName
  | badSet
deriving DecidableEq, Repr

structure PatternFault where
  position : Nat
  issue : PatternIssue
deriving DecidableEq, Repr

def PatternIssue.message : PatternIssue → String
  | .tooManyStars => "wildcards are either regular `*` or recursive `**`"
  | .starsInsideName => "recursive wildcards must form a single path component"
  | .badSet => "invalid range pattern"

def PatternFault.message (fault : PatternFault) : String :=
  s!"Pattern syntax error near position {fault.position}: {fault.issue.message}"

def readSet : List Char → CharSet
  | first :: '-' :: last :: rest => (first, last) :: readSet rest
  | char :: rest => (char, char) :: readSet rest
  | [] => []

/-- The characters up to a closing bracket, and what follows it. The first character is in the set
even if it is such a bracket. -/
def splitSet : List Char → Option (List Char × List Char)
  | [] => none
  | first :: rest =>
      match rest.dropWhile (· != ']') with
      | [] => none
      | _ :: after => some (first :: rest.takeWhile (· != ']'), after)

def readSetPiece : List Char → Option (Piece × List Char)
  | '!' :: text => (splitSet text).map fun (set, rest) => (.oneOutside (readSet set), rest)
  | text => (splitSet text).map fun (set, rest) => (.oneOf (readSet set), rest)

theorem length_lt_of_split_set {text set rest : List Char}
    (split : splitSet text = some (set, rest)) :
    rest.length < text.length := by
  unfold splitSet at split
  split at split
  · simp at split
  · next first after =>
    have sublist := (List.dropWhile_sublist (fun char => char != ']') (l := after)).length_le
    split at split
    · simp at split
    · next dropped =>
      cases split
      rw [dropped, List.length_cons] at sublist
      simp only [List.length_cons]
      omega

theorem length_lt_of_read_set_piece {text rest : List Char} {piece : Piece}
    (read : readSetPiece text = some (piece, rest)) : rest.length < text.length := by
  unfold readSetPiece at read
  split at read
  · obtain ⟨⟨set, last⟩, split, same⟩ := Option.map_eq_some_iff.1 read
    cases same
    exact Nat.lt_succ_of_lt (length_lt_of_split_set split)
  · obtain ⟨⟨set, last⟩, split, same⟩ := Option.map_eq_some_iff.1 read
    cases same
    exact length_lt_of_split_set split

/-- What a run of stars stands for, and how much of the text behind it belongs to it. Two stars need
the start of the text or a slash before them, and a slash or the end of the text behind them. -/
def readStars (position : Nat) (atStart : Bool) (count : Nat) (after : List Char) :
    Except PatternFault (Piece × List Char) :=
  if count = 1 then .ok (.any, after)
  else if 2 < count then .error ⟨position + 2, .tooManyStars⟩
  else if !atStart then .error ⟨position - 1, .starsInsideName⟩
  else
    match after with
    | [] => .ok (.anyDirectories, [])
    | char :: rest =>
        if char = '/' then .ok (.anyDirectories, rest)
        else .error ⟨position + 2, .starsInsideName⟩

theorem length_le_of_read_stars {position count : Nat} {atStart : Bool} {after rest : List Char}
    {piece : Piece} (read : readStars position atStart count after = .ok (piece, rest)) :
    rest.length ≤ after.length := by
  unfold readStars at read
  repeat' split at read
  all_goals simp only [reduceCtorEq, Except.ok.injEq, Prod.mk.injEq] at read
  all_goals rw [← read.2]
  all_goals simp

def readPieces (position : Nat) (atStart : Bool) (text : List Char) :
    Except PatternFault (List Piece) :=
  match text with
  | [] => .ok []
  | char :: rest =>
      if char = '*' then
        match _stars : readStars position atStart ((rest.takeWhile (· == '*')).length + 1)
            (rest.dropWhile (· == '*')) with
        | .error fault => .error fault
        | .ok (piece, after) => do
            let read := rest.length + 1 - after.length
            return piece :: (← readPieces (position + read) (piece == .anyDirectories) after)
      else if char = '[' then
        match _set : readSetPiece rest with
        | none => .error ⟨position, .badSet⟩
        | some (piece, after) => do
            let read := rest.length + 1 - after.length
            return piece :: (← readPieces (position + read) false after)
      else do
        let piece := if char = '?' then .one else .literal char
        return piece :: (← readPieces (position + 1) (char = '/') rest)
termination_by text.length
decreasing_by
  · have shorter := length_le_of_read_stars _stars
    have sublist := (List.dropWhile_sublist (fun char => char == '*') (l := rest)).length_le
    simp only [List.length_cons]
    omega
  · have shorter := length_lt_of_read_set_piece _set
    simp only [List.length_cons]
    omega
  · simp only [List.length_cons]
    omega

def Piece.fits (char : Char) : Piece → Bool
  | .literal expected => char == expected
  | .one => true
  | .oneOf set => set.holds char
  | .oneOutside set => !set.holds char
  | .any => false
  | .anyDirectories => false

/-- Whether a star that the pattern continues behind fits a text: some end of the text fits. -/
def fitsSomeEnd (fits : List Char → Bool) : List Char → Bool
  | [] => fits []
  | char :: rest => fits (char :: rest) || fitsSomeEnd fits rest

def fits : List Piece → List Char → Bool
  | [], text => text.isEmpty
  | .any :: pieces, text => fitsSomeEnd (fits pieces) text
  | piece :: pieces, char :: text => piece.fits char && fits pieces text
  | _ :: _, [] => false

inductive Component where
  | name (text : List Char)
  | wild (pieces : List Piece)
  | anyDirectories
deriving DecidableEq, Repr

def literals? : List Piece → Option (List Char)
  | [] => some []
  | .literal char :: pieces => (literals? pieces).map (char :: ·)
  | _ :: _ => none

def Component.ofPieces (pieces : List Piece) : Component :=
  if pieces = [.anyDirectories] then .anyDirectories
  else
    match literals? pieces with
    | some text => .name text
    | none => .wild pieces

def Component.ofText (text : List Char) : Except PatternFault Component :=
  (readPieces 0 true text).map Component.ofPieces

def Component.fits (name : String) : Component → Bool
  | .name text => name.toList == text
  | .wild pieces => Glob.fits pieces name.toList
  | .anyDirectories => false

end ManifestLint.Glob
