import ManifestLint.Yaml.Character

/-!
How much of a stream can be had. Its characters are checked a chunk of bytes at a time, and a chunk
is checked before any character in it is looked at. So one character outside the permitted ranges
keeps its whole chunk, and everything behind that, from being read.
-/

namespace ManifestLint.Yaml

/-- How many bytes make a chunk. A character that does not fit in goes into the next one. -/
def chunkSize : Nat := 16384

/-- How many characters lie before the first chunk that holds a character that is not permitted. The
chunk being filled holds some characters already, and has room for so many bytes. -/
def checkedLength (room held : Nat) : List Char → Nat
  | [] => held
  | char :: rest =>
      if char.utf8Size ≤ room then
        if isPermitted char then checkedLength (room - char.utf8Size) (held + 1) rest else 0
      else if isPermitted char then held + checkedLength (chunkSize - char.utf8Size) 1 rest
      else held

/-- How many characters of a stream each character of its normalised text was made of. -/
def widths : List Char → List Nat
  | '\r' :: '\n' :: rest => 2 :: widths rest
  | _ :: rest => 1 :: widths rest
  | [] => []

/-- How many characters of a stream these widths are of. -/
def total (widths : List Nat) : Nat := widths.foldr (· + ·) 0

@[simp] theorem total_nil : total [] = 0 := rfl

/-- What a scanner asks for: at a place before so many characters of the normalised text, so many
characters of the stream. -/
structure Demand where
  left : Nat
  count : Nat
deriving DecidableEq, Repr

/-- All of a stream, and its end; or all but some last characters, for a text whose characters are
so wide, the last first. -/
inductive Supply where
  | whole
  | without (hidden : Nat) (widths : List Nat)
deriving DecidableEq, Repr

namespace Supply

def ofStream (stream : List Char) : Supply :=
  if stream.all isPermitted then .whole
  else .without (stream.length - checkedLength chunkSize 0 stream) (widths stream).reverse

def serves (supply : Supply) (demands : List Demand) : Bool :=
  match supply with
  | .whole => true
  | .without hidden widths =>
      demands.all fun demand => demand.count + hidden ≤ total (widths.take demand.left)

@[simp] theorem whole_serves (demands : List Demand) : whole.serves demands = true := rfl

@[simp] theorem without_serves_no_end (hidden : Nat) (widths : List Nat) :
    (without hidden widths).serves [⟨0, 4⟩] = false := by simp [serves]

theorem of_permitted {stream : List Char} (permitted : stream.all isPermitted = true) :
    ofStream stream = .whole := if_pos permitted

end Supply

end ManifestLint.Yaml
