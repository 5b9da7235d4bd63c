import ManifestLint.Yaml.Character
import ManifestLint.Yaml.Scalar.Quoted
import ManifestLint.Yaml.Token

/-!
Names of tags as they are written: a handle and a suffix, or the full name between angle brackets.
An octet of a suffix may be written as a percent sign and two hexadecimal digits; such octets come
in groups as wide as the first of them announces in UTF-8.
-/

namespace ManifestLint.Yaml

def isUriMark (char : Char) : Bool :=
  [';', '/', '?', ':', '@', '&', '=', '+', '$', '.', '!', '~', '*', '\'', '(', ')'].contains char

/-- Commas and square brackets stand for themselves only where no flow collection can be meant. -/
def isUriChar (free : Bool) (char : Char) : Bool :=
  isWord char || isUriMark char || (free && (char == ',' || char == '[' || char == ']'))

def groupWidth (octet : Nat) : Option Nat :=
  if octet < 0x80 then some 1
  else if octet < 0xC0 then none
  else if octet < 0xE0 then some 2
  else if octet < 0xF0 then some 3
  else if octet < 0xF8 then some 4
  else none

def readOctet : List Char → Option (Nat × List Char)
  | '%' :: high :: low :: rest => do some ((← hexValue high) * 16 + (← hexValue low), rest)
  | _ => none

def readTrailingOctets : Nat → List Char → Option (List UInt8 × List Char)
  | 0, text => some ([], text)
  | count + 1, text => do
      let (octet, rest) ← readOctet text
      let (octets, rest) ← readTrailingOctets count rest
      if octet / 64 = 2 then some (octet.toUInt8 :: octets, rest) else none

def readOctets (text : List Char) : Option (List UInt8 × List Char) := do
  let (octet, rest) ← readOctet text
  let width ← groupWidth octet
  let (octets, rest) ← readTrailingOctets (width - 1) rest
  some (octet.toUInt8 :: octets, rest)

theorem length_lt_of_read_octet {text rest : List Char} {octet : Nat}
    (read : readOctet text = some (octet, rest)) : rest.length < text.length := by
  unfold readOctet at read
  split at read
  · simp only [Option.bind_eq_bind, Option.bind_eq_some_iff] at read
    obtain ⟨high, _, low, _, same⟩ := read
    cases same
    simp only [List.length_cons]
    omega
  · simp at read

theorem length_le_of_read_trailing_octets {count : Nat} {text rest : List Char}
    {octets : List UInt8} (read : readTrailingOctets count text = some (octets, rest)) :
    rest.length ≤ text.length := by
  induction count generalizing text rest octets with
  | zero =>
      rw [readTrailingOctets] at read
      cases read
      exact Nat.le_refl _
  | succ count induction =>
      simp only [readTrailingOctets, Option.bind_eq_bind, Option.bind_eq_some_iff] at read
      obtain ⟨⟨octet, next⟩, first, ⟨more, last⟩, others, checked⟩ := read
      simp only [Option.ite_none_right_eq_some, Option.some.injEq, Prod.mk.injEq] at checked
      rw [← checked.2.2]
      exact Nat.le_trans (induction others) (Nat.le_of_lt (length_lt_of_read_octet first))

theorem length_lt_of_read_octets {text rest : List Char} {octets : List UInt8}
    (read : readOctets text = some (octets, rest)) : rest.length < text.length := by
  simp only [readOctets, Option.bind_eq_bind, Option.bind_eq_some_iff] at read
  obtain ⟨⟨octet, next⟩, first, width, _, ⟨more, last⟩, others, same⟩ := read
  cases same
  exact Nat.lt_of_le_of_lt (length_le_of_read_trailing_octets others)
    (length_lt_of_read_octet first)

def readUri (free : Bool) (text : List Char) : Option (List UInt8 × List Char) :=
  if startsWith '%' text then
    match _group : readOctets text with
    | none => none
    | some (octets, rest) => (readUri free rest).map fun (more, rest) => (octets ++ more, rest)
  else
    match text with
    | [] => some ([], [])
    | char :: after =>
        if isUriChar free char then
          (readUri free after).map fun (more, rest) => (char.toNat.toUInt8 :: more, rest)
        else some ([], text)
termination_by text.length
decreasing_by
  · exact length_lt_of_read_octets _group
  · simp only [List.length_cons]
    omega

theorem length_le_of_read_uri {free : Bool} {text rest : List Char} {octets : List UInt8}
    (read : readUri free text = some (octets, rest)) : rest.length ≤ text.length := by
  fun_induction readUri free text generalizing octets rest with
  | case1 => simp at read
  | case2 text _ group next found induction =>
      simp only [Option.map_eq_some_iff] at read
      obtain ⟨⟨more, last⟩, inner, same⟩ := read
      cases same
      exact Nat.le_trans (induction inner) (Nat.le_of_lt (length_lt_of_read_octets found))
  | case3 => cases read; exact Nat.le_refl _
  | case4 char after _ _ induction =>
      simp only [Option.map_eq_some_iff] at read
      obtain ⟨⟨more, last⟩, inner, same⟩ := read
      cases same
      exact Nat.le_succ_of_le (induction inner)
  | case5 => cases read; exact Nat.le_refl _

def asciiOctets (text : List Char) : List UInt8 := text.map (·.toNat.toUInt8)

def readFullName (text : List Char) : Option (TagName × List Char) := do
  let (octets, rest) ← readUri true text
  match octets, rest with
  | [], _ => none
  | octets, '>' :: rest => some (⟨[], octets⟩, rest)
  | _, _ => none

/-- A name of a handle and a suffix, after the first exclamation mark. The handle is `!` unless a
second exclamation mark ends a word; a name of nothing more has an empty handle and the suffix `!`.
-/
def readShortName (text : List Char) : Option (TagName × List Char) :=
  let word := text.takeWhile isWord
  match text.dropWhile isWord with
  | '!' :: after => do
      let (octets, rest) ← readUri false after
      if octets.isEmpty then none else some (⟨'!' :: word ++ ['!'], octets⟩, rest)
  | after => do
      let (octets, rest) ← readUri false after
      let suffix := asciiOctets word ++ octets
      some (if suffix.isEmpty then ⟨[], asciiOctets ['!']⟩ else ⟨['!'], suffix⟩, rest)

def readTagName : List Char → Option (TagName × List Char)
  | '<' :: text => readFullName text
  | text => readShortName text

/-- A tag's name, after its first exclamation mark. A gap follows it, or in a flow collection a
comma. -/
def readTag (flow : Bool) (text : List Char) : Option (TagName × List Char) := do
  let (name, rest) ← readTagName text
  if atGap rest || (flow && startsWith ',' rest) then some (name, rest) else none

theorem length_le_of_read_full_name {text rest : List Char} {name : TagName}
    (read : readFullName text = some (name, rest)) : rest.length ≤ text.length := by
  simp only [readFullName, Option.bind_eq_bind, Option.bind_eq_some_iff] at read
  obtain ⟨⟨octets, after⟩, uri, named⟩ := read
  have shorter := length_le_of_read_uri uri
  dsimp only at named
  split at named
  · simp at named
  · cases named
    simp only [List.length_cons] at shorter
    omega
  · simp at named

theorem length_le_of_read_short_name {text rest : List Char} {name : TagName}
    (read : readShortName text = some (name, rest)) : rest.length ≤ text.length := by
  have sublist := (List.dropWhile_sublist isWord (l := text)).length_le
  simp only [readShortName] at read
  split at read
  · next after dropped =>
    simp only [Option.bind_eq_bind, Option.bind_eq_some_iff] at read
    obtain ⟨⟨octets, next⟩, uri, named⟩ := read
    have shorter := length_le_of_read_uri uri
    simp only [Option.ite_none_left_eq_some] at named
    cases named.2
    rw [dropped, List.length_cons] at sublist
    exact Nat.le_trans shorter (Nat.le_of_succ_le sublist)
  · simp only [Option.bind_eq_bind, Option.bind_eq_some_iff] at read
    obtain ⟨⟨octets, next⟩, uri, named⟩ := read
    have shorter := length_le_of_read_uri uri
    cases named
    exact Nat.le_trans shorter sublist

theorem length_le_of_read_tag {flow : Bool} {text rest : List Char} {name : TagName}
    (read : readTag flow text = some (name, rest)) : rest.length ≤ text.length := by
  simp only [readTag, Option.bind_eq_bind, Option.bind_eq_some_iff] at read
  obtain ⟨⟨found, last⟩, named, checked⟩ := read
  simp only [Option.ite_none_right_eq_some] at checked
  cases checked.2
  unfold readTagName at named
  split at named
  · exact Nat.le_succ_of_le (length_le_of_read_full_name named)
  · exact length_le_of_read_short_name named

end ManifestLint.Yaml
