import ManifestLint.Manifest
import ManifestLint.Proofs.Text.Utf8

/-!
Decoding of manifests. Which bytes are well formed is said by the ranges of the bytes in each
sequence, and they turn out to be the encodings of texts. Other bytes are refused where the longest
well-formed start of them ends, and well-formed bytes with a zero among them at the first zero.
-/

namespace ManifestLint.Text

/-- A byte behind the first one of a sequence. -/
def IsTrailing (byte : UInt8) : Prop := 0x80 ≤ byte.toNat ∧ byte.toNat ≤ 0xBF

/-- The bytes of one character. No sequence is longer than it needs to be, none is of a surrogate,
and none leads past the last character. -/
inductive IsSequence : List UInt8 → Prop where
  | one {first : UInt8} (low : first.toNat ≤ 0x7F) : IsSequence [first]
  | two {first second : UInt8} (lead : 0xC2 ≤ first.toNat ∧ first.toNat ≤ 0xDF)
      (trailing : IsTrailing second) :
      IsSequence [first, second]
  | three {first second third : UInt8} (lead : 0xE0 ≤ first.toNat ∧ first.toNat ≤ 0xEF)
      (trailing : IsTrailing second ∧ IsTrailing third)
        (needed : first.toNat = 0xE0 → 0xA0 ≤ second.toNat)
      (noSurrogate : first.toNat = 0xED → second.toNat ≤ 0x9F) : IsSequence [first, second, third]
  | four {first second third fourth : UInt8} (lead : 0xF0 ≤ first.toNat ∧ first.toNat ≤ 0xF4)
      (trailing : IsTrailing second ∧ IsTrailing third ∧ IsTrailing fourth)
      (needed : first.toNat = 0xF0 → 0x90 ≤ second.toNat)
        (bounded : first.toNat = 0xF4 → second.toNat ≤ 0x8F) :
      IsSequence [first, second, third, fourth]

/-- Bytes that are made of whole sequences. -/
inductive IsWellFormed : List UInt8 → Prop where
  | nothing : IsWellFormed []
  | sequence {first rest : List UInt8} (starts : IsSequence first) (behind : IsWellFormed rest) :
      IsWellFormed (first ++ rest)

theorem trailing_of_bits (bits : Nat) : IsTrailing (trailingByte bits) := by
  rw [IsTrailing, trailing_byte_value]
  omega

theorem sequence_of_char (char : Char) : IsSequence (String.utf8EncodeChar char) := by
  obtain ⟨byte, lead, fits⟩ := Lead.exists_fitting char
  have valid : char.toNat < 0xD800 ∨ 0xDFFF < char.toNat ∧ char.toNat < 0x110000 := valid_char char
  rw [encode_char_of_fits fits]
  obtain ⟨first, high, least⟩ := fits
  rcases lead_of_byte_eq_some first with ⟨low, rfl⟩ | ⟨_, _, rfl⟩ | ⟨_, _, rfl⟩ | ⟨_, _, rfl⟩
  · exact .one (by omega)
  · simp only [Nat.reducePow] at high least
    exact .two (by omega) (trailing_of_bits _)
  · simp only [Nat.reducePow] at high least
    refine .three (by omega) ⟨trailing_of_bits _, trailing_of_bits _⟩ ?_ ?_
    · simp only [trailing_byte_value, Nat.reducePow]
      omega
    · simp only [trailing_byte_value, Nat.reducePow]
      omega
  · simp only [Nat.reducePow] at high least
    refine .four (by omega) ⟨trailing_of_bits _, trailing_of_bits _, trailing_of_bits _⟩ ?_ ?_
    · simp only [trailing_byte_value, Nat.reducePow]
      omega
    · simp only [trailing_byte_value, Nat.reducePow]
      omega

theorem char_of_lead {byte : UInt8} {least bits count value : Nat} {trailing : List UInt8}
    (first : Lead.ofByte byte = some ⟨least, bits, count⟩)
    (read : readTrailing bits count trailing = some (value, [])) (needed : least ≤ value)
    (valid : value < 0xD800 ∨ 0xDFFF < value ∧ value < 0x110000) :
    ∃ char, String.utf8EncodeChar char = byte :: trailing := by
  have decoded : decodeNext (byte :: trailing) = some (Char.ofNat value, []) := by
    rw [decodeNext, first]
    simp only [Option.bind_eq_bind, Option.bind_some, read]
    rw [if_pos ⟨needed, valid⟩]
  have same := encode_of_decode_next decoded
  rw [List.append_nil] at same
  exact ⟨_, same.symm⟩

theorem read_trailing_cons {byte : UInt8} (trailing : IsTrailing byte) (value count : Nat)
    (rest : List UInt8) :
    readTrailing value (count + 1) (byte :: rest) =
      readTrailing (value * 64 + (byte.toNat - 0x80)) count rest := by
  obtain ⟨low, high⟩ := trailing
  have bits : byte.toNat % 64 = byte.toNat - 0x80 := by omega
  rw [readTrailing, if_pos (by omega), bits]

theorem char_of_sequence {bytes : List UInt8} (sequence : IsSequence bytes) :
    ∃ char, String.utf8EncodeChar char = bytes := by
  cases sequence with
  | @one first low =>
      have lead : Lead.ofByte first = some ⟨0, first.toNat, 0⟩ := by
        rw [Lead.ofByte, if_pos (by omega)]
      exact char_of_lead lead rfl (Nat.zero_le _) (by omega)
  | @two first second range trailing =>
      have lead : Lead.ofByte first = some ⟨0x80, first.toNat - 0xC0, 1⟩ := by
        rw [Lead.ofByte, if_neg (by omega), if_neg (by omega), if_pos (by omega)]
      have read := read_trailing_cons trailing (first.toNat - 0xC0) 0 []
      obtain ⟨low, high⟩ := trailing
      exact char_of_lead lead read (by omega) (by omega)
  | @three first second third range trailing needed noSurrogate =>
      obtain ⟨behind, last⟩ := trailing
      have lead : Lead.ofByte first = some ⟨0x800, first.toNat - 0xE0, 2⟩ := by
        rw [Lead.ofByte, if_neg (by omega), if_neg (by omega), if_neg (by omega), if_pos (by omega)]
      have read := (read_trailing_cons behind (first.toNat - 0xE0) 1 [third]).trans
          (read_trailing_cons last _ 0 [])
      unfold IsTrailing at behind last
      exact char_of_lead lead read (by omega) (by omega)
  | @four first second third fourth range trailing needed bounded =>
      obtain ⟨behind, next, last⟩ := trailing
      have lead : Lead.ofByte first = some ⟨0x10000, first.toNat - 0xF0, 3⟩ := by
        rw [Lead.ofByte, if_neg (by omega), if_neg (by omega), if_neg (by omega), if_neg (by omega),
          if_pos (by omega)]
      have read := ((read_trailing_cons behind (first.toNat - 0xF0) 2 [third, fourth]).trans
        (read_trailing_cons next _ 1 [fourth])).trans (read_trailing_cons last _ 0 [])
      unfold IsTrailing at behind next last
      exact char_of_lead lead read (by omega) (by omega)

theorem well_formed_iff {bytes : List UInt8} :
    IsWellFormed bytes ↔ ∃ text, encode text = bytes := by
  constructor
  · intro formed
    induction formed with
    | nothing => exact ⟨[], rfl⟩
    | sequence starts _ induction =>
        obtain ⟨char, rfl⟩ := char_of_sequence starts
        obtain ⟨text, rfl⟩ := induction
        exact ⟨char :: text, encode_cons char text⟩
  · rintro ⟨text, rfl⟩
    induction text with
    | nil => exact .nothing
    | cons char text induction =>
        rw [encode_cons]
        exact .sequence (sequence_of_char char) induction

/-- Decoding stops behind a text, ahead of bytes that start with no character. -/
theorem decode_from_eq_error {offset stop : Nat} {bytes : List UInt8}
    (refused : decodeFrom offset bytes = .error stop) :
    ∃ text rest, bytes = encode text ++ rest ∧ rest ≠ [] ∧ decodeNext rest = none ∧
      stop = offset + (encode text).length := by
  fun_induction decodeFrom offset bytes with
  | case1 => cases refused
  | case2 offset bytes some next =>
      cases refused
      refine ⟨[], bytes, rfl, ?_, next, rfl⟩
      intro nothing
      exact some (List.isEmpty_iff.2 nothing)
  | case3 offset bytes _ char rest next induction =>
      cases later : decodeFrom (offset + (bytes.length - rest.length)) rest with
      | ok text =>
          rw [later] at refused
          cases refused
      | error fault =>
          rw [later] at refused
          cases refused
          obtain ⟨text, last, same, nonempty, unread, position⟩ := induction later
          have whole := encode_of_decode_next next
          refine ⟨char :: text, last, ?_, nonempty, unread, ?_⟩
          · rw [whole, same, encode_cons, List.append_assoc]
          · rw [position, whole, encode_cons, List.length_append, List.length_append,
              Nat.add_sub_cancel, Nat.add_assoc]

/-- A text that starts bytes ends no later than the text behind which decoding stops. -/
theorem prefix_of_unread {start text : List Char} {rest : List UInt8}
    (unread : decodeNext rest = none) (starts : encode start <+: encode text ++ rest) :
    start <+: text := by
  induction start generalizing text with
  | nil => exact List.nil_prefix
  | cons char start induction =>
      obtain ⟨behind, same⟩ := starts
      rw [encode_cons, List.append_assoc] at same
      have first := decode_next_encode char (encode start ++ behind)
      rw [same] at first
      cases text with
      | nil =>
          have nothing : decodeNext (encode [] ++ rest) = none := unread
          cases nothing.symm.trans first
      | cons other text =>
          rw [encode_cons, List.append_assoc, decode_next_encode] at first
          obtain ⟨rfl, remaining⟩ := Prod.mk.inj (Option.some.inj first)
          rw [List.prefix_cons_inj]
          exact induction ⟨behind, remaining.symm⟩

/-- The longest start of bytes that is well formed ends at an offset. -/
structure LongestWellFormed (bytes : List UInt8) (offset : Nat) : Prop where
  inside : offset ≤ bytes.length
  formed : IsWellFormed (bytes.take offset)
  longest : ∀ start, start <+: bytes → IsWellFormed start → start.length ≤ offset

theorem LongestWellFormed.unique {bytes : List UInt8} {first second : Nat}
    (one : LongestWellFormed bytes first) (other : LongestWellFormed bytes second) :
    first = second := by
  have below := other.longest _ (List.take_prefix _ _) one.formed
  have above := one.longest _ (List.take_prefix _ _) other.formed
  rw [List.length_take_of_le one.inside] at below
  rw [List.length_take_of_le other.inside] at above
  exact Nat.le_antisymm below above

theorem decode_eq_ok_iff {bytes : List UInt8} {text : List Char} :
    decode bytes = .ok text ↔ encode text = bytes := by
  constructor
  · exact encode_of_decode
  · rintro rfl
    exact decode_encode text

/-- Bytes that are not well formed are refused at the end of their longest well-formed start. -/
theorem decode_eq_error_iff {bytes : List UInt8} {offset : Nat} :
    decode bytes = .error offset ↔ ¬ IsWellFormed bytes ∧ LongestWellFormed bytes offset := by
  have stops {stop : Nat} (refused : decode bytes = .error stop) :
      LongestWellFormed bytes stop := by
    obtain ⟨text, rest, rfl, _, unread, position⟩ := decode_from_eq_error refused
    rw [Nat.zero_add] at position
    rw [position]
    refine ⟨?_, ?_, ?_⟩
    · rw [List.length_append]
      exact Nat.le_add_right _ _
    · rw [List.take_left]
      exact well_formed_iff.2 ⟨text, rfl⟩
    · intro start starts formed
      obtain ⟨other, rfl⟩ := well_formed_iff.1 formed
      exact ((encode_prefix_iff _ _).2 (prefix_of_unread unread starts)).length_le
  constructor
  · intro refused
    refine ⟨?_, stops refused⟩
    intro formed
    obtain ⟨text, same⟩ := well_formed_iff.1 formed
    cases refused.symm.trans (decode_eq_ok_iff.2 same)
  · rintro ⟨malformed, longest⟩
    cases decoded : decode bytes with
    | ok text => exact absurd (well_formed_iff.2 ⟨text, encode_of_decode decoded⟩) malformed
    | error stop => rw [(stops decoded).unique longest]

theorem size_eq_length_encode (text : String) :
    text.utf8ByteSize = (encode text.toList).length := by
  rw [← String.size_toByteArray, ← String.utf8Encode_toList, List.utf8Encode, List.size_toByteArray]
  rfl

end ManifestLint.Text

namespace ManifestLint.Manifest

open Text (IsWellFormed LongestWellFormed encode)

/-- The first zero byte stands at an offset. -/
structure FirstZero (bytes : List UInt8) (offset : Nat) : Prop where
  zero : bytes[offset]? = some 0
  first : ∀ earlier < offset, bytes[earlier]? ≠ some 0

theorem find_zero_eq_some_iff {bytes : List UInt8} {offset : Nat} :
    bytes.findIdx? (· == 0) = some offset ↔ FirstZero bytes offset := by
  rw [List.findIdx?_eq_some_iff_getElem]
  constructor
  · rintro ⟨inside, zero, first⟩
    refine ⟨?_, ?_⟩
    · rw [List.getElem?_eq_getElem inside, beq_iff_eq.1 zero]
    · intro earlier before found
      obtain ⟨place, same⟩ := List.getElem?_eq_some_iff.1 found
      exact first earlier before (beq_iff_eq.2 same)
  · rintro ⟨zero, first⟩
    obtain ⟨inside, same⟩ := List.getElem?_eq_some_iff.1 zero
    refine ⟨inside, beq_iff_eq.2 same, ?_⟩
    intro earlier before found
    apply first earlier before
    rw [List.getElem?_eq_getElem (Nat.lt_trans before inside), beq_iff_eq.1 found]

@[simp] theorem find_zero_eq_none_iff {bytes : List UInt8} :
    bytes.findIdx? (· == 0) = none ↔ 0 ∉ bytes := by
  rw [List.findIdx?_eq_none_iff]
  simp only [beq_eq_false_iff_ne]
  constructor
  · intro other member
    exact other 0 member rfl
  · intro missing byte member zero
    exact missing (zero ▸ member)

variable {bytes : List UInt8}

/-- A manifest has the bytes that it was decoded from, and none of them is zero. -/
theorem of_bytes_eq_ok_iff {manifest : Manifest} :
    ofBytes bytes = .ok manifest ↔ encode manifest.text.toList = bytes ∧ 0 ∉ bytes := by
  rw [← find_zero_eq_none_iff, ← Text.decode_eq_ok_iff]
  unfold ofBytes
  cases Text.decode bytes with
  | error offset => simp
  | ok text =>
      cases bytes.findIdx? (· == 0) with
      | some offset => simp
      | none =>
          rw [Except.ok.injEq, Except.ok.injEq, and_iff_left rfl]
          constructor
          · rintro rfl
            exact String.toList_ofList.symm
          · rintro rfl
            rw [String.ofList_toList]

theorem of_bytes_eq_malformed_iff {offset : Nat} :
    ofBytes bytes = .error (.malformed offset) ↔ Text.decode bytes = .error offset := by
  unfold ofBytes
  cases Text.decode bytes with
  | error other => simp
  | ok text => cases bytes.findIdx? (· == 0) <;> simp

theorem of_bytes_eq_binary_iff {offset : Nat} :
    ofBytes bytes = .error (.binary offset) ↔ (∃ text, Text.decode bytes = .ok text) ∧
      FirstZero bytes offset := by
  rw [← find_zero_eq_some_iff]
  unfold ofBytes
  cases Text.decode bytes with
  | error other => simp
  | ok text => cases bytes.findIdx? (· == 0) <;> simp

/-- Bytes are decoded just when they are well formed and have no zero, and nothing of them is lost.
Malformed bytes are told of before zeros, wherever these stand. -/
theorem decoded_exactly (bytes : List UInt8) :
    ((∃ manifest, ofBytes bytes = .ok manifest) ↔ IsWellFormed bytes ∧ 0 ∉ bytes) ∧
    (∀ manifest, ofBytes bytes = .ok manifest →
      encode manifest.text.toList = bytes ∧ manifest.size = bytes.length) ∧
    ((∃ offset, ofBytes bytes = .error (.malformed offset)) ↔ ¬ IsWellFormed bytes) ∧
    (∀ offset, ofBytes bytes = .error (.malformed offset) ↔
      ¬ IsWellFormed bytes ∧ LongestWellFormed bytes offset) ∧
    (∀ offset, ofBytes bytes = .error (.binary offset) ↔
      IsWellFormed bytes ∧ FirstZero bytes offset) := by
  have formed : (∃ text, Text.decode bytes = .ok text) ↔ IsWellFormed bytes := by
    rw [Text.well_formed_iff]
    simp only [Text.decode_eq_ok_iff]
  refine ⟨⟨?_, ?_⟩, ?_, ⟨?_, ?_⟩, ?_, ?_⟩
  · rintro ⟨manifest, decoded⟩
    obtain ⟨same, noZero⟩ := of_bytes_eq_ok_iff.1 decoded
    exact ⟨Text.well_formed_iff.2 ⟨_, same⟩, noZero⟩
  · rintro ⟨whole, noZero⟩
    obtain ⟨text, same⟩ := Text.well_formed_iff.1 whole
    refine ⟨⟨String.ofList text⟩, of_bytes_eq_ok_iff.2 ⟨?_, noZero⟩⟩
    rw [String.toList_ofList, same]
  · intro manifest decoded
    obtain ⟨same, _⟩ := of_bytes_eq_ok_iff.1 decoded
    exact ⟨same, by rw [size, Text.size_eq_length_encode, same]⟩
  · rintro ⟨offset, refused⟩
    exact (Text.decode_eq_error_iff.1 (of_bytes_eq_malformed_iff.1 refused)).1
  · intro malformed
    cases decoded : Text.decode bytes with
    | ok text => exact absurd (formed.1 ⟨text, decoded⟩) malformed
    | error offset => exact ⟨offset, of_bytes_eq_malformed_iff.2 decoded⟩
  · intro offset
    rw [of_bytes_eq_malformed_iff, Text.decode_eq_error_iff]
  · intro offset
    rw [of_bytes_eq_binary_iff, formed]

example : ofBytes [0x46, 0x00, 0xE2, 0x82] = .error (.malformed 2) := by decide +kernel

end ManifestLint.Manifest
