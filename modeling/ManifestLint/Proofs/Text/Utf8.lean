import Mathlib.Algebra.Group.Nat.Defs
import Mathlib.Data.List.Infix
import ManifestLint.Text.Utf8

/-!
Encoded characters. Decoding undoes encoding, character by character and as a whole, and what
decodes is an encoding. A byte within the encoding of a character never starts one, so a text occurs
in another exactly where its bytes do.
-/

namespace ManifestLint.Text

theorem to_nat_of_small {value : Nat} (small : value < 256) :
    (UInt8.ofNat value).toNat = value := by
  rw [UInt8.toNat_ofNat']
  exact Nat.mod_eq_of_lt small

theorem valid_char (char : Char) : char.toNat.isValidChar := char.valid

theorem valid_char_bound {value : Nat} (valid : value.isValidChar) : value < 0x110000 := by
  rcases valid with low | high
  · omega
  · omega

def trailingByte (bits : Nat) : UInt8 := UInt8.ofNat (bits % 64 + 0x80)

@[simp] theorem trailing_byte_value (bits : Nat) : (trailingByte bits).toNat = bits % 64 + 0x80 :=
  to_nat_of_small (by omega)

/-- The bytes that carry the low bits of a value, the higher ones first. -/
def trailingBytes (value : Nat) : Nat → List UInt8
  | 0 => []
  | count + 1 => trailingByte (value / 64 ^ count) :: trailingBytes value count

theorem read_trailing_bytes (value count : Nat) (rest : List UInt8) :
    readTrailing (value / 64 ^ count) count (trailingBytes value count ++ rest) =
      some (value, rest) := by
  induction count with
  | zero => simp [trailingBytes, readTrailing]
  | succ count induction =>
      have step : value / 64 ^ (count + 1) * 64 + (value / 64 ^ count % 64 + 0x80) % 64 =
          value / 64 ^ count := by
        rw [Nat.pow_succ, ← Nat.div_div_eq_div_mul]
        omega
      rw [trailingBytes, List.cons_append, readTrailing, trailing_byte_value,
        if_pos (by omega), step]
      exact induction

theorem read_trailing_eq_some {value count result : Nat} {bytes rest : List UInt8}
    (read : readTrailing value count bytes = some (result, rest)) :
    result / 64 ^ count = value ∧ bytes = trailingBytes result count ++ rest := by
  induction count generalizing value bytes with
  | zero =>
      rw [readTrailing] at read
      cases read
      exact ⟨by simp, rfl⟩
  | succ count induction =>
      cases bytes with
      | nil => simp [readTrailing] at read
      | cons byte bytes =>
          rw [readTrailing] at read
          split at read
          · next trailing =>
            obtain ⟨high, low⟩ := induction read
            have bound := byte.toNat_lt
            have same : byte = trailingByte (result / 64 ^ count) := by
              rw [← UInt8.toNat_inj, trailing_byte_value, high]
              omega
            rw [trailingBytes, List.cons_append, ← same, ← low]
            refine ⟨?_, rfl⟩
            rw [Nat.pow_succ, ← Nat.div_div_eq_div_mul, high]
            omega
          · simp at read

theorem lead_of_byte_eq_some {byte : UInt8} {lead : Lead} (found : Lead.ofByte byte = some lead) :
    (byte.toNat < 0x80 ∧ lead = ⟨0, byte.toNat, 0⟩) ∨
    (0xC0 ≤ byte.toNat ∧ byte.toNat < 0xE0 ∧ lead = ⟨0x80, byte.toNat - 0xC0, 1⟩) ∨
    (0xE0 ≤ byte.toNat ∧ byte.toNat < 0xF0 ∧ lead = ⟨0x800, byte.toNat - 0xE0, 2⟩) ∨
    (0xF0 ≤ byte.toNat ∧ byte.toNat < 0xF8 ∧ lead = ⟨0x10000, byte.toNat - 0xF0, 3⟩) := by
  simp only [Lead.ofByte] at found
  grind

/-- A first byte fits a character when it carries its high bits and the length is the least one. -/
structure Lead.Fits (lead : Lead) (byte : UInt8) (char : Char) : Prop where
  first : Lead.ofByte byte = some lead
  high : char.toNat / 64 ^ lead.trailing = lead.bits
  least : lead.least ≤ char.toNat

theorem Lead.exists_fitting (char : Char) : ∃ byte lead, Lead.Fits lead byte char := by
  have bound := valid_char_bound (valid_char char)
  have first (value : Nat) (small : value < 256) := to_nat_of_small small
  by_cases one : char.toNat < 0x80
  · refine ⟨UInt8.ofNat char.toNat, ⟨0, char.toNat, 0⟩, ?_, by simp, by simp⟩
    rw [Lead.ofByte, first _ (by omega), if_pos one]
  · by_cases two : char.toNat < 0x800
    · refine ⟨UInt8.ofNat (char.toNat / 64 + 0xC0), ⟨0x80, char.toNat / 64, 1⟩, ?_, by simp, ?_⟩
      · rw [Lead.ofByte, first _ (by omega), if_neg (by omega), if_neg (by omega),
          if_pos (by omega), Nat.add_sub_cancel]
      · exact Nat.le_of_not_lt one
    · by_cases three : char.toNat < 0x10000
      · refine ⟨UInt8.ofNat (char.toNat / 4096 + 0xE0), ⟨0x800, char.toNat / 4096, 2⟩,
          ?_, by simp, ?_⟩
        · rw [Lead.ofByte, first _ (by omega), if_neg (by omega), if_neg (by omega),
            if_neg (by omega), if_pos (by omega), Nat.add_sub_cancel]
        · exact Nat.le_of_not_lt two
      · refine ⟨UInt8.ofNat (char.toNat / 262144 + 0xF0), ⟨0x10000, char.toNat / 262144, 3⟩, ?_,
          by simp, ?_⟩
        · rw [Lead.ofByte, first _ (by omega), if_neg (by omega), if_neg (by omega),
            if_neg (by omega), if_neg (by omega), if_pos (by omega), Nat.add_sub_cancel]
        · exact Nat.le_of_not_lt three

theorem encode_char_of_fits {lead : Lead} {byte : UInt8} {char : Char}
    (fits : lead.Fits byte char) :
    String.utf8EncodeChar char = byte :: trailingBytes char.toNat lead.trailing := by
  have bound := valid_char_bound (valid_char char)
  have value : char.val.toNat = char.toNat := rfl
  obtain ⟨first, high, least⟩ := fits
  have byteOf (number : Nat) (same : byte.toNat = number) : UInt8.ofNat number = byte := by
    rw [← same]
    exact UInt8.ofNat_toNat
  rw [String.utf8EncodeChar, value]
  rcases lead_of_byte_eq_some first with ⟨_, rfl⟩ | ⟨_, _, rfl⟩ | ⟨_, _, rfl⟩ | ⟨_, _, rfl⟩
  · simp only [Nat.pow_zero, Nat.div_one] at high
    rw [if_pos (by omega), byteOf _ high.symm]
    rfl
  · simp only [Nat.reducePow] at high least
    rw [if_neg (by omega), if_pos (by omega), byteOf _ (by omega)]
    simp [trailingBytes, trailingByte]
  · simp only [Nat.reducePow] at high least
    rw [if_neg (by omega), if_neg (by omega), if_pos (by omega), byteOf _ (by omega)]
    simp [trailingBytes, trailingByte]
  · simp only [Nat.reducePow] at high least
    rw [if_neg (by omega), if_neg (by omega), if_neg (by omega), byteOf _ (by omega)]
    simp [trailingBytes, trailingByte]

theorem decode_next_encode (char : Char) (rest : List UInt8) :
    decodeNext (String.utf8EncodeChar char ++ rest) = some (char, rest) := by
  obtain ⟨byte, lead, fits⟩ := Lead.exists_fitting char
  have read := read_trailing_bytes char.toNat lead.trailing rest
  rw [encode_char_of_fits fits, List.cons_append, decodeNext, fits.first]
  rw [fits.high] at read
  simp only [Option.bind_eq_bind, Option.bind_some, read]
  rw [if_pos ⟨fits.least, valid_char char⟩, Char.ofNat_toNat]

theorem encode_of_decode_next {bytes rest : List UInt8} {char : Char}
    (decoded : decodeNext bytes = some (char, rest)) :
    bytes = String.utf8EncodeChar char ++ rest := by
  cases bytes with
  | nil => simp [decodeNext] at decoded
  | cons byte bytes =>
      simp only [decodeNext, Option.bind_eq_bind, Option.bind_eq_some_iff] at decoded
      obtain ⟨lead, first, ⟨value, after⟩, read, checked⟩ := decoded
      simp only [Option.ite_none_right_eq_some, Option.some.injEq, Prod.mk.injEq] at checked
      obtain ⟨⟨least, valid⟩, same, rfl⟩ := checked
      have number : char.toNat = value := by
        rw [← same, Char.ofNat, dif_pos valid]
        rfl
      obtain ⟨high, low⟩ := read_trailing_eq_some read
      have fits : lead.Fits byte char := ⟨first, by rw [number, high], by rw [number]; exact least⟩
      rw [encode_char_of_fits fits, low, number, List.cons_append]

theorem encode_cons (char : Char) (text : List Char) :
    encode (char :: text) = String.utf8EncodeChar char ++ encode text := rfl

theorem decode_from_encode (offset : Nat) (text : List Char) :
    decodeFrom offset (encode text) = .ok text := by
  induction text generalizing offset with
  | nil =>
      rw [decodeFrom]
      rfl
  | cons char text induction =>
      have next : decodeNext (encode (char :: text)) = some (char, encode text) :=
        decode_next_encode char (encode text)
      fun_cases decodeFrom offset (encode (char :: text)) with
      | case1 nothing =>
          rw [List.isEmpty_iff.1 nothing] at next
          cases next
      | case2 _ noneNext => cases noneNext.symm.trans next
      | case3 _ first rest found =>
          cases found.symm.trans next
          rw [induction]
          rfl

theorem decode_encode (text : List Char) : decode (encode text) = .ok text :=
  decode_from_encode 0 text

/-- Decoding keeps every byte: it gives a text whose encoding the bytes are. -/
theorem encode_of_decode_from {offset : Nat} {bytes : List UInt8} {text : List Char}
    (decoded : decodeFrom offset bytes = .ok text) : encode text = bytes := by
  fun_induction decodeFrom offset bytes generalizing text with
  | case1 offset bytes nothing =>
      cases decoded
      rw [List.isEmpty_iff.1 nothing]
      rfl
  | case2 => simp at decoded
  | case3 offset bytes _ char rest next induction =>
      cases later : decodeFrom (offset + (bytes.length - rest.length)) rest with
      | error fault => simp [later, Except.map] at decoded
      | ok text =>
          rw [later] at decoded
          cases decoded
          rw [encode_cons, induction later]
          exact (encode_of_decode_next next).symm

theorem encode_of_decode {bytes : List UInt8} {text : List Char}
    (decoded : decode bytes = .ok text) :
    encode text = bytes := encode_of_decode_from decoded

@[simp] theorem encode_append (first second : List Char) :
    encode (first ++ second) = encode first ++ encode second :=
  List.flatMap_append

theorem encode_prefix_iff (needle text : List Char) :
    encode needle <+: encode text ↔ needle <+: text := by
  constructor
  · intro starts
    induction needle generalizing text with
    | nil => exact List.nil_prefix
    | cons char needle induction =>
        obtain ⟨rest, same⟩ := starts
        rw [encode_cons, List.append_assoc] at same
        have first := decode_next_encode char (encode needle ++ rest)
        rw [same] at first
        cases text with
        | nil => simp [encode, decodeNext] at first
        | cons other text =>
            rw [encode_cons, decode_next_encode] at first
            obtain ⟨rfl, remaining⟩ := Prod.mk.inj (Option.some.inj first)
            rw [List.prefix_cons_inj]
            exact induction text ⟨rest, remaining.symm⟩
  · rintro ⟨rest, rfl⟩
    exact ⟨encode rest, (encode_append needle rest).symm⟩

theorem trailing_bytes_start_nothing (value count : Nat) :
    ∀ byte ∈ trailingBytes value count, Lead.ofByte byte = none := by
  induction count with
  | zero => simp [trailingBytes]
  | succ count induction =>
      intro byte member
      rcases List.mem_cons.1 member with rfl | later
      · have range := trailing_byte_value (value / 64 ^ count)
        rw [Lead.ofByte, range, if_neg (by omega), if_pos (by omega)]
      · exact induction byte later

/-- Bytes that start no encoding can be passed over in a search for one that is started. -/
theorem infix_behind_trailing {first : UInt8} {pattern trailing rest : List UInt8}
    (started : Lead.ofByte first ≠ none) (nothing : ∀ byte ∈ trailing, Lead.ofByte byte = none)
    (occurs : first :: pattern <:+: trailing ++ rest) : first :: pattern <:+: rest := by
  induction trailing with
  | nil => exact occurs
  | cons byte trailing induction =>
      rw [List.cons_append, List.infix_cons_iff] at occurs
      rcases occurs with starts | later
      · rw [List.cons_prefix_cons] at starts
        rw [starts.1] at started
        exact absurd (nothing byte List.mem_cons_self) started
      · apply induction _ later
        intro other member
        exact nothing other (List.mem_cons_of_mem _ member)

theorem infix_of_encode_infix (needle text : List Char) (occurs : encode needle <:+: encode text) :
    needle <:+: text := by
  cases needle with
  | nil => exact List.nil_infix
  | cons char needle =>
      obtain ⟨first, lead, fits⟩ := Lead.exists_fitting char
      have started : Lead.ofByte first ≠ none := by
        rw [fits.first]
        simp
      have shape : encode (char :: needle) =
          first :: (trailingBytes char.toNat lead.trailing ++ encode needle) := by
        rw [encode_cons, encode_char_of_fits fits, List.cons_append]
      induction text with
      | nil =>
          rw [shape] at occurs
          simp [encode] at occurs
      | cons other text induction =>
          obtain ⟨byte, otherLead, otherFits⟩ := Lead.exists_fitting other
          have whole : encode (other :: text) =
              byte :: (trailingBytes other.toNat otherLead.trailing ++ encode text) := by
            rw [encode_cons, encode_char_of_fits otherFits, List.cons_append]
          rw [List.infix_cons_iff]
          rw [whole, List.infix_cons_iff, ← whole] at occurs
          rcases occurs with starts | later
          · exact .inl ((encode_prefix_iff _ _).1 starts)
          · right
            apply induction
            rw [shape] at later ⊢
            exact infix_behind_trailing started (trailing_bytes_start_nothing _ _) later

/-- A text occurs in another exactly where its bytes occur in the bytes of the other. -/
theorem encode_infix_iff (needle text : List Char) :
    encode needle <:+: encode text ↔ needle <:+: text := by
  constructor
  · exact infix_of_encode_infix needle text
  · rintro ⟨before, after, rfl⟩
    rw [encode_append, encode_append]
    exact ⟨encode before, encode after, rfl⟩

/-- No byte is zero but that of the null character. -/
theorem zero_mem_encode_iff (text : List Char) : 0 ∈ encode text ↔ '\u0000' ∈ text := by
  have zero : encode ['\u0000'] = [0] := by decide
  rw [← List.singleton_infix_iff, ← zero, encode_infix_iff, List.singleton_infix_iff]

@[simp] theorem byte_count_cons (char : Char) (text : List Char) :
    byteCount (char :: text) = char.utf8Size + byteCount text := by
  unfold byteCount
  rw [encode_cons, List.length_append, String.length_utf8EncodeChar]

@[simp] theorem byte_count_append (first second : List Char) :
    byteCount (first ++ second) = byteCount first + byteCount second := by
  unfold byteCount
  simp [List.length_append]

theorem take_bytes_behind (first rest : List Char) (count : Nat) :
    takeBytes (byteCount first + count) (first ++ rest) =
      (takeBytes count rest).map (first ++ ·) := by
  induction first with
  | nil =>
      have nothing : byteCount [] + count = count := Nat.zero_add count
      rw [nothing]
      exact Option.map_id_apply.symm
  | cons char first induction =>
      have wide := char.utf8Size_pos
      obtain ⟨lower, same⟩ : ∃ lower, byteCount (char :: first) + count = lower + 1 := by
        apply Nat.exists_eq_succ_of_ne_zero
        rw [byte_count_cons]
        omega
      have remaining : lower + 1 - char.utf8Size = byteCount first + count := by
        rw [← same, byte_count_cons]
        omega
      have fits : char.utf8Size ≤ lower + 1 := by
        rw [← same, byte_count_cons]
        omega
      rw [same, List.cons_append, takeBytes, if_pos fits, remaining, induction, Option.map_map]
      rfl

theorem prefix_of_take_bytes {count : Nat} {text taken : List Char}
    (cut : takeBytes count text = some taken) : taken <+: text ∧ byteCount taken = count := by
  fun_induction takeBytes count text generalizing taken with
  | case1 text =>
      cases cut
      exact ⟨List.nil_prefix, rfl⟩
  | case2 => cases cut
  | case3 count char rest fits induction =>
      obtain ⟨others, found, same⟩ := Option.map_eq_some_iff.1 cut
      cases same
      have starts := induction found
      rw [List.prefix_cons_inj, byte_count_cons, starts.2]
      exact ⟨starts.1, by omega⟩
  | case4 => cases cut

/-- The bytes of what is cut out are the first bytes of the text. -/
theorem encode_of_take_bytes {count : Nat} {text taken : List Char}
    (cut : takeBytes count text = some taken) :
    count ≤ byteCount text ∧ encode taken = (encode text).take count := by
  obtain ⟨⟨rest, same⟩, bytes⟩ := prefix_of_take_bytes cut
  unfold byteCount at bytes ⊢
  rw [← same, encode_append, List.length_append, ← bytes, List.take_left]
  exact ⟨Nat.le_add_right _ _, rfl⟩

end ManifestLint.Text
