import ManifestLint.Proofs.Number.Literals
import ManifestLint.Yaml.Atom

/-!
Which plain scalars are texts. Null, booleans and numbers have forms of their own, and a plain
scalar without a tag is a text exactly when it has none of these; a number that is too great to be
read has none.
-/

namespace ManifestLint.Yaml

open Literal (IsInteger IsFloat Sign ZeroPadded)

/-- The forms of the values that are no texts. An integer has 128 bits at most, with a sign or
without. -/
inductive TypedForm (text : String) : Prop where
  | null (known : text ∈ ["", "~", "null", "Null", "NULL"])
  | boolean (known : text ∈ ["true", "True", "TRUE", "false", "False", "FALSE"])
  | integer {value : Int} (written : IsInteger text.toList value) (above : -2 ^ 127 ≤ value)
      (below : value < 2 ^ 128)
  | float (written : IsFloat text.toList)
      (bare : ¬ ∃ (sign : Sign) (digits : List Char), text.toList = sign.write ++ digits ∧
        ZeroPadded digits)

namespace Atom

theorem has_width_iff {bits : Nat} {value : Int} :
    hasWidth bits value = true ↔ -2 ^ (bits - 1) ≤ value ∧ value < 2 ^ bits := by
  rw [hasWidth, Bool.and_eq_true, decide_eq_true_iff, decide_eq_true_iff, Nat.pow_eq, Nat.pow_eq]
  push_cast
  rfl

theorem of_integer_eq_none_iff {text : String} : ofInteger? text = none ↔
    ¬ ∃ value, IsInteger text.toList value ∧ -2 ^ 127 ≤ value ∧ value < 2 ^ 128 := by
  rw [ofInteger?]
  cases read : Literal.integer text.toList with
  | none =>
      refine iff_of_true rfl ?_
      rintro ⟨value, written, _⟩
      rw [Literal.integer_eq_some_iff.mpr written] at read
      cases read
  | some value =>
      have written := Literal.integer_eq_some_iff.mp read
      have only : (∃ value, IsInteger text.toList value ∧ -2 ^ 127 ≤ value ∧ value < 2 ^ 128) ↔
          hasWidth 128 value = true := by
        rw [has_width_iff]
        constructor
        · rintro ⟨other, again, bounds⟩
          rw [Literal.integer_eq_some_iff.mpr again, Option.some.injEq] at read
          rw [← read]
          exact bounds
        · exact fun bounds => ⟨value, written, bounds⟩
      rw [only, Option.bind_eq_bind, Option.bind_some]
      split
      · next narrow =>
        refine iff_of_false (Option.some_ne_none _) (not_not.mpr ?_)
        rw [has_width_iff] at narrow ⊢
        omega
      · split
        · next wide => exact iff_of_false (Option.some_ne_none _) (not_not.mpr wide)
        · next beyond => exact iff_of_true rfl beyond

theorem of_float_eq_none_iff {text : String} : ofFloat? text = none ↔
    ¬ (IsFloat text.toList ∧
      ¬ ∃ (sign : Sign) (digits : List Char), text.toList = sign.write ++ digits ∧
        ZeroPadded digits) := by
  have padded : Literal.zeroPadded (Literal.splitSign text.toList).2 = true ↔
      ∃ (sign : Sign) (digits : List Char), text.toList = sign.write ++ digits ∧
      ZeroPadded digits := by
    rw [Literal.zero_padded_iff]
    constructor
    · intro padded
      obtain ⟨sign, spelled, _⟩ := Literal.sign_of_split text.toList
      exact ⟨sign, _, spelled, padded⟩
    · rintro ⟨sign, digits, spelled, padded⟩
      obtain ⟨rest, rfl, _⟩ := id padded
      rw [spelled, Literal.split_sign_write sign (Literal.unsigned_of_digit (by decide) rest)]
      exact padded
  rw [ofFloat?, ← padded, ← Literal.float_is_some_iff]
  split
  · next found => simp [found]
  · next bare => simp [bare]

end Atom

theorem is_null_iff {text : String} : (text.isEmpty || isNull text) = true ↔
    text ∈ ["", "~", "null", "Null", "NULL"] := by
  rw [Bool.or_eq_true, String.isEmpty_iff, isNull, List.contains_iff_mem,
    List.mem_cons (a := text) (b := "")]

theorem boolean_eq_none_iff {text : String} : booleanOf? text = none ↔
    text ∉ ["true", "True", "TRUE", "false", "False", "FALSE"] := by
  rw [booleanOf?]
  split
  · next yes =>
    refine iff_of_false (Option.some_ne_none _) (not_not.mpr ?_)
    exact List.mem_append_left ["false", "False", "FALSE"] (List.contains_iff_mem.mp yes)
  · next yes =>
    split
    · next no =>
      refine iff_of_false (Option.some_ne_none _) (not_not.mpr ?_)
      exact List.mem_append_right ["true", "True", "TRUE"] (List.contains_iff_mem.mp no)
    · next no =>
      refine iff_of_true rfl fun known => ?_
      change text ∈ ["true", "True", "TRUE"] ++ ["false", "False", "FALSE"] at known
      rcases List.mem_append.mp known with found | found
      · exact yes (List.contains_iff_mem.mpr found)
      · exact no (List.contains_iff_mem.mpr found)

theorem of_plain_of_other {text : String} (null : text ∉ ["", "~", "null", "Null", "NULL"])
    (boolean : text ∉ ["true", "True", "TRUE", "false", "False", "FALSE"]) :
    Atom.ofPlain text = ((Atom.ofInteger? text).or (Atom.ofFloat? text)).getD (.text text) := by
  rw [Atom.ofPlain, if_neg (is_null_iff.not.mpr null), boolean_eq_none_iff.mpr boolean]

theorem number_is_no_text {text other : String} {atom : Atom}
    (read : (Atom.ofInteger? text).or (Atom.ofFloat? text) = some atom) : atom ≠ .text other := by
  rintro rfl
  rcases Option.or_eq_some_iff.mp read with integer | ⟨_, float⟩
  · rw [Atom.ofInteger?] at integer
    obtain ⟨value, _, sized⟩ := Option.bind_eq_some_iff.mp integer
    split at sized
    · cases sized
    · split at sized <;> cases sized
  · rw [Atom.ofFloat?] at float
    split at float
    · cases float
    · obtain ⟨number, _, same⟩ := Option.map_eq_some_iff.mp float
      cases same

theorem of_plain_of_untyped {text : String} (untyped : ¬ TypedForm text) :
    Atom.ofPlain text = .text text := by
  have integer : Atom.ofInteger? text = none :=
    Atom.of_integer_eq_none_iff.mpr fun ⟨_, written, above, below⟩ =>
      untyped (.integer written above below)
  have float : Atom.ofFloat? text = none :=
    Atom.of_float_eq_none_iff.mpr fun ⟨written, bare⟩ => untyped (.float written bare)
  rw [of_plain_of_other (fun known => untyped (.null known))
    (fun known => untyped (.boolean known)), integer, float]
  rfl

theorem of_plain_of_typed {text : String} (typed : TypedForm text) (other : String) :
    Atom.ofPlain text ≠ .text other := by
  by_cases null : text ∈ ["", "~", "null", "Null", "NULL"]
  · rw [Atom.ofPlain, if_pos (is_null_iff.mpr null)]
    exact Atom.noConfusion
  by_cases boolean : text ∈ ["true", "True", "TRUE", "false", "False", "FALSE"]
  · have known : booleanOf? text ≠ none := boolean_eq_none_iff.not.mpr (not_not.mpr boolean)
    obtain ⟨value, known⟩ := Option.ne_none_iff_exists'.mp known
    rw [Atom.ofPlain, if_neg (is_null_iff.not.mpr null), known]
    exact Atom.noConfusion
  have numeric : (Atom.ofInteger? text).or (Atom.ofFloat? text) ≠ none := by
    rw [ne_eq, Option.or_eq_none_iff, Atom.of_integer_eq_none_iff, Atom.of_float_eq_none_iff]
    rintro ⟨integer, float⟩
    cases typed with
    | null known => exact null known
    | boolean known => exact boolean known
    | integer written above below => exact integer ⟨_, written, above, below⟩
    | float written bare => exact float ⟨written, bare⟩
  obtain ⟨atom, read⟩ := Option.ne_none_iff_exists'.mp numeric
  rw [of_plain_of_other null boolean, read]
  exact number_is_no_text read

end ManifestLint.Yaml
