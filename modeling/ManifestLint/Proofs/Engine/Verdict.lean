import ManifestLint.Proofs.Engine.Construction
import ManifestLint.Proofs.Manifest.Decoding

/-!
Verdicts on bytes. Rules look at decoded text, but what they say can be said of the bytes alone: a
needle occurs in the text exactly when its bytes occur in the bytes. Each rule has at most one
finding, and the findings come in the order of the rules.
-/

namespace ManifestLint

/-- How an engine comes about. -/
inductive Engine.Built : Engine → Prop where
  | builtin : Engine.Built .builtin
  | rules {rules : List Rule} {engine : Engine} (accepted : Engine.ofRules rules = .ok engine) :
      Engine.Built engine
  | lint {lint : LintSection} {engine : Engine} (accepted : Engine.ofSection lint = .ok engine) :
      Engine.Built engine

theorem Engine.Built.well_formed {engine : Engine} (built : engine.Built) :
    (∀ rule ∈ engine.rules, rule.WellFormed) ∧ engine.names.Nodup := by
  cases built with
  | builtin => exact ⟨builtin_rules_well_formed, builtin_names_distinct⟩
  | rules accepted =>
      obtain ⟨rfl, formed, distinct⟩ := (of_rules_accepts_iff _ _).1 accepted
      exact ⟨formed, distinct⟩
  | @lint lint _ accepted =>
      obtain ⟨acceptable, rfl⟩ := (lint.of_section_eq_ok_iff _).1 accepted
      have active := lint.of_active_rules acceptable.wellFormed acceptable.distinct
        acceptable.unshadowed
      exact ((of_rules_accepts_iff _ _).1 active).2

namespace Condition

/-- What a condition says of bytes: which needles occur in them as they are encoded. -/
def ViolatedBy (bytes : List UInt8) : Condition → Prop
  | .missing needle => ¬ Text.encode needle.toList <:+: bytes
  | .contains needle => Text.encode needle.toList <:+: bytes
  | .containsWithout needle excuse =>
      Text.encode needle.toList <:+: bytes ∧ ¬ Text.encode excuse.toList <:+: bytes

instance (bytes : List UInt8) (condition : Condition) : Decidable (condition.ViolatedBy bytes) :=
  match condition with
  | .missing needle => inferInstanceAs (Decidable (¬ Text.encode needle.toList <:+: bytes))
  | .contains needle => inferInstanceAs (Decidable (Text.encode needle.toList <:+: bytes))
  | .containsWithout needle excuse => inferInstanceAs
      (Decidable (Text.encode needle.toList <:+: bytes ∧ ¬ Text.encode excuse.toList <:+: bytes))

theorem holds_iff_violated_by (condition : Condition) (text : String) :
    condition.holds text = true ↔ condition.ViolatedBy (Text.encode text.toList) := by
  have occurs (needle : String) : Text.occursIn needle.toList text.toList = true ↔
      Text.encode needle.toList <:+: Text.encode text.toList := by
    rw [Text.occurs_in_iff, Text.encode_infix_iff]
  cases condition with
  | missing needle =>
      simp only [holds, ViolatedBy, ← occurs, Bool.not_eq_true', Bool.not_eq_true]
  | contains needle =>
      simp only [holds, ViolatedBy, ← occurs]
  | containsWithout needle excuse =>
      simp only [holds, ViolatedBy, ← occurs, Bool.and_eq_true, Bool.not_eq_true', Bool.not_eq_true]

end Condition

namespace Engine

/-- The rules of an engine that fire on bytes. -/
def firedBy (engine : Engine) (bytes : List UInt8) : List Rule :=
  engine.rules.filter fun rule => rule.condition.ViolatedBy bytes

theorem filter_fires_eq (engine : Engine) {bytes : List UInt8} {manifest : Manifest}
    (decoded : Manifest.ofBytes bytes = .ok manifest) :
    engine.rules.filter (·.fires manifest) = engine.firedBy bytes := by
  rw [firedBy]
  congr 1
  funext rule
  rw [Rule.fires, Bool.eq_iff_iff, Condition.holds_iff_violated_by, decide_eq_true_eq,
    (Manifest.of_bytes_eq_ok_iff.1 decoded).1]

/-- The verdict of an engine on any bytes. -/
theorem verdict_on_bytes (engine : Engine) (built : engine.Built) (bytes : List UInt8) :
    (∀ fault, Manifest.ofBytes bytes = .error fault → engine.messagesOfBytes bytes = .error fault) ∧
      ∀ manifest, Manifest.ofBytes bytes = .ok manifest →
        engine.messagesOfBytes bytes = .ok ((engine.firedBy bytes).map (·.message)) ∧
        engine.findings manifest = (engine.firedBy bytes).map
          (fun rule => ⟨rule.name, rule.message⟩) ∧
        engine.messages manifest = (engine.findings manifest).map (·.message) ∧
        ((engine.findings manifest).map (·.rule)).Nodup ∧
        ((engine.findings manifest).map (·.rule)).Sublist engine.names := by
  refine ⟨?_, ?_⟩
  · intro fault failed
    rw [messagesOfBytes, failed]
    rfl
  · intro manifest decoded
    have fired := engine.filter_fires_eq decoded
    have findings : engine.findings manifest =
        (engine.firedBy bytes).map (fun rule => ⟨rule.name, rule.message⟩) := by
      rw [Engine.findings, fired]
    have messages : engine.messages manifest = (engine.firedBy bytes).map (·.message) := by
      rw [Engine.messages, fired]
    have names : (engine.findings manifest).map (·.rule) = (engine.firedBy bytes).map (·.name) := by
      rw [findings, List.map_map]
      rfl
    have sublist : ((engine.firedBy bytes).map (·.name)).Sublist engine.names :=
      List.filter_sublist.map _
    refine ⟨?_, findings, ?_, ?_, ?_⟩
    · rw [messagesOfBytes, decoded, ← messages]
      rfl
    · rw [messages, findings, List.map_map]
      rfl
    · rw [names]
      exact built.well_formed.2.sublist sublist
    · rw [names]
      exact sublist

def accentSection : LintSection :=
  ⟨["multi-stage-build"], [⟨"accent", "accent found", .contains "é"⟩]⟩

theorem verdict_on_two_byte_needle :
    Engine.Built ⟨accentSection.activeRules⟩ ∧
      Engine.messagesOfBytes ⟨accentSection.activeRules⟩ [0x61, 0xC3, 0xA9] =
        .ok ["accent found"] := by
  have accepted : Engine.ofSection accentSection = .ok ⟨accentSection.activeRules⟩ := by decide
  have read : Text.decode [0x61, 0xC3, 0xA9] = .ok ['a', 'é'] := Text.decode_encode ['a', 'é']
  have decoded : Manifest.ofBytes [0x61, 0xC3, 0xA9] = .ok ⟨"aé"⟩ := by
    rw [Manifest.ofBytes, read]
    rfl
  have verdict := verdict_on_bytes ⟨accentSection.activeRules⟩ (.lint accepted) [0x61, 0xC3, 0xA9]
  refine ⟨.lint accepted, ?_⟩
  rw [(verdict.2 _ decoded).1]
  decide

end Engine

end ManifestLint
