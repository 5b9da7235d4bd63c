import ManifestLint.Proofs.Check.Disabling
import ManifestLint.Proofs.Config.Layering

/-!
Names to disable as a filter. On top of loaded settings they take the findings of their rules out
and change nothing else, so neither their order nor names that are disabled already matter.
-/

namespace ManifestLint

namespace Engine

def without (engine : Engine) (names : List String) : Engine :=
  ⟨engine.rules.filter fun rule => rule.name ∉ names⟩

theorem findings_without (engine : Engine) (names : List String) (manifest : Manifest) :
    (engine.without names).findings manifest =
      (engine.findings manifest).filter fun finding => finding.rule ∉ names :=
  findings_of_kept engine.rules (fun name => decide (name ∉ names)) manifest

end Engine

namespace Config

variable {tree : FileTree} {sources : Sources} {config : Config}

theorem acceptable_of_load (loaded : load tree sources = .ok config) : config.lint.Acceptable := by
  obtain ⟨layers, _, valid⟩ := (load_eq_ok_iff tree sources config).1 loaded
  obtain ⟨rfl, engine, built⟩ := (checked_eq_ok_iff _ config).1 valid
  exact LintSection.acceptable_of_section _ built

end Config

namespace LintSection

variable (lint : LintSection)

/-- The first of some names that is no rule's name. -/
def FirstUnknown (names : List String) (name : String) : Prop :=
  ∃ before after, names = before ++ name :: after ∧ (∀ earlier ∈ before, lint.Knows earlier) ∧
    ¬ lint.Knows name

theorem find_unknown_eq_some_iff (names : List String) (name : String) :
    names.find? (fun name => ¬ lint.Knows name) = some name ↔ lint.FirstUnknown names name := by
  rw [List.find?_eq_some_iff_append, FirstUnknown]
  simp only [decide_eq_true_eq, decide_not, Bool.not_not, Bool.not_eq_true',
    decide_eq_false_iff_not]
  constructor
  · rintro ⟨unknown, before, after, parts, earlier⟩
    exact ⟨before, after, parts, earlier, unknown⟩
  · rintro ⟨before, after, parts, earlier, unknown⟩
    exact ⟨unknown, before, after, parts, earlier⟩

/-- Rules that are disabled already are not among the active ones, so only other names count. -/
theorem active_without_same_names {names others : List String}
    (same : ∀ name, name ∉ lint.disable → (name ∈ others ↔ name ∈ names)) :
    Engine.without ⟨lint.activeRules⟩ others = Engine.without ⟨lint.activeRules⟩ names := by
  rw [Engine.without, Engine.without]
  congr 1
  apply List.filter_congr
  intro rule member
  have active : rule.name ∉ lint.disable := by
    have kept := List.of_mem_filter member
    simpa using kept
  simp only [same rule.name active]

end LintSection

namespace Setup

variable {around : Surroundings} {explicitPath : Option String} {config : Config}

def disabling (config : Config) (names : List String) : Config :=
  { config with lint := config.lint.disabling names }

theorem load_of_loaded
    (loaded : Config.load around.tree (.ofHome around.home explicitPath) = .ok config)
    (names : List String) :
    load around explicitPath names =
      match names.find? (fun name => ¬ config.lint.Knows name) with
      | some name => .error (.load (.lint (.unknown name)))
      | none => .ok ⟨disabling config names, Engine.without ⟨config.lint.activeRules⟩ names⟩ := by
  have built := config.lint.of_section_disabling names (Config.acceptable_of_load loaded)
  rw [load, loaded]
  change ((Engine.ofSection (config.lint.disabling names)).mapError
    (CheckFault.load ∘ LoadFault.lint)).map
    (Setup.mk (disabling config names)) = _
  rw [built]
  cases names.find? (fun name => decide (¬ config.lint.Knows name)) with
  | some name => rfl
  | none => rfl

theorem load_eq_ok_iff
    (loaded : Config.load around.tree (.ofHome around.home explicitPath) = .ok config)
    (names : List String) (setup : Setup) :
    load around explicitPath names = .ok setup ↔ (∀ name ∈ names, config.lint.Knows name) ∧
      setup = ⟨disabling config names, Engine.without ⟨config.lint.activeRules⟩ names⟩ := by
  have all : names.find? (fun name => ¬ config.lint.Knows name) = none ↔
      ∀ name ∈ names, config.lint.Knows name := by
    rw [List.find?_eq_none]
    simp
  rw [load_of_loaded loaded, ← all]
  cases names.find? (fun name => decide (¬ config.lint.Knows name)) with
  | some name => simp
  | none => simp [eq_comm]

theorem load_eq_error_iff
    (loaded : Config.load around.tree (.ofHome around.home explicitPath) = .ok config)
    (names : List String) (fault : CheckFault) :
    load around explicitPath names = .error fault ↔
      ∃ name, config.lint.FirstUnknown names name ∧ fault = .load (.lint (.unknown name)) := by
  simp only [load_of_loaded loaded, ← LintSection.find_unknown_eq_some_iff]
  cases names.find? (fun name => decide (¬ config.lint.Knows name)) with
  | some name => simp [eq_comm]
  | none => simp

/-- Names to disable are a filter on the findings of loaded settings. Other names make the same
engine when they differ only in order, in how often they come or in what the settings disable
already. -/
theorem disabled_names_filter_findings (around : Surroundings) (explicitPath : Option String)
    (config : Config)
    (loaded : Config.load around.tree (.ofHome around.home explicitPath) = .ok config)
    (names : List String) :
    ∃ engine, config.engine = .ok engine ∧
      ((∃ setup, load around explicitPath names = .ok setup) ↔
        ∀ name ∈ names, config.lint.Knows name) ∧
      (∀ fault, load around explicitPath names = .error fault ↔
        ∃ name, config.lint.FirstUnknown names name ∧ fault = .load (.lint (.unknown name))) ∧
      ∀ setup, load around explicitPath names = .ok setup →
        (∀ manifest, setup.engine.findings manifest =
          (engine.findings manifest).filter fun finding => finding.rule ∉ names) ∧
        ∀ others, (∀ name, name ∉ config.lint.disable → (name ∈ others ↔ name ∈ names)) →
          ∃ same, load around explicitPath others = .ok same ∧ same.engine = setup.engine := by
  have valid := Config.acceptable_of_load loaded
  refine ⟨⟨config.lint.activeRules⟩, config.lint.of_section_accepted valid, ?_,
    load_eq_error_iff loaded names, ?_⟩
  · simp only [load_eq_ok_iff loaded, exists_and_left, exists_eq, and_true]
  · intro setup succeeded
    obtain ⟨known, rfl⟩ := (load_eq_ok_iff loaded names setup).1 succeeded
    refine ⟨Engine.findings_without _ names, ?_⟩
    intro others same
    refine ⟨_, (load_eq_ok_iff loaded others _).2 ⟨?_, rfl⟩, ?_⟩
    · intro name member
      by_cases disabled : name ∈ config.lint.disable
      · exact valid.known name disabled
      · exact known name ((same name disabled).1 member)
    · exact config.lint.active_without_same_names same

def userTree : FileTree :=
  FileTree.empty.addFile ".buildlint.md" (Text.encode
    ("---\nlint:\n  rules:\n  - name: user\n    message: No user\n    when:\n      type: missing\n" ++
      "      needle: USER\n---\n").toList)

theorem disabled_user_rule_is_filtered :
    Config.load userTree (.ofHome none none) =
      .ok ⟨⟨[], [⟨"user", "No user", .missing "USER"⟩]⟩, .text, true⟩ ∧
    ∃ setup, load ⟨userTree, none, []⟩ none ["user", "user"] = .ok setup ∧
      setup.engine.findings ⟨"FROM scratch"⟩ =
        [⟨"multi-stage-build", "Missing multi-stage build"⟩] := by
  have loaded : Config.load userTree (.ofHome none none) =
      .ok ⟨⟨[], [⟨"user", "No user", .missing "USER"⟩]⟩, .text, true⟩ := by decide +kernel
  obtain ⟨engine, built, succeeds, _, filtered⟩ :=
    disabled_names_filter_findings ⟨userTree, none, []⟩ none _ loaded ["user", "user"]
  obtain ⟨setup, succeeded⟩ := succeeds.2 (by decide)
  refine ⟨loaded, setup, succeeded, ?_⟩
  have own : Config.engine ⟨⟨[], [⟨"user", "No user", .missing "USER"⟩]⟩, .text, true⟩ =
      .ok ⟨Rule.builtin ++ [⟨"user", "No user", .missing "USER"⟩]⟩ := by decide
  rw [own] at built
  cases built
  rw [(filtered setup succeeded).1]
  decide

end Setup

end ManifestLint
