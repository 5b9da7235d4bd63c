import ManifestLint.Proofs.Config.Layering
import ManifestLint.Proofs.Engine.Construction

/-!
When loading settings fails. A file can be at fault only when it is there or named explicitly, and
the lint section only when it is the one that the layers decide on; of several causes the first one
is told.
-/

namespace ManifestLint

/-- The fault of the first of some causes that gives any. -/
def FirstOf {Fault : Type} : List (Fault → Prop) → Fault → Prop
  | [], _ => False
  | cause :: causes, fault => cause fault ∨ (¬ ∃ other, cause other) ∧ FirstOf causes fault

section
variable {Fault : Type} {cause : Fault → Prop} {causes : List (Fault → Prop)}

theorem exists_first_of_cons :
    (∃ fault, FirstOf (cause :: causes) fault) ↔
      (∃ fault, cause fault) ∨ ∃ fault, FirstOf causes fault := by
  constructor
  · rintro ⟨fault, given | ⟨_, later⟩⟩
    · exact .inl ⟨fault, given⟩
    · exact .inr ⟨fault, later⟩
  · rintro (⟨fault, given⟩ | ⟨fault, later⟩)
    · exact ⟨fault, .inl given⟩
    · by_cases earlier : ∃ other, cause other
      · obtain ⟨other, given⟩ := earlier
        exact ⟨other, .inl given⟩
      · exact ⟨fault, .inr ⟨earlier, later⟩⟩

theorem first_of_cons_impossible (impossible : ∀ fault, ¬ cause fault) (fault : Fault) :
    FirstOf (cause :: causes) fault ↔ FirstOf causes fault := by
  have never : ¬ ∃ other, cause other := not_exists.2 impossible
  rw [FirstOf, iff_false_intro (impossible fault), false_or, and_iff_right never]

end

theorem not_fault_iff {Fault Value : Type} (result : Except Fault Value) :
    (¬ ∃ fault, result = .error fault) ↔ ∃ value, result = .ok value := by
  cases result with
  | error fault => simp
  | ok value => simp

/-- A computation that goes on after its first part fails with the fault of that part or a later
one. -/
theorem bind_fails_iff {Fault Value Result : Type} {first : Except Fault Value}
    {next : Value → Except Fault Result} {cause later : Fault → Prop}
    (fails : ∀ fault, first = .error fault ↔ cause fault)
    (goes : ∀ value, first = .ok value → ∀ fault, next value = .error fault ↔ later fault)
    (fault : Fault) :
    first >>= next = .error fault ↔ cause fault ∨ (¬ ∃ other, cause other) ∧ later fault := by
  rw [bind_eq_error_iff, fails]
  apply or_congr_right
  have ends := not_fault_iff first
  simp only [fails] at ends
  rw [ends]
  constructor
  · rintro ⟨value, found, failed⟩
    exact ⟨⟨value, found⟩, (goes value found fault).1 failed⟩
  · rintro ⟨⟨value, found⟩, failed⟩
    exact ⟨value, found, (goes value found fault).2 failed⟩

namespace Layer

/-- What is wrong with a file that gives no layer. -/
inductive FileFails (tree : FileTree) (path : String) : LoadFault → Prop where
  | unreadable {cause : TextFault} (failed : tree.readText path = .error cause) :
      FileFails tree path (.unreadable path cause)
  | invalid {content : String} {cause : DocumentFault} (held : tree.HoldsText path content)
      (failed : ofDocument content = .error cause) : FileFails tree path (.invalid path cause)

theorem of_file_eq_error_iff (tree : FileTree) (path : String) (fault : LoadFault) :
    ofFile tree path = .error fault ↔ FileFails tree path fault := by
  constructor
  · intro failed
    rw [ofFile, bind_eq_error_iff, map_error_eq_error_iff] at failed
    rcases failed with ⟨cause, unread, rfl⟩ | ⟨content, read, invalid⟩
    · exact .unreadable unread
    · rw [map_error_eq_ok_iff, read_text_eq_ok_iff] at read
      obtain ⟨cause, refused, rfl⟩ := map_error_eq_error_iff.1 invalid
      exact .invalid read refused
  · intro fails
    rw [ofFile, bind_eq_error_iff, map_error_eq_error_iff]
    cases fails with
    | unreadable failed => exact .inl ⟨_, failed, rfl⟩
    | invalid held failed =>
        rw [← read_text_eq_ok_iff] at held
        exact .inr ⟨_, map_error_eq_ok_iff.2 held, map_error_eq_error_iff.2 ⟨_, failed, rfl⟩⟩

theorem file_fails_iff (tree : FileTree) (path : String) :
    (∃ fault, FileFails tree path fault) ↔ ¬ ∃ layer, InFile tree path layer := by
  simp only [← of_file_eq_error_iff, ← of_file_eq_ok_iff, ← not_fault_iff, not_not]

theorem FileFails.message {tree : FileTree} {path : String} {fault : LoadFault}
    (fails : FileFails tree path fault) :
    (∃ cause, tree.readText path = .error cause ∧
      fault.message = "Failed to read config from " ++ path ++ ": " ++ cause.message) ∨
    ∃ content cause, tree.HoldsText path content ∧ ofDocument content = .error cause ∧
      fault.message = "Invalid config " ++ path ++ ": " ++ cause.message := by
  cases fails with
  | unreadable failed => exact .inl ⟨_, failed, rfl⟩
  | invalid held failed => exact .inr ⟨_, _, held, failed, rfl⟩

theorem of_file_if_present_eq_error_iff (tree : FileTree) (path : String) (fault : LoadFault) :
    ofFileIfPresent tree path = .error fault ↔
      tree.holds path = true ∧ FileFails tree path fault := by
  rw [ofFileIfPresent, ← of_file_eq_error_iff]
  by_cases present : tree.holds path = true
  · rw [if_pos present, and_iff_right present]
  · rw [if_neg present]
    simp [present]

end Layer

namespace Config

open Layer

variable (tree : FileTree) (sources : Sources)

def GlobalFails (fault : LoadFault) : Prop :=
  ∃ path, sources.globalPath = some path ∧ tree.holds path = true ∧ FileFails tree path fault

def ProjectFails (fault : LoadFault) : Prop :=
  tree.holds sources.projectPath = true ∧ FileFails tree sources.projectPath fault

def ExplicitFails (fault : LoadFault) : Prop :=
  ∃ path, sources.explicitPath = some path ∧ FileFails tree path fault

/-- The lint section that the layers decide on describes no engine. -/
def LintFails (fault : LoadFault) : Prop :=
  ∃ layers lint cause, InFiles tree (sources.files tree) layers ∧
    Decides (·.lint) .empty layers lint ∧
    Engine.ofSection lint = .error cause ∧ fault = .lint cause

theorem global_fails_iff (fault : LoadFault) :
    sources.globalPath.elim (.ok .empty) (ofFileIfPresent tree) = .error fault ↔
      GlobalFails tree sources fault := by
  rw [GlobalFails]
  cases sources.globalPath with
  | none => simp
  | some path => simp [of_file_if_present_eq_error_iff]

theorem explicit_fails_iff (fault : LoadFault) :
    sources.explicitPath.elim (.ok .empty) (ofFile tree) = .error fault ↔
      ExplicitFails tree sources fault := by
  rw [ExplicitFails]
  cases sources.explicitPath with
  | none => simp
  | some path => simp [of_file_eq_error_iff]

theorem checked_eq_error_iff (settings : Config) (cause : RuleFault) :
    settings.checked = .error cause ↔ Engine.ofSection settings.lint = .error cause := by
  rw [checked, engine]
  cases Engine.ofSection settings.lint with
  | error fault => simp [Except.map]
  | ok engine => simp [Except.map]

theorem lint_fails_iff {layer : Layer} (loaded : loadLayer tree sources = .ok layer)
    (fault : LoadFault) :
    layer.finish.checked.mapError .lint = .error fault ↔ LintFails tree sources fault := by
  rw [load_layer_of_files, ofFiles] at loaded
  rw [map_error_eq_error_iff]
  simp only [checked_eq_error_iff, LintFails, ← map_m_of_file_eq_ok_iff, decides_iff lint_overrides]
  cases given : (sources.files tree).mapM (ofFile tree) with
  | error other =>
      rw [given] at loaded
      cases loaded
  | ok layers =>
      rw [given] at loaded
      cases loaded
      constructor
      · rintro ⟨cause, refused, rfl⟩
        exact ⟨layers, _, cause, rfl, rfl, refused, rfl⟩
      · rintro ⟨others, lint, cause, same, rfl, refused, rfl⟩
        cases same
        exact ⟨cause, refused, rfl⟩

theorem load_eq_error_iff (fault : LoadFault) :
    load tree sources = .error fault ↔
      FirstOf [GlobalFails tree sources, ProjectFails tree sources, ExplicitFails tree sources,
        LintFails tree sources] fault := by
  have parts : load tree sources = (do
      let lowest ← sources.globalPath.elim (.ok .empty) (ofFileIfPresent tree)
      let middle ← ofFileIfPresent tree sources.projectPath
      let highest ← sources.explicitPath.elim (.ok .empty) (ofFile tree)
      (highest.above (middle.above lowest)).finish.checked.mapError .lint) := by
    rw [load, loadLayer, bind_assoc]
    simp only [bind_assoc, pure_bind]
  rw [parts]
  refine bind_fails_iff (global_fails_iff tree sources) ?_ fault
  intro lowest lower
  refine bind_fails_iff (of_file_if_present_eq_error_iff tree sources.projectPath) ?_
  intro middle between
  refine bind_fails_iff (explicit_fails_iff tree sources) ?_
  intro highest upper fault
  have loaded : loadLayer tree sources = .ok (highest.above (middle.above lowest)) := by
    rw [loadLayer, lower, between, upper]
    rfl
  rw [lint_fails_iff tree sources loaded]
  simp [FirstOf]

theorem fails_iff_some_cause :
    (∃ fault, load tree sources = .error fault) ↔
      (∃ path, sources.globalPath = some path ∧ tree.holds path = true ∧
        ¬ ∃ layer, InFile tree path layer) ∨
      (tree.holds sources.projectPath = true ∧ ¬ ∃ layer, InFile tree sources.projectPath layer) ∨
      (∃ path, sources.explicitPath = some path ∧ ¬ ∃ layer, InFile tree path layer) ∨
      ∃ layers lint cause, InFiles tree (sources.files tree) layers ∧
        Decides (·.lint) .empty layers lint ∧
        Engine.ofSection lint = .error cause := by
  have lower : (∃ fault, GlobalFails tree sources fault) ↔
      ∃ path, sources.globalPath = some path ∧ tree.holds path = true ∧
        ¬ ∃ layer, InFile tree path layer := by
    simp only [GlobalFails, ← file_fails_iff]
    rw [exists_comm]
    simp only [exists_and_left]
  have between : (∃ fault, ProjectFails tree sources fault) ↔
      tree.holds sources.projectPath = true ∧ ¬ ∃ layer, InFile tree sources.projectPath layer := by
    simp only [ProjectFails, ← file_fails_iff, exists_and_left]
  have upper : (∃ fault, ExplicitFails tree sources fault) ↔
      ∃ path, sources.explicitPath = some path ∧ ¬ ∃ layer, InFile tree path layer := by
    simp only [ExplicitFails, ← file_fails_iff]
    rw [exists_comm]
    simp only [exists_and_left]
  have decided : (∃ fault, LintFails tree sources fault) ↔
      ∃ layers lint cause, InFiles tree (sources.files tree) layers ∧
      Decides (·.lint) .empty layers lint ∧
        Engine.ofSection lint = .error cause := by
    constructor
    · rintro ⟨_, layers, lint, cause, given, decides, refused, _⟩
      exact ⟨layers, lint, cause, given, decides, refused⟩
    · rintro ⟨layers, lint, cause, given, decides, refused⟩
      exact ⟨_, layers, lint, cause, given, decides, refused, rfl⟩
  simp only [load_eq_error_iff, exists_first_of_cons, lower, between, upper, decided]
  simp [FirstOf]

theorem fails_iff_lint_refused {before after : List Layer} {layer : Layer} {lint : LintSection}
    (given : InFiles tree (sources.files tree) (before ++ layer :: after))
    (own : layer.lint = some lint) (later : ∀ other ∈ after, other.lint = none) :
    (∃ fault, load tree sources = .error fault) ↔
      ∃ cause, Engine.ofSection lint = .error cause := by
  have decided : Decides (·.lint) .empty (before ++ layer :: after) lint := .last rfl own later
  have chosen : (stack (before ++ layer :: after)).finish.lint = lint :=
    ((decides_iff lint_overrides _ _).1 decided).symm
  have loaded : load tree sources =
      (stack (before ++ layer :: after)).finish.checked.mapError .lint := by
    rw [load, load_layer_of_files, ofFiles, (map_m_of_file_eq_ok_iff tree _ _).2 given]
    rfl
  rw [loaded]
  simp only [map_error_eq_error_iff, checked_eq_error_iff, chosen]
  constructor
  · rintro ⟨_, cause, refused, _⟩
    exact ⟨cause, refused⟩
  · rintro ⟨cause, refused⟩
    exact ⟨_, cause, refused, rfl⟩

/-- When settings cannot be loaded, and what is told then. No file at fault is an absent one, unless
it is explicit, and of the lint sections only the last one counts. -/
theorem load_fails_for_first_cause (tree : FileTree) (sources : Sources) :
    (∀ fault, load tree sources = .error fault ↔
      FirstOf [GlobalFails tree sources, ProjectFails tree sources, ExplicitFails tree sources,
        LintFails tree sources] fault) ∧
    ((∃ fault, load tree sources = .error fault) ↔
      (∃ path, sources.globalPath = some path ∧ tree.holds path = true ∧
        ¬ ∃ layer, InFile tree path layer) ∨
      (tree.holds sources.projectPath = true ∧ ¬ ∃ layer, InFile tree sources.projectPath layer) ∨
      (∃ path, sources.explicitPath = some path ∧ ¬ ∃ layer, InFile tree path layer) ∨
      ∃ layers lint cause, InFiles tree (sources.files tree) layers ∧
        Decides (·.lint) .empty layers lint ∧
        Engine.ofSection lint = .error cause) ∧
    (∀ path fault, FileFails tree path fault →
      (∃ cause, tree.readText path = .error cause ∧
        fault.message = "Failed to read config from " ++ path ++ ": " ++ cause.message) ∨
      ∃ content cause, tree.HoldsText path content ∧ Layer.ofDocument content = .error cause ∧
        fault.message = "Invalid config " ++ path ++ ": " ++ cause.message) ∧
    (∀ cause, LoadFault.message (.lint cause) = "Invalid lint configuration: " ++ cause.message) ∧
    ((∀ path, sources.globalPath = some path → tree.holds path = false) → ∀ fault,
      load tree sources = .error fault ↔
        FirstOf [ProjectFails tree sources, ExplicitFails tree sources, LintFails tree sources]
          fault) ∧
    (tree.holds sources.projectPath = false → ∀ fault,
      load tree sources = .error fault ↔
        FirstOf [GlobalFails tree sources, ExplicitFails tree sources, LintFails tree sources]
          fault) ∧
    (∀ before layer after lint, InFiles tree (sources.files tree) (before ++ layer :: after) →
      layer.lint = some lint → (∀ later ∈ after, later.lint = none) →
        ((∃ fault, load tree sources = .error fault) ↔
          ∃ cause, Engine.ofSection lint = .error cause)) := by
  refine ⟨load_eq_error_iff tree sources, fails_iff_some_cause tree sources, ?_, fun cause => rfl,
    ?_, ?_, ?_⟩
  · intro path fault fails
    exact fails.message
  · intro absent fault
    rw [load_eq_error_iff, first_of_cons_impossible]
    rintro other ⟨path, given, present, _⟩
    rw [absent path given] at present
    cases present
  · intro absent fault
    have impossible (other : LoadFault) : ¬ ProjectFails tree sources other := by
      rintro ⟨present, _⟩
      rw [absent] at present
      cases present
    rw [load_eq_error_iff, FirstOf, first_of_cons_impossible impossible]
    rfl
  · intro before layer after lint given own later
    exact fails_iff_lint_refused tree sources given own later

end Config

end ManifestLint
