import ManifestLint.Config.Load
import ManifestLint.Proofs.Faults
import ManifestLint.Proofs.Text.Utf8

/-!
Layers of settings. Every file that is there gives one, and the last layer that has a setting
decides it: the lint section as a whole, the format and the colour each for itself.
-/

namespace ManifestLint

/-- The bytes of the file are the UTF-8 encoding of a text. -/
def FileTree.HoldsText (tree : FileTree) (path content : String) : Prop :=
  tree.readFile path = .ok (Text.encode content.toList)

theorem read_text_eq_ok_iff (tree : FileTree) (path content : String) :
    tree.readText path = .ok content ↔ tree.HoldsText path content := by
  rw [FileTree.readText, bind_eq_ok_iff, FileTree.HoldsText]
  constructor
  · rintro ⟨bytes, read, decoded⟩
    rw [map_error_eq_ok_iff] at read
    split at decoded
    · next text whole =>
      cases decoded
      rw [String.toList_ofList, Text.encode_of_decode whole]
      exact read
    · cases decoded
  · intro held
    refine ⟨_, map_error_eq_ok_iff.2 held, ?_⟩
    rw [Text.decode_encode]
    exact congrArg Except.ok String.ofList_toList

/-- The files that give a layer, the lowest first. Only the explicit one counts when it is absent.
-/
def Sources.files (tree : FileTree) (sources : Sources) : List String :=
  sources.globalPath.toList.filter tree.holds ++
    ([sources.projectPath].filter tree.holds ++ sources.explicitPath.toList)

namespace Layer

/-- The layer that the file at a path gives. -/
def InFile (tree : FileTree) (path : String) (layer : Layer) : Prop :=
  ∃ content, tree.HoldsText path content ∧ ofDocument content = .ok layer

theorem of_file_eq_ok_iff (tree : FileTree) (path : String) (layer : Layer) :
    ofFile tree path = .ok layer ↔ InFile tree path layer := by
  simp [ofFile, read_text_eq_ok_iff, InFile]

theorem above_self (upper lower : Layer) : upper.above (upper.above lower) = upper.above lower := by
  simp only [above, ← Option.or_assoc, Option.or_self]

def stack (layers : List Layer) : Layer :=
  layers.foldl (fun lower upper => upper.above lower) .empty

theorem stack_concat (layers : List Layer) (last : Layer) :
    stack (layers ++ [last]) = last.above (stack layers) := List.foldl_append

theorem stack_append (lower upper : List Layer) :
    stack (lower ++ upper) = (stack upper).above (stack lower) := by
  induction upper using List.reverseRecOn with
  | nil =>
      rw [List.append_nil]
      exact (empty_above _).symm
  | append_singleton upper last induction =>
      rw [← List.append_assoc, stack_concat, induction, stack_concat, above_assoc]

def ofFiles (tree : FileTree) (paths : List String) : Except LoadFault Layer :=
  (paths.mapM (ofFile tree)).map stack

theorem of_files_append (tree : FileTree) (lower upper : List String) :
    ofFiles tree (lower ++ upper) = (do
      let below ← ofFiles tree lower
      let top ← ofFiles tree upper
      return top.above below) := by
  rw [ofFiles, ofFiles, ofFiles, List.mapM_append]
  cases lower.mapM (ofFile tree) with
  | error fault => rfl
  | ok below =>
      cases upper.mapM (ofFile tree) with
      | error fault => rfl
      | ok top => exact congrArg Except.ok (stack_append below top)

theorem of_files_one (tree : FileTree) (path : String) :
    ofFiles tree [path] = ofFile tree path := by
  rw [ofFiles, List.mapM_cons, List.mapM_nil]
  cases ofFile tree path with
  | error fault => rfl
  | ok layer => exact congrArg Except.ok (above_empty layer)

theorem of_files_if_present (tree : FileTree) (path : String) :
    ofFiles tree ([path].filter tree.holds) = ofFileIfPresent tree path := by
  rw [ofFileIfPresent]
  by_cases present : tree.holds path = true
  · rw [List.filter_cons_of_pos present, List.filter_nil, of_files_one, if_pos present]
  · rw [List.filter_cons_of_neg present, List.filter_nil, if_neg present]
    rfl

theorem load_layer_of_files (tree : FileTree) (sources : Sources) :
    Config.loadLayer tree sources = ofFiles tree (sources.files tree) := by
  have lowest : sources.globalPath.elim (.ok .empty) (ofFileIfPresent tree) =
      ofFiles tree (sources.globalPath.toList.filter tree.holds) := by
    cases sources.globalPath with
    | none => rfl
    | some path => exact (of_files_if_present tree path).symm
  have highest : sources.explicitPath.elim (.ok .empty) (ofFile tree) =
      ofFiles tree sources.explicitPath.toList := by
    cases sources.explicitPath with
    | none => rfl
    | some path => exact (of_files_one tree path).symm
  rw [Config.loadLayer, lowest, highest, ← of_files_if_present, Sources.files, of_files_append,
    of_files_append]
  cases ofFiles tree (sources.globalPath.toList.filter tree.holds) with
  | error fault => rfl
  | ok below =>
      cases ofFiles tree ([sources.projectPath].filter tree.holds) with
      | error fault => rfl
      | ok middle =>
          cases ofFiles tree sources.explicitPath.toList with
          | error fault => rfl
          | ok top => exact congrArg Except.ok (above_assoc top middle below).symm

section
variable {Value : Type} {setting : Layer → Option Value} {usual : Value}

/-- The value of a setting over some layers: that of the last layer which has it, or the usual one
when none has. -/
inductive Decides (setting : Layer → Option Value) (usual : Value) (layers : List Layer) :
    Value → Prop where
  | last {before after : List Layer} {layer : Layer} {value : Value}
      (parts : layers = before ++ layer :: after) (has : setting layer = some value)
      (later : ∀ other ∈ after, setting other = none) : Decides setting usual layers value
  | unset (nowhere : ∀ layer ∈ layers, setting layer = none) : Decides setting usual layers usual

/-- A setting that an upper layer takes from the lower one just when it has none of its own. -/
structure Overrides (setting : Layer → Option Value) : Prop where
  empty : setting empty = none
  above : ∀ upper lower, setting (upper.above lower) = (setting upper).or (setting lower)

theorem setting_of_stack_concat (overrides : Overrides setting) (layers : List Layer)
    (last : Layer) :
    setting (stack (layers ++ [last])) = (setting last).or (setting (stack layers)) := by
  rw [stack_concat, overrides.above]

theorem setting_of_stack_unset (overrides : Overrides setting) {layers : List Layer}
    (nowhere : ∀ layer ∈ layers, setting layer = none) : setting (stack layers) = none := by
  induction layers using List.reverseRecOn with
  | nil => exact overrides.empty
  | append_singleton layers last induction =>
      rw [List.forall_mem_append, List.forall_mem_singleton] at nowhere
      rw [setting_of_stack_concat overrides, nowhere.2, induction nowhere.1]
      rfl

theorem stack_decides (overrides : Overrides setting) (layers : List Layer) :
    Decides setting usual layers ((setting (stack layers)).getD usual) := by
  induction layers using List.reverseRecOn with
  | nil =>
      rw [stack, List.foldl_nil, overrides.empty]
      exact .unset fun _ member => absurd member List.not_mem_nil
  | append_singleton layers last induction =>
      rw [setting_of_stack_concat overrides]
      cases own : setting last with
      | some value =>
          rw [Option.some_or, Option.getD_some]
          exact .last rfl own fun _ member => absurd member List.not_mem_nil
      | none =>
          rw [Option.none_or]
          generalize (setting (stack layers)).getD usual = value at induction
          cases induction with
          | @last before after layer _ parts has later =>
              have whole : layers ++ [last] = before ++ layer :: (after ++ [last]) := by
                rw [parts, List.append_assoc, List.cons_append]
              refine .last whole has ?_
              rw [List.forall_mem_append, List.forall_mem_singleton]
              exact ⟨later, own⟩
          | unset nowhere =>
              refine .unset ?_
              rw [List.forall_mem_append, List.forall_mem_singleton]
              exact ⟨nowhere, own⟩

theorem decides_iff (overrides : Overrides setting) (layers : List Layer) (value : Value) :
    Decides setting usual layers value ↔ value = (setting (stack layers)).getD usual := by
  constructor
  · intro decided
    cases decided with
    | @last before after layer value parts has later =>
        rw [parts, List.append_cons, stack_append, overrides.above,
          setting_of_stack_concat overrides, has, setting_of_stack_unset overrides later]
        rfl
    | unset nowhere =>
        rw [setting_of_stack_unset overrides nowhere]
        rfl
  · rintro rfl
    exact stack_decides overrides layers

end

theorem lint_overrides : Overrides (·.lint) := ⟨rfl, fun _ _ => rfl⟩

theorem format_overrides : Overrides (·.format) := ⟨rfl, fun _ _ => rfl⟩

theorem colour_overrides : Overrides (·.colour) := ⟨rfl, fun _ _ => rfl⟩

def InFiles (tree : FileTree) (paths : List String) (layers : List Layer) : Prop :=
  List.Forall₂ (InFile tree) paths layers

theorem map_m_of_file_eq_ok_iff (tree : FileTree) (paths : List String) (layers : List Layer) :
    paths.mapM (ofFile tree) = .ok layers ↔ InFiles tree paths layers := by
  rw [map_m_eq_ok_iff, AllSucceed, InFiles]
  simp only [of_file_eq_ok_iff]

end Layer

namespace Config

open Layer

variable {tree : FileTree} {sources : Sources} {config : Config}

theorem checked_eq_ok_iff (settings config : Config) :
    settings.checked = .ok config ↔
      config = settings ∧ ∃ engine, Engine.ofSection settings.lint = .ok engine := by
  rw [checked, engine]
  cases Engine.ofSection settings.lint with
  | error fault => simp [Except.map]
  | ok engine => simp [Except.map, eq_comm]

/-- Settings are loaded from all files in their order, and nothing is checked but the result. -/
theorem load_eq_ok_iff (tree : FileTree) (sources : Sources) (config : Config) :
    load tree sources = .ok config ↔
      ∃ layers, InFiles tree (sources.files tree) layers ∧
        (stack layers).finish.checked = .ok config := by
  rw [load, load_layer_of_files, ofFiles]
  simp only [← map_m_of_file_eq_ok_iff]
  cases (sources.files tree).mapM (ofFile tree) with
  | error fault =>
      change Except.error fault = Except.ok config ↔ _
      simp
  | ok layers =>
      change (stack layers).finish.checked.mapError LoadFault.lint = .ok config ↔ _
      rw [map_error_eq_ok_iff]
      simp

theorem load_of_one_file {path : String} (alone : sources.files tree = [path])
    (loaded : load tree sources = .ok config) :
    ∃ content, tree.HoldsText path content ∧ ofDocument content = .ok config := by
  obtain ⟨layers, given, valid⟩ := (load_eq_ok_iff tree sources config).1 loaded
  rw [alone, InFiles, List.forall₂_cons_left_iff] at given
  obtain ⟨layer, others, ⟨content, held, read⟩, nothing, rfl⟩ := given
  rw [List.forall₂_nil_left_iff] at nothing
  subst nothing
  refine ⟨content, held, ?_⟩
  rw [ofDocument, read]
  change layer.finish.checked.mapError ConfigFault.lint = _
  rw [map_error_eq_ok_iff, ← valid]
  exact congrArg (fun stacked => stacked.finish.checked) (above_empty layer).symm

theorem load_project_again (tree : FileTree) (sources : Sources)
    (present : tree.holds sources.projectPath = true) :
    load tree { sources with explicitPath := some sources.projectPath } =
      load tree { sources with explicitPath := none } := by
  have again : loadLayer tree { sources with explicitPath := some sources.projectPath } =
      loadLayer tree { sources with explicitPath := none } := by
    rw [load_layer_of_files, load_layer_of_files]
    simp only [Sources.files, List.filter_cons_of_pos present, List.filter_nil, Option.toList_some,
      Option.toList_none, List.append_nil, of_files_append, of_files_one]
    cases ofFiles tree (sources.globalPath.toList.filter tree.holds) with
    | error fault => rfl
    | ok below =>
        cases ofFile tree sources.projectPath with
        | error fault => rfl
        | ok layer =>
            exact congrArg Except.ok (by rw [above_assoc, above_self])
  rw [load, load, again]

/-- The layers of a successful load decide its settings, each for itself. A file that gives the only
layer gives the settings it has as a document of its own, and a project file that is named again
changes nothing. -/
theorem settings_of_last_layers (tree : FileTree) (sources : Sources) (config : Config)
    (loaded : load tree sources = .ok config) :
    ∃ layers, InFiles tree (sources.files tree) layers ∧
      Decides (·.lint) ⟨[], []⟩ layers config.lint ∧
      Decides (·.format) .text layers config.format ∧
      Decides (·.colour) true layers config.colour ∧
      (∀ path, sources.files tree = [path] →
        ∃ content, tree.HoldsText path content ∧ ofDocument content = .ok config) ∧
      (tree.holds sources.projectPath = true →
        load tree { sources with explicitPath := some sources.projectPath } =
          load tree { sources with explicitPath := none }) := by
  obtain ⟨layers, given, valid⟩ := (load_eq_ok_iff tree sources config).1 loaded
  obtain ⟨rfl, _⟩ := (checked_eq_ok_iff _ config).1 valid
  refine ⟨layers, given, stack_decides lint_overrides layers, stack_decides format_overrides layers,
    stack_decides colour_overrides layers, ?_, load_project_again tree sources⟩
  intro path alone
  exact load_of_one_file alone loaded

def settingsFile (content : String) : Entry := .file (Text.encode content.toList)

/-- A file with a lint section and a format in a home directory, and two files in the working
directory: one with a colour, and one with another lint section. -/
def layeredTree : FileTree :=
  ⟨.directory
    [("home", .directory [("global.md", settingsFile
        "---\nlint:\n  disable: [multi-stage-build]\noutput:\n  format: json\n---\n")]),
      ("work", .directory
        [("project.md", settingsFile "---\noutput:\n  color: false\n---\n"),
          ("other.md", settingsFile "---\nlint:\n  rules: []\n---\n")])], ["work"], rfl⟩

theorem settings_of_three_files :
    load layeredTree ⟨some "/home/global.md", "project.md", some "../work/other.md"⟩ =
        .ok ⟨.empty, .json, false⟩ ∧
      ∃ layers, InFiles layeredTree ["/home/global.md", "project.md", "../work/other.md"] layers ∧
        Decides (·.lint) ⟨[], []⟩ layers ⟨[], []⟩ ∧ Decides (·.format) .text layers .json ∧
        Decides (·.colour) true layers false := by
  have loaded : load layeredTree ⟨some "/home/global.md", "project.md", some "../work/other.md"⟩ =
      .ok ⟨.empty, .json, false⟩ := by decide +kernel
  have there :
      Sources.files layeredTree ⟨some "/home/global.md", "project.md", some "../work/other.md"⟩ =
      ["/home/global.md", "project.md", "../work/other.md"] := by decide +kernel
  obtain ⟨layers, given, lint, format, colour, _⟩ := settings_of_last_layers layeredTree _ _ loaded
  rw [there] at given
  exact ⟨loaded, layers, given, lint, format, colour⟩

end Config

end ManifestLint
