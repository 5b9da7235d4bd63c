import ManifestLint.Proofs.Check.AllOrNothing
import ManifestLint.Proofs.Config.Frontmatter
import ManifestLint.Proofs.Config.Layering
import ManifestLint.Proofs.FileTree.Kinds

/-!
What a check depends on. Of a tree of files it sees only what is at the paths it names: of a file
with settings its frontmatter, of a manifest its bytes, and of a path without a file why there is
none.
-/

namespace ManifestLint

open FileTree

/-- At a path of two trees there is the same, and texts with the same frontmatter where it is a
file. -/
structure FileTree.SameSettings (first second : FileTree) (path : String) : Prop where
  kind : first.kindOf path = second.kindOf path
  frontmatter : first.kindOf path = .file →
    ∃ content other, first.HoldsText path content ∧ second.HoldsText path other ∧
      Frontmatter.ofDocument content = Frontmatter.ofDocument other

def Sources.paths (sources : Sources) : List String :=
  sources.globalPath.toList ++ sources.projectPath :: sources.explicitPath.toList

section
variable {first second : FileTree} {path : String}

/-- The body of a document, behind its closing fence, is not part of the settings. -/
theorem same_settings_of_bodies {head settings body other : String}
    (found : Frontmatter.ofDocument head = some settings) (ended : head.toList.getLast? = some '\n')
    (here : first.HoldsText path (head ++ body)) (there : second.HoldsText path (head ++ other)) :
    SameSettings first second path := by
  have isFile : first.kindOf path = .file := (kind_eq_file_iff first path).2 ⟨_, here⟩
  have otherFile : second.kindOf path = .file := (kind_eq_file_iff second path).2 ⟨_, there⟩
  refine ⟨isFile.trans otherFile.symm, fun _ => ⟨head ++ body, head ++ other, here, there, ?_⟩⟩
  rw [Frontmatter.of_document_append found ended, Frontmatter.of_document_append found ended]

theorem document_layer_of_same {content other : String}
    (same : Frontmatter.ofDocument content = Frontmatter.ofDocument other) :
    Layer.ofDocument content = Layer.ofDocument other := by
  unfold Layer.ofDocument
  rw [same]

theorem file_layer_of_same (same : SameSettings first second path) :
    Layer.ofFile first path = Layer.ofFile second path := by
  by_cases isFile : first.kindOf path = .file
  · obtain ⟨content, other, here, there, frontmatter⟩ := same.frontmatter isFile
    unfold Layer.ofFile
    rw [(read_text_eq_ok_iff first path content).2 here,
      (read_text_eq_ok_iff second path other).2 there]
    exact congrArg (Except.mapError (LoadFault.invalid path)) (document_layer_of_same frontmatter)
  · have alike : SameFile first second path := ⟨same.kind, fun present => absurd present isFile⟩
    unfold Layer.ofFile FileTree.readText
    rw [alike.read_file_eq]

theorem optional_layer_of_same (same : SameSettings first second path) :
    Layer.ofFileIfPresent first path = Layer.ofFileIfPresent second path := by
  unfold Layer.ofFileIfPresent
  rw [holds_eq_of_kind same.kind, file_layer_of_same same]

theorem load_layer_of_same {sources : Sources}
    (same : ∀ path ∈ sources.paths, SameSettings first second path) :
    Config.loadLayer first sources = Config.loadLayer second sources := by
  unfold Sources.paths at same
  rw [List.forall_mem_append, List.forall_mem_cons] at same
  obtain ⟨globalSame, projectSame, explicitSame⟩ := same
  have lowest : sources.globalPath.elim (.ok .empty) (Layer.ofFileIfPresent first) =
      sources.globalPath.elim (.ok .empty) (Layer.ofFileIfPresent second) := by
    cases named : sources.globalPath with
    | none => rfl
    | some path => exact optional_layer_of_same (globalSame path (Option.mem_toList.2 named))
  have highest : sources.explicitPath.elim (.ok .empty) (Layer.ofFile first) =
      sources.explicitPath.elim (.ok .empty) (Layer.ofFile second) := by
    cases named : sources.explicitPath with
    | none => rfl
    | some path => exact file_layer_of_same (explicitSame path (Option.mem_toList.2 named))
  unfold Config.loadLayer
  rw [lowest, optional_layer_of_same projectSame, highest]

end

namespace Input

def named (argument : String) : Input := if argument = "-" then .stdin else .file argument

def namedFiles (arguments : List String) : List String :=
  if arguments.isEmpty then ["Dockerfile"] else arguments.filter (· ≠ "-")

theorem resolve_all_named (tree : FileTree) {arguments : List String}
    (literal : ∀ argument ∈ arguments, hasWildcard argument = false) :
    resolveAll tree arguments = .ok (arguments.map named) := by
  induction arguments with
  | nil => rfl
  | cons argument arguments induction =>
      rw [List.forall_mem_cons] at literal
      have one : resolveOne tree argument = .ok [named argument] := by
        unfold resolveOne named
        rw [literal.1]
        split <;> rfl
      rw [resolveAll, one, induction literal.2]
      rfl

theorem resolve_of_literal (first second : FileTree) {arguments : List String}
    (literal : ∀ argument ∈ arguments, hasWildcard argument = false) :
    resolve first arguments = resolve second arguments := by
  unfold resolve
  rw [resolve_all_named first literal, resolve_all_named second literal]

theorem file_of_resolve {tree : FileTree} {arguments : List String} {inputs : List Input}
    {path : String} (literal : ∀ argument ∈ arguments, hasWildcard argument = false)
    (resolved : resolve tree arguments = .ok inputs) (member : .file path ∈ inputs) :
    path ∈ namedFiles arguments := by
  unfold resolve at resolved
  rw [resolve_all_named tree literal] at resolved
  unfold namedFiles
  split
  · next nothing =>
    rw [if_pos nothing] at resolved
    cases resolved
    cases List.mem_singleton.1 member
    exact List.mem_singleton_self _
  · next something =>
    rw [if_neg something] at resolved
    have same : inputs = arguments.map named := by
      change (if 1 < (arguments.map named).count .stdin then _ else _) =
        Except.ok inputs at resolved
      split at resolved
      · cases resolved
      · cases resolved
        rfl
    rw [same] at member
    obtain ⟨argument, mentioned, called⟩ := List.mem_map.1 member
    unfold named at called
    split at called
    · cases called
    · next other =>
      cases called
      exact List.mem_filter.2 ⟨mentioned, decide_eq_true other⟩

end Input

/-- Two surroundings in which a check finds the same at the paths it names. -/
structure Surroundings.Agree (first second : Surroundings) (config : Option String)
    (arguments : List String) : Prop where
  home : first.home = second.home
  stdin : first.stdin = second.stdin
  settings : ∀ path ∈ (Sources.ofHome first.home config).paths,
    SameSettings first.tree second.tree path
  manifests : ∀ path ∈ Input.namedFiles arguments, SameFile first.tree second.tree path

namespace Check

variable {first second : Surroundings}

theorem lint_of_same (engine : Engine) {input : Input} (stdin : first.stdin = second.stdin)
    (same : ∀ path, input = .file path → SameFile first.tree second.tree path) :
    input.lint first engine = input.lint second engine := by
  have read : input.read first = input.read second := by
    cases input with
    | stdin => exact congrArg Except.ok stdin
    | file path =>
        exact congrArg (Except.mapError (CheckFault.unreadable path)) (same path rfl).read_file_eq
  unfold Input.lint
  rw [read]

theorem drain_tree (around : Surroundings) (input : Input) :
    (input.drain around).tree = around.tree := by
  cases input <;> rfl

theorem drain_stdin_eq (input : Input) (stdin : first.stdin = second.stdin) :
    (input.drain first).stdin = (input.drain second).stdin := by
  cases input with
  | stdin => rfl
  | file path => exact stdin

/-- Inputs are read one after the other, and what is left of standard input stays the same. -/
theorem report_of_same (engine : Engine) {inputs : List Input} (stdin : first.stdin = second.stdin)
    (same : ∀ path, .file path ∈ inputs → SameFile first.tree second.tree path) :
    Report.ofInputs first engine inputs = Report.ofInputs second engine inputs := by
  induction inputs generalizing first second with
  | nil => rfl
  | cons input inputs induction =>
      have here : input.lint first engine = input.lint second engine := by
        apply lint_of_same engine stdin
        intro path named
        exact same path (named ▸ List.mem_cons_self)
      have behind : Report.ofInputs (input.drain first) engine inputs =
          Report.ofInputs (input.drain second) engine inputs := by
        apply induction (drain_stdin_eq input stdin)
        intro path member
        rw [drain_tree, drain_tree]
        exact same path (List.mem_cons_of_mem _ member)
      unfold Report.ofInputs
      rw [here, behind]

section
variable {config : Option String} {paths : List String}

theorem load_of_agree (agree : first.Agree second config paths) (disable : List String) :
    Setup.load first config disable = Setup.load second config disable := by
  have settings : Config.load first.tree (.ofHome first.home config) =
      Config.load second.tree (.ofHome second.home config) := by
    unfold Config.load
    rw [← agree.home, load_layer_of_same agree.settings]
  unfold Setup.load
  rw [settings]

theorem check_of_agree (agree : first.Agree second config paths)
    (literal : ∀ path ∈ paths, Input.hasWildcard path = false) (setup : Setup)
    (format : Option String) :
    setup.check first format paths = setup.check second format paths := by
  unfold Setup.check
  rw [Input.resolve_of_literal first.tree second.tree literal]
  cases resolved : Input.resolve second.tree paths with
  | error fault => rfl
  | ok inputs =>
      have same : Report.ofInputs first setup.engine inputs =
          Report.ofInputs second setup.engine inputs := by
        apply report_of_same setup.engine agree.stdin
        intro path member
        exact agree.manifests path (Input.file_of_resolve literal resolved member)
      change (do
        let format ← setup.format format
        return (format, ← Report.ofInputs first setup.engine inputs)) = _
      rw [same]
      rfl

theorem run_of_agree {environment : Environment} {invocation : CommandLine.Invocation}
    {disable : List String} {format : Option String}
    (command : invocation.command = .check paths format disable)
    (literal : ∀ path ∈ paths, Input.hasWildcard path = false)
    (agree : first.Agree second invocation.config paths) :
    Program.run environment first invocation = Program.run environment second invocation := by
  have loaded : Program.runLoaded environment first invocation =
      Program.runLoaded environment second invocation := by
    rw [run_loaded_of_check command, run_loaded_of_check command, load_of_agree agree]
    simp only [check_of_agree agree literal]
  unfold Program.run
  rw [command, loaded]

theorem run_at_time (environment : Environment) {invocation : CommandLine.Invocation}
    {disable : List String} {format : Option String}
    (command : invocation.command = .check paths format disable) (around : Surroundings)
    (time : String) : ∃ printed, Program.run { environment with time } around invocation =
      { Program.run environment around invocation with output := printed } := by
  rcases first_fault_or_completes around (requestOf invocation paths format disable) with
    ⟨fault, failed⟩ | ⟨settings, chosen, inputs, report, completes⟩
  · rw [run_of_first_fault command failed, run_of_first_fault command failed]
    exact ⟨"", rfl⟩
  · rw [run_of_completes command completes, run_of_completes command completes]
    exact ⟨_, rfl⟩

end

/-- A check of paths without wildcards ends in the same way wherever it finds the same at the paths
it names, and at another time only what it prints is another. Of a file with settings nothing counts
behind the closing fence. -/
theorem check_depends_on_named_paths :
    (∀ (environment : Environment) (time : String) (first second : Surroundings)
      (arguments : List String) (invocation : CommandLine.Invocation)
      (paths disable : List String) (format : Option String),
      CommandLine.parse arguments = .ok invocation →
        invocation.command = .check paths format disable →
      (∀ path ∈ paths, Input.hasWildcard path = false) →
        first.Agree second invocation.config paths →
        ∃ outcome printed,
          (CommandLine.parse arguments).map (Program.run environment first) = .ok outcome ∧
          (CommandLine.parse arguments).map (Program.run environment second) = .ok outcome ∧
          (CommandLine.parse arguments).map (Program.run { environment with time } second) =
            .ok { outcome with output := printed }) ∧
    (∀ (first second : FileTree) (path head settings body other : String),
      Frontmatter.ofDocument head = some settings → head.toList.getLast? = some '\n' →
      first.HoldsText path (head ++ body) → second.HoldsText path (head ++ other) →
        SameSettings first second path) := by
  constructor
  · intro environment time first second arguments invocation paths disable format parsed command
      literal agree
    have same :
        Program.run environment first invocation = Program.run environment second invocation :=
      run_of_agree command literal agree
    obtain ⟨printed, later⟩ := run_at_time environment command second time
    rw [parsed]
    refine ⟨Program.run environment first invocation, printed, rfl, ?_, ?_⟩
    · exact congrArg Except.ok same.symm
    · rw [same]
      exact congrArg Except.ok later
  · intro first second path head settings body other found ended here there
    exact same_settings_of_bodies found ended here there

/-- A manifest beside settings with some notes behind them, in a home without settings. -/
def amongNotes (notes : String) : Surroundings :=
  ⟨(FileTree.empty.addFile "Dockerfile" (Text.encode "FROM scratch".toList)).addFile ".buildlint.md"
    (Text.encode ("---\noutput:\n  color: false\n---\n" ++ notes).toList), some "home", []⟩

def amongOthers : Surroundings :=
  { amongNotes "lint:\n---\n" with tree :=
    (amongNotes "lint:\n---\n").tree.addFile "web/Dockerfile" [] }

theorem agree_among_others
    (settings : SameSettings (amongNotes "Notes.").tree amongOthers.tree ".buildlint.md") :
    (amongNotes "Notes.").Agree amongOthers none ["-", "Dockerfile"] := by
  refine ⟨rfl, rfl, ?_, ?_⟩
  · change ∀ path ∈ ["home/.config/buildlint/config.md", ".buildlint.md"], _
    rw [List.forall_mem_cons, List.forall_mem_singleton]
    exact ⟨⟨by decide +kernel, fun present => absurd present (by decide +kernel)⟩, settings⟩
  · change ∀ path ∈ ["Dockerfile"], _
    rw [List.forall_mem_singleton]
    exact ⟨by decide +kernel, fun _ =>
      ⟨Text.encode "FROM scratch".toList, by decide +kernel, by decide +kernel⟩⟩

/-- The missing stages of the manifest are told of all the same. -/
theorem check_among_others :
    ((CommandLine.parse ["check", "-", "Dockerfile"]).map
      (Program.run ⟨⟨"", ""⟩, true, ""⟩ (amongNotes "Notes."))).map Outcome.status = .ok 1 ∧
    (CommandLine.parse ["check", "-", "Dockerfile"]).map
        (Program.run ⟨⟨"", ""⟩, true, ""⟩ (amongNotes "Notes.")) =
      (CommandLine.parse ["check", "-", "Dockerfile"]).map
        (Program.run ⟨⟨"", ""⟩, true, ""⟩ amongOthers) := by
  have parsed : CommandLine.parse ["check", "-", "Dockerfile"] =
      .ok ⟨.check ["-", "Dockerfile"] none [], false, false, false, none⟩ := by decide +kernel
  have settings : SameSettings (amongNotes "Notes.").tree amongOthers.tree ".buildlint.md" := by
    apply check_depends_on_named_paths.2 _ _ _ "---\noutput:\n  color: false\n---\n"
      "output:\n  color: false\n"
      "Notes." "lint:\n---\n"
    · decide +kernel
    · decide +kernel
    · exact (read_text_eq_ok_iff _ _ _).1 (by decide +kernel)
    · exact (read_text_eq_ok_iff _ _ _).1 (by decide +kernel)
  obtain ⟨outcome, printed, here, there, _⟩ :=
    check_depends_on_named_paths.1 ⟨⟨"", ""⟩, true, ""⟩ "" _ _ _ _ _ _ _
    parsed rfl (by decide +kernel) (agree_among_others settings)
  exact ⟨by decide +kernel, here.trans there.symm⟩

end Check

end ManifestLint
