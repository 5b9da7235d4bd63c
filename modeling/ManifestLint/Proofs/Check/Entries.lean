import ManifestLint.Proofs.Check.AllOrNothing
import ManifestLint.Proofs.Manifest.Decoding

/-!
The entries of a report. Each is made of one input alone: its source and the findings on its bytes.
Inputs only share standard input, which is empty once it was read. The sample manifest is told of in
the same way, whether the program has it or reads what it printed before.
-/

namespace ManifestLint

def Surroundings.after (around : Surroundings) (inputs : List Input) : Surroundings :=
  if .stdin ∈ inputs then { around with stdin := [] } else around

/-- A text is read back from its bytes, unless it has a null character. -/
theorem Manifest.of_bytes_encode {text : String} (plain : '\u0000' ∉ text.toList) :
    Manifest.ofBytes (Text.encode text.toList) = .ok ⟨text⟩ :=
  Manifest.of_bytes_eq_ok_iff.2 ⟨rfl, mt (Text.zero_mem_encode_iff text.toList).1 plain⟩

namespace Check

variable (around : Surroundings) (engine : Engine)

theorem after_drain (input : Input) (inputs : List Input) :
    (input.drain around).after inputs = around.after (input :: inputs) := by
  unfold Surroundings.after
  cases input with
  | stdin =>
      rw [if_pos List.mem_cons_self]
      split <;> rfl
  | file path =>
      have same : .stdin ∈ Input.file path :: inputs ↔ .stdin ∈ inputs := by
        rw [List.mem_cons, or_iff_right Input.noConfusion]
      simp only [same]
      rfl

theorem report_cons_eq_ok_iff (input : Input) (inputs : List Input) (report : Report) :
    Report.ofInputs around engine (input :: inputs) = .ok report ↔
      ∃ entry rest, input.lint around engine = .ok entry ∧
        Report.ofInputs (input.drain around) engine inputs = .ok rest ∧
          report = ⟨entry :: rest.entries⟩ := by
  rw [Report.ofInputs]
  simp only [bind_eq_ok_iff, pure_eq_ok, Except.ok.injEq]
  constructor
  · intro done
    obtain ⟨entry, linted, rest, others, same⟩ := done
    exact ⟨entry, rest, linted, others, same.symm⟩
  · intro done
    obtain ⟨entry, rest, linted, others, same⟩ := done
    exact ⟨entry, linted, rest, others, same.symm⟩

theorem entry_count {inputs : List Input} {report : Report}
    (done : Report.ofInputs around engine inputs = .ok report) :
    report.entries.length = inputs.length := by
  induction inputs generalizing around report with
  | nil =>
      cases done
      rfl
  | cons input inputs induction =>
      obtain ⟨entry, rest, _, others, rfl⟩ :=
        (report_cons_eq_ok_iff around engine input inputs report).1 done
      exact congrArg Nat.succ (induction (input.drain around) others)

theorem read_of_other {first second : Input} (other : first ≠ second) :
    second.read (first.drain around) = second.read around := by
  cases first with
  | file path => rfl
  | stdin =>
      cases second with
      | stdin => exact absurd rfl other
      | file path => rfl

/-- Standard input that is read again holds the empty manifest. -/
theorem holds_of_drained {first second : Input} {manifest : Manifest}
    (held : Holds around second manifest) :
    ∃ left, Holds (first.drain around) second left := by
  by_cases same : first = second
  · rw [same]
    cases second with
    | stdin => exact ⟨⟨""⟩, [], rfl, by decide +kernel⟩
    | file path => exact ⟨manifest, held⟩
  · refine ⟨manifest, ?_⟩
    unfold Holds
    rw [read_of_other around same]
    exact held

/-- There is a report just when every input holds a manifest, whatever the engine is. -/
theorem report_exists_iff (inputs : List Input) :
    (∃ report, Report.ofInputs around engine inputs = .ok report) ↔
      ∀ input ∈ inputs, ∃ manifest, Holds around input manifest := by
  induction inputs generalizing around with
  | nil => exact iff_of_true ⟨.empty, rfl⟩ fun input member => absurd member List.not_mem_nil
  | cons input inputs induction =>
      rw [List.forall_mem_cons]
      constructor
      · intro some
        obtain ⟨report, done⟩ := some
        obtain ⟨entry, rest, linted, others, _⟩ :=
          (report_cons_eq_ok_iff around engine input inputs report).1 done
        obtain ⟨manifest, held, _⟩ := (input_lint_eq_ok_iff around engine input entry).1 linted
        refine ⟨⟨manifest, held⟩, ?_⟩
        intro other member
        by_cases same : input = other
        · exact ⟨manifest, same ▸ held⟩
        · have left := (induction (input.drain around)).1 ⟨rest, others⟩ other member
          unfold Holds at left
          rw [read_of_other around same] at left
          exact left
      · intro held
        obtain ⟨⟨manifest, first⟩, later⟩ := held
        have left : ∀ other ∈ inputs, ∃ manifest, Holds (input.drain around) other manifest := by
          intro other member
          obtain ⟨otherManifest, otherHeld⟩ := later other member
          exact holds_of_drained around otherHeld
        obtain ⟨rest, others⟩ := (induction (input.drain around)).2 left
        have linted := (input_lint_eq_ok_iff around engine input _).2 ⟨manifest, first, rfl⟩
        exact ⟨_, (report_cons_eq_ok_iff around engine input inputs _).2
          ⟨_, rest, linted, others, rfl⟩⟩

/-- Each entry is linted from what the inputs before it left. -/
theorem entry_of_input {inputs : List Input} {report : Report}
    (done : Report.ofInputs around engine inputs = .ok report) {index : Nat} {input : Input}
    {entry : ManifestReport} (named : inputs[index]? = some input)
    (told : report.entries[index]? = some entry) :
    input.lint (around.after (inputs.take index)) engine = .ok entry := by
  induction inputs generalizing around report index with
  | nil => cases named
  | cons first inputs induction =>
      obtain ⟨firstEntry, rest, linted, others, rfl⟩ :=
        (report_cons_eq_ok_iff around engine first inputs report).1 done
      cases index with
      | zero =>
          cases named
          cases told
          exact linted
      | succ index =>
          have later := induction (first.drain around) others named told
          rw [after_drain] at later
          exact later

/-- Inputs in two parts give the entries of the first part, and then those of the second from what
is left. -/
theorem report_append (first second : List Input) :
    Report.ofInputs around engine (first ++ second) = (do
      let left ← Report.ofInputs around engine first
      let right ← Report.ofInputs (around.after first) engine second
      return ⟨left.entries ++ right.entries⟩) := by
  induction first generalizing around with
  | nil =>
      change Report.ofInputs around engine second = (do
        let right ← Report.ofInputs around engine second
        return ⟨right.entries⟩)
      cases Report.ofInputs around engine second <;> rfl
  | cons input first induction =>
      rw [List.cons_append, Report.ofInputs, Report.ofInputs, induction, after_drain]
      cases input.lint around engine with
      | error fault => rfl
      | ok entry =>
          cases Report.ofInputs (input.drain around) engine first with
          | error fault => rfl
          | ok left =>
              cases Report.ofInputs (around.after (input :: first)) engine second with
              | error fault => rfl
              | ok right => rfl

/-- What was read before matters to standard input only. -/
theorem report_after {first second : List Input} (apart : .stdin ∈ first → .stdin ∉ second) :
    Report.ofInputs (around.after first) engine second = Report.ofInputs around engine second := by
  unfold Surroundings.after
  split
  · next read => exact report_of_files_eq around engine [] (apart read)
  · rfl

theorem lint_of_other {first second : Input} (other : first ≠ second) :
    second.lint (first.drain around) engine = second.lint around engine := by
  unfold Input.lint
  rw [read_of_other around other]

theorem drain_comm (first second : Input) :
    first.drain (second.drain around) = second.drain (first.drain around) := by
  cases first <;> cases second <;> rfl

/-- Each input takes its entry along when the inputs are put into another order. -/
theorem report_of_permuted {inputs others : List Input} (permuted : inputs.Perm others)
    {report : Report} (done : Report.ofInputs around engine inputs = .ok report) :
    ∃ other, Report.ofInputs around engine others = .ok other ∧
      (inputs.zip report.entries).Perm (others.zip other.entries) := by
  induction permuted generalizing around report with
  | nil => exact ⟨report, done, .refl _⟩
  | cons input _ induction =>
      obtain ⟨entry, rest, linted, behind, rfl⟩ :=
        (report_cons_eq_ok_iff around engine input _ report).1 done
      obtain ⟨other, otherBehind, same⟩ := induction (input.drain around) behind
      refine ⟨⟨entry :: other.entries⟩, ?_, same.cons (input, entry)⟩
      exact (report_cons_eq_ok_iff around engine input _ _).2
        ⟨entry, other, linted, otherBehind, rfl⟩
  | swap second first inputs =>
      by_cases same : first = second
      · exact ⟨report, same ▸ done, same ▸ .refl _⟩
      · obtain ⟨firstEntry, behind, firstLinted, rest, rfl⟩ :=
          (report_cons_eq_ok_iff around engine first _ report).1 done
        obtain ⟨secondEntry, last, secondLinted, others, rfl⟩ :=
          (report_cons_eq_ok_iff _ engine second _ behind).1 rest
        rw [lint_of_other around engine same] at secondLinted
        rw [drain_comm] at others
        rw [← lint_of_other around engine (Ne.symm same)] at firstLinted
        refine ⟨⟨secondEntry :: firstEntry :: last.entries⟩, ?_, .swap _ _ _⟩
        rw [report_cons_eq_ok_iff]
        refine ⟨secondEntry, ⟨firstEntry :: last.entries⟩, secondLinted, ?_, rfl⟩
        rw [report_cons_eq_ok_iff]
        exact ⟨firstEntry, last, firstLinted, others, rfl⟩
  | trans _ _ firstInduction secondInduction =>
      obtain ⟨middle, between, firstSame⟩ := firstInduction around done
      obtain ⟨other, last, secondSame⟩ := secondInduction around between
      exact ⟨other, last, firstSame.trans secondSame⟩

theorem template_of_bytes :
    Manifest.ofBytes (Text.encode Template.text.toList) = .ok Template.manifest :=
  Manifest.of_bytes_encode (by decide +kernel)

theorem report_of_stdin {bytes : List UInt8} {manifest : Manifest}
    (decoded : Manifest.ofBytes bytes = .ok manifest) :
    Report.ofInputs { around with stdin := bytes } engine [.stdin] =
      .ok ⟨[⟨"<stdin>", engine.findings manifest⟩]⟩ := by
  have held : Holds { around with stdin := bytes } .stdin manifest := ⟨bytes, rfl, decoded⟩
  have linted := (input_lint_eq_ok_iff _ engine .stdin _).2 ⟨manifest, held, rfl⟩
  exact (report_cons_eq_ok_iff _ engine .stdin [] _).2 ⟨_, .empty, linted, rfl, rfl⟩

section
variable (environment : Environment) (invocation : CommandLine.Invocation) (format : Option String)

def ending : Except CheckFault Outcome → Outcome
  | .ok outcome => outcome
  | .error fault => ⟨2, "", some ("Error: " ++ fault.message)⟩

theorem run_of_template :
    Program.run environment around { invocation with command := .template false format } =
      ending (do
      let _ ← Setup.load around invocation.config []
      return ⟨0, Template.text, none⟩) := rfl

theorem run_of_template_check :
    Program.run environment around { invocation with command := .template true format } = ending (do
      let setup ← Setup.load around invocation.config []
      let chosen ← setup.format format
      return Program.reportOutcome environment (Program.usesColour environment invocation setup)
        invocation.quiet chosen
        ⟨[⟨"<template>", setup.engine.findings Template.manifest⟩]⟩) := rfl

theorem run_of_stdin_check :
    Program.run environment around { invocation with command := .check ["-"] format [] } =
      ending (do
      let setup ← Setup.load around invocation.config []
      let chosen ← setup.format format
      let report ← Report.ofInputs around setup.engine [.stdin]
      return Program.reportOutcome environment (Program.usesColour environment invocation setup)
        invocation.quiet chosen
        report) := by
  have resolved : Input.resolve around.tree ["-"] = .ok [.stdin] := rfl
  have checked (setup : Setup) : setup.check around format ["-"] = (do
      let chosen ← setup.format format
      return (chosen, ← Report.ofInputs around setup.engine [.stdin])) := by
    unfold Setup.check
    rw [resolved]
    rfl
  change ending (Program.runLoaded environment around _) = _
  rw [run_loaded_of_check rfl]
  simp only [checked, bind_assoc, pure_bind]
  rfl

def sampleOutcome (setup : Setup) (chosen : OutputFormat) (label : String) : Outcome :=
  Program.reportOutcome environment (Program.usesColour environment invocation setup)
    invocation.quiet chosen
    ⟨[⟨label, setup.engine.findings Template.manifest⟩]⟩

/-- Outcomes of two runs that have the same fault, or reports of the sample manifest which differ in
its label alone. -/
inductive SameButLabel (label otherLabel : String) : Outcome → Outcome → Prop where
  | fault (text : String) : SameButLabel label otherLabel ⟨2, "", some text⟩ ⟨2, "", some text⟩
  | report {setup : Setup} {chosen : OutputFormat}
      (loaded : Setup.load around invocation.config [] = .ok setup)
      (formatted : setup.format format = .ok chosen) :
      SameButLabel label otherLabel (sampleOutcome environment invocation setup chosen label)
        (sampleOutcome environment invocation setup chosen otherLabel)

/-- A check of the sample manifest is like a check of what is printed of it. -/
theorem template_check_same_but_label :
    SameButLabel around environment invocation format "<template>" "<stdin>"
      (Program.run environment around { invocation with command := .template true format })
      (Program.run environment
        { around with stdin := Text.encode (Program.run environment around
          { invocation with command := .template false none }).output.toList }
        { invocation with command := .check ["-"] format [] }) := by
  rw [run_of_template, run_of_template_check, run_of_stdin_check]
  change SameButLabel around environment invocation format "<template>" "<stdin>" _ (ending (do
    let setup ← Setup.load around invocation.config []
    _))
  cases loaded : Setup.load around invocation.config [] with
  | error fault => exact .fault _
  | ok setup =>
      change SameButLabel around environment invocation format "<template>" "<stdin>"
        (ending (do
          let chosen ← setup.format format
          return sampleOutcome environment invocation setup chosen "<template>"))
        (ending (do
          let chosen ← setup.format format
          let report ← Report.ofInputs { around with stdin := Text.encode Template.text.toList }
            setup.engine [.stdin]
          return Program.reportOutcome environment
            (Program.usesColour environment invocation setup) invocation.quiet chosen report))
      rw [report_of_stdin around setup.engine template_of_bytes]
      cases formatted : setup.format format with
      | error fault => exact .fault _
      | ok chosen => exact .report loaded formatted

theorem same_status_of_same_but_label {label otherLabel : String} {first second : Outcome}
    (same : SameButLabel around environment invocation format label otherLabel first second) :
    first.status = second.status := by
  cases same with
  | fault text => rfl
  | report loaded formatted => rfl

end

/-- A report in which every input has its entry, whatever the other inputs are, and takes it along
into any other order. An entry is made of the input's source and the findings on the manifest in the
bytes that the inputs before it leave. -/
structure TellsOf (inputs : List Input) (report : Report) : Prop where
  count : report.entries.length = inputs.length
  entry : ∀ (index : Nat) (input : Input) (entry : ManifestReport), inputs[index]? = some input →
    report.entries[index]? = some entry →
      ∃ bytes manifest, input.read (around.after (inputs.take index)) = .ok bytes ∧
        Manifest.ofBytes bytes = .ok manifest ∧ entry = ⟨input.source, engine.findings manifest⟩
  permuted : ∀ others, inputs.Perm others →
    ∃ other, Report.ofInputs around engine others = .ok other ∧
    report.entries.Perm other.entries ∧ (inputs.zip report.entries).Perm (others.zip other.entries)

theorem tells_of_inputs {inputs : List Input} {report : Report}
    (done : Report.ofInputs around engine inputs = .ok report) :
    TellsOf around engine inputs report := by
  have count := entry_count around engine done
  refine ⟨count, ?_, ?_⟩
  · intro index input entry named told
    obtain ⟨manifest, held, same⟩ := (input_lint_eq_ok_iff _ engine input entry).1
      (entry_of_input around engine done named told)
    obtain ⟨bytes, read, decoded⟩ := held
    exact ⟨bytes, manifest, read, decoded, same⟩
  · intro others permuted
    obtain ⟨other, otherDone, zipped⟩ := report_of_permuted around engine permuted done
    have entries := zipped.map Prod.snd
    rw [List.map_snd_zip (Nat.le_of_eq count),
      List.map_snd_zip (Nat.le_of_eq (entry_count around engine otherDone))]
      at entries
    exact ⟨other, otherDone, entries, zipped⟩

/-- There is a report just when every input holds a manifest, and an entry depends on the engine and
the bytes of its input alone. So the reports on two lists of inputs, read one after the other, make
up the report on both together, and where standard input is in one of them at most they may as well
be read apart. A check of the sample manifest differs in the label alone from one of the text that
is printed of it. -/
theorem entries_depend_on_bytes :
    (∀ (around : Surroundings) (engine : Engine) (inputs : List Input),
      ((∃ report, Report.ofInputs around engine inputs = .ok report) ↔
        ∀ input ∈ inputs, ∃ manifest, Holds around input manifest) ∧
      ∀ report, Report.ofInputs around engine inputs = .ok report →
        TellsOf around engine inputs report) ∧
    (∀ (around : Surroundings) (engine : Engine) (first second : List Input),
      Report.ofInputs around engine (first ++ second) = (do
        let left ← Report.ofInputs around engine first
        let right ← Report.ofInputs (around.after first) engine second
        return ⟨left.entries ++ right.entries⟩) ∧
      ((.stdin ∈ first → .stdin ∉ second) →
        Report.ofInputs (around.after first) engine second =
          Report.ofInputs around engine second)) ∧
    (∀ (environment : Environment) (around : Surroundings) (invocation : CommandLine.Invocation)
      (format : Option String) (checked printed piped : Outcome),
      checked =
        Program.run environment around { invocation with command := .template true format } →
      printed = Program.run environment around { invocation with command := .template false none } →
      piped = Program.run environment { around with stdin := Text.encode printed.output.toList }
        { invocation with command := .check ["-"] format [] } →
        checked.status = piped.status ∧
        SameButLabel around environment invocation format "<template>" "<stdin>" checked
          piped) := by
  refine ⟨?_, ?_, ?_⟩
  · intro around engine inputs
    refine ⟨report_exists_iff around engine inputs, ?_⟩
    intro report done
    exact tells_of_inputs around engine done
  · intro around engine first second
    exact ⟨report_append around engine first second, report_after around engine⟩
  · intro environment around invocation format checked printed piped checkedIs printedIs pipedIs
    have same := template_check_same_but_label around environment invocation format
    rw [← checkedIs, ← printedIs, ← pipedIs] at same
    exact ⟨same_status_of_same_but_label around environment invocation format same, same⟩

def withAndWithoutStages : Surroundings :=
  ⟨FileTree.empty.addFile "Dockerfile" (Text.encode "FROM scratch".toList), none,
    Text.encode "FROM node AS builder".toList⟩

theorem stages_missing_in_file :
    Report.ofInputs withAndWithoutStages .builtin [.stdin, .file "Dockerfile"] =
      .ok ⟨[⟨"<stdin>", []⟩,
        ⟨"Dockerfile", [⟨"multi-stage-build", "Missing multi-stage build"⟩]⟩]⟩ ∧
    Report.ofInputs withAndWithoutStages .builtin ([.file "Dockerfile"] ++ [.stdin]) = (do
      let left ← Report.ofInputs withAndWithoutStages .builtin [.file "Dockerfile"]
      let right ← Report.ofInputs withAndWithoutStages .builtin [.stdin]
      return ⟨left.entries ++ right.entries⟩) ∧
    ∃ other, Report.ofInputs withAndWithoutStages .builtin [.file "Dockerfile", .stdin] =
      .ok other ∧
      List.Perm
        [⟨"<stdin>", []⟩, ⟨"Dockerfile", [⟨"multi-stage-build", "Missing multi-stage build"⟩]⟩]
        other.entries := by
  have done : Report.ofInputs withAndWithoutStages .builtin [.stdin, .file "Dockerfile"] =
      .ok ⟨[⟨"<stdin>", []⟩,
        ⟨"Dockerfile", [⟨"multi-stage-build", "Missing multi-stage build"⟩]⟩]⟩ := by
    decide +kernel
  obtain ⟨entries, parts, _⟩ := entries_depend_on_bytes
  obtain ⟨whole, apart⟩ := parts withAndWithoutStages .builtin [.file "Dockerfile"] [.stdin]
  obtain ⟨other, swapped, same, _⟩ :=
    ((entries _ _ _).2 _ done).permuted [.file "Dockerfile", .stdin] (.swap _ _ _)
  rw [apart (by decide)] at whole
  exact ⟨done, whole, other, swapped, same⟩

end Check

end ManifestLint
