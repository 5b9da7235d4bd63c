import Mathlib.Algebra.BigOperators.Group.Finset.Basic
import ManifestLint.Proofs.Check.Stages
import ManifestLint.Proofs.Glob.Repeats
import ManifestLint.Proofs.Manifest.Decoding
import ManifestLint.Proofs.Report.Failures

/-!
Files that one argument names several times. As often as a file is listed it is checked, told of in
the report, and its findings are counted.
-/

namespace ManifestLint.Check

variable {around : Surroundings} {engine : Engine}

theorem report_of_files {paths : List String} {report : Report}
    (done : Report.ofInputs around engine (paths.map .file) = .ok report) :
    ∃ findings : String → List Finding,
      (∀ path ∈ paths, ∃ manifest, Holds around (.file path) manifest ∧
        findings path = engine.findings manifest) ∧
        report.entries = paths.map fun path => ⟨path, findings path⟩ := by
  let entry (path : String) := (Input.file path).lint around engine
  let findings (path : String) : List Finding := (entry path).toOption.elim [] (·.findings)
  have told {path : String} {found : ManifestReport} (linted : entry path = .ok found) :
      found = ⟨path, findings path⟩ ∧
        ∃ manifest, Holds around (.file path) manifest ∧
        findings path = engine.findings manifest := by
    obtain ⟨manifest, held, same⟩ :=
      (input_lint_eq_ok_iff around engine (.file path) found).1 linted
    have here : findings path = found.findings := by
      simp only [findings, linted]
      rfl
    rw [here, same]
    exact ⟨rfl, manifest, held, rfl⟩
  have once : (paths.map Input.file).count .stdin ≤ 1 := by
    rw [Input.count_stdin_of_files]
    exact Nat.zero_le 1
  rw [report_of_inputs_eq around engine once, List.mapM_map, map_eq_ok_iff] at done
  obtain ⟨entries, each, rfl⟩ := done
  have succeed : AllSucceed entry paths entries := map_m_eq_ok_iff.1 each
  clear each once
  refine ⟨findings, ?_⟩
  induction succeed with
  | nil => exact ⟨List.forall_mem_nil _, rfl⟩
  | cons linted _ induction =>
      obtain ⟨same, manifest⟩ := told linted
      rw [List.forall_mem_cons, List.map_cons, same]
      exact ⟨⟨manifest, induction.1⟩, congrArg (List.cons _) induction.2⟩

/-- An argument with wildcards lists a file once for each way in which its parts take the names of
the path, and as many times the report tells of the file and counts its findings. So each file is
checked once just when there are no two ways, and there are none where all two stars of the argument
stand next to one another. -/
theorem files_checked_once_per_way {argument : String} (formed : around.tree.root.WellFormed)
    (wild : Input.hasWildcard argument = true) (noFile : around.tree.hasFile argument = false)
    (relative : FileTree.isAbsolute argument = false)
    (shown : ∀ part ∈ splitSegments argument.toList, part.head? ≠ some '.') {inputs : List Input}
    (resolved : Input.resolve around.tree [argument] = .ok inputs) :
    ∃ (parts : List Glob.Component) (paths : List String), Glob.components argument = .ok parts ∧
      inputs = paths.map .file ∧
      (∀ path ∈ paths, paths.count path = Glob.ways parts (FileTree.names path)) ∧
      (inputs.Nodup ↔ ∀ path ∈ paths, Glob.ways parts (FileTree.names path) = 1) ∧
      (∀ before stars after, splitSegments argument.toList =
        before ++ List.replicate stars ['*', '*'] ++ after →
        ['*', '*'] ∉ before → ['*', '*'] ∉ after → inputs.Nodup) ∧
      ∀ engine report, Report.ofInputs around engine inputs = .ok report →
        ∃ findings : String → List Finding,
          (∀ path ∈ paths, ∃ manifest, Holds around (.file path) manifest ∧
            findings path = engine.findings manifest) ∧
          (∀ path ∈ paths,
            report.entries.count ⟨path, findings path⟩ = Glob.ways parts (FileTree.names path)) ∧
          report.issueCount =
            ∑ path ∈ paths.toFinset,
              Glob.ways parts (FileTree.names path) * (findings path).length := by
  have nonempty : argument.toList ≠ [] := by
    intro nothing
    rw [Input.hasWildcard, nothing] at wild
    cases wild
  obtain ⟨paths, found, rfl⟩ := Input.files_of_resolve wild noFile resolved
  obtain ⟨parts, read, rfl⟩ := (Glob.files_eq_ok_iff relative around.tree).1 found
  have often {path : String} (member : path ∈ Glob.pathsOfFiles around.tree argument parts) :=
    Glob.count_of_files relative read formed shown member
  have distinct : ((Glob.pathsOfFiles around.tree argument parts).map Input.file).Nodup ↔
      (Glob.pathsOfFiles around.tree argument parts).Nodup :=
    List.nodup_map_iff fun first second same => Input.file.inj same
  refine ⟨parts, _, read, rfl, fun path => often, ?_, ?_, ?_⟩
  · rw [distinct]
    exact Glob.files_distinct_iff relative read formed shown
  · intro before stars after together front behind
    rw [distinct]
    exact Glob.files_distinct_of_stars_together relative read formed shown nonempty together
      front behind
  · intro engine report done
    obtain ⟨findings, held, entries⟩ := report_of_files done
    refine ⟨findings, held, ?_, ?_⟩
    · intro path member
      rw [entries, ← often member]
      have single : Function.Injective fun path => (⟨path, findings path⟩ : ManifestReport) := by
        intro first second same
        exact (ManifestReport.mk.inj same).1
      exact List.count_map_of_injective _ _ single path
    · rw [Report.issue_count_eq_sum, entries, List.map_map, Finset.sum_list_map_count]
      apply Finset.sum_congr rfl
      intro path member
      rw [often (List.mem_toFinset.1 member)]
      rfl

def twiceNamed : Surroundings :=
  ⟨FileTree.empty.addFile "a/a/Dockerfile" (Text.encode "FROM scratch\n".toList), none, []⟩

theorem twice_named_files :
    Glob.files twiceNamed.tree "**/a/**/Dockerfile" = .ok ["a/a/Dockerfile", "a/a/Dockerfile"] := by
  let parts : List Glob.Component :=
    [.anyDirectories, .name ['a'], .anyDirectories, .name "Dockerfile".toList]
  have read : Glob.components "**/a/**/Dockerfile" = .ok parts := by decide +kernel
  apply (Glob.files_eq_ok_iff (by decide) twiceNamed.tree).2
  refine ⟨parts, read, ?_⟩
  have found : ((Glob.expand parts (Glob.Site.atWorking twiceNamed.tree)).filter fun site =>
      site.place.entry.isFile && !Glob.wantsDirectory "**/a/**/Dockerfile").map (·.path) =
        ["a/a/Dockerfile", "a/a/Dockerfile"] := by
    decide +kernel
  rw [Glob.pathsOfFiles, found]
  exact (List.mergeSort_of_pairwise (by decide +kernel)).symm

theorem twice_named_resolved : Input.hasWildcard "**/a/**/Dockerfile" = true ∧
    twiceNamed.tree.hasFile "**/a/**/Dockerfile" = false ∧
    Input.resolve twiceNamed.tree ["**/a/**/Dockerfile"] =
      .ok [.file "a/a/Dockerfile", .file "a/a/Dockerfile"] := by
  have wild : Input.hasWildcard "**/a/**/Dockerfile" = true := by decide
  have noFile : twiceNamed.tree.hasFile "**/a/**/Dockerfile" = false := by decide +kernel
  exact ⟨wild, noFile, Input.resolve_of_paths wild noFile twice_named_files (List.cons_ne_nil _ _)⟩

/-- Either directory can be the one between the two stars. -/
theorem taken_in_two_ways :
    twiceNamed.tree.root.WellFormed ∧ Input.hasWildcard "**/a/**/Dockerfile" = true ∧
    twiceNamed.tree.hasFile "**/a/**/Dockerfile" = false ∧
      FileTree.isAbsolute "**/a/**/Dockerfile" = false ∧
    (∀ part ∈ splitSegments "**/a/**/Dockerfile".toList, part.head? ≠ some '.') ∧
    Input.resolve twiceNamed.tree ["**/a/**/Dockerfile"] =
      .ok [.file "a/a/Dockerfile", .file "a/a/Dockerfile"] ∧
    ∃ parts, Glob.components "**/a/**/Dockerfile" = .ok parts ∧
      Glob.ways parts ["a", "a", "Dockerfile"] = 2 := by
  have formed : twiceNamed.tree.root.WellFormed :=
    FileTree.add_file_well_formed FileTree.empty_well_formed (by decide) _
  obtain ⟨wild, noFile, resolved⟩ := twice_named_resolved
  have relative : FileTree.isAbsolute "**/a/**/Dockerfile" = false := by decide
  have shown : ∀ part ∈ splitSegments "**/a/**/Dockerfile".toList,
      part.head? ≠ some '.' := by decide
  obtain ⟨parts, paths, read, same, often, _⟩ :=
    files_checked_once_per_way formed wild noFile relative shown resolved
  have listed : paths = ["a/a/Dockerfile", "a/a/Dockerfile"] := by
    apply List.map_injective_iff.2 (fun _ _ => Input.file.inj)
    exact same.symm
  rw [listed] at often
  have twice := often "a/a/Dockerfile" List.mem_cons_self
  exact ⟨formed, wild, noFile, relative, shown, resolved, parts, read, twice.symm⟩

/-- The one manifest is told of twice, and its findings are counted twice. -/
theorem file_checked_twice :
    Input.resolve twiceNamed.tree ["**/a/**/Dockerfile"] =
      .ok [.file "a/a/Dockerfile", .file "a/a/Dockerfile"] ∧
      ∃ entry once twice, 0 < entry.findings.length ∧
        Report.ofInputs twiceNamed .builtin [.file "a/a/Dockerfile"] = .ok once ∧
          once.entries = [entry] ∧
        once.issueCount = entry.findings.length ∧
        Report.ofInputs twiceNamed .builtin [.file "a/a/Dockerfile", .file "a/a/Dockerfile"] =
          .ok twice ∧
        twice.entries = [entry, entry] ∧ twice.issueCount = 2 * entry.findings.length := by
  let manifest : Manifest := ⟨"FROM scratch\n"⟩
  let entry : ManifestReport := ⟨"a/a/Dockerfile", Engine.builtin.findings manifest⟩
  have decoded : Manifest.ofBytes (Text.encode "FROM scratch\n".toList) = .ok manifest := by
    apply Manifest.of_bytes_eq_ok_iff.2
    decide
  have linted : (Input.file "a/a/Dockerfile").lint twiceNamed .builtin = .ok entry :=
    (input_lint_eq_ok_iff _ _ _ _).2 ⟨manifest, ⟨_, by decide +kernel, decoded⟩, rfl⟩
  refine ⟨twice_named_resolved.2.2, entry, ⟨[entry]⟩, ⟨[entry, entry]⟩, by decide +kernel, ?_, rfl,
    ?_, ?_, rfl, ?_⟩
  · rw [Report.ofInputs, linted]
    rfl
  · simp [Report.issueCount]
  · rw [Report.ofInputs, linted, Input.drain, Report.ofInputs, linted]
    rfl
  · simp [Report.issueCount, Nat.two_mul]

end ManifestLint.Check
