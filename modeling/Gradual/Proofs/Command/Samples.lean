import Gradual.Command.Run
import Gradual.Proofs.Command.Files
import Gradual.Proofs.Sample

/-!
# Testing samples

A test of samples lists the source files at the given paths and below, compares each of them with
its markers, and succeeds if none differs from them. Which paths lead to the files does not matter.

* `isTitle`, `runSamples_titles`: the lines of the output that name a file;
* `runSamples_failure_iff`: when a test of some files fails;
* `Node.Readable`: the files that can be checked;
* **`SampleRequest.run_by_files`**: a test depends on the files found alone.
-/

namespace Gradual

variable {verbose : Bool} {level : Nat} {samples : List (String × ByteArray)}

/-! ## The lines of the output -/

/-- Whether a line of the output names a file. -/
def isTitle (line : String) : Bool := "---> ".toList.isPrefixOf line.toList

theorem isTitle_title (path : String) : isTitle ("---> " ++ path) = true := by
  simp [isTitle]

theorem isTitle_lines (c : Comparison) (verbose : Bool) :
    ∀ line ∈ c.lines verbose, isTitle line = false := by
  have htext (s : String) : toString s = s := rfl
  intro line hline
  simp only [Comparison.lines, htext, List.mem_append, List.mem_map] at hline
  rcases hline with (⟨e, -, rfl⟩ | hline) | ⟨e, -, rfl⟩
  · simp [isTitle, List.isPrefixOf]
  · cases verbose with
    | false => cases hline
    | true =>
      obtain ⟨e, -, rfl⟩ := List.mem_map.1 hline
      simp [isTitle, List.isPrefixOf]
  · simp [isTitle, List.isPrefixOf]

theorem concludeSamples_titles (count failed : Nat) :
    (concludeSamples count failed).output.filter isTitle = [] := by
  have htext (s : String) : toString s = s := rfl
  rw [concludeSamples]
  split
  · rfl
  · simp [isTitle, htext, List.isPrefixOf]

/-- Files that can be checked are named one after the other. -/
theorem runSamples_titles (h : ∀ s ∈ samples, ∃ r, checkSample level s.1 s.2 = .ok r)
    (count failed : Nat) :
    (runSamples verbose level count failed samples).output.filter isTitle =
      samples.map fun s => "---> " ++ s.1 := by
  induction samples generalizing failed with
  | nil => exact concludeSamples_titles count failed
  | cons s samples ih =>
    obtain ⟨⟨⟨c, log⟩, hcheck⟩, hrest⟩ := List.forall_mem_cons.1 h
    have hlines : (c.lines verbose).filter isTitle = [] :=
      List.filter_eq_nil_iff.2 fun line hline => by simp [isTitle_lines c verbose line hline]
    rw [runSamples, hcheck]
    simp [Run.preceded, isTitle_title, hlines, ih hrest]

/-! ## The verdict -/

theorem concludeSamples_failure_iff (count failed : Nat) :
    (concludeSamples count failed).failure = none ↔ failed = 0 := by
  rw [concludeSamples]
  split
  next hpos => simp [Run.failed, Nat.ne_of_gt hpos]
  next hzero => simp [Nat.eq_zero_of_not_pos hzero]

/-- A test of files that can be checked succeeds if each of them is as expected. -/
theorem runSamples_failure_iff (h : ∀ s ∈ samples, ∃ r, checkSample level s.1 s.2 = .ok r)
    (count failed : Nat) :
    (runSamples verbose level count failed samples).failure = none ↔
      failed = 0 ∧ ∀ s ∈ samples, ∀ r, checkSample level s.1 s.2 = .ok r → r.1.passed = true := by
  induction samples generalizing failed with
  | nil => simp [runSamples, concludeSamples_failure_iff]
  | cons s samples ih =>
    obtain ⟨⟨⟨c, log⟩, hcheck⟩, hrest⟩ := List.forall_mem_cons.1 h
    rw [runSamples, hcheck]
    simp only [Run.preceded, ih hrest, List.forall_mem_cons, hcheck, Except.ok.injEq]
    cases hpassed : c.passed <;> simp [hpassed]

theorem Run.status_eq_zero_iff {r : Run} : r.status = 0 ↔ r.failure = none := by
  rw [status]
  cases r.failure <;> simp

/-! ## Tests -/

/-- Each source file at or below the paths holds a text that can be read as a module. -/
def Node.Readable (root : Node) (paths : List String) : Prop :=
  ∀ x contents, root.HasSource paths x contents → ∃ text statements,
    (Node.file contents).text = .ok text ∧ readModule text = .ok statements

theorem check_eq_ok {text : String} {statements : List Statement}
    (h : readModule text = .ok statements) (level : Nat) :
    ∃ report, check .standard true text (some level) = .ok report := by
  refine ⟨reportOn .standard (Hints.ofSource text) statements (some level), ?_⟩
  rw [check, h]
  rfl

theorem checkSample_eq_ok {text : String} {contents : ByteArray} {report : Report}
    (htext : (Node.file contents).text = .ok text)
    (hcheck : check .standard true text (some level) = .ok report) (path : String) :
    checkSample level path contents =
      .ok (compareErrors (expectedErrors text) report.diagnostics, report.log) := by
  rw [checkSample, htext]
  simp only [hcheck]

theorem SampleRequest.targets_eq {q : SampleRequest} (hne : q.paths ≠ []) (files : Files)
    (workspace : Option String) : q.targets files workspace = .ok q.paths := by
  simp [targets, hne]

theorem SampleRequest.run_eq {files : Files} {q : SampleRequest} (hne : q.paths ≠ [])
    (h : sourceFiles files q.paths = .ok samples) (workspace : Option String) :
    q.run files level workspace = if samples = [] then ⟨["no sample files found"], [], none⟩
      else runSamples (0 < q.verbose) level samples.length 0 samples := by
  rw [SampleRequest.run, targets_eq hne]
  simp only [h]
  cases samples <;> rfl

section Files

variable {root : Node} {q : SampleRequest} {workspace : Option String}

theorem Node.Readable.checkSample (h : root.Readable q.paths)
    (hlists : root.Lists q.paths samples) :
    ∀ s ∈ samples, ∃ r, checkSample level s.1 s.2 = .ok r := by
  intro s hs
  obtain ⟨text, statements, htext, hread⟩ := h s.1 s.2 ((hlists.mem_iff s.1 s.2).1 hs)
  obtain ⟨report, hcheck⟩ := check_eq_ok hread level
  exact ⟨_, checkSample_eq_ok htext hcheck s.1⟩

theorem SampleRequest.run_titles (hne : q.paths ≠ []) (hread : root.Readable q.paths)
    (hfiles : sourceFiles root.find q.paths = .ok samples) (hlists : root.Lists q.paths samples) :
    (q.run root.find level workspace).output.filter isTitle =
      samples.map fun s => "---> " ++ s.1 := by
  rw [run_eq hne hfiles]
  split
  next hnil =>
    subst hnil
    decide
  next => exact runSamples_titles (hread.checkSample hlists) _ _

/-- A test succeeds if and only if errors are reported on the marked lines, in each file. -/
theorem SampleRequest.run_status_iff (hne : q.paths ≠ []) (hread : root.Readable q.paths)
    (hfiles : sourceFiles root.find q.paths = .ok samples) (hlists : root.Lists q.paths samples) :
    (q.run root.find level workspace).status = 0 ↔
      ∀ x contents text report, root.HasSource q.paths x contents →
        (Node.file contents).text = .ok text →
        check .standard true text (some level) = .ok report →
        ∀ line, (∃ d ∈ report.diagnostics.entries, d.span.line = line) ↔ MarksLine text line := by
  have hstatus : (q.run root.find level workspace).status = 0 ↔
      ∀ s ∈ samples, ∀ r, checkSample level s.1 s.2 = .ok r → r.1.passed = true := by
    rw [Run.status_eq_zero_iff, run_eq hne hfiles]
    split
    next hnil => simp [hnil]
    next => simpa using runSamples_failure_iff (hread.checkSample hlists) samples.length 0
  simp only [hstatus, ← mem_expectedErrors_iff]
  constructor
  · intro hpassed x contents text report hx htext hcheck
    have hmem := (hlists.mem_iff x contents).2 hx
    exact passed_compareErrors_iff.1 (hpassed _ hmem _ (checkSample_eq_ok htext hcheck x))
  · intro hlines s hs r hr
    have hx := (hlists.mem_iff s.1 s.2).1 hs
    obtain ⟨text, statements, htext, hmodule⟩ := hread s.1 s.2 hx
    obtain ⟨report, hcheck⟩ := check_eq_ok hmodule level
    rw [checkSample_eq_ok htext hcheck] at hr
    cases hr
    exact passed_compareErrors_iff.2 (hlines s.1 s.2 text report hx htext hcheck)

/-- **A test depends on the files found alone**, and succeeds if and only if in each of them the
lines with errors are the marked ones. -/
theorem SampleRequest.run_by_files (root : Node) (hroot : root.WellNamed) (q : SampleRequest)
    (hne : q.paths ≠ []) (hnormal : ∀ p ∈ q.paths, Path.Normal p)
    (hexists : ∀ p ∈ q.paths, ∃ node, root.find p = .ok node) (hread : root.Readable q.paths)
    (level : Nat) (workspace : Option String) :
    (∃ samples : List (String × ByteArray), root.Lists q.paths samples ∧
        (q.run root.find level workspace).output.filter isTitle =
          samples.map fun s => "---> " ++ s.1) ∧
      (∀ paths : List String, (∀ p ∈ paths, Path.Normal p) →
        (∀ p ∈ paths, ∃ node, root.find p = .ok node) →
        (∀ p ∈ paths, ∃ p' ∈ q.paths, Path.Reaches p' p) →
        (∀ p ∈ q.paths, ∃ p' ∈ paths, Path.Reaches p' p) →
        SampleRequest.run root.find level ⟨paths, q.verbose⟩ workspace =
          q.run root.find level workspace) ∧
      ((q.run root.find level workspace).status = 0 ↔
        ∀ x contents text report, root.HasSource q.paths x contents →
          (Node.file contents).text = .ok text →
          check .standard true text (some level) = .ok report →
          ∀ line, (∃ d ∈ report.diagnostics.entries, d.span.line = line) ↔
            MarksLine text line) := by
  obtain ⟨samples, hfiles, hlists⟩ := sourceFiles_eq_ok hroot hnormal hexists
  refine ⟨⟨samples, hlists, run_titles hne hread hfiles hlists⟩, ?_,
    run_status_iff hne hread hfiles hlists⟩
  intro paths hnormal' hexists' hbelow habove
  obtain ⟨samples', hfiles', hlists'⟩ := sourceFiles_eq_ok hroot hnormal' hexists'
  have hsame : samples' = samples :=
    hlists'.unique hlists fun _ _ => ⟨.mono hbelow, .mono habove⟩
  have hne' : paths ≠ [] := by
    rintro rfl
    obtain ⟨p, hp⟩ := List.exists_mem_of_ne_nil _ hne
    simpa using habove p hp
  rw [run_eq hne hfiles, run_eq (q := ⟨paths, q.verbose⟩) hne' hfiles', hsame]

end Files

/-! ## A tree with samples -/

/-- A directory with a sample, a directory with another one, and a file that is none. -/
def nestedSamples : Node :=
  .directory [("d", .directory [("sub", .directory [("b.py", .file "x = y ##ERROR y\n".toUTF8)]),
    ("a.py", .file "1\n".toUTF8), ("a.txt", .file "(".toUTF8)])]

theorem wellNamed_nestedSamples : nestedSamples.WellNamed := by
  refine .directory (by decide) (by decide +kernel) fun e he => ?_
  obtain rfl := List.mem_singleton.1 he
  refine .directory (by decide) (by decide +kernel) fun e he => ?_
  simp only [List.mem_cons, List.not_mem_nil, or_false] at he
  rcases he with rfl | rfl | rfl
  · refine .directory (by decide) (by decide +kernel) fun e he => ?_
    obtain rfl := List.mem_singleton.1 he
    exact .file _
  · exact .file _
  · exact .file _

theorem eq_ok_of_toOption {ε α : Type} {x : Except ε α} {a : α} (h : x.toOption = some a) :
    x = .ok a := by
  cases x with
  | error e => cases h
  | ok b =>
    cases h
    rfl

theorem readable_nestedSamples : nestedSamples.Readable ["d"] := by
  have hall : ∀ s ∈ ["d"].flatMap (Files.sourcesAt nestedSamples.find),
      ((Node.file s.2).text.toOption.bind fun text => (readModule text).toOption).isSome := by
    decide +kernel
  intro x contents hx
  have hmem := (mem_flatMap_sourcesAt_iff wellNamed_nestedSamples (by decide +kernel)
    (by simpa using ⟨_, rfl⟩)).2 hx
  obtain ⟨statements, hread⟩ := Option.isSome_iff_exists.1 (hall _ hmem)
  obtain ⟨text, htext, hmodule⟩ := Option.bind_eq_some_iff.1 hread
  exact ⟨text, statements, eq_ok_of_toOption htext, eq_ok_of_toOption hmodule⟩

/-- The two samples are listed in the order of paths, whichever paths lead to them. The only error
is on the marked line, so the test succeeds. -/
theorem SampleRequest.run_by_files_nested :
    let run := SampleRequest.run nestedSamples.find 0 ⟨["d"], 0⟩ none
    SampleRequest.run nestedSamples.find 0 ⟨["d/sub", "d", "d"], 0⟩ none = run ∧
      run.output.filter isTitle = ["---> d/a.py", "---> d/sub/b.py"] ∧ run.status = 0 ∧
      MarksLine "x = y ##ERROR y\n" 1 := by
  intro run
  obtain ⟨-, hpaths, hstatus⟩ := SampleRequest.run_by_files nestedSamples wellNamed_nestedSamples
    ⟨["d"], 0⟩ (by simp) (by decide +kernel) (by simpa using ⟨_, rfl⟩) readable_nestedSamples 0 none
  have hzero : run.status = 0 := by decide +kernel
  have hsource : nestedSamples.HasSource ["d"] "d/sub/b.py" "x = y ##ERROR y\n".toUTF8 :=
    ⟨by decide +kernel, ⟨"d", List.mem_cons_self, by decide +kernel⟩, rfl,
      "d/sub/".toList, 'b', by decide, by decide⟩
  have hlines : (check .standard true "x = y ##ERROR y\n" (some 0)).toOption.map
      (fun report => report.diagnostics.entries.map (·.span.line)) = some [1] := by
    decide +kernel
  obtain ⟨report, hreport, hline⟩ := Option.map_eq_some_iff.1 hlines
  have hreported : ∃ d ∈ report.diagnostics.entries, d.span.line = 1 :=
    List.mem_map.1 (hline ▸ List.mem_singleton_self 1)
  refine ⟨hpaths ["d/sub", "d", "d"] (by decide +kernel) ?_ (by decide +kernel)
    (by decide +kernel), by decide +kernel, hzero, ?_⟩
  · intro p hp
    simp only [List.mem_cons, List.not_mem_nil, or_false] at hp
    rcases hp with rfl | rfl | rfl <;> exact ⟨_, rfl⟩
  · exact (hstatus.1 hzero _ _ _ report hsource (by rfl) (eq_ok_of_toOption hreport) 1).1 hreported

end Gradual
