import Mathlib.Data.List.Basic
import Gradual.Proofs.Source.Lines
import Gradual.Sample

/-!
# Expected and reported errors

A comparison sorts the reported errors into those that were expected and those that were not, and
lists the expected ones that were not reported. Nothing is lost and nothing counted twice, so a
sample passes exactly if the lines with reports are the lines with markers.

* `MarksLine`, **`mem_expectedErrors_iff`**, `expectedErrors_eq_some`: the lines with a marker, and
  the texts behind the markers;
* `compareErrors_caught`, `compareErrors_falseAlarms`: the two halves of the reported errors;
* `mem_missed_iff`, `missed_increasing`: the expected errors without a report;
* **`passed_compareErrors_iff`**: the verdict;
* **`compareErrors_partition`**: all of it.
-/

namespace Gradual

open Text

/-! ## Marked lines -/

/-- A marker stands in a text, with `before` before it, and with the white space `c` and `after`
behind it. The white space is on the line of the marker. -/
structure MarkerAt (source before : List Char) (c : Char) (after : List Char) : Prop where
  split : source = before ++ "##ERROR".toList ++ c :: after
  white : IsWhite c
  sameLine : c ≠ '\n' ∧ (c = '\r' → after.head? ≠ some '\n')

/-- There is a marker on the line `n` of a text. -/
def MarksLine (source : String) (n : Nat) : Prop :=
  ∃ before c after, MarkerAt source.toList before c after ∧ n = 1 + before.count '\n'

theorem errorText_eq_some_iff {text found : List Char} :
    errorText text = some found ↔
      ∃ c tail, text = "##ERROR".toList ++ c :: tail ∧ IsWhite c ∧ found = trim tail := by
  have hmark : "##ERROR".toList = ['#', '#', 'E', 'R', 'R', 'O', 'R'] := by decide
  simp only [← isBlank_iff, hmark]
  unfold errorText
  constructor
  · intro h
    split at h
    next c tail hafter =>
      split at h
      next hc => exact ⟨c, tail, afterMark_eq_some hafter, hc, (Option.some.inj h).symm⟩
      next => cases h
    next => cases h
  · rintro ⟨c, tail, rfl, hc, rfl⟩
    rw [afterMark_append]
    exact if_pos hc

/-- **Where the text of an expected error stands**: behind a marker, up to the next line feed, on
the line that is found by counting the line feeds before it. -/
theorem expectedErrors_eq_some {source text : String} {n : Nat}
    (h : (expectedErrors source)[n]? = some text) :
    ∃ before c after, MarkerAt source.toList before c after ∧ n = 1 + before.count '\n' ∧
      text.toList = trim (after.takeWhile (· != '\n')) := by
  obtain ⟨hn, line, hline, hfound⟩ := ofList_scanLines_eq_some_iff.1 h
  obtain ⟨before, rest, hsplit, hcount, hat⟩ := splitLines_eq_some hline
  obtain ⟨found, hmatch, rfl⟩ := Option.map_eq_some_iff.1 hfound
  obtain ⟨lead, marked, rfl, herror⟩ := firstMatch_eq_some hmatch
  obtain ⟨c, tail, rfl, hwhite, rfl⟩ := errorText_eq_some_iff.1 herror
  have hat' : LineAt before (lead ++ ("##ERROR".toList ++ [c]) ++ tail) rest := by simpa using hat
  obtain ⟨hlead, hinner, hpair⟩ := hat'.onLine
  refine ⟨before ++ lead, c, tail ++ rest, ⟨by simp [hsplit], hwhite, ?_, ?_⟩, ?_, ?_⟩
  · rintro rfl
    simp at hinner
  · rintro rfl
    exact hpair (by simp)
  · rw [hlead, hcount, Nat.add_sub_of_le hn]
  · rw [String.toList_ofList, hat'.trim_tail rfl]

/-- **Errors are expected on the lines with a marker.** -/
theorem mem_expectedErrors_iff {source : String} {n : Nat} :
    n ∈ expectedErrors source ↔ MarksLine source n := by
  rw [Std.ExtTreeMap.mem_iff_isSome_getElem?]
  constructor
  · intro h
    obtain ⟨text, htext⟩ := Option.isSome_iff_exists.1 h
    obtain ⟨before, c, after, hat, hn, -⟩ := expectedErrors_eq_some htext
    exact ⟨before, c, after, hat, hn⟩
  · rintro ⟨before, c, after, ⟨hsplit, hwhite, hc, hpair⟩, rfl⟩
    obtain ⟨line, hline, lead, tail, rfl⟩ := exists_line_of_infix before after
      (p := "##ERROR".toList ++ [c]) (by simp) (by simpa using hc.symm) (by simpa using hpair)
    have hmarked : (errorText ("##ERROR".toList ++ c :: tail)).isSome :=
      Option.isSome_iff_exists.2 ⟨_, errorText_eq_some_iff.2 ⟨c, tail, rfl, hwhite, rfl⟩⟩
    obtain ⟨found, hfound⟩ := Option.isSome_iff_exists.1 (firstMatch_isSome hmarked lead)
    have hsource : source.toList = before ++ ("##ERROR".toList ++ [c]) ++ after := by simp [hsplit]
    have hlead : lead ++ ("##ERROR".toList ++ [c]) ++ tail =
        lead ++ ("##ERROR".toList ++ c :: tail) := by simp
    rw [← hsource, hlead] at hline
    refine Option.isSome_iff_exists.2 ⟨String.ofList found, ofList_scanLines_eq_some_iff.2 ?_⟩
    refine ⟨Nat.le_add_right 1 _, _, by rwa [Nat.add_sub_cancel_left], ?_⟩
    rw [hfound]
    rfl

variable {expected : Std.ExtTreeMap Nat String} {ds : Diagnostics}

/-! ## Reported errors -/

theorem compareErrors_caught (expected : Std.ExtTreeMap Nat String) (ds : Diagnostics) :
    (compareErrors expected ds).caught =
      (ds.entries.filter fun d => expected.contains d.span.line).map Diagnostic.lineError := by
  simp only [compareErrors, List.partition_eq_filter_filter, List.filter_map]
  rfl

theorem compareErrors_falseAlarms (expected : Std.ExtTreeMap Nat String) (ds : Diagnostics) :
    (compareErrors expected ds).falseAlarms =
      (ds.entries.filter fun d => !expected.contains d.span.line).map Diagnostic.lineError := by
  simp only [compareErrors, List.partition_eq_filter_filter, List.filter_map]
  rfl

/-- **Each reported error is caught or a false alarm**, and only one of these. -/
theorem caught_append_falseAlarms_perm (expected : Std.ExtTreeMap Nat String) (ds : Diagnostics) :
    ((compareErrors expected ds).caught ++ (compareErrors expected ds).falseAlarms).Perm
      (ds.entries.map Diagnostic.lineError) := by
  rw [compareErrors_caught, compareErrors_falseAlarms, ← List.map_append]
  exact (List.filter_append_perm _ ds.entries).map _

theorem falseAlarms_eq_nil_iff :
    (compareErrors expected ds).falseAlarms = [] ↔ ∀ d ∈ ds.entries, d.span.line ∈ expected := by
  simp [compareErrors_falseAlarms, List.filter_eq_nil_iff]

/-! ## Expected errors without a report -/

theorem compareErrors_missed (expected : Std.ExtTreeMap Nat String) (ds : Diagnostics) :
    (compareErrors expected ds).missed =
      (expected.toList.filter fun e => !ds.entries.any (·.span.line == e.1)).map
        fun e => ⟨e.1, e.2⟩ := by
  simp only [compareErrors, List.any_map]
  rfl

theorem mem_missed_iff {e : LineError} :
    e ∈ (compareErrors expected ds).missed ↔
      expected[e.line]? = some e.message ∧ ∀ d ∈ ds.entries, d.span.line ≠ e.line := by
  obtain ⟨line, message⟩ := e
  simp only [compareErrors_missed, List.mem_map, List.mem_filter, Prod.exists, LineError.mk.injEq]
  constructor
  · rintro ⟨l, m, ⟨hmem, hnone⟩, rfl, rfl⟩
    refine ⟨Std.ExtTreeMap.mem_toList_iff_getElem?_eq_some.1 hmem, ?_⟩
    simpa using hnone
  · rintro ⟨hget, hnone⟩
    refine ⟨line, message, ⟨Std.ExtTreeMap.mem_toList_iff_getElem?_eq_some.2 hget, ?_⟩, rfl, rfl⟩
    simpa using hnone

theorem missed_increasing (expected : Std.ExtTreeMap Nat String) (ds : Diagnostics) :
    (compareErrors expected ds).missed.Pairwise fun a b => a.line < b.line := by
  rw [compareErrors_missed, List.pairwise_map]
  exact (expected.ordered_keys_toList.imp Nat.compare_eq_lt.1).filter _

theorem missed_eq_nil_iff :
    (compareErrors expected ds).missed = [] ↔
      ∀ line ∈ expected, ∃ d ∈ ds.entries, d.span.line = line := by
  rw [List.eq_nil_iff_forall_not_mem]
  constructor
  · intro hnone line hline
    by_contra hd
    refine hnone ⟨line, expected[line]⟩ (mem_missed_iff.2 ⟨?_, fun d hmem heq => ?_⟩)
    · exact Std.ExtTreeMap.getElem?_eq_some_getElem hline
    · exact hd ⟨d, hmem, heq⟩
  · intro hall e he
    obtain ⟨hget, hnone⟩ := mem_missed_iff.1 he
    have hmem : e.line ∈ expected := Std.ExtTreeMap.mem_iff_isSome_getElem?.2 (by rw [hget]; rfl)
    obtain ⟨d, hd, hline⟩ := hall e.line hmem
    exact hnone d hd hline

/-! ## The verdict -/

/-- **A sample passes if and only if errors are reported on the expected lines and no others.** -/
theorem passed_compareErrors_iff :
    (compareErrors expected ds).passed = true ↔
      ∀ line, (∃ d ∈ ds.entries, d.span.line = line) ↔ line ∈ expected := by
  rw [Comparison.passed, Bool.and_eq_true, List.isEmpty_iff, List.isEmpty_iff,
    falseAlarms_eq_nil_iff, missed_eq_nil_iff]
  constructor
  · rintro ⟨hreported, hexpected⟩ line
    refine ⟨?_, hexpected line⟩
    rintro ⟨d, hd, rfl⟩
    exact hreported d hd
  · intro hlines
    exact ⟨fun d hd => (hlines _).1 ⟨d, hd, rfl⟩, fun line => (hlines line).2⟩

/-- A verbose report has a line for each reported error, and one for each that is missed. -/
theorem length_lines_verbose (expected : Std.ExtTreeMap Nat String) (ds : Diagnostics) :
    ((compareErrors expected ds).lines true).length =
      ds.size + (compareErrors expected ds).missed.length := by
  have hperm := (caught_append_falseAlarms_perm expected ds).length_eq
  simp only [List.length_append, List.length_map] at hperm
  simp only [Comparison.lines, if_true, List.length_append, List.length_map, Diagnostics.size]
  omega

/-- **A comparison is a partition** of the reported errors, and lists the expected ones on lines
without a report. -/
theorem compareErrors_partition (expected : Std.ExtTreeMap Nat String) (ds : Diagnostics) :
    ((compareErrors expected ds).caught =
        (ds.entries.filter fun d => expected.contains d.span.line).map Diagnostic.lineError ∧
      (compareErrors expected ds).falseAlarms =
        (ds.entries.filter fun d => !expected.contains d.span.line).map Diagnostic.lineError ∧
      ((compareErrors expected ds).caught ++ (compareErrors expected ds).falseAlarms).Perm
        (ds.entries.map Diagnostic.lineError)) ∧
      ((compareErrors expected ds).missed.Pairwise (fun a b => a.line < b.line) ∧
        ∀ e, e ∈ (compareErrors expected ds).missed ↔
          expected[e.line]? = some e.message ∧ ∀ d ∈ ds.entries, d.span.line ≠ e.line) ∧
      ((compareErrors expected ds).passed = true ↔
        ∀ line, (∃ d ∈ ds.entries, d.span.line = line) ↔ line ∈ expected) ∧
      ((compareErrors expected ds).lines true).length =
        ds.size + (compareErrors expected ds).missed.length :=
  ⟨⟨compareErrors_caught expected ds, compareErrors_falseAlarms expected ds,
      caught_append_falseAlarms_perm expected ds⟩,
    ⟨missed_increasing expected ds, fun _ => mem_missed_iff⟩, passed_compareErrors_iff,
    length_lines_verbose expected ds⟩

end Gradual
