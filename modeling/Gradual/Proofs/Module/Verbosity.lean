import Gradual.Check.Report
import Gradual.Proofs.Module.Steps
import Gradual.Proofs.Walk.Silence

/-!
# Verbosity

The verbosity of a check decides which events its log keeps, and nothing else.

* `Log.Narrows`: of two limited logs, the first has the events of the second that it may keep;
* `Checker.Alike`, `Checker.Alike.checkModule`: checkers that differ at most in their logs;
* **`verbosity_only_affects_log`**: the same text, checked at two verbosities.
-/

namespace Gradual

open Effect

/-! ## Logs -/

namespace Log

variable {v w : Nat} {a b log : Log}

@[simp]
theorem events_push (log : Log) (event : Event) :
    events (log.push (.event event)) = log.events ++ [event] := by
  simp [events, Entry.event?]

@[simp]
theorem limit?_push (log : Log) (event : Event) :
    limit? (log.push (.event event)) = log.limit? := by
  rw [limit?, limit?, Array.toList_push]
  cases log.toList with
  | nil => rfl
  | cons entry rest => cases entry <;> rfl

@[simp]
theorem limit?_record (log : Log) (event : Event) : (log.record event).limit? = log.limit? := by
  unfold record
  split
  · exact limit?_push log event
  · rfl

/-- A limited log keeps the events that are shown at its limit. -/
theorem events_record (h : log.limit? = some v) (event : Event) :
    (log.record event).events = log.events ++ [event].filter (·.threshold ≤ v) := by
  unfold record
  rw [h, Option.all_some]
  split
  next hkept =>
    rw [events_push]
    simp [hkept]
  next hdropped => simp [hdropped]

/-- The log `a` is limited to `v` and `b` to `w`, and `a` has those events of `b` that are shown at
`v`. -/
structure Narrows (v w : Nat) (a b : Log) : Prop where
  limit_left : a.limit? = some v
  limit_right : b.limit? = some w
  events_eq : a.events = b.shown v

theorem narrows_start (v w : Nat) : Narrows v w (start (some v)) (start (some w)) :=
  ⟨rfl, rfl, rfl⟩

/-- An event that is shown at `v` is kept by both logs, as it is also shown at `w`. -/
theorem tracks_narrows (h : v ≤ w) : Tracks (Narrows v w) := by
  intro a b event hab
  refine ⟨?_, ?_, ?_⟩
  · rw [limit?_record, hab.limit_left]
  · rw [limit?_record, hab.limit_right]
  · have hboth : ∀ e : Event, (e.threshold ≤ v ∧ e.threshold ≤ w) ↔ e.threshold ≤ v := by
      intro e
      omega
    rw [events_record hab.limit_left, hab.events_eq, shown, shown, events_record hab.limit_right,
      List.filter_append, List.filter_filter]
    simp only [← Bool.decide_and, hboth]

theorem Narrows.sublist (h : Narrows v w a b) : a.events.Sublist b.events := by
  rw [h.events_eq]
  exact List.filter_sublist

end Log

/-! ## Checkers -/

namespace Checker

variable {α : Type} {r : Log → Log → Prop} {c d : Checker}

/-- Checkers that differ at most in their logs, and these are related by `r`. -/
structure Alike (r : Log → Log → Prop) (c d : Checker) : Prop where
  env : d.env = c.env
  state : Gradual.Alike r c.state d.state
  diagnostics : d.diagnostics = c.diagnostics

namespace Alike

theorem bindings_eq (h : Alike r c d) : d.bindings = c.bindings := by
  rw [bindings, h.state.scopes, bindings]

theorem withHints (h : Alike r c d) (hints : Hints) :
    Alike r (c.withHints hints) (d.withHints hints) := by
  refine ⟨?_, h.state, h.diagnostics⟩
  rw [Checker.withHints, Checker.withHints, h.env]

theorem report (h : Alike r c d) (e : CheckError) : Alike r (c.report e) (d.report e) := by
  refine ⟨?_, ?_, ?_⟩
  · rw [report_env, report_env, h.env]
  · rw [report_state, report_state]
    exact h.state
  · unfold Checker.report
    split
    · rw [h.diagnostics]
    · exact h.diagnostics

theorem settle (h : Alike r c d) {walk : Walk α} (hw : Respects (Gradual.Alike r) walk) :
    Alike r (c.settle walk) (d.settle walk) := by
  obtain ⟨hres, hstate⟩ := hw c.state d.state h.state
  rw [settle_eq, settle_eq]
  rcases hc : exec walk c.state with ⟨e | a, σ⟩ <;>
    rcases hd : exec walk d.state with ⟨e' | b, τ⟩ <;>
    rw [hc, hd] at hres hstate <;> cases hres
  · have hafter : Alike r { c with state := σ } { d with state := τ } :=
      ⟨h.env, hstate, h.diagnostics⟩
    exact hafter.report e
  · exact ⟨h.env, hstate, h.diagnostics⟩

variable (hr : Log.Tracks r)

include hr

theorem record (h : Alike r c d) (event : Event) : Alike r (c.record event) (d.record event) :=
  ⟨h.env, h.state.logged hr event, h.diagnostics⟩

theorem recordAll {β : Type} (event : β → Event) (l : List β) (h : Alike r c d) :
    Alike r (l.foldl (fun c b => c.record (event b)) c)
      (l.foldl (fun c b => c.record (event b)) d) := by
  induction l generalizing c d with
  | nil => exact h
  | cons b l ih => exact ih (h.record hr (event b))

theorem declareModule (h : Alike r c d) (module : List Statement) :
    Alike r (c.declareModule module) (d.declareModule module) := by
  induction module generalizing c d with
  | nil => exact h
  | cons s rest ih =>
    rw [declareModule_cons, declareModule_cons]
    apply ih
    exact h.settle (respects_tolerate hr ((silenceLaw hr).binds_declare moduleScope s))

theorem checkStatements (h : Alike r c d) (defined : List String) (module : List Statement) :
    Alike r (c.checkStatements defined module) (d.checkStatements defined module) := by
  induction module generalizing c d defined with
  | nil => exact h
  | cons s rest ih =>
    rw [Checker.checkStatements, Checker.checkStatements]
    apply ih
    have hwalk := (silenceLaw hr).binds_walkStatement c.env moduleScope none defined s
    rw [checkStatement, checkStatement, h.env]
    exact h.settle (respects_tolerate hr hwalk)

/-- **Checkers that differ at most in their logs still do after a module.** -/
theorem checkModule (h : Alike r c d) (module : List Statement) :
    Alike r (c.checkModule module) (d.checkModule module) := by
  have hdone := (h.declareModule hr module).checkStatements hr [] module
  rw [Checker.checkModule, Checker.checkModule, hdone.bindings_eq]
  exact hdone.recordAll hr (fun b : String × Ty => .binding b.1 b.2) _

end Alike

theorem alike_new (builtins : Builtins) (v w : Nat) :
    Alike (Log.Narrows v w) (new builtins (some v)) (new builtins (some w)) :=
  ⟨rfl, ⟨rfl, Log.narrows_start v w⟩, rfl⟩

end Checker

/-! ## Reports -/

/-- Reports that differ at most in their logs. -/
structure Report.Alike (r : Log → Log → Prop) (p q : Report) : Prop where
  statements : q.statements = p.statements
  diagnostics : q.diagnostics = p.diagnostics
  bindings : q.bindings = p.bindings
  log : r p.log q.log

theorem reportOn_alike {v w : Nat} (h : v ≤ w) (builtins : Builtins)
    (hints : Hints × List IgnoredHint) (statements : List Statement) :
    Report.Alike (Log.Narrows v w) (reportOn builtins hints statements (some v))
      (reportOn builtins hints statements (some w)) := by
  have hr := Log.tracks_narrows h
  have hstart := (Checker.alike_new builtins v w).recordAll hr .ignoredHint hints.2
  have hparsed := hstart.record hr (.parsedModule statements.length hints.1.size)
  have hchecked := (hparsed.withHints hints.1).checkModule hr statements
  refine ⟨rfl, hchecked.diagnostics, hchecked.bindings_eq, ?_⟩
  rw [reportOn, reportOn, hchecked.diagnostics]
  exact (hchecked.record hr (.finished _)).state.log

/-- **Verbosity only affects the log**: what is logged at the smaller of two verbosities is what is
shown there of the log at the larger one. -/
theorem verbosity_only_affects_log (builtins : Builtins) (useHints : Bool) (source : String)
    {v w : Nat} (h : v ≤ w) :
    (∃ e, check builtins useHints source (some v) = .error e ∧
      check builtins useHints source (some w) = .error e) ∨
    ∃ p q, check builtins useHints source (some v) = .ok p ∧
      check builtins useHints source (some w) = .ok q ∧
      p.statements = q.statements ∧ p.diagnostics = q.diagnostics ∧ p.bindings = q.bindings ∧
      p.log.events = q.log.events.filter (·.threshold ≤ v) ∧
      p.log.events.Sublist q.log.events := by
  unfold check
  cases readModule source with
  | error e => exact .inl ⟨e, rfl, rfl⟩
  | ok statements =>
    have halike := reportOn_alike h builtins
      (if useHints then Hints.ofSource source else (∅, [])) statements
    exact .inr ⟨_, _, rfl, rfl, halike.statements.symm, halike.diagnostics.symm,
      halike.bindings.symm, halike.log.events_eq, halike.log.sublist⟩

/-- A text with one violation: four of the seven events at verbosity 3 are logged at verbosity 1. -/
theorem wrongDefault_verbosities :
    let source := "def f(n: int = '') -> int:\n    return n\nx = [1]\n"
    ∃ p q, check .standard true source (some 1) = .ok p ∧
      check .standard true source (some 3) = .ok q ∧
      p.diagnostics = q.diagnostics ∧ p.diagnostics.size = 1 ∧
      p.log.events.length = 4 ∧ q.log.events.length = 7 ∧
      p.log.events.Sublist q.log.events := by
  intro source
  have hone : (check .standard true source (some 1)).toOption.map
      (fun r => (r.diagnostics.size, r.log.events.length)) = some (1, 4) := by
    decide +kernel
  have hthree : (check .standard true source (some 3)).toOption.map
      (fun r => r.log.events.length) = some 7 := by
    decide +kernel
  obtain ⟨e, he, -⟩ | ⟨p, q, hp, hq, -, hdiags, -, -, hsub⟩ :=
    verbosity_only_affects_log .standard true source (show 1 ≤ 3 by decide)
  · rw [he] at hone
    cases hone
  · rw [hp] at hone
    rw [hq] at hthree
    obtain ⟨hsize, hcount⟩ := Prod.ext_iff.1 (Option.some.inj hone)
    exact ⟨p, q, hp, hq, hdiags, hsize, hcount, Option.some.inj hthree, hsub⟩

end Gradual
