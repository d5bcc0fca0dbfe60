import Gradual.Proofs.Module.Steps
import Gradual.Proofs.Sorted
import Gradual.Proofs.Walk.Silence
import Gradual.Proofs.Walk.Undo
import Gradual.Proofs.Walk.Ways

/-!
# Failed statements of a module

A statement of a module that fails is reported, and the rest of the module is checked as if it were
not there.

* `Checker.upTo`, `Checker.placeAfter`: the checker that a statement of a module is checked with,
  and the place;
* `Checker.checkStatements_congr`: the check of statements reads the scopes only;
* **`Checker.failed_statement_isolated`**: a module with a failed statement, and without it.
-/

namespace Gradual.Checker

open Effect

variable {c d : Checker} {defined : List String} {s : Statement} {A B : List Statement}

/-! ## The rest of a module -/

theorem checkStatement_congr (henv : d.env = c.env) (hs : SameScopes c.state d.state)
    (defined : List String) (s : Statement) :
    SameScopes (c.checkStatement defined s).state (d.checkStatement defined s).state ∧
    d.faultsOf (walkStatement d.env moduleScope none defined s) =
      c.faultsOf (walkStatement c.env moduleScope none defined s) := by
  have hsilent := (silenceLaw Log.tracks_any).binds_walkStatement c.env moduleScope none defined s
  constructor
  · rw [checkStatement, settle_state, checkStatement, settle_state, henv]
    exact (respects_tolerate Log.tracks_any hsilent c.state d.state ⟨hs, trivial⟩).2.scopes
  · rw [faultsOf, faultsOf, henv, (hsilent c.state d.state ⟨hs, trivial⟩).1]

/-- **The check of statements reads the scopes only**, not what was found or logged before. -/
theorem checkStatements_congr (henv : d.env = c.env) (hs : SameScopes c.state d.state)
    (defined : List String) (B : List Statement) :
    SameScopes (c.checkStatements defined B).state (d.checkStatements defined B).state ∧
    d.statementFaults defined B = c.statementFaults defined B := by
  induction B generalizing c d defined with
  | nil => exact ⟨hs, rfl⟩
  | cons s B ih =>
    obtain ⟨hstate, hfaults⟩ := checkStatement_congr henv hs defined s
    have henv' : (d.checkStatement defined s).env = (c.checkStatement defined s).env := by
      rw [checkStatement, settle_env, checkStatement, settle_env, henv]
    obtain ⟨hrest, hrestFaults⟩ := ih henv' hstate (definedAfter defined s)
    exact ⟨hrest, by rw [statementFaults, statementFaults, hfaults, hrestFaults]⟩

/-! ## A statement that is no function definition -/

theorem declareStep_of_ne (hs : ∀ head body, s ≠ .function head body) :
    c.declareStep s = c := by
  cases s with
  | function head body => exact absurd rfl (hs head body)
  | _ => rfl

theorem definedAfter_of_ne (hs : ∀ head body, s ≠ .function head body) :
    definedAfter defined s = defined := by
  cases s with
  | function head body => exact absurd rfl (hs head body)
  | _ => rfl

theorem declareModule_skip (hs : ∀ head body, s ≠ .function head body) (c : Checker)
    (A B : List Statement) : c.declareModule (A ++ [s] ++ B) = c.declareModule (A ++ B) := by
  rw [declareModule_append, declareModule_append, declareModule_append, declareModule_cons,
    declareStep_of_ne hs, declareModule_nil]

/-- The checker that the statement after `first` in a module is checked with. -/
def upTo (c : Checker) (whole first : List Statement) : Checker :=
  (c.declareModule whole).checkStatements [] first

/-- Where the statement after `first` in a module is checked. -/
def placeAfter (c : Checker) (whole first : List Statement) : Place :=
  ⟨moduleScope, first.foldl definedAfter [], (c.upTo whole first).state⟩

theorem checkStatements_upTo (c : Checker) (A B : List Statement) :
    (c.declareModule (A ++ B)).checkStatements [] (A ++ B) =
      (c.upTo (A ++ B) A).checkStatements (A.foldl definedAfter []) B := by
  rw [checkStatements_append, upTo]

theorem checkStatements_skip (hs : ∀ head body, s ≠ .function head body) (c : Checker)
    (A B : List Statement) :
    (c.declareModule (A ++ [s] ++ B)).checkStatements [] (A ++ [s] ++ B) =
      ((c.upTo (A ++ B) A).checkStatement (A.foldl definedAfter []) s).checkStatements
        (A.foldl definedAfter []) B := by
  rw [declareModule_skip hs, List.append_assoc, checkStatements_append, List.singleton_append,
    checkStatements, definedAfter_of_ne hs, upTo]

/-! ## Failure -/

/-- A failure other than a suspicion leaves the scopes of a checker as they were. -/
theorem checkStatement_of_error {e : CheckError} {τ : WalkState}
    (h : exec (walkStatement c.env moduleScope none defined s) c.state = (.error e, τ))
    (he : ∀ message span, e ≠ .suspicion message span) :
    SameScopes c.state (c.checkStatement defined s).state ∧
    (c.checkStatement defined s).diagnostics = e.diagnostic?.toList.foldl .push c.diagnostics := by
  constructor
  · have hτ := sameScopes_of_error h he
    rw [checkStatement, settle_state, exec_tolerate, h]
    cases e <;> exact hτ
  · rw [checkStatement, settle_tolerate_diagnostics, faultsOf, h]

/-- **A failed statement of a module is isolated**: the module binds what it binds without the
statement, and at most the violation itself is reported beside the rest. -/
theorem failed_statement_isolated (c : Checker) (hs : ∀ head body, s ≠ .function head body)
    {e : CheckError} {τ : WalkState}
    (h : exec (walkStatement c.env moduleScope none (A.foldl definedAfter []) s)
      (c.upTo (A ++ [s] ++ B) A).state = (.error e, τ))
    (he : ∀ message span, e ≠ .suspicion message span) :
    (c.checkModule (A ++ [s] ++ B)).bindings = (c.checkModule (A ++ B)).bindings ∧
    (∀ message span, e = .heresy message span →
      (c.checkModule (A ++ [s] ++ B)).diagnostics =
        (c.checkModule (A ++ B)).diagnostics.push ⟨span, .heresy, message⟩) ∧
    (∀ construct span, e = .unsupported construct span →
      (c.checkModule (A ++ [s] ++ B)).diagnostics = (c.checkModule (A ++ B)).diagnostics) := by
  -- Without the statement the same checker stands before `B`, up to the log and what was reported.
  rw [upTo, declareModule_skip hs, ← upTo] at h
  have henv : (c.upTo (A ++ B) A).env = c.env := by
    rw [upTo, checkStatements_env, declareModule_env]
  rw [← henv] at h
  obtain ⟨hscopes, hdiags⟩ := checkStatement_of_error h he
  have henv' : ((c.upTo (A ++ B) A).checkStatement (A.foldl definedAfter []) s).env =
      (c.upTo (A ++ B) A).env := by
    rw [checkStatement, settle_env]
  obtain ⟨hend, hfaults⟩ := checkStatements_congr henv' hscopes (A.foldl definedAfter []) B
  have hall : (c.checkModule (A ++ [s] ++ B)).diagnostics =
      (((c.upTo (A ++ B) A).statementFaults (A.foldl definedAfter []) B).foldl .push
        (e.diagnostic?.toList.foldl .push (c.upTo (A ++ B) A).diagnostics)) := by
    rw [checkModule_diagnostics, checkStatements_skip hs, diagnostics_checkStatements, hfaults,
      hdiags]
  have hwithout : (c.checkModule (A ++ B)).diagnostics =
      ((c.upTo (A ++ B) A).statementFaults (A.foldl definedAfter []) B).foldl .push
        (c.upTo (A ++ B) A).diagnostics := by
    rw [checkModule_diagnostics, checkStatements_upTo, diagnostics_checkStatements]
  refine ⟨?_, ?_, ?_⟩
  · rw [bindings, bindings, checkModule_scopes, checkModule_scopes, checkStatements_skip hs,
      checkStatements_upTo, hend]
  · rintro message span rfl
    rw [hall, hwithout]
    exact Diagnostics.foldl_push _ _ _
  · rintro construct span rfl
    rw [hall, hwithout]
    rfl

/-- In `x = 1`, `y`, `z = x` the name in the middle is not bound: this is all that is reported, and
`z` is still bound. -/
theorem undefined_name_isolated :
    let assign name value : Statement :=
      .assignment ⟨.none, [.name .none ⟨name, .none⟩], none, some value⟩
    let first := assign "x" (.literal .none (.integer 1))
    let failed : Statement := .expression (.name .none ⟨"y", .none⟩)
    let last := assign "z" (.name .none ⟨"x", .none⟩)
    ((new .standard).checkModule [first, failed, last]).bindings = [("x", .int), ("z", .int)] ∧
    ((new .standard).checkModule [first, failed, last]).diagnostics =
      ((new .standard).checkModule [first, last]).diagnostics.push
        ⟨.none, .heresy, "name 'y' is used but not defined"⟩ := by
  intro assign first failed last
  have h : (exec (walkStatement (new .standard).env moduleScope none
      ([first].foldl definedAfter []) failed)
        ((new .standard).upTo ([first] ++ [failed] ++ [last]) [first]).state).1 =
      .error (.heresy "name 'y' is used but not defined" .none) := by
    decide +kernel
  obtain ⟨hbindings, hheresy, -⟩ := failed_statement_isolated (new .standard)
    (by simp [failed]) (Prod.ext h rfl) (by simp)
  refine ⟨hbindings.trans ?_, hheresy _ _ rfl⟩
  decide +kernel

end Gradual.Checker
