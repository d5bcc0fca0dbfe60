import Gradual.Proofs.Walk.Scopes

/-!
# The steps of checking a module

A module is checked step by step: its functions are declared, and then its statements are checked.
Each step is a walk in the scope of modules. An error that a walk ends with is reported, and nothing
else is.

* `settle_eq`: a step in terms of its walk;
* `onlyBinds_checkModule`: a module binds in the scope of modules only;
* `moduleFaults`, **`diagnostics_checkModule`**: what is reported about a module.
-/

namespace Gradual.Checker

open Effect

variable {α : Type}

/-! ## One step -/

theorem settle_eq (c : Checker) (walk : Walk α) :
    c.settle walk = match exec walk c.state with
      | (.ok _, state) => { c with state }
      | (.error e, state) => { c with state }.report e := rfl

@[simp] theorem report_env (c : Checker) (e : CheckError) : (c.report e).env = c.env := by
  cases e <;> rfl

@[simp] theorem report_state (c : Checker) (e : CheckError) : (c.report e).state = c.state := by
  cases e <;> rfl

@[simp] theorem settle_env (c : Checker) (walk : Walk α) : (c.settle walk).env = c.env := by
  rw [settle_eq]
  split <;> simp

@[simp] theorem settle_state (c : Checker) (walk : Walk α) :
    (c.settle walk).state = (exec walk c.state).2 := by
  rw [settle_eq]
  split <;> simp_all

/-- What is reported about the error that a walk ends with. -/
def faultsOf (c : Checker) (walk : Walk α) : List Diagnostic :=
  match (exec walk c.state).1 with
  | .ok _ => []
  | .error e => e.diagnostic?.toList

theorem settle_tolerate_diagnostics (c : Checker) (skipped : α) (walk : Walk α) :
    (c.settle (Walk.tolerate skipped walk)).diagnostics =
      (c.faultsOf walk).foldl .push c.diagnostics := by
  rw [settle_eq, exec_tolerate, faultsOf]
  rcases exec walk c.state with ⟨(_ | _ | _) | _, _⟩ <;> rfl

/-! ## All steps -/

/-- The step that declares a function. -/
def declareStep (c : Checker) (s : Statement) : Checker :=
  c.settle (Walk.tolerate () (declare moduleScope s))

theorem declareModule_nil (c : Checker) : c.declareModule [] = c := rfl

theorem declareModule_cons (c : Checker) (s : Statement) (rest : List Statement) :
    c.declareModule (s :: rest) = (c.declareStep s).declareModule rest := rfl

theorem declareModule_append (c : Checker) (A B : List Statement) :
    c.declareModule (A ++ B) = (c.declareModule A).declareModule B :=
  List.foldl_append

theorem checkStatements_append (c : Checker) (defined : List String) (A B : List Statement) :
    c.checkStatements defined (A ++ B) =
      (c.checkStatements defined A).checkStatements (A.foldl definedAfter defined) B := by
  induction A generalizing c defined with
  | nil => rfl
  | cons s A ih =>
    rw [List.cons_append, checkStatements, ih, checkStatements, List.foldl_cons]

@[simp] theorem declareModule_env (c : Checker) (module : List Statement) :
    (c.declareModule module).env = c.env := by
  induction module generalizing c with
  | nil => rfl
  | cons s rest ih => rw [declareModule_cons, ih, declareStep, settle_env]

@[simp] theorem checkStatements_env (c : Checker) (defined : List String)
    (module : List Statement) : (c.checkStatements defined module).env = c.env := by
  induction module generalizing c defined with
  | nil => rfl
  | cons s rest ih => rw [checkStatements, ih, checkStatement, settle_env]

/-- The events at the end of the check of a module change its log only. -/
theorem checkModule_eq (c : Checker) (module : List Statement) :
    ∃ log, c.checkModule module =
      { (c.declareModule module).checkStatements [] module with
        state := ⟨((c.declareModule module).checkStatements [] module).state.scopes, log⟩ } := by
  have key : ∀ (bs : List (String × Ty)) (d : Checker), ∃ log,
      bs.foldl (fun c b => c.record (.binding b.1 b.2)) d =
        { d with state := ⟨d.state.scopes, log⟩ } := by
    intro bs
    induction bs with
    | nil => exact fun d => ⟨d.state.log, rfl⟩
    | cons b bs ih => exact fun d => ih (d.record (.binding b.1 b.2))
  exact key _ _

theorem checkModule_scopes (c : Checker) (module : List Statement) :
    (c.checkModule module).state.scopes =
      ((c.declareModule module).checkStatements [] module).state.scopes := by
  obtain ⟨log, h⟩ := checkModule_eq c module
  rw [h]

theorem checkModule_diagnostics (c : Checker) (module : List Statement) :
    (c.checkModule module).diagnostics =
      ((c.declareModule module).checkStatements [] module).diagnostics := by
  obtain ⟨log, h⟩ := checkModule_eq c module
  rw [h]

/-! ## Scopes -/

theorem onlyBinds_settle {scope : ScopeId} {walk : Walk α} (h : Keeps (BindsIn scope) walk)
    (c : Checker) : c.state.scopes.OnlyBinds scope (c.settle walk).state.scopes := by
  rw [settle_state]
  exact h c.state

theorem onlyBinds_declareModule (c : Checker) (module : List Statement) :
    c.state.scopes.OnlyBinds moduleScope (c.declareModule module).state.scopes := by
  induction module generalizing c with
  | nil => exact .refl _ _
  | cons s rest ih =>
    rw [declareModule_cons]
    exact (onlyBinds_settle (keeps_tolerate (scopeLaw.binds_declare moduleScope s)) c).trans (ih _)

theorem onlyBinds_checkStatements (c : Checker) (defined : List String)
    (module : List Statement) :
    c.state.scopes.OnlyBinds moduleScope (c.checkStatements defined module).state.scopes := by
  induction module generalizing c defined with
  | nil => exact .refl _ _
  | cons s rest ih =>
    rw [checkStatements]
    have hs := scopeLaw.binds_walkStatement c.env moduleScope none defined s
    exact (onlyBinds_settle (keeps_tolerate hs) c).trans (ih _ _)

/-- **A module binds in the scope of modules only.** -/
theorem onlyBinds_checkModule (c : Checker) (module : List Statement) :
    c.state.scopes.OnlyBinds moduleScope (c.checkModule module).state.scopes := by
  rw [checkModule_scopes]
  exact (onlyBinds_declareModule c module).trans (onlyBinds_checkStatements _ [] module)

/-! ## Diagnostics -/

/-- What is reported while the functions of a module are declared. -/
def declareFaults (c : Checker) : List Statement → List Diagnostic
  | [] => []
  | s :: rest => c.faultsOf (declare moduleScope s) ++ (c.declareStep s).declareFaults rest

/-- What is reported while statements of a module are checked. -/
def statementFaults (c : Checker) (defined : List String) : List Statement → List Diagnostic
  | [] => []
  | s :: rest =>
    c.faultsOf (walkStatement c.env moduleScope none defined s) ++
      (c.checkStatement defined s).statementFaults (definedAfter defined s) rest

/-- What is reported about the errors that the steps of a module end with. -/
def moduleFaults (c : Checker) (module : List Statement) : List Diagnostic :=
  c.declareFaults module ++ (c.declareModule module).statementFaults [] module

theorem diagnostics_declareModule (c : Checker) (module : List Statement) :
    (c.declareModule module).diagnostics = (c.declareFaults module).foldl .push c.diagnostics := by
  induction module generalizing c with
  | nil => rfl
  | cons s rest ih =>
    rw [declareModule_cons, ih, declareFaults, List.foldl_append, declareStep,
      settle_tolerate_diagnostics]

theorem diagnostics_checkStatements (c : Checker) (defined : List String)
    (module : List Statement) :
    (c.checkStatements defined module).diagnostics =
      (c.statementFaults defined module).foldl .push c.diagnostics := by
  induction module generalizing c defined with
  | nil => rfl
  | cons s rest ih =>
    rw [checkStatements, ih, statementFaults, List.foldl_append, checkStatement,
      settle_tolerate_diagnostics]

/-- **Only errors of whole steps are reported**, each step once. -/
theorem diagnostics_checkModule (c : Checker) (module : List Statement) :
    (c.checkModule module).diagnostics = (c.moduleFaults module).foldl .push c.diagnostics := by
  rw [checkModule_diagnostics, diagnostics_checkStatements, diagnostics_declareModule,
    moduleFaults, List.foldl_append]

end Gradual.Checker
