import Gradual.Proofs.Module.Isolation

/-!
# Findings about the statements of a module

A function whose header is refused is reported when it is declared, and again when its definition is
checked. Both times the finding is the same, so that it is one finding, and there is at most one for
each statement.

* `walkStatement_of_declare_error`: what is found when a function is declared is found again;
* `mem_statementFaults`: a finding belongs to a statement of the module;
* **`fresh_findings`**: what is reported about a module.
-/

namespace Gradual

open Effect

/-- **What is found when a function is declared is found again** when its definition is checked, in
whatever state that is. -/
theorem walkStatement_of_declare_error {scope : ScopeId} {s : Statement} {σ : WalkState}
    {e : CheckError} (h : (exec (declare scope s) σ).1 = .error e) (env : Env) (goal : Option Goal)
    (defined : List String) (τ : WalkState) :
    (exec (walkStatement env scope goal defined s) τ).1 = .error e := by
  cases s with
  | function head body =>
    rw [declare, exec_bind, exec_liftExcept] at h
    cases hsig : declaredSignature head with
    | ok signature =>
      rw [hsig] at h
      cases h
    | error d =>
      rw [hsig] at h
      cases h
      rw [walkStatement_function,
        exec_bind_of_error (walkFunction_of_refused hsig env scope body τ)]
  | _ => cases h

namespace Checker

variable {c : Checker} {x : Diagnostic}

theorem mem_faultsOf {α : Type} {walk : Walk α} :
    x ∈ c.faultsOf walk ↔ ∃ e, (exec walk c.state).1 = .error e ∧ e.diagnostic? = some x := by
  rw [faultsOf]
  cases (exec walk c.state).1 with
  | ok a => simp
  | error e => simp [Option.mem_toList]

theorem length_faultsOf_le {α : Type} (walk : Walk α) : (c.faultsOf walk).length ≤ 1 := by
  rw [faultsOf]
  split
  · exact Nat.zero_le 1
  · exact Option.length_toList_le

/-- **A finding belongs to a statement of the module**, and is that of the error which the check of
this statement ends with. -/
theorem mem_statementFaults {defined : List String} {module : List Statement} :
    x ∈ c.statementFaults defined module ↔
      ∃ first s rest e, module = first ++ s :: rest ∧
        (exec (walkStatement c.env moduleScope none (first.foldl definedAfter defined) s)
          (c.checkStatements defined first).state).1 = .error e ∧ e.diagnostic? = some x := by
  induction module generalizing c defined with
  | nil => simp [statementFaults]
  | cons s module ih =>
    have henv : (c.checkStatement defined s).env = c.env := settle_env c _
    rw [statementFaults, List.mem_append, mem_faultsOf, ih, henv]
    constructor
    · rintro (⟨e, he, hx⟩ | ⟨first, t, rest, e, rfl, he, hx⟩)
      · exact ⟨[], s, module, e, rfl, he, hx⟩
      · exact ⟨s :: first, t, rest, e, rfl, he, hx⟩
    · rintro ⟨_ | ⟨t, first⟩, u, rest, e, hsplit, he, hx⟩
      · cases hsplit
        exact .inl ⟨e, he, hx⟩
      · cases hsplit
        exact .inr ⟨first, u, rest, e, rfl, he, hx⟩

theorem length_statementFaults_le (c : Checker) (defined : List String) (module : List Statement) :
    (c.statementFaults defined module).length ≤ module.length := by
  induction module generalizing c defined with
  | nil => exact Nat.le_refl 0
  | cons s module ih =>
    have hs := c.length_faultsOf_le (walkStatement c.env moduleScope none defined s)
    have hrest := ih (c.checkStatement defined s) (definedAfter defined s)
    rw [statementFaults, List.length_append, List.length_cons]
    omega

theorem declareFaults_subset (c d : Checker) (defined : List String) (module : List Statement) :
    c.declareFaults module ⊆ d.statementFaults defined module := by
  induction module generalizing c d defined with
  | nil => exact List.Subset.refl []
  | cons s module ih =>
    rw [declareFaults, statementFaults]
    refine List.append_subset.2 ⟨fun x hx => ?_, fun x hx => ?_⟩
    · obtain ⟨e, he, hx⟩ := mem_faultsOf.1 hx
      have hagain := walkStatement_of_declare_error he d.env none defined d.state
      exact List.mem_append_left _ (mem_faultsOf.2 ⟨e, hagain, hx⟩)
    · exact List.mem_append_right _ (ih _ _ _ hx)

/-- The declarations of a module add nothing to what is reported about its statements. -/
theorem diagnostics_eq_statementFaults (c : Checker) (module : List Statement) :
    (c.checkModule module).diagnostics =
      ((c.declareModule module).statementFaults [] module).foldl .push c.diagnostics := by
  rw [diagnostics_checkModule, moduleFaults, List.foldl_append]
  exact Diagnostics.foldl_push_of_subset _ (declareFaults_subset c _ [] module)

/-- **There is at most one finding for each statement of a module**: a new checker reports the
errors that the checks of the statements end with, and nothing else. -/
theorem fresh_findings (builtins : Builtins) (verbosity : Option Nat) (hints : Hints)
    (module : List Statement) :
    let c := (new builtins verbosity).withHints hints
    let found := (c.checkModule module).diagnostics
    (∀ x, x ∈ found.entries ↔ ∃ first s rest e, module = first ++ s :: rest ∧
      (exec (walkStatement c.env moduleScope none (first.foldl definedAfter []) s)
        (c.upTo module first).state).1 = .error e ∧ e.diagnostic? = some x) ∧
    (∀ first s rest e, module = first ++ s :: rest →
      (exec (declare moduleScope s) (c.declareModule first).state).1 = .error e →
      (exec (walkStatement c.env moduleScope none (first.foldl definedAfter []) s)
        (c.upTo module first).state).1 = .error e) ∧
    Sorted.IsSorted Diagnostic.cmp found.entries ∧ found.size ≤ module.length := by
  intro c found
  have hfound : found = ((c.declareModule module).statementFaults [] module).foldl .push .empty :=
    diagnostics_eq_statementFaults c module
  refine ⟨fun x => ?_, ?_, ?_, ?_⟩
  · rw [hfound, Diagnostics.mem_foldl_push, mem_statementFaults, declareModule_env]
    exact or_iff_left List.not_mem_nil
  · intro first s rest e _ he
    exact walkStatement_of_declare_error he _ _ _ _
  · rw [hfound]
    exact Diagnostics.isSorted_foldl_push List.Pairwise.nil _
  · have hsize := Diagnostics.size_foldl_push_le .empty
      ((c.declareModule module).statementFaults [] module)
    have hlength := length_statementFaults_le (c.declareModule module) [] module
    rw [hfound]
    simp only [Diagnostics.size, Diagnostics.empty, List.length_nil] at hsize ⊢
    omega

end Checker

end Gradual
