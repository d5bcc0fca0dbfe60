import Gradual.Proofs.Module.Calls
import Gradual.Proofs.Module.Declared
import Gradual.Proofs.Module.Findings
import Gradual.Proofs.Walk.Binders
import Gradual.Proofs.Walk.Visible

/-!
# Names of statements that are passed over

A statement of a module that is passed over binds nothing and is not reported. A later use of a name
that it would have bound is reported, unless something else defines this name: the name is a
constant, is built in, or is bound by an earlier module, by another statement before the use, or by
the header of a function anywhere in the module.

* `Checker.sees_declareModule`: what is visible before the first statement of a module;
* `Checker.sees_upTo`: what is visible stays visible;
* **`Checker.Reachable.skipped_binder_alarms`**: which uses of such names are reported.
-/

namespace Gradual

open Effect Source

namespace Checker

variable {c : Checker} {module first : List Statement} {n : String}

/-- What is reported about the statement `t` after `first` in a module. -/
def reports (c : Checker) (module first : List Statement) (t : Statement) : List Diagnostic :=
  (c.upTo module first).faultsOf
    (walkStatement c.env moduleScope none (first.foldl definedAfter []) t)

/-! ## Visible names -/

/-- **What is visible before the first statement of a module.** -/
theorem sees_declareModule (hc : c.Reachable) (module : List Statement) (n : String) :
    (c.declareModule module).state.Sees moduleScope n ↔ (constantType? n).isSome ∨
      (c.lookup n).isSome ∨ ∃ d ∈ module, (d.declaredAs n).isSome := by
  rw [WalkState.sees_iff, scopes_declareModule, Scopes.lookup_declared hc.sound.isOpen,
    Option.isSome_or, Bool.or_eq_true, Option.isSome_map, lastDeclared_isSome, ← lookup]
  exact or_congr_right or_comm

/-- **What is visible stays visible** after more statements of the module. -/
theorem sees_upTo (h : (c.upTo module first).state.Sees moduleScope n) (rest : List Statement) :
    (c.upTo module (first ++ rest)).state.Sees moduleScope n := by
  rw [upTo, checkStatements_append, ← upTo]
  exact h.of_grows (onlyBinds_checkStatements _ _ rest).grows

/-! ## Reports -/

theorem mem_reports {t : Statement} {x : Diagnostic} : x ∈ c.reports module first t ↔
    ∃ e, ((c.placeAfter module first).check c.env none t).1 = .error e ∧ e.diagnostic? = some x :=
  mem_faultsOf

theorem reports_ne_of_sees (h : (c.upTo module first).state.Sees moduleScope n) (t : Statement) :
    ∀ x ∈ c.reports module first t, x.message ≠ "name '" ++ n ++ "' is used but not defined" := by
  intro x hx hmessage
  obtain ⟨e, he, hex⟩ := mem_reports.1 hx
  exact walkStatement_not_undefined c.env none _ t h e he ⟨x, hex, hmessage⟩

theorem reports_bareName (c : Checker) (module first : List Statement) (span : Span)
    (id : Identifier) :
    (∃ x ∈ c.reports module first (.expression (.name span id)),
      x.message = "name '" ++ id.name ++ "' is used but not defined") ↔
    ¬ (c.upTo module first).state.Sees moduleScope id.name := by
  constructor
  · rintro ⟨x, hx, hmessage⟩ h
    exact reports_ne_of_sees h _ x hx hmessage
  · intro h
    have hfails := (walkStatement_bareName c.env none (first.foldl definedAfter []) span id).2 h
    exact ⟨_, mem_reports.2 ⟨_, hfails, rfl⟩, rfl⟩

/-- A statement that is passed over changes no scope and is not reported. -/
theorem upTo_of_passesOver {s : Statement}
    (h : PassesOver c.env none (c.placeAfter module first) s) :
    SameScopes (c.upTo module first).state (c.upTo module (first ++ [s])).state ∧
    (c.upTo module (first ++ [s])).diagnostics = (c.upTo module first).diagnostics := by
  obtain ⟨construct, span, hs⟩ := h
  have henv : (c.upTo module first).env = c.env := by
    rw [upTo, checkStatements_env, declareModule_env]
  have hone : c.upTo module (first ++ [s]) =
      (c.upTo module first).checkStatement (first.foldl definedAfter []) s := by
    rw [upTo, checkStatements_append]
    rfl
  have hfails : (exec (walkStatement (c.upTo module first).env moduleScope none
      (first.foldl definedAfter []) s) (c.upTo module first).state).1 =
        .error (.unsupported construct span) := by
    rw [henv]
    exact hs
  rw [hone]
  exact checkStatement_of_error (Prod.ext hfails rfl) (by simp)

/-- **Which names of a statement that is passed over are reported** in later statements: those that
nothing else defines. -/
theorem Reachable.skipped_binder_alarms (hc : c.Reachable) (A B C : List Statement)
    (s t : Statement) :
    let module := A ++ s :: B ++ t :: C
    PassesOver c.env none (c.placeAfter module A) s →
    SameScopes (c.upTo module A).state (c.upTo module (A ++ [s])).state ∧
    (c.upTo module (A ++ [s])).diagnostics = (c.upTo module A).diagnostics ∧
    ∀ n ∈ s.binders,
      ((c.upTo module []).state.Sees moduleScope n ↔ (constantType? n).isSome ∨
        (c.lookup n).isSome ∨ ∃ d ∈ module, (d.declaredAs n).isSome) ∧
      (∀ first, first <+: A ++ s :: B → (c.upTo module first).state.Sees moduleScope n →
        ∀ x ∈ c.reports module (A ++ s :: B) t,
          x.message ≠ "name '" ++ n ++ "' is used but not defined") ∧
      (∀ span id, id.name = n → t = .expression (.name span id) →
        ((∃ x ∈ c.reports module (A ++ s :: B) t,
          x.message = "name '" ++ n ++ "' is used but not defined") ↔
        ¬ (c.upTo module (A ++ s :: B)).state.Sees moduleScope n)) := by
  intro module hs
  obtain ⟨hscopes, hdiagnostics⟩ := upTo_of_passesOver hs
  refine ⟨hscopes, hdiagnostics, fun n _ => ⟨sees_declareModule hc module n, ?_, ?_⟩⟩
  · rintro first ⟨rest, hrest⟩ hn
    rw [← hrest]
    exact reports_ne_of_sees (sees_upTo hn rest) t
  · rintro span id rfl rfl
    exact reports_bareName c module _ span id

/-- In `def f(k=m.n): pass`, `f` the definition is passed over for the sake of its default value.
Its header still declares the name, which may be used. -/
theorem skippedDefinition_visible :
    let value : Expr := .member .none (.name .none ⟨"m", .none⟩) ⟨"n", .none⟩
    let s : Statement :=
      .function ⟨⟨"f", .none⟩, .none, [⟨"k", .none, .positional, none, some value⟩], none⟩
        [.pass .none]
    let t : Statement := .expression (.name .none ⟨"f", .none⟩)
    (new .standard).Reachable ∧
    PassesOver (new .standard).env none ((new .standard).placeAfter [s, t] []) s ∧
    "f" ∈ s.binders ∧
    ∀ x ∈ (new .standard).reports [s, t] [s] t,
      x.message ≠ "name '" ++ "f" ++ "' is used but not defined" := by
  intro value s t
  have hnew := Reachable.new .standard
  have hbinder : "f" ∈ s.binders := List.mem_singleton.2 rfl
  have hskip : PassesOver (new .standard).env none ((new .standard).placeAfter [s, t] []) s :=
    ⟨_, _, show _ = Except.error ((Escape.form value).error .none) by decide +kernel⟩
  obtain ⟨-, -, h⟩ := hnew.skipped_binder_alarms [] [] [] s t hskip
  obtain ⟨hvisible, hquiet, -⟩ := h "f" hbinder
  refine ⟨hnew, hskip, hbinder, hquiet [] List.nil_prefix (hvisible.2 (.inr (.inr ⟨s, ?_, ?_⟩)))⟩
  · exact List.mem_cons_self
  · decide +kernel

/-- In `x = y = 1`, `x` the assignment is passed over for the sake of its two targets. Nothing else
defines the name, and its use is reported. -/
theorem skippedAssignment_alarm :
    let target name : Expr := .name .none ⟨name, .none⟩
    let s : Statement :=
      .assignment ⟨.none, [target "x", target "y"], none, some (.literal .none (.integer 1))⟩
    let t : Statement := .expression (target "x")
    (((new .standard).placeAfter [s, t] []).check (new .standard).env none s).1 =
      .error (Escape.multipleTargets.error .none) ∧
    "x" ∈ s.binders ∧
    (new .standard).reports [s, t] [s] t =
      [⟨.none, .heresy, "name 'x' is used but not defined"⟩] := by
  intro target s t
  refine ⟨?_, ?_, ?_⟩
  all_goals decide +kernel

end Checker

end Gradual
