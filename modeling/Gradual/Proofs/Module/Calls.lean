import Gradual.Proofs.Module.Steps
import Gradual.Proofs.Walk.Undo

/-!
# Scopes during the check of a module

The check of a module calls for the checks of its statements, and these for the checks of the bodies
and branches inside them. All of them share one arena of scopes.

* `Call`, `Call.after`: a part of a check, and the state that it leaves, failed or not;
* `Call.Makes`, `Checker.Calls`: the calls that another one makes, and those during a module;
* `Checker.Reachable`: the checkers that come from a new one by checking modules;
* **`Checker.Reachable.scope_discipline`**: each call binds in its own scope only.
-/

namespace Gradual

open Effect

/-! ## Calls -/

/-- A part of a check: a block in its own scope, a statement, a function definition, or a branch of
a conditional, with the scope that it works in. -/
inductive Call where
  | block (scope : ScopeId) (goal : Option Goal) (block : List Statement)
  | statement (scope : ScopeId) (goal : Option Goal) (defined : List String) (s : Statement)
  | function (scope : ScopeId) (head : FunctionHead) (body : List Statement)
  | branch (scope : ScopeId) (goal : Option Goal) (block : List Statement)

namespace Call

/-- The scope that a call works in. -/
def scope : Call → ScopeId
  | .block s _ _ | .statement s _ _ _ | .function s _ _ | .branch s _ _ => s

/-- The state after a call, whether it fails or not. -/
def after (env : Env) (σ : WalkState) : Call → WalkState
  | .block scope goal statements => (exec (walkBlock env scope goal statements) σ).2
  | .statement scope goal defined s => (exec (walkStatement env scope goal defined s) σ).2
  | .function scope head body => (exec (walkFunction env scope head body) σ).2
  | .branch scope goal statements => (exec (walkBranch env scope goal statements) σ).2

/-- The calls that a call makes, each with the state in which it is made. -/
inductive Makes (env : Env) : Call → WalkState → Call → WalkState → Prop
  | definition {scope : ScopeId} {goal : Option Goal} {defined : List String}
      {head : FunctionHead} {body : List Statement} {σ : WalkState} :
      Makes env (.statement scope goal defined (.function head body)) σ
        (.function scope head body) σ
  | body {scope : ScopeId} {head : FunctionHead} {body : List Statement} {declared : Signature}
      {σ ρ : WalkState} (h : exec (checkHeader env scope head) σ = (.ok declared, ρ)) :
      Makes env (.function scope head body) σ
        (.block ρ.fresh (some ⟨head.name.name, declared.ret⟩) body) (ρ.inBody scope head declared)
  | consequent {scope : ScopeId} {goal : Option Goal} {defined : List String} {head : Condition}
      {body : List Statement} {otherwise : Option (List Statement)} {σ : WalkState}
      (h : hasElif otherwise = false) :
      Makes env (.statement scope goal defined (.conditional head body otherwise)) σ
        (.branch scope goal body) (σ.logged (.exploring (goal.map (·.expected)) head.span.line))
  | alternative {scope : ScopeId} {goal : Option Goal} {defined : List String} {head : Condition}
      {body block : List Statement} {outcome : Outcome} {σ τ : WalkState}
      (h : hasElif (some block) = false)
      (hb : exec (walkBranch env scope goal body)
        (σ.logged (.exploring (goal.map (·.expected)) head.span.line)) = (.ok outcome, τ)) :
      Makes env (.statement scope goal defined (.conditional head body (some block))) σ
        (.branch scope goal block) τ
  | inside {scope : ScopeId} {goal : Option Goal} {block : List Statement} {σ : WalkState} :
      Makes env (.branch scope goal block) σ (.block σ.fresh goal block) (σ.opened scope)
  | next {scope : ScopeId} {goal : Option Goal} {first rest : List Statement} {s : Statement}
      {outcome : Outcome} {σ τ : WalkState}
      (h : exec (do
        declareAll scope (first ++ s :: rest)
        walkStatements env scope goal [] .proceeds first) σ = (.ok outcome, τ)) :
      Makes env (.block scope goal (first ++ s :: rest)) σ
        (.statement scope goal (first.foldl definedAfter []) s) τ

/-- **A call binds in its own scope only.** -/
theorem bindsIn_after (env : Env) (σ : WalkState) (c : Call) :
    BindsIn c.scope σ (c.after env σ) := by
  cases c with
  | block scope goal block => exact (scopeLaw.onBlock env block).walkBlock scope goal σ
  | statement scope goal defined s => exact scopeLaw.binds_walkStatement env scope goal defined s σ
  | function scope head body => exact (scopeLaw.onBlock env body).walkFunction scope head σ
  | branch scope goal block => exact ((scopeLaw.onBlock env block).walkBranch scope goal σ).bindsIn

variable {env : Env} {scope : ScopeId} {σ τ : WalkState}

/-- The scopes in a state lie inside each other, and `scope` is one of them, but not the outermost.
-/
structure Sound (scope : ScopeId) (σ : WalkState) : Prop where
  nested : σ.scopes.Nested
  isOpen : σ.scopes.Open scope
  ne_root : scope ≠ Scopes.root

theorem Sound.of_bindsIn {inner : ScopeId} (h : Sound scope σ) (hb : BindsIn inner σ τ) :
    Sound scope τ :=
  ⟨hb.nested h.nested, (hb.open_iff scope).2 h.isOpen, h.ne_root⟩

theorem Sound.of_sameScopes (h : Sound scope σ) (hs : SameScopes σ τ) : Sound scope τ :=
  have hb : BindsIn scope σ τ := hs.bindsIn
  h.of_bindsIn hb

theorem Sound.logged (h : Sound scope σ) (event : Event) : Sound scope (σ.logged event) :=
  ⟨h.nested, h.isOpen, h.ne_root⟩

theorem Sound.opened (h : Sound scope σ) : Sound σ.fresh (σ.opened scope) where
  nested := Scopes.nested_extend h.nested h.isOpen
  isOpen := Scopes.open_extend σ.scopes scope
  ne_root hr := by
    have hpos := σ.scopes.nonempty
    have hzero : σ.scopes.frames.size = 0 := congrArg ScopeId.index hr
    omega

/-- What a call makes of scopes that lie inside each other, the calls inside it find. -/
theorem Makes.sound {c d : Call} (h : Makes env c σ d τ) (hc : Sound c.scope σ) :
    Sound d.scope τ := by
  cases h with
  | definition => exact hc
  | body h =>
    have hρ := hc.of_sameScopes ((scopeLaw.reads_checkHeader env _ _).of_exec h)
    exact (hρ.logged _).opened.of_bindsIn (scopeLaw.binds_bindParameters _ _ _)
  | consequent h => exact hc.logged _
  | alternative h hb =>
    exact (hc.logged _).of_sameScopes (((scopeLaw.onBlock env _).walkBranch _ _).of_exec hb)
  | inside => exact hc.opened
  | next h =>
    exact hc.of_bindsIn ((keeps_bind (scopeLaw.binds_declareAll _ _) fun _ =>
      scopeLaw.onBlock env _ _ _ _ _).of_exec h)

end Call

/-! ## Modules -/

namespace Checker

/-- The calls during the check of a module, each with the state in which it is made. -/
inductive Calls (c : Checker) (module : List Statement) : Call → WalkState → Prop
  | top {first rest : List Statement} {s : Statement} (h : module = first ++ s :: rest) :
      Calls c module (.statement moduleScope none (first.foldl definedAfter []) s)
        ((c.declareModule module).checkStatements [] first).state
  | inner {call callee : Call} {σ τ : WalkState} (h : Calls c module call σ)
      (hm : call.Makes c.env σ callee τ) : Calls c module callee τ

/-- The checkers that come from a new one by checking modules, with any types in comments. -/
inductive Reachable : Checker → Prop
  | new (builtins : Builtins) (verbosity : Option Nat := some 0) :
      Reachable (.new builtins verbosity)
  | withHints {c : Checker} (h : Reachable c) (hints : Hints) : Reachable (c.withHints hints)
  | checkModule {c : Checker} (h : Reachable c) (module : List Statement) :
      Reachable (c.checkModule module)

theorem onlyBinds_globals (globals : List (String × Ty)) (s : Scopes) :
    s.OnlyBinds Scopes.root (globals.foldl (fun s g => s.add Scopes.root g.1 g.2) s) := by
  induction globals generalizing s with
  | nil => exact .refl _ _
  | cons g globals ih => exact (Scopes.onlyBinds_add s Scopes.root g.1 g.2).trans (ih _)

theorem sound_new (builtins : Builtins) (verbosity : Option Nat) :
    Call.Sound moduleScope (new builtins verbosity).state := by
  have hbound := onlyBinds_globals builtins.globals.toList Scopes.empty
  have hroot : Scopes.empty.Open Scopes.root := Scopes.empty.nonempty
  have hnested := hbound.nested Scopes.nested_empty
  refine ⟨Scopes.nested_extend hnested ((hbound.open_iff _).2 hroot), ?_, by decide⟩
  have hsize : (new builtins verbosity).state.scopes.frames.size = 2 := by
    change (Array.push _ _).size = 2
    rw [Array.size_push, hbound.size_eq]
    rfl
  rw [Scopes.Open, hsize]
  decide

theorem Reachable.sound {c : Checker} (hc : c.Reachable) : Call.Sound moduleScope c.state := by
  induction hc with
  | new builtins verbosity => exact sound_new builtins verbosity
  | withHints _ _ ih => exact ih
  | checkModule _ module ih => exact ih.of_bindsIn (onlyBinds_checkModule _ module)

theorem Calls.sound {c : Checker} (hc : Call.Sound moduleScope c.state) {module : List Statement}
    {call : Call} {σ : WalkState} (h : c.Calls module call σ) : Call.Sound call.scope σ := by
  induction h with
  | top h =>
    exact (hc.of_bindsIn (onlyBinds_declareModule c module)).of_bindsIn
      (onlyBinds_checkStatements _ [] _)
  | inner _ hm ih => exact hm.sound ih

/-- **Discipline of scopes**: each call during the check of a module, failed or not, binds in its
own scope only, and leaves the scopes nested. -/
theorem Reachable.scope_discipline {c : Checker} (hc : c.Reachable) (module : List Statement) :
    (c.state.scopes.OnlyBinds moduleScope (c.checkModule module).state.scopes ∧
      (c.checkModule module).state.scopes.Nested) ∧
    (∀ call σ, c.Calls module call σ →
      σ.scopes.OnlyBinds call.scope (call.after c.env σ).scopes ∧
      (call.after c.env σ).scopes.frames[0]? = σ.scopes.frames[0]? ∧
      σ.scopes.Nested ∧ (call.after c.env σ).scopes.Nested) ∧
    (c.checkModule module).diagnostics = (c.moduleFaults module).foldl .push c.diagnostics := by
  refine ⟨⟨onlyBinds_checkModule c module, (hc.checkModule module).sound.nested⟩, ?_,
    diagnostics_checkModule c module⟩
  intro call σ h
  have hbinds := call.bindsIn_after c.env σ
  have hsound := h.sound hc.sound
  refine ⟨hbinds, hbinds.frame_eq 0 ?_, hsound.nested, (hsound.of_bindsIn hbinds).nested⟩
  intro hzero
  exact hsound.ne_root (congrArg ScopeId.mk hzero.symm)

/-- Inside the branch of `rebindingBranch` the name is bound, in the scope of the branch only. -/
theorem rebindingBranch_discipline :
    (new .standard).Reachable ∧
    ∃ call σ, (new .standard).Calls [rebindingBranch] call σ ∧ call.scope = ⟨2⟩ ∧
      (call.after (new .standard).env σ).scopes.lookupLocal ⟨2⟩ "f" = some .int ∧
      σ.scopes.OnlyBinds ⟨2⟩ (call.after (new .standard).env σ).scopes := by
  have hnew := Reachable.new .standard
  have honly : [rebindingBranch] = [] ++ rebindingBranch :: [] := rfl
  have hcall : (new .standard).Calls [rebindingBranch] _ _ :=
    .inner (.inner (.top honly) (.consequent rfl)) .inside
  refine ⟨hnew, _, _, hcall, ?_, ?_, ?_⟩
  · decide +kernel
  · decide +kernel
  · exact ((hnew.scope_discipline [rebindingBranch]).2.1 _ _ hcall).1

end Checker

end Gradual
