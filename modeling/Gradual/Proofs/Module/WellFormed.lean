import Gradual.Proofs.Module.During
import Gradual.Proofs.Walk.WellFormed

/-!
# Types during the check of a module

A checker with well-formed built-in types handles only well-formed types, whatever modules it checks
and whatever types are stated in comments.

* `Call.During.wellFormed`: what a call goes through;
* `Checker.Passes`: the states that the check of a module goes through;
* **`Checker.Reachable.types_wellFormed`**: bound types and results in all these states.
-/

namespace Gradual

open Effect Source

/-! ## Calls -/

namespace Call

variable {env : Env} {σ τ : WalkState} {c d : Call}

theorem Makes.wellFormed (hb : env.builtins.WellFormed) (h : Makes env c σ d τ)
    (hσ : σ.scopes.WellFormed) : τ.scopes.WellFormed := by
  cases h with
  | definition => exact hσ
  | body h =>
    obtain ⟨hρ, hd⟩ := (sustains_checkHeader hb _ _).of_exec h hσ
    exact (sustains_bindParameters _ (hd _ rfl) _ (hρ.extend _)).1
  | consequent h => exact hσ
  | alternative h hbranch =>
    exact (((sustainsBlock hb _).walkBranch _ _).of_exec hbranch hσ).1
  | inside => exact hσ.extend _
  | @next scope goal first rest s _ _ _ h =>
    have hwalk := ensures_bind (sustains_declareAll scope (first ++ s :: rest)) fun _ _ =>
      sustainsBlock hb first scope goal [] .proceeds Outcome.wellFormed_proceeds
    exact (hwalk.of_exec h hσ).1

/-- **A call goes through well-formed scopes only.** -/
theorem During.wellFormed (hb : env.builtins.WellFormed) (h : During env c σ τ)
    (hσ : σ.scopes.WellFormed) : τ.scopes.WellFormed := by
  induction h with
  | start => exact hσ
  | declaring => exact (sustains_declareAll _ _ _ hσ).1
  | walked => exact ((sustainsBlock hb _).walkBlock _ _ _ hσ).1
  | entering h hp =>
    obtain ⟨hρ, hd⟩ := (sustains_checkHeader hb _ _).of_exec h hσ
    have hfirst := (hd _ rfl).parameters
    rw [hp] at hfirst
    exact (sustains_bindNames _ (fun p hmem => hfirst p (List.mem_append_left _ hmem)) _
      (hρ.extend _)).1
  | @leaving scope head body declared σ ρ h =>
    obtain ⟨hρ, hd⟩ := (sustains_checkHeader hb _ _).of_exec h hσ
    exact ((sustainsBlock hb body).walkBody scope head (hd declared rfl) (ρ.logged _) hρ).1
  | closed => exact ((sustainsBlock hb _).walkBranch _ _ _ hσ).1
  | inner hm _ ih => exact ih (hm.wellFormed hb hσ)

end Call

/-! ## Modules -/

namespace Checker

variable {c : Checker} {module : List Statement}

theorem wellFormed_settle {α : Type} {P : α → Prop} {walk : Walk α} (hw : Sustains P walk)
    (hc : c.state.scopes.WellFormed) : (c.settle walk).state.scopes.WellFormed := by
  rw [settle_state]
  exact (hw c.state hc).1

theorem wellFormed_declareModule (hc : c.state.scopes.WellFormed) (module : List Statement) :
    (c.declareModule module).state.scopes.WellFormed := by
  induction module generalizing c with
  | nil => exact hc
  | cons s rest ih =>
    rw [declareModule_cons]
    exact ih (wellFormed_settle (sustains_tolerate trivial (sustains_declare moduleScope s)) hc)

theorem wellFormed_checkStatements (hb : c.env.builtins.WellFormed)
    (hc : c.state.scopes.WellFormed) (defined : List String) (module : List Statement) :
    (c.checkStatements defined module).state.scopes.WellFormed := by
  induction module generalizing c defined with
  | nil => exact hc
  | cons s rest ih =>
    rw [checkStatements]
    have hs := sustains_walkStatement hb moduleScope none defined s
    apply ih
    · rwa [checkStatement, settle_env]
    · exact wellFormed_settle (sustains_tolerate Outcome.wellFormed_passedOver hs) hc

theorem wellFormed_upTo (hb : c.env.builtins.WellFormed) (hc : c.state.scopes.WellFormed)
    (first : List Statement) :
    ((c.declareModule module).checkStatements [] first).state.scopes.WellFormed := by
  apply wellFormed_checkStatements
  · rwa [declareModule_env]
  · exact wellFormed_declareModule hc module

theorem wellFormed_new {builtins : Builtins} (hb : builtins.WellFormed) (verbosity : Option Nat) :
    (new builtins verbosity).state.scopes.WellFormed := by
  have hglobals := List.foldlRecOn builtins.globals.toList
    (fun s g => s.add Scopes.root g.1 g.2) Scopes.wellFormed_empty fun s hs g hg => by
      have hbound := Std.ExtTreeMap.mem_toList_iff_getElem?_eq_some.1 hg
      exact hs.add Scopes.root g.1 (hb.globals g.1 g.2 hbound)
  exact hglobals.extend Scopes.root

/-- **The types in a reachable checker are well formed.** -/
theorem Reachable.wellFormed (hc : c.Reachable) (hb : c.env.builtins.WellFormed) :
    c.state.scopes.WellFormed := by
  induction hc with
  | new builtins verbosity => exact wellFormed_new hb verbosity
  | withHints _ hints ih => exact ih hb
  | @checkModule c _ module ih =>
    have henv : (c.checkModule module).env = c.env := by
      obtain ⟨log, h⟩ := checkModule_eq c module
      rw [h, checkStatements_env, declareModule_env]
    rw [henv] at hb
    rw [checkModule_scopes]
    exact wellFormed_upTo hb (ih hb) module

/-- The states that the check of a module goes through, up to the log: while its functions are
declared, between its statements, and during the calls for them. -/
inductive Passes (c : Checker) (module : List Statement) : WalkState → Prop
  | declaring {first rest : List Statement} (h : module = first ++ rest) :
      Passes c module (c.declareModule first).state
  | checking {first rest : List Statement} (h : module = first ++ rest) :
      Passes c module ((c.declareModule module).checkStatements [] first).state
  | during {call : Call} {σ τ : WalkState} (h : c.Calls module call σ)
      (hd : call.During c.env σ τ) : Passes c module τ

theorem Calls.wellFormed (hb : c.env.builtins.WellFormed) (hc : c.state.scopes.WellFormed)
    {call : Call} {σ : WalkState} (h : c.Calls module call σ) : σ.scopes.WellFormed := by
  induction h with
  | top => exact wellFormed_upTo hb hc _
  | inner _ hm ih => exact hm.wellFormed hb ih

theorem Passes.wellFormed (hb : c.env.builtins.WellFormed) (hc : c.state.scopes.WellFormed)
    {σ : WalkState} (h : c.Passes module σ) : σ.scopes.WellFormed := by
  cases h with
  | declaring => exact wellFormed_declareModule hc _
  | checking => exact wellFormed_upTo hb hc _
  | during h hd => exact hd.wellFormed hb (h.wellFormed hb hc)

/-- **Only well-formed types** are bound, inferred, returned and declared, in each state that a
reachable checker goes through. -/
theorem Reachable.types_wellFormed (hc : c.Reachable) (hb : c.env.builtins.WellFormed)
    {σ : WalkState} (hσ : c.Passes module σ) :
    (∀ scope name ty, σ.scopes.lookupLocal scope name = some ty → ty.WellFormed) ∧
    (∀ scope e log ty,
      (exec (infer c.env.builtins (σ.scopes.lookup scope) e) log).1 = .ok ty → ty.WellFormed) ∧
    (∀ scope goal span value ty,
      (exec (checkReturn c.env scope goal span value) σ).1 = .ok ty → ty.WellFormed) ∧
    (∀ e ty, declaredType e = .ok ty → ty.WellFormed) ∧
    ∀ head signature, declaredSignature head = .ok signature → signature.WellFormed := by
  have hscopes := hσ.wellFormed hb (hc.wellFormed hb)
  refine ⟨hscopes, ?_, ?_, gives_declaredType, gives_declaredSignature⟩
  · intro scope e log
    exact (ensures_infer hb (hscopes.lookup scope) e log trivial).2
  · intro scope goal span value
    exact (sustains_checkReturn hb scope goal span value σ hscopes).2

/-- A function that returns a number, its parameter, which may be absent, or nothing. -/
def mixedResults : Statement :=
  let test : Condition := ⟨.none, .opening, .name .none ⟨"c", .none⟩⟩
  let optional : Expr := .index .none (.name .none ⟨"Maybe", .none⟩) (.name .none ⟨"str", .none⟩)
  let give value : Statement := .returns .none (some value)
  .function ⟨⟨"f", .none⟩, .none, [⟨"a", .none, .positional, some optional, none⟩], none⟩
    [.conditional test [give (.literal .none (.integer 1))]
      (some [.conditional test [give (.name .none ⟨"a", .none⟩)] none])]

/-- The function is bound to a well-formed type, in which the union has three members. -/
theorem mixedResults_wellFormed :
    let ty : Ty := .func ⟨[.maybe .str], ["a"], .union [.none, .int, .maybe .str], []⟩
    Builtins.standard.WellFormed ∧
    ∃ σ, (new .standard).Passes [mixedResults] σ ∧
      σ.scopes.lookupLocal moduleScope "f" = some ty ∧ ty.WellFormed := by
  intro ty
  have hall : [mixedResults] = [mixedResults] ++ [] := rfl
  have hbound : (((new .standard).declareModule [mixedResults]).checkStatements []
      [mixedResults]).state.scopes.lookupLocal moduleScope "f" = some ty := by
    decide +kernel
  have htypes := (Reachable.new .standard).types_wellFormed Builtins.wellFormed_standard
    (.checking hall)
  exact ⟨Builtins.wellFormed_standard, _, .checking hall, hbound, htypes.1 _ _ _ hbound⟩

end Checker

end Gradual
