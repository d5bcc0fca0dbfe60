import Gradual.Proofs.Module.Declared
import Gradual.Proofs.Module.During
import Gradual.Proofs.Module.Isolation
import Gradual.Proofs.Walk.Binders
import Gradual.Proofs.Walk.Returns

/-!
# Forward references

The first walk of a block binds its functions, so that the second walk finds them before it comes to
their definitions. Until a definition is accepted the function has its declared signature, and then
the result that its body appears to have.

* `Checker.Walks`: the blocks that are walked for the second time during the check of a module;
* `Place.SecondWalk`: the states during such a walk;
* `SecondWalk.lookupLocal_eq`: the scope of the block changes between its statements only;
* `bound_afterAll_definition`: what a name that is defined once is bound to;
* **`Checker.Reachable.forward_references`**: functions are found throughout the second walk.
-/

namespace Gradual

open Effect

variable {env : Env} {goal : Option Goal} {p : Place} {s : Statement} {n : String}
  {A C first block : List Statement}

/-! ## A name that is declared once -/

theorem Statement.declaredAs_eq_none (h : n ∉ s.binders) : s.declaredAs n = none := by
  cases s with
  | function head body =>
    have hne : head.name.name ≠ n := fun hn => h (List.mem_singleton.2 hn.symm)
    rw [declaredAs, if_neg hne]
  | _ => rfl

theorem lastDeclared_eq_none (h : ∀ s ∈ C, n ∉ s.binders) : lastDeclared C n = none := by
  refine Option.not_isSome_iff_eq_none.1 fun hsome => ?_
  obtain ⟨s, hs, hd⟩ := lastDeclared_isSome.1 hsome
  rw [Statement.declaredAs_eq_none (h s hs)] at hd
  cases hd

/-! ## From statement to statement -/

namespace Place

/-- What a name is bound to in the scope of a place itself. -/
def bound (p : Place) (n : String) : Option Ty := p.state.scopes.lookupLocal p.scope n

/-- The check of a statement at a place succeeds. -/
def Accepts (env : Env) (goal : Option Goal) (p : Place) (s : Statement) : Prop :=
  ∃ o, (p.check env goal s).1 = .ok o

/-- The body of a function that is defined at a place is walked, and appears to return `result`. -/
def Appears (env : Env) (p : Place) (head : FunctionHead) (declared : Signature)
    (block : List Statement) (result : Ty) : Prop :=
  ∃ outcome, ((Place.body env p.scope head declared block p.state).checkAll env
    (goalOf head declared) .proceeds block).1 = .ok outcome ∧
    result = outcome.apparent declared.ret

theorem afterAll_append (env : Env) (goal : Option Goal) (p : Place) (A B : List Statement) :
    p.afterAll env goal (A ++ B) = (p.afterAll env goal A).afterAll env goal B :=
  List.foldl_append

theorem afterAll_cons (env : Env) (goal : Option Goal) (p : Place) (s : Statement)
    (rest : List Statement) :
    p.afterAll env goal (s :: rest) = (p.after env goal s).afterAll env goal rest := rfl

@[simp]
theorem afterAll_scope (env : Env) (goal : Option Goal) (p : Place) (first : List Statement) :
    (p.afterAll env goal first).scope = p.scope := by
  induction first generalizing p with
  | nil => rfl
  | cons s rest ih => exact ih (p.after env goal s)

theorem bindsIn_afterAll (env : Env) (goal : Option Goal) (p : Place) (first : List Statement) :
    BindsIn p.scope p.state (p.afterAll env goal first).state := by
  induction first generalizing p with
  | nil => exact .refl _ _
  | cons s rest ih =>
    have hs := scopeLaw.binds_walkStatement env p.scope goal p.defined s
    exact (keeps_tolerate hs p.state).trans (ih (p.after env goal s))

theorem bound_after (env : Env) (goal : Option Goal) (p : Place) (h : n ∉ s.binders) :
    (p.after env goal s).bound n = p.bound n := by
  rw [bound, scopes_after]
  exact (mayBind_walkStatement env p.scope goal p.defined s p.state).lookupLocal_eq h

/-- Statements that are not to bind a name leave it as it is. -/
theorem bound_afterAll (env : Env) (goal : Option Goal) (p : Place)
    (h : ∀ s ∈ first, n ∉ s.binders) : (p.afterAll env goal first).bound n = p.bound n := by
  induction first generalizing p with
  | nil => rfl
  | cons s rest ih =>
    rw [afterAll_cons, ih _ fun t ht => h t (List.mem_cons_of_mem s ht),
      bound_after env goal p (h s List.mem_cons_self)]

/-- What a definition makes of what its name is bound to. -/
theorem bound_definition (env : Env) (goal : Option Goal) {p : Place} {head : FunctionHead}
    {declared : Signature} (hd : declaredSignature head = .ok declared) (body : List Statement)
    (hp : p.state.scopes.Open p.scope) :
    ∃ result, result.fits declared.ret = true ∧
      (p.Accepts env goal (.function head body) → p.Appears env head declared body result ∧
        (p.after env goal (.function head body)).bound head.name.name =
          some (.func (declared.withReturn result))) ∧
      (¬ p.Accepts env goal (.function head body) →
        (p.after env goal (.function head body)).bound head.name.name =
          p.bound head.name.name) := by
  rw [bound, scopes_after]
  rcases h : p.check env goal (.function head body) with ⟨e | o, τ⟩
  · refine ⟨declared.ret, Ty.fits_self _, ?_, fun _ => ?_⟩
    · rintro ⟨o, ho⟩
      rw [h] at ho
      cases ho
    · rw [check, walkStatement_function_eq_error] at h
      have hτ : SameScopes p.state τ := fails_walkFunction env p.scope head body p.state e τ h
      rw [hτ]
      rfl
  · have haccepts : p.Accepts env goal (.function head body) := ⟨o, by rw [h]⟩
    rw [check, walkStatement_function_eq_ok] at h
    obtain ⟨declared', outcome, hd', hout, hfits, hscopes⟩ := walkFunction_ok h.1
    obtain rfl : declared = declared' := Except.ok.inj (hd.symm.trans hd')
    refine ⟨outcome.apparent declared.ret, hfits, fun _ => ⟨⟨outcome, hout, rfl⟩, ?_⟩,
      fun hnot => absurd haccepts hnot⟩
    rw [hscopes]
    change Scopes.lookupLocal _ p.scope _ = _
    rw [Scopes.lookupLocal_add, if_pos rfl, Array.getElem?_eq_getElem hp, Option.map_some]

end Place

/-- A part of a block from its start ends before a statement of the block, or goes beyond it. -/
theorem prefix_split {d : Statement} (h : first <+: A ++ d :: C) :
    first <+: A ∨ ∃ rest, first = A ++ d :: rest ∧ rest <+: C := by
  rcases List.prefix_or_prefix_of_prefix h (List.prefix_append A (d :: C)) with hA | ⟨rest, rfl⟩
  · exact .inl hA
  · rw [List.prefix_append_right_inj, List.prefix_cons_iff] at h
    rcases h with rfl | ⟨rest, rfl, hrest⟩
    · rw [List.append_nil]
      exact .inl List.prefix_rfl
    · exact .inr ⟨rest, rfl, hrest⟩

/-- **What a name that is defined once is bound to** after some statements of its block. -/
theorem bound_afterAll_definition (env : Env) (goal : Option Goal) {head : FunctionHead}
    {declared : Signature} (hd : declaredSignature head = .ok declared) (body : List Statement)
    (hp : p.state.scopes.Open p.scope) (honce : ∀ s ∈ A ++ C, head.name.name ∉ s.binders)
    (hstart : p.bound head.name.name = some (.func declared)) :
    let accepted := (p.afterAll env goal A).Accepts env goal (.function head body)
    ∃ result, result.fits declared.ret = true ∧
      (accepted → (p.afterAll env goal A).Appears env head declared body result) ∧
      ∀ first, first <+: A ++ .function head body :: C →
        ((A.length < first.length → ¬ accepted) →
          (p.afterAll env goal first).bound head.name.name = some (.func declared)) ∧
        (A.length < first.length → accepted →
          (p.afterAll env goal first).bound head.name.name =
            some (.func (declared.withReturn result))) := by
  intro accepted
  have hbefore : ∀ first, first <+: A →
      (p.afterAll env goal first).bound head.name.name = some (.func declared) := by
    intro first hfirst
    rw [Place.bound_afterAll env goal p fun s hs =>
      honce s (List.mem_append_left C (hfirst.subset hs)), hstart]
  have hopen : (p.afterAll env goal A).state.scopes.Open (p.afterAll env goal A).scope := by
    rw [Place.afterAll_scope]
    exact ((p.bindsIn_afterAll env goal A).open_iff p.scope).2 hp
  obtain ⟨result, hfits, hyes, hno⟩ := Place.bound_definition env goal hd body hopen
  refine ⟨result, hfits, fun haccepted => (hyes haccepted).1, fun first hfirst => ?_⟩
  rcases prefix_split hfirst with hA | ⟨rest, rfl, hrest⟩
  · exact ⟨fun _ => hbefore first hA, fun hlt => absurd hA.length_le (Nat.not_le_of_lt hlt)⟩
  · have hlt : A.length < (A ++ .function head body :: rest).length := by simp
    -- Nothing after the definition is to bind the name, so it is as the definition leaves it.
    rw [Place.afterAll_append, Place.afterAll_cons, Place.bound_afterAll env goal _ fun s hs =>
      honce s (List.mem_append_right A (hrest.subset hs))]
    refine ⟨fun hnot => ?_, fun _ haccepted => (hyes haccepted).2⟩
    rw [hno (hnot hlt)]
    exact hbefore A List.prefix_rfl

/-! ## The second walk -/

namespace Place

/-- The states during the second walk of a block, each with the statements of the block that are
walked before it: those between two statements, and those during the check of a statement. -/
inductive SecondWalk (env : Env) (goal : Option Goal) (p : Place) (block : List Statement) :
    List Statement → WalkState → Prop
  | between {first : List Statement} (h : first <+: block) :
      SecondWalk env goal p block first (p.afterAll env goal first).state
  | during {first : List Statement} {s : Statement} {τ : WalkState} (h : first ++ [s] <+: block)
      (hτ : Call.During env (.statement p.scope goal (p.afterAll env goal first).defined s)
        (p.afterAll env goal first).state τ) :
      SecondWalk env goal p block first τ

variable {τ : WalkState}

theorem SecondWalk.isPrefix (h : SecondWalk env goal p block first τ) : first <+: block := by
  cases h with
  | between h => exact h
  | during h _ => exact (List.prefix_append first _).trans h

theorem sound_afterAll (env : Env) (goal : Option Goal) (hp : Call.Sound p.scope p.state)
    (first : List Statement) : Call.Sound p.scope (p.afterAll env goal first).state :=
  hp.of_bindsIn (p.bindsIn_afterAll env goal first)

theorem SecondWalk.nested (hp : Call.Sound p.scope p.state)
    (h : SecondWalk env goal p block first τ) : τ.scopes.Nested := by
  have hfirst := sound_afterAll env goal hp first
  cases h with
  | between _ => exact hfirst.nested
  | during _ hτ => exact hτ.nested hfirst

/-- **The scope of a block changes between its statements only**, whatever is walked inside them. -/
theorem SecondWalk.lookupLocal_eq (hp : Call.Sound p.scope p.state)
    (h : SecondWalk env goal p block first τ) (n : String) :
    τ.scopes.lookupLocal p.scope n = (p.afterAll env goal first).bound n := by
  rw [bound, afterAll_scope]
  cases h with
  | between _ => rfl
  | during _ hτ =>
    exact (hτ.sameFrame (sound_afterAll env goal hp first).isOpen trivial).lookupLocal_eq n

end Place

namespace Checker

variable {c : Checker} {module : List Statement}

/-- The blocks that are walked for the second time during the check of a module: the module itself,
and the bodies and branches in it whose first walk succeeds. Each comes with the place where the
second walk starts. -/
inductive Walks (c : Checker) (module : List Statement) :
    Option Goal → Place → List Statement → Prop
  | module : Walks c module none (c.placeAfter module []) module
  | block {scope : ScopeId} {goal : Option Goal} {block : List Statement} {σ : WalkState}
      (h : c.Calls module (.block scope goal block) σ)
      (hd : (exec (declareAll scope block) σ).1 = .ok ()) :
      Walks c module goal (.start scope block σ) block

theorem Walks.sound (hc : c.Reachable) (h : c.Walks module goal p block) :
    Call.Sound p.scope p.state := by
  cases h with
  | module => exact hc.sound.of_bindsIn (onlyBinds_declareModule c block)
  | block h _ => exact (h.sound hc.sound).of_bindsIn (scopeLaw.binds_declareAll _ _ _)

theorem state_checkStatements (c : Checker) (defined : List String) (first : List Statement) :
    (c.checkStatements defined first).state =
      (Place.afterAll c.env none ⟨moduleScope, defined, c.state⟩ first).state := by
  induction first generalizing c defined with
  | nil => rfl
  | cons s rest ih =>
    have hstep : (c.checkStatement defined s).state =
        (Place.after c.env none ⟨moduleScope, defined, c.state⟩ s).state := by
      rw [checkStatement, settle_state]
      rfl
    have henv : (c.checkStatement defined s).env = c.env := settle_env c _
    rw [checkStatements, ih, hstep, henv]
    rfl

/-- **The statements of a module are checked during its second walk.** -/
theorem secondWalk_upTo (h : first <+: module) :
    (c.placeAfter module []).SecondWalk c.env none module first (c.upTo module first).state := by
  rw [upTo, state_checkStatements, declareModule_env]
  exact .between h

/-- What a name is bound to when the second walk starts. -/
theorem Walks.bound_eq (hc : c.Reachable) (h : c.Walks module goal p block) :
    ∃ before, p.bound n = ((lastDeclared block n).map Ty.func).or before := by
  cases h with
  | module =>
    refine ⟨c.state.scopes.lookupLocal moduleScope n, ?_⟩
    change (c.declareModule block).state.scopes.lookupLocal moduleScope n = _
    rw [scopes_declareModule]
    exact Scopes.lookupLocal_declared hc.sound.isOpen block n
  | @block scope _ _ σ h hd =>
    refine ⟨σ.scopes.lookupLocal scope n, ?_⟩
    change (exec (declareAll scope block) σ).2.scopes.lookupLocal scope n = _
    rw [scopes_declareAll (Prod.ext hd rfl)]
    exact Scopes.lookupLocal_declared (h.sound hc.sound).isOpen block n

/-- **Forward references resolve**: throughout the second walk of a block, at any depth, the
functions that its statements define are found. -/
theorem Reachable.forward_references (hc : c.Reachable) (hw : c.Walks module goal p block)
    {head : FunctionHead} {body : List Statement} {declared : Signature}
    (hblock : block = A ++ .function head body :: C)
    (hd : declaredSignature head = .ok declared) :
    (∀ first τ, p.SecondWalk c.env goal block first τ → ∀ inner, τ.scopes.Within p.scope inner →
      (τ.scopes.lookup inner head.name.name).isSome) ∧
    ((∀ s ∈ A ++ C, head.name.name ∉ s.binders) →
      let accepted := (p.afterAll c.env goal A).Accepts c.env goal (.function head body)
      ∃ result, result.fits declared.ret = true ∧
        (accepted → (p.afterAll c.env goal A).Appears c.env head declared body result) ∧
        ∀ first τ, p.SecondWalk c.env goal block first τ →
          ((A.length < first.length → ¬ accepted) →
            τ.scopes.lookupLocal p.scope head.name.name = some (.func declared)) ∧
          (A.length < first.length → accepted →
            τ.scopes.lookupLocal p.scope head.name.name =
              some (.func (declared.withReturn result)))) := by
  have hp := hw.sound hc
  have hdeclared := Statement.declaredAs_function hd body
  constructor
  · intro first τ hτ inner hinner
    have hstart : (p.bound head.name.name).isSome := by
      obtain ⟨before, hbound⟩ := hw.bound_eq hc (n := head.name.name)
      have hlast : (lastDeclared block head.name.name).isSome :=
        lastDeclared_isSome.2 ⟨.function head body, by simp [hblock], by rw [hdeclared]; rfl⟩
      rw [hbound, Option.isSome_or, Option.isSome_map, hlast, Bool.true_or]
    refine hinner.lookup_isSome (hτ.nested hp) ?_
    rw [hτ.lookupLocal_eq hp, Place.bound, Place.afterAll_scope]
    exact (p.bindsIn_afterAll c.env goal first).keeps_name _ hstart
  · intro honce
    -- No later function of the block has this name, and the last declaration counts.
    have hstart : p.bound head.name.name = some (.func declared) := by
      obtain ⟨before, hbound⟩ := hw.bound_eq hc (n := head.name.name)
      have hC : lastDeclared C head.name.name = none :=
        lastDeclared_eq_none fun s hs => honce s (List.mem_append_right A hs)
      rw [hbound, hblock, lastDeclared_append, lastDeclared_cons, hC, hdeclared]
      rfl
    obtain ⟨result, hfits, happears, hresult⟩ :=
      bound_afterAll_definition c.env goal hd body hp.isOpen honce hstart
    refine ⟨result, hfits, happears, fun first τ hτ => ?_⟩
    rw [hτ.lookupLocal_eq hp]
    exact hresult first (hblock ▸ hτ.isPrefix)

/-- The header of a function without parameters and without a declared result. -/
def bareHead (name : String) : FunctionHead := ⟨⟨name, .none⟩, .none, [], none⟩

/-- A function that calls the one defined after it. -/
def callingSibling : Statement :=
  .function (bareHead "first")
    [.returns .none (some (.call .none (.name .none ⟨"second", .none⟩) []))]

/-- A function that returns a number. -/
def calledSibling : Statement :=
  .function (bareHead "second") [.returns .none (some (.literal .none (.integer 1)))]

/-- Inside the body of the first function the second one is found, with its declared signature. When
it is accepted its result is a number. -/
theorem siblings_forward :
    let c := new .standard
    let module := [callingSibling, calledSibling]
    let declared : Signature := ⟨[], [], .unknown, []⟩
    let inside := (c.placeAfter module []).state.inBody moduleScope (bareHead "first") declared
    (c.placeAfter module []).SecondWalk c.env none module [] inside ∧
    inside.scopes.Within moduleScope ⟨2⟩ ∧ (inside.scopes.lookup ⟨2⟩ "second").isSome ∧
    inside.scopes.lookupLocal moduleScope "second" = some (.func declared) ∧
    Ty.int.fits .unknown = true ∧
      (c.upTo module module).state.scopes.lookupLocal moduleScope "second" =
        some (.func (declared.withReturn .int)) := by
  intro c module declared inside
  have hc : c.Reachable := .new .standard
  have hheader : (exec (checkHeader c.env moduleScope (bareHead "first"))
      (c.placeAfter module []).state).1 = .ok declared := by
    decide +kernel
  have hinside : (c.placeAfter module []).SecondWalk c.env none module [] inside :=
    .during (s := callingSibling) ⟨[calledSibling], rfl⟩
      (.inner .definition (.inner (.body (Prod.ext hheader rfl)) .start))
  have hwithin : inside.scopes.Within moduleScope ⟨2⟩ := by
    have hparent : inside.scopes.frames[2]?.map Frame.parent = some (some moduleScope) := by
      decide +kernel
    obtain ⟨f, hf, hfp⟩ := Option.map_eq_some_iff.1 hparent
    exact .child hf hfp .self
  have haccepted : ((c.placeAfter module []).afterAll c.env none [callingSibling]).Accepts c.env
      none calledSibling :=
    ⟨.proceeds, by decide +kernel⟩
  have hsignature : declaredSignature (bareHead "second") = .ok declared := by decide +kernel
  have honce : ∀ s ∈ [callingSibling] ++ [], "second" ∉ s.binders := by decide +kernel
  have hwalk : c.Walks module none (c.placeAfter module []) module := .module
  obtain ⟨hfound, hbound⟩ := hc.forward_references (A := [callingSibling]) (C := []) hwalk rfl
    hsignature
  obtain ⟨result, hfits, -, hbound⟩ := hbound honce
  have haccept := (hbound _ _ (secondWalk_upTo List.prefix_rfl)).2 (by decide) haccepted
  have hint : (c.upTo module module).state.scopes.lookupLocal moduleScope "second" =
      some (.func (declared.withReturn .int)) := by
    decide +kernel
  have hresult := hint.symm.trans haccept
  simp only [Signature.withReturn, Option.some.injEq, Ty.func.injEq, Signature.mk.injEq, true_and,
    and_true] at hresult
  subst hresult
  exact ⟨hinside, hwithin, hfound _ _ hinside _ hwithin, (hbound _ _ hinside).1 nofun, hfits,
    haccept⟩

end Checker

end Gradual
