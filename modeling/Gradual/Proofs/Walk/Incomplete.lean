import Gradual.Proofs.Walk.Returns

/-!
# Bodies that are checked in part

Where a statement of a body is passed over, the returns that are seen need not be all. The declared
result is then trusted, unless the statements that are checked always return: in that case the
function is bound to the returns that are seen.

* `Outcome.Grounded`, `grounded_checkAll`: what always returns has seen a return;
* `Outcome.apparent_eq_declared_iff`: when the declared result is trusted;
* **`incomplete_function_result`**: the result of a function whose body is checked in part;
* `skippedLoop_narrowed`: returns in a loop that is passed over are lost.
-/

namespace Gradual

open Effect

variable {env : Env} {goal : Option Goal} {p : Place} {o : Outcome}

/-! ## Outcomes that always return -/

namespace Outcome

variable {a b : Outcome}

/-- An outcome that always returns has seen a return. -/
def Grounded (o : Outcome) : Prop := o.alwaysReturns = true → o.returns.isSome = true

theorem isSome_mergeReturns (x y : Option Ty) :
    (mergeReturns x y).isSome = (x.isSome || y.isSome) := by
  cases x <;> cases y <;> rfl

theorem grounded_proceeds : proceeds.Grounded := nofun

theorem grounded_passedOver : passedOver.Grounded := nofun

theorem grounded_returning (ty : Ty) : (returning ty).Grounded := fun _ => rfl

theorem Grounded.andThen (ha : a.Grounded) (hb : b.Grounded) : (a.andThen b).Grounded := by
  intro h
  rw [Outcome.andThen, isSome_mergeReturns, Bool.or_eq_true]
  rcases Bool.or_eq_true_iff.1 h with h | h
  · exact .inl (ha h)
  · exact .inr (hb h)

theorem Grounded.orElse (ha : a.Grounded) (b : Outcome) : (a.orElse b).Grounded := by
  intro h
  rw [Outcome.orElse, isSome_mergeReturns, Bool.or_eq_true]
  exact .inl (ha (Bool.and_eq_true_iff.1 h).1)

end Outcome

/-- **A block that always returns has seen a return**, also if something in it is passed over. -/
theorem grounded_checkAll (env : Env) (goal : Option Goal) (block : List Statement) :
    ∀ p before o, (Place.checkAll env goal p before block).1 = .ok o → before.Grounded →
      o.Grounded := by
  induction block using Statement.way_induction (P := fun s => ∀ p o,
    (Place.check env goal p s).1 = .ok o → o.Grounded) with
  | goesOn s hs p o h =>
    rw [check_goesOn hs h]
    exact Outcome.grounded_proceeds
  | returns span value p o h =>
    obtain ⟨ty, -, rfl⟩ := check_returns h
    exact Outcome.grounded_returning ty
  | conditional head body otherwise hbody _ p o h =>
    obtain ⟨a, b, ha, -, -, rfl⟩ := check_conditional h
    exact (hbody _ _ _ ha Outcome.grounded_proceeds).orElse b
  | nil =>
    intro p before o h hbefore
    rw [Place.checkAll, walkStatements_nil] at h
    cases h
    exact hbefore
  | cons s rest hs hrest =>
    intro p before o h hbefore
    obtain ⟨a, ha, h⟩ := checkAll_cons h
    refine hrest _ _ _ h (hbefore.andThen ?_)
    rcases ha with ha | ⟨-, rfl⟩
    · exact hs p a ha
    · exact Outcome.grounded_passedOver

/-! ## What is trusted -/

/-- The result of a body that always returns is what is seen to be returned. -/
theorem Outcome.Grounded.apparent (h : o.Grounded) (hr : o.alwaysReturns = true) (declared : Ty) :
    o.returns = some (o.apparent declared) := by
  obtain ⟨ty, hty⟩ := Option.isSome_iff_exists.1 (h hr)
  rw [Outcome.apparent, hr, hty]
  simp

/-- **When the declared result is trusted**, of what is passed over in part: if the rest does not
always return, or returns just this. -/
theorem Outcome.apparent_eq_declared_iff (h : o.Grounded) (he : o.escaped = true) (declared : Ty) :
    o.apparent declared = declared ↔ o.alwaysReturns = false ∨ o.returns = some declared := by
  cases hr : o.alwaysReturns with
  | false =>
    rw [Outcome.apparent, he, hr]
    simp
  | true =>
    rw [h.apparent hr declared]
    simp

theorem declaredSignature_ret {head : FunctionHead} {declared : Signature}
    (h : declaredSignature head = .ok declared) :
    declaredOrUnknown head.returns = .ok declared.ret := by
  rw [declaredSignature] at h
  cases hp : declaredParameters head.parameters with
  | error e =>
    rw [hp] at h
    cases h
  | ok typed =>
    cases hr : declaredOrUnknown head.returns with
    | error e =>
      rw [hp, hr] at h
      cases h
    | ok ret =>
      rw [hp, hr] at h
      cases h
      rfl

/-- **The result of a function whose body is checked in part** is the declared one just if the body
is not seen to return always, or is seen to return the declared type. -/
theorem incomplete_function_result {scope : ScopeId} {defined : List String} {head : FunctionHead}
    {body : List Statement} {σ τ : WalkState}
    (h : exec (walkStatement env scope goal defined (.function head body)) σ = (.ok o, τ)) :
    ∃ declared outcome, declaredSignature head = .ok declared ∧
      declaredOrUnknown head.returns = .ok declared.ret ∧
      ((Place.body env scope head declared body σ).checkAll env (Place.goalOf head declared)
        .proceeds body).1 = .ok outcome ∧
      ∃ result, τ.scopes = σ.scopes.add scope head.name.name (.func (declared.withReturn result)) ∧
        result.fits declared.ret ∧
        (¬ Clean env (Place.goalOf head declared) (Place.body env scope head declared body σ) body →
          outcome.escaped = true ∧
          (result = declared.ret ↔
            outcome.alwaysReturns = false ∨ outcome.returns = some declared.ret) ∧
          (outcome.alwaysReturns = true → outcome.returns = some result)) := by
  obtain ⟨h, -⟩ := (walkStatement_function_eq_ok ..).1 h
  obtain ⟨declared, outcome, hdeclared, hout, hfits, hτ⟩ := walkFunction_ok h
  refine ⟨declared, outcome, hdeclared, declaredSignature_ret hdeclared, hout, _, hτ, hfits, ?_⟩
  intro hover
  have hescaped : outcome.escaped = true := (escaped_iff env _ body _ _ _ hout).2 (.inr hover)
  have hgrounded := grounded_checkAll env _ body _ _ _ hout Outcome.grounded_proceeds
  exact ⟨hescaped, Outcome.apparent_eq_declared_iff hgrounded hescaped declared.ret,
    fun hr => hgrounded.apparent hr declared.ret⟩

/-! ## Two bodies -/

/-- A body that is an `elif` chain, which is passed over as a whole. -/
def elifChain : List Statement :=
  let test (kind : ConditionKind) : Condition := ⟨.none, kind, .name .none ⟨"x", .none⟩⟩
  let give value : Statement := .returns .none (some (.literal .none value))
  [.conditional (test .opening) [give (.integer 1)]
    (some [.conditional (test .elif) [give (.string "one")] (some [give (.integer 2)])])]

/-- The declared result of a function with this body is trusted. -/
theorem elifChain_trusted :
    let head : FunctionHead := ⟨⟨"f", .none⟩, .none, [], some (.name .none ⟨"int", .none⟩)⟩
    let start : WalkState := ⟨.empty, .start (some 0)⟩
    let walk := exec (walkStatement ⟨.standard, ∅⟩ Scopes.root none [] (.function head elifChain))
      start
    walk.1 = .ok .proceeds ∧
    walk.2.scopes = start.scopes.add Scopes.root "f" (.func ⟨[], [], .int, []⟩) := by
  intro head start walk
  have h : walk.1 = .ok .proceeds := by decide +kernel
  refine ⟨h, ?_⟩
  obtain ⟨declared, outcome, hdeclared, -, hout, result, hscopes, -, hresult⟩ :=
    incomplete_function_result (Prod.ext h rfl)
  obtain rfl : declared = ⟨[], [], .int, []⟩ :=
    Except.ok.inj (hdeclared.symm.trans (by decide +kernel))
  obtain rfl : outcome = ⟨none, false, true⟩ :=
    Except.ok.inj (hout.symm.trans (by decide +kernel))
  have hover := (escaped_iff _ _ _ _ _ _ hout).1 rfl
  obtain ⟨-, hiff, -⟩ := hresult (hover.resolve_left Bool.false_ne_true)
  rw [hscopes, hiff.2 (.inl rfl)]
  rfl

/-- A body with a loop, which is passed over with all that it returns, and a `return` after it. -/
def skippedLoop : List Statement :=
  [.unsupported .none (.statement "for"), .returns .none (some (.literal .none (.integer 1)))]

/-- **Returns in a loop that is passed over are lost.** No result is declared for a function with
this body, and still it is bound to the type of the `return` after the loop. -/
theorem skippedLoop_narrowed :
    let head : FunctionHead := ⟨⟨"f", .none⟩, .none, [], none⟩
    let start : WalkState := ⟨.empty, .start (some 0)⟩
    let walk := exec (walkStatement ⟨.standard, ∅⟩ Scopes.root none [] (.function head skippedLoop))
      start
    let declared : Signature := ⟨[], [], .unknown, []⟩
    walk.1 = .ok .proceeds ∧ declaredSignature head = .ok declared ∧
    ¬ Clean ⟨.standard, ∅⟩ (Place.goalOf head declared)
      (Place.body ⟨.standard, ∅⟩ Scopes.root head declared skippedLoop start) skippedLoop ∧
    walk.2.scopes.lookupLocal Scopes.root "f" = some (.func (declared.withReturn .int)) := by
  intro head start walk declared
  refine ⟨by decide +kernel, by decide +kernel, ?_, by decide +kernel⟩
  have hout : ((Place.body ⟨.standard, ∅⟩ Scopes.root head declared skippedLoop start).checkAll
      ⟨.standard, ∅⟩ (Place.goalOf head declared) .proceeds skippedLoop).1 =
        .ok ⟨some .int, true, true⟩ := by
    decide +kernel
  exact ((escaped_iff _ _ _ _ _ _ hout).1 rfl).resolve_left Bool.false_ne_true

end Gradual
