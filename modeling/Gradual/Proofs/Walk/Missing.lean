import Gradual.Proofs.Walk.Returned

/-!
# Missing returns

That a function appears to return something else than it declares is said only where its body may
come to its end without a return. What its `return` statements return is compared with the declared
result one by one, and so is their union.

* `checkReturn_fits`, `returnedByAll_fit`: what a body returns fits the declared result;
* `Outcome.Collects.apparent_fits_iff`: when the result that a function appears to have fits;
* **`missing_return_exact`**: when the violation is found.
-/

namespace Gradual

open Effect

variable {env : Env} {goal : Option Goal} {p : Place} {o : Outcome}

/-! ## Returns one by one -/

theorem checkReturn_fits {scope : ScopeId} {g : Goal} {span : Source.Span} {value : Option Expr}
    {σ : WalkState} {ty : Ty}
    (h : (exec (checkReturn env scope (some g) span value) σ).1 = .ok ty) :
    ty.fits g.expected := by
  rw [checkReturn_some, result_bind_eq_ok] at h
  obtain ⟨found, -, h⟩ := h
  rw [exec_bind_of_ok (exec_record _ _), result_bind_eq_ok, exec_require] at h
  obtain ⟨_, hfits, hend⟩ := h
  cases hend
  split at hfits
  next hf => exact hf
  next => cases hfits

/-- **What a block returns fits the result that is expected.** -/
theorem returnedByAll_fit (env : Env) (g : Goal) (block : List Statement) :
    ∀ p, ∀ ty ∈ returnedByAll env (some g) p block, ty.fits g.expected := by
  induction block using Statement.way_induction (P := fun s =>
    ∀ p, ∀ ty ∈ returnedBy env (some g) p s, ty.fits g.expected) with
  | goesOn s hs p ty hty =>
    rw [returnedBy_goesOn hs] at hty
    cases hty
  | returns span value p ty hty =>
    rw [returnedBy_returns, Option.mem_toList] at hty
    cases hr : (exec (checkReturn env p.scope (some g) span value) p.state).1 with
    | error e =>
      rw [hr] at hty
      cases hty
    | ok found =>
      rw [hr] at hty
      cases hty
      exact checkReturn_fits hr
  | conditional head body otherwise hbody hblock p ty hty =>
    cases helif : hasElif otherwise with
    | true =>
      rw [returnedBy_passesOver (passesOver_conditional_iff.2 helif)] at hty
      cases hty
    | false =>
      rw [returnedBy_conditional head body helif] at hty
      rcases List.mem_append.1 hty with hty | hty
      · exact hbody _ ty hty
      · cases otherwise with
        | none => cases hty
        | some block => exact hblock block rfl _ ty hty
  | nil =>
    intro p ty hty
    cases hty
  | cons s rest hs hrest =>
    intro p ty hty
    rcases List.mem_append.1 hty with hty | hty
    · exact hs p ty hty
    · exact hrest _ ty hty

/-! ## Returns together -/

namespace Outcome

variable {as : List Ty} {declared : Ty}

/-- Where each type that is collected fits, their union does. -/
theorem Collects.returns_fit (h : o.Collects as) (hfit : ∀ a ∈ as, a.fits declared) {ty : Ty}
    (hty : o.returns = some ty) : ty.fits declared := by
  have hempty : ∀ a ∈ as, a ≠ .union [] := fun a ha => (h.wellFormed a ha).toFlat.ne_union_nil
  rw [h.returns, unionOf] at hty
  split at hty
  · cases hty
  next hne =>
    cases hty
    exact (Ty.join_fits_iff (Ty.flatMap_members_ne_nil hne hempty)).2 hfit

/-- **When the result that a function appears to have fits**, if all that it returns does: the
absent value matters where the body may come to its end unskipped. -/
theorem Collects.apparent_fits_iff (h : o.Collects as) (hg : o.Grounded)
    (hfit : ∀ a ∈ as, a.fits declared) :
    (o.apparent declared).fits declared ↔
      ¬ (o.alwaysReturns = false ∧ o.escaped = false ∧ ¬ Ty.none.fits declared) := by
  cases hr : o.alwaysReturns with
  | true =>
    have hfits := h.returns_fit hfit (hg.apparent hr declared)
    simp [hfits]
  | false =>
    rw [h.apparent hg, hr]
    cases he : o.escaped with
    | true => simp [Ty.fits_self]
    | false =>
      have hne : (as ++ [Ty.none]).flatMap Ty.members ≠ [] := by simp [Ty.members, Ty.none]
      have hjoin := Ty.join_fits_iff (t := declared) hne
      rw [List.forall_mem_append, List.forall_mem_singleton, and_iff_right hfit] at hjoin
      simp [hjoin]

end Outcome

/-! ## Functions -/

section Functions

variable {scope : ScopeId} {head : FunctionHead} {body : List Statement} {σ : WalkState}
  {declared : Signature}

/-- A function whose body is accepted is accepted itself, or is found not to return what it
declares. -/
theorem BodyAccepted.result (h : BodyAccepted env scope head body σ declared o)
    (goal : Option Goal) (defined : List String) :
    (exec (walkStatement env scope goal defined (.function head body)) σ).1 =
      if (o.apparent declared.ret).fits declared.ret then .ok .proceeds
      else .error ((Complaint.apparentReturn head.name.name declared.ret
        (o.apparent declared.ret)).heresy head.span) := by
  have hheader : exec (checkHeader env scope head) σ =
      (.ok declared, (exec (checkHeader env scope head) σ).2) :=
    Prod.ext h.header rfl
  have hbody : exec (walkBody env scope head declared body) _ = (.ok o, _) := Prod.ext h.body rfl
  rw [walkStatement_function, walkFunction]
  simp only [bind_assoc]
  rw [exec_bind_of_ok hheader, exec_bind_of_ok (exec_record _ _), exec_bind_of_ok hbody,
    concludeFunction]
  simp only [bind_assoc]
  rw [exec_bind_of_ok (exec_record _ _)]
  cases (o.apparent declared.ret).fits declared.ret <;> rfl

/-- **A result that does not appear is a missing return**: the body may come to its end, nothing in
it is passed over, and the absent value does not fit. -/
theorem missing_return_exact (hb : env.builtins.WellFormed) (hσ : σ.scopes.WellFormed)
    (hbody : BodyAccepted env scope head body σ declared o) (goal : Option Goal)
    (defined : List String) :
    let result := (exec (walkStatement env scope goal defined (.function head body)) σ).1
    let violation (shown : Ty) : CheckError :=
      (Complaint.apparentReturn head.name.name declared.ret shown).heresy head.span
    ((∃ shown, result = .error (violation shown)) ↔
      o.alwaysReturns = false ∧ o.escaped = false ∧ ¬ Ty.none.fits declared.ret) ∧
    (result = .error (violation (o.apparent declared.ret)) ∨ result = .ok .proceeds) ∧
    (∀ ty ∈ returnedByBody env scope head body σ declared, ty.fits declared.ret) ∧
    ∀ ty, o.returns = some ty → ty.fits declared.ret := by
  intro result violation
  have hfit : ∀ ty ∈ returnedByBody env scope head body σ declared, ty.fits declared.ret :=
    returnedByAll_fit env ⟨head.name.name, declared.ret⟩ body _
  have hcollects := hbody.collects hb hσ
  have hresult : result = _ := hbody.result goal defined
  have hiff := hcollects.apparent_fits_iff hbody.grounded hfit
  by_cases hfits : (o.apparent declared.ret).fits declared.ret
  · rw [if_pos hfits] at hresult
    refine ⟨iff_of_false ?_ (hiff.1 hfits), .inr hresult, hfit, fun _ => hcollects.returns_fit hfit⟩
    rintro ⟨shown, hshown⟩
    cases hresult.symm.trans hshown
  · rw [if_neg hfits] at hresult
    exact ⟨iff_of_true ⟨_, hresult⟩ (not_not.1 (mt hiff.2 hfits)), .inl hresult, hfit,
      fun _ => hcollects.returns_fit hfit⟩

/-- A body that returns a number in a branch, and else comes to its end. -/
def partialReturn : List Statement :=
  [.conditional ⟨.none, .opening, .name .none ⟨"c", .none⟩⟩
    [.returns .none (some (.literal .none (.integer 1)))] none]

/-- For a function with this body a missing return is found if it declares a number, although the
number that it returns fits. -/
theorem partialReturn_missing :
    let head : FunctionHead := ⟨⟨"f", .none⟩, .none, [], some (.name .none ⟨"int", .none⟩)⟩
    let start : WalkState := ⟨.empty, .start (some 0)⟩
    let declared : Signature := ⟨[], [], .int, []⟩
    let outcome : Outcome := ⟨some .int, false, false⟩
    BodyAccepted ⟨.standard, ∅⟩ Scopes.root head partialReturn start declared outcome ∧
    (exec (walkStatement ⟨.standard, ∅⟩ Scopes.root none [] (.function head partialReturn))
      start).1 =
        .error (.heresy "return type of 'f' declared as 'int' but appears to be 'None | int'"
          .none) ∧
    ∀ ty ∈ returnedByBody ⟨.standard, ∅⟩ Scopes.root head partialReturn start declared,
      ty.fits .int := by
  intro head start declared outcome
  have hbody : BodyAccepted ⟨.standard, ∅⟩ Scopes.root head partialReturn start declared outcome :=
    ⟨by decide +kernel, by decide +kernel⟩
  obtain ⟨hiff, hresult, hfit, -⟩ := missing_return_exact Builtins.wellFormed_standard
    Scopes.wellFormed_empty hbody none []
  obtain ⟨shown, hshown⟩ := hiff.2 ⟨rfl, rfl, by decide +kernel⟩
  refine ⟨hbody, ?_, hfit⟩
  rcases hresult with hresult | hresult
  · rw [hresult]
    decide +kernel
  · cases hshown.symm.trans hresult

end Functions

end Gradual
