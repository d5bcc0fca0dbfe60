import Gradual.Proofs.Ty.Join
import Gradual.Proofs.Walk.Scopes
import Gradual.Proofs.Walk.Ways

/-!
# What functions return

The outcome of a block sums up all ways through it: each type that a way returns fits the type of
the returns, and the block always returns if no way leads to its end.

* `check_conditional`, `checkAll_cons`: what an accepted statement or block consists of;
* `escaped_iff`: an outcome notes whether something was passed over;
* `Outcome.SumsUp`, `sumsUp_checkAll`: outcomes and ways;
* **`accepted_function_returns`**: the result in the signature of an accepted function.
-/

namespace Gradual

open Effect

variable {env : Env} {goal : Option Goal} {p : Place} {o : Outcome}

/-! ## Accepted statements -/

theorem check_goesOn {s : Statement} (hs : s.goesOn = true) (h : (p.check env goal s).1 = .ok o) :
    o = .proceeds := by
  cases s with
  | returns | conditional => cases hs
  | function head body =>
    rw [Place.check, walkStatement_function, result_bind_eq_ok] at h
    obtain ⟨_, -, h⟩ := h
    cases h
    rfl
  | assignment a =>
    rw [Place.check, walkStatement_assignment, result_bind_eq_ok] at h
    obtain ⟨_, -, h⟩ := h
    cases h
    rfl
  | expression value =>
    rw [Place.check, walkStatement_expression, result_bind_eq_ok] at h
    obtain ⟨_, -, h⟩ := h
    cases h
    rfl
  | pass span =>
    rw [Place.check, walkStatement_pass] at h
    cases h
    rfl
  | unsupported span construct =>
    rw [Place.check, walkStatement_unsupported] at h
    cases h

theorem check_returns {span : Source.Span} {value : Option Expr}
    (h : (p.check env goal (.returns span value)).1 = .ok o) :
    ∃ ty, (exec (checkReturn env p.scope goal span value) p.state).1 = .ok ty ∧
      o = .returning ty := by
  rw [Place.check, walkStatement_returns, result_bind_eq_ok] at h
  obtain ⟨ty, hty, h⟩ := h
  cases h
  exact ⟨ty, hty, rfl⟩

theorem checkAll_of_walkBlock {scope : ScopeId} {block : List Statement} {σ : WalkState}
    (h : (exec (walkBlock env scope goal block) σ).1 = .ok o) :
    ((Place.start scope block σ).checkAll env goal .proceeds block).1 = .ok o := by
  rw [walkBlock, result_bind_eq_ok] at h
  obtain ⟨_, -, h⟩ := h
  exact h

theorem checkAll_of_walkBranch {scope : ScopeId} {block : List Statement} {σ : WalkState}
    (h : (exec (walkBranch env scope goal block) σ).1 = .ok o) :
    ((Place.branch scope block σ).checkAll env goal .proceeds block).1 = .ok o := by
  rw [walkBranch, exec_inChild] at h
  exact checkAll_of_walkBlock h

/-- An accepted conditional has accepted branches. -/
theorem check_conditional {head : Condition} {body : List Statement}
    {otherwise : Option (List Statement)}
    (h : (p.check env goal (.conditional head body otherwise)).1 = .ok o) :
    ∃ a b, ((p.consequent goal head body).checkAll env goal .proceeds body).1 = .ok a ∧
      (otherwise = none → b = .proceeds) ∧
      (∀ block, otherwise = some block →
        ((p.alternative env goal head body block).checkAll env goal .proceeds block).1 = .ok b) ∧
      o = a.orElse b := by
  rw [Place.check, walkStatement_conditional, result_bind_eq_ok, exec_require] at h
  obtain ⟨_, -, h⟩ := h
  rw [exec_bind_of_ok (exec_record _ _), result_bind_eq_ok] at h
  obtain ⟨a, ha, h⟩ := h
  rw [result_bind_eq_ok] at h
  obtain ⟨b, hb, h⟩ := h
  cases h
  refine ⟨a, b, checkAll_of_walkBranch ha, ?_, ?_, rfl⟩
  · rintro rfl
    rw [walkOtherwise_none] at hb
    cases hb
    rfl
  · rintro block rfl
    rw [walkOtherwise_some] at hb
    exact checkAll_of_walkBranch hb

/-- In an accepted block each statement is accepted or passed over. -/
theorem checkAll_cons {before : Outcome} {s : Statement} {rest : List Statement}
    (h : (p.checkAll env goal before (s :: rest)).1 = .ok o) :
    ∃ a, ((p.check env goal s).1 = .ok a ∨ PassesOver env goal p s ∧ a = .passedOver) ∧
      ((p.after env goal s).checkAll env goal (before.andThen a) rest).1 = .ok o := by
  rw [Place.checkAll, walkStatements_cons, result_bind_eq_ok] at h
  obtain ⟨a, ha, h⟩ := h
  exact ⟨a, result_tolerate_eq_ok.1 ha, h⟩

theorem not_passesOver {s : Statement} (h : (p.check env goal s).1 = .ok o) :
    ¬ PassesOver env goal p s := by
  rintro ⟨construct, span, he⟩
  rw [h] at he
  cases he

/-! ## What is passed over -/

theorem Outcome.escaped_andThen {a b : Outcome} :
    (a.andThen b).escaped = true ↔ a.escaped = true ∨ b.escaped = true := by
  simp [andThen]

theorem Outcome.escaped_orElse {a b : Outcome} :
    (a.orElse b).escaped = true ↔ a.escaped = true ∨ b.escaped = true := by
  simp [orElse]

theorem escaped_proceeds_iff {s : Statement} (h : (p.check env goal s).1 = .ok o)
    (hs : ∀ head body otherwise, s ≠ .conditional head body otherwise) (ho : o.escaped = false) :
    o.escaped = true ↔ ¬ Clean env goal p [s] := by
  rw [ho, clean_singleton hs, not_not]
  exact ⟨nofun, fun hp => absurd hp (not_passesOver h)⟩

theorem escaped_cons {before a : Outcome} {s : Statement} {rest : List Statement}
    (ha : a.escaped = true ↔ ¬ Clean env goal p [s])
    (ho : o.escaped = true ↔ (before.andThen a).escaped = true ∨
      ¬ Clean env goal (p.after env goal s) rest) :
    o.escaped = true ↔ before.escaped = true ∨ ¬ Clean env goal p (s :: rest) := by
  rw [clean_cons, ho, Outcome.escaped_andThen, ha, not_and_or, or_assoc]

/-- **An outcome notes whether something was passed over**, at any depth of conditionals. -/
theorem escaped_iff (env : Env) (goal : Option Goal) (block : List Statement) :
    ∀ p before o, (Place.checkAll env goal p before block).1 = .ok o →
      (o.escaped = true ↔ before.escaped = true ∨ ¬ Clean env goal p block) := by
  induction block using Statement.way_induction (P := fun s => ∀ p o,
    (Place.check env goal p s).1 = .ok o → (o.escaped = true ↔ ¬ Clean env goal p [s])) with
  | goesOn s hs p o h =>
    refine escaped_proceeds_iff h ?_ ?_
    · rintro head body otherwise rfl
      cases hs
    · rw [check_goesOn hs h]
      rfl
  | returns span value p o h =>
    obtain ⟨ty, -, rfl⟩ := check_returns h
    exact escaped_proceeds_iff h nofun rfl
  | conditional head body otherwise hbody hblock p o h =>
    rw [clean_conditional]
    have hnot := not_passesOver h
    obtain ⟨a, b, ha, hnone, hsome, rfl⟩ := check_conditional h
    rw [Outcome.escaped_orElse, hbody _ _ _ ha]
    cases otherwise with
    | none => simp [hnone rfl, Outcome.proceeds, hnot]
    | some block =>
      rw [hblock block rfl _ _ _ (hsome block rfl)]
      simp [Outcome.proceeds, hnot, imp_iff_not_or]
  | nil =>
    intro p before o h
    rw [Place.checkAll, walkStatements_nil] at h
    cases h
    simp [clean_nil]
  | cons s rest hs hrest =>
    intro p before o h
    obtain ⟨a, ha, h⟩ := checkAll_cons h
    refine escaped_cons ?_ (hrest _ _ _ h)
    rcases ha with ha | ⟨hp, rfl⟩
    · exact hs p a ha
    · exact iff_of_true rfl fun hc => hc _ _ .head hp

/-! ## Outcomes and ways -/

/-- What a block returns, if anything, has room for `ty`. -/
def Covers (returns : Option Ty) (ty : Ty) : Prop := ∃ R, returns = some R ∧ ty.fits R

theorem covers_some (ty : Ty) : Covers (some ty) ty := ⟨ty, rfl, Ty.fits_self ty⟩

theorem Covers.mergeReturns_left {a : Option Ty} {ty : Ty} (h : Covers a ty) (b : Option Ty) :
    Covers (Outcome.mergeReturns a b) ty := by
  obtain ⟨R, rfl, hR⟩ := h
  cases b with
  | none => exact ⟨R, rfl, hR⟩
  | some S => exact ⟨R.merge S, rfl, Ty.fits_merge_left hR⟩

theorem Covers.mergeReturns_right {b : Option Ty} {ty : Ty} (h : Covers b ty) (a : Option Ty) :
    Covers (Outcome.mergeReturns a b) ty := by
  obtain ⟨R, rfl, hR⟩ := h
  cases a with
  | none => exact ⟨R, rfl, hR⟩
  | some S => exact ⟨S.merge R, rfl, Ty.fits_merge_right hR⟩

/-- An outcome sums up ways: it has room for each type that they return, and always returns if none
of them leads to the end. -/
structure Outcome.SumsUp (o : Outcome) (W : Endings) : Prop where
  covers : ∀ r, W (some r) → ∃ ty, r = .ok ty ∧ Covers o.returns ty
  always : o.alwaysReturns = true ↔ ¬ W none

namespace Outcome

variable {a b : Outcome} {W V : Endings}

theorem sumsUp_proceeds : proceeds.SumsUp (· = none) where
  covers := nofun
  always := by simp [proceeds]

theorem sumsUp_returning (ty : Ty) : (returning ty).SumsUp (· = some (.ok ty)) where
  covers r hr := ⟨ty, Option.some.inj hr, covers_some ty⟩
  always := by simp [returning]

theorem SumsUp.andThen (ha : a.SumsUp W) (hb : b.SumsUp V) :
    (a.andThen b).SumsUp (W.andThen V) where
  covers r hr := by
    rcases Endings.andThen_some.1 hr with hr | ⟨-, hr⟩
    · obtain ⟨ty, rfl, hty⟩ := ha.covers r hr
      exact ⟨ty, rfl, hty.mergeReturns_left _⟩
    · obtain ⟨ty, rfl, hty⟩ := hb.covers r hr
      exact ⟨ty, rfl, hty.mergeReturns_right _⟩
  always := by
    rw [Endings.andThen_none, not_and_or, ← ha.always, ← hb.always]
    exact Bool.or_eq_true_iff

theorem SumsUp.orElse (ha : a.SumsUp W) (hb : b.SumsUp V) :
    (a.orElse b).SumsUp fun r => W r ∨ V r where
  covers r hr := by
    rcases hr with hr | hr
    · obtain ⟨ty, rfl, hty⟩ := ha.covers r hr
      exact ⟨ty, rfl, hty.mergeReturns_left _⟩
    · obtain ⟨ty, rfl, hty⟩ := hb.covers r hr
      exact ⟨ty, rfl, hty.mergeReturns_right _⟩
  always := by
    rw [not_or, ← ha.always, ← hb.always]
    exact Bool.and_eq_true_iff

/-- What a function appears to return has room for all that the ways through its body return, and
for the absent value if one leads to the end. -/
theorem SumsUp.apparent {o : Outcome} (h : o.SumsUp W) (ho : o.escaped = false) (declared : Ty) :
    (∀ r, W (some r) → ∃ ty, r = .ok ty ∧ ty.fits (o.apparent declared)) ∧
    (W none → Ty.none.fits (o.apparent declared)) := by
  rw [Outcome.apparent, ho, Bool.false_and, if_neg Bool.false_ne_true]
  constructor
  · intro r hr
    obtain ⟨ty, rfl, R, hR, hty⟩ := h.covers r hr
    refine ⟨ty, rfl, ?_⟩
    rw [hR]
    dsimp only
    split
    · exact hty
    · exact Ty.fits_merge_left hty
  · intro hend
    have halways : ¬ o.alwaysReturns = true := fun hr => h.always.1 hr hend
    split
    · exact Ty.fits_self _
    · rw [if_neg halways]
      exact Ty.fits_merge_right (Ty.fits_self _)

end Outcome

theorem sumsUp_conditional {a b : Outcome} {head : Condition} {body : List Statement}
    {otherwise : Option (List Statement)}
    (ha : a.SumsUp (BlockWay env goal (p.consequent goal head body) body))
    (hnone : otherwise = none → b = .proceeds)
    (hsome : ∀ block, otherwise = some block →
      b.SumsUp (BlockWay env goal (p.alternative env goal head body block) block)) :
    (a.orElse b).SumsUp (Way env goal p (.conditional head body otherwise)) := by
  cases otherwise with
  | none =>
    have hways : Way env goal p (.conditional head body none) = _ :=
      funext fun _ => propext way_conditional_none
    rw [hways, hnone rfl]
    exact ha.orElse Outcome.sumsUp_proceeds
  | some block =>
    have hways : Way env goal p (.conditional head body (some block)) = _ :=
      funext fun _ => propext way_conditional_some
    rw [hways]
    exact ha.orElse (hsome block rfl)

/-- The outcome of a block sums up the ways through it, after others that are summed up before. -/
theorem sumsUp_checkAll_after (env : Env) (goal : Option Goal) (block : List Statement) :
    ∀ p before o W, (Place.checkAll env goal p before block).1 = .ok o → Clean env goal p block →
      before.SumsUp W → o.SumsUp (W.andThen (BlockWay env goal p block)) := by
  -- The walk carries the outcome `before` along, so the ways before the block are kept general.
  induction block using Statement.way_induction (P := fun s => ∀ p o,
    (Place.check env goal p s).1 = .ok o → Clean env goal p [s] → o.SumsUp (Way env goal p s)) with
  | goesOn s hs p o h _ =>
    have hways : Way env goal p s = (· = none) := funext fun _ => propext (way_of_goesOn hs)
    rw [hways, check_goesOn hs h]
    exact Outcome.sumsUp_proceeds
  | returns span value p o h _ =>
    obtain ⟨ty, hty, rfl⟩ := check_returns h
    have hways : Way env goal p (.returns span value) = (· = some (.ok ty)) :=
      funext fun _ => propext (hty ▸ way_returns)
    rw [hways]
    exact Outcome.sumsUp_returning ty
  | conditional head body otherwise hbody hblock p o h hclean =>
    obtain ⟨-, hcleanBody, hcleanBlock⟩ := clean_conditional.1 hclean
    obtain ⟨a, b, ha, hnone, hsome, rfl⟩ := check_conditional h
    refine sumsUp_conditional ?_ hnone fun block hb => ?_
    · have hsum := hbody _ _ _ _ ha hcleanBody Outcome.sumsUp_proceeds
      rwa [Endings.done_andThen] at hsum
    · have hsum := hblock block hb _ _ _ _ (hsome block hb) (hcleanBlock block hb)
        Outcome.sumsUp_proceeds
      rwa [Endings.done_andThen] at hsum
  | nil =>
    intro p before o W h _ hbefore
    rw [Place.checkAll, walkStatements_nil] at h
    cases h
    have hways : BlockWay env goal p [] = (· = none) := funext fun _ => propext blockWay_nil
    rwa [hways, Endings.andThen_done]
  | cons s rest hs hrest =>
    intro p before o W h hclean hbefore
    obtain ⟨hcleanHead, hcleanRest⟩ := clean_cons.1 hclean
    obtain ⟨a, ha | ⟨hover, -⟩, h⟩ := checkAll_cons h
    -- Statements after a `return` are checked and merged all the same, but no way leads there.
    · have hways : BlockWay env goal p (s :: rest) = _ := funext fun _ => propext blockWay_cons
      rw [hways, ← Endings.andThen_assoc]
      exact hrest _ _ _ _ h hcleanRest (hbefore.andThen (hs p a ha hcleanHead))
    · exact absurd hover (hcleanHead _ _ .head)

/-- **The outcome of a block sums up the ways through it**, if nothing in it is passed over. -/
theorem sumsUp_checkAll {block : List Statement}
    (h : (p.checkAll env goal .proceeds block).1 = .ok o) (hclean : Clean env goal p block) :
    o.SumsUp (BlockWay env goal p block) := by
  have hsum := sumsUp_checkAll_after env goal block _ _ _ _ h hclean Outcome.sumsUp_proceeds
  rwa [Endings.done_andThen] at hsum

/-! ## Functions -/

theorem checkHeader_ok {scope : ScopeId} {head : FunctionHead} {declared : Signature}
    {σ : WalkState} (h : (exec (checkHeader env scope head) σ).1 = .ok declared) :
    declaredSignature head = .ok declared := by
  rw [checkHeader, result_bind_eq_ok, exec_liftExcept] at h
  obtain ⟨d, hd, h⟩ := h
  rw [result_bind_eq_ok] at h
  obtain ⟨_, -, h⟩ := h
  cases h
  exact hd

theorem checkAll_of_walkBody {scope : ScopeId} {head : FunctionHead} {declared : Signature}
    {body : List Statement} {σ : WalkState}
    (h : (exec (walkBody env scope head declared body)
      ((exec (checkHeader env scope head) σ).2.logged
        (.entering head.name.name head.span.line))).1 = .ok o) :
    ((Place.body env scope head declared body σ).checkAll env (Place.goalOf head declared) .proceeds
      body).1 = .ok o := by
  rw [walkBody, exec_inChild, result_bind_eq_ok] at h
  obtain ⟨_, -, h⟩ := h
  exact checkAll_of_walkBlock h

theorem concludeFunction_ok {scope : ScopeId} {head : FunctionHead} {declared : Signature}
    {σ τ : WalkState} (h : exec (concludeFunction scope head declared o) σ = (.ok (), τ)) :
    (o.apparent declared.ret).fits declared.ret ∧
    τ.scopes = σ.scopes.add scope head.name.name
      (.func (declared.withReturn (o.apparent declared.ret))) := by
  rw [concludeFunction, exec_bind_of_ok (exec_record _ _), exec_bind_eq_ok] at h
  obtain ⟨_, ρ, hfits, h⟩ := h
  rw [exec_require] at hfits
  cases h
  split at hfits
  next hf =>
    cases hfits
    exact ⟨hf, rfl⟩
  next => cases hfits

/-- What an accepted function consists of, and what it is bound to. -/
theorem walkFunction_ok {scope : ScopeId} {head : FunctionHead} {body : List Statement}
    {σ τ : WalkState} (h : exec (walkFunction env scope head body) σ = (.ok (), τ)) :
    ∃ declared outcome, declaredSignature head = .ok declared ∧
      ((Place.body env scope head declared body σ).checkAll env (Place.goalOf head declared)
        .proceeds body).1 = .ok outcome ∧
      (outcome.apparent declared.ret).fits declared.ret ∧
      τ.scopes = σ.scopes.add scope head.name.name
        (.func (declared.withReturn (outcome.apparent declared.ret))) := by
  rw [walkFunction, exec_bind_eq_ok] at h
  obtain ⟨declared, ρ, hheader, h⟩ := h
  rw [exec_bind_of_ok (exec_record _ _), exec_bind_eq_ok] at h
  obtain ⟨outcome, υ, hbody, hconclude⟩ := h
  have hρ : ρ.scopes = σ.scopes := (scopeLaw.reads_checkHeader env scope head).of_exec hheader
  have hυ : υ.scopes = (ρ.logged _).scopes :=
    ((scopeLaw.onBlock env body).walkBody scope head declared).of_exec hbody
  obtain ⟨hfits, hτ⟩ := concludeFunction_ok hconclude
  refine ⟨declared, outcome, checkHeader_ok (by rw [hheader]),
    checkAll_of_walkBody (by rw [hheader, hbody]), hfits, ?_⟩
  rw [hτ, hυ, WalkState.logged_scopes, hρ]

/-- The result in the signature of a function, beside the ways through its body: it has room for
each type that they return, and for the absent value if one leads to the end; whether all of them
return is known; and it fits the result that is declared. -/
structure SoundResult (W : Endings) (always : Bool) (declared result : Ty) : Prop where
  returned : ∀ r, W (some r) → ∃ ty, r = .ok ty ∧ ty.fits result
  ended : W none → Ty.none.fits result
  always_iff : always = true ↔ ¬ W none
  declared_fits : result.fits declared

/-- **The result of an accepted function is sound**: if nothing in its body is passed over, it
agrees with all ways through the body. -/
theorem accepted_function_returns {scope : ScopeId} {defined : List String} {head : FunctionHead}
    {body : List Statement} {σ τ : WalkState}
    (h : exec (walkStatement env scope goal defined (.function head body)) σ = (.ok o, τ)) :
    ∃ declared outcome, declaredSignature head = .ok declared ∧
      ((Place.body env scope head declared body σ).checkAll env (Place.goalOf head declared)
        .proceeds body).1 = .ok outcome ∧
      τ.scopes = σ.scopes.add scope head.name.name
        (.func (declared.withReturn (outcome.apparent declared.ret))) ∧
      (Clean env (Place.goalOf head declared) (Place.body env scope head declared body σ) body →
        SoundResult (BlockWay env (Place.goalOf head declared)
            (Place.body env scope head declared body σ) body)
          outcome.alwaysReturns declared.ret (outcome.apparent declared.ret)) := by
  rw [walkStatement_function, exec_bind_eq_ok] at h
  obtain ⟨_, _, h, hend⟩ := h
  cases hend
  obtain ⟨declared, outcome, hdeclared, hout, hfits, hτ⟩ := walkFunction_ok h
  refine ⟨declared, outcome, hdeclared, hout, hτ, ?_⟩
  intro hclean
  have hsum := sumsUp_checkAll hout hclean
  have hescaped : outcome.escaped = false := by
    rw [← Bool.not_eq_true, escaped_iff env _ body _ _ _ hout]
    rintro (hfalse | hnot)
    · cases hfalse
    · exact hnot hclean
  obtain ⟨hreturned, hended⟩ := hsum.apparent hescaped declared.ret
  exact ⟨hreturned, hended, hsum.always, hfits⟩

/-- A body that returns a number, or a text, or ends without a return. -/
def mixedReturns : List Statement :=
  let test : Condition := ⟨.none, .opening, .name .none ⟨"c", .none⟩⟩
  let give value : Statement := .returns .none (some (.literal .none value))
  [.conditional test [give (.integer 1)] (some [.conditional test [give (.string "a")] none])]

/-- The result of a function with this body has room for the number and for the absent value, and
the body does not always return. -/
theorem mixedReturns_result :
    let head : FunctionHead := ⟨⟨"f", .none⟩, .none, [], none⟩
    let start : WalkState := ⟨.empty, .start (some 0)⟩
    (exec (walkStatement ⟨.standard, ∅⟩ Scopes.root none [] (.function head mixedReturns))
      start).1 = .ok .proceeds ∧
    SoundResult (BlockWay ⟨.standard, ∅⟩ (some ⟨"f", .unknown⟩)
        (Place.body ⟨.standard, ∅⟩ Scopes.root head ⟨[], [], .unknown, []⟩ mixedReturns start)
        mixedReturns)
      false .unknown (.union [.none, .int, .str]) := by
  intro head start
  have h : (exec (walkStatement ⟨.standard, ∅⟩ Scopes.root none [] (.function head mixedReturns))
      start).1 = .ok .proceeds := by
    decide +kernel
  refine ⟨h, ?_⟩
  obtain ⟨declared, outcome, hdeclared, hout, -, hsound⟩ :=
    accepted_function_returns (Prod.ext h rfl)
  obtain rfl : declared = ⟨[], [], .unknown, []⟩ :=
    Except.ok.inj (hdeclared.symm.trans (by decide +kernel))
  obtain rfl : outcome = ⟨some (.union [.int, .str]), false, false⟩ :=
    Except.ok.inj (hout.symm.trans (by decide +kernel))
  refine hsound (not_not.1 fun hover => ?_)
  exact Bool.false_ne_true ((escaped_iff _ _ _ _ _ _ hout).2 (.inr hover))

end Gradual
