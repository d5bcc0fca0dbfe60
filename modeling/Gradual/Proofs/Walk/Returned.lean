import Gradual.Proofs.Ty.Merge
import Gradual.Proofs.Walk.Incomplete
import Gradual.Proofs.Walk.WellFormed

/-!
# The types that a block returns

The walk of a block merges what it returns statement by statement and branch by branch. What comes
out is the union of the types of all `return` statements that are checked, so neither their order
nor the branches that they stand in matter.

* `Contained`: walks that never end with something outside the check, which blocks are;
* `returnedBy`, `returnedByAll`: the types that statements return;
* `Outcome.Collects`, **`collects_checkAll`**: the outcome of a block has their union;
* `Outcome.Collects.apparent`: the result that a function appears to have;
* **`merging_order_free`**: merging, and with it this result, does not depend on any order.
-/

namespace Gradual

open Effect

variable {α β : Type} {env : Env} {goal : Option Goal} {p : Place} {o : Outcome} {as bs : List Ty}

/-! ## Nothing escapes from a block -/

/-- The walk never ends with something outside the check. -/
abbrev Contained (x : Walk α) : Prop := Fails (fun _ e _ => e.isUnsupported = false) x

theorem contained_bind {x : Walk α} {f : α → Walk β} (hx : Contained x)
    (hf : ∀ a, Contained (f a)) : Contained (x >>= f) :=
  fails_bind (R := fun _ _ => True) (fun _ _ _ _ _ h => h) hx (fun _ => trivial) hf

theorem contained_tolerate (skipped : α) (body : Walk α) :
    Contained (Walk.tolerate skipped body) := by
  intro σ e τ h
  rw [exec_tolerate] at h
  rcases hb : exec body σ with ⟨(_ | _ | _) | _, _⟩ <;> rw [hb] at h <;> cases h <;> rfl

theorem contained_declareAll (scope : ScopeId) (block : List Statement) :
    Contained (declareAll scope block) := by
  induction block with
  | nil => exact fails_pure ()
  | cons s rest ih => exact contained_bind (contained_tolerate () _) fun _ => ih

theorem contained_walkStatements (env : Env) (scope : ScopeId) (goal : Option Goal)
    (block : List Statement) :
    ∀ defined before, Contained (walkStatements env scope goal defined before block) := by
  induction block with
  | nil =>
    intro defined before
    exact fails_pure before
  | cons s rest ih =>
    intro defined before
    rw [walkStatements_cons]
    exact contained_bind (contained_tolerate _ _) fun _ => ih _ _

theorem contained_walkBranch (env : Env) (scope : ScopeId) (goal : Option Goal)
    (block : List Statement) : Contained (walkBranch env scope goal block) := by
  intro σ e τ h
  have hblock : Contained (walkBlock env σ.fresh goal block) :=
    contained_bind (contained_declareAll σ.fresh block) fun _ =>
      contained_walkStatements env σ.fresh goal block [] .proceeds
  rw [walkBranch, exec_inChild, Prod.mk.injEq] at h
  exact hblock _ e _ (Prod.ext h.1 rfl)

theorem contained_conditional (env : Env) (scope : ScopeId) (goal : Option Goal)
    (defined : List String) (head : Condition) (body : List Statement)
    {otherwise : Option (List Statement)} (h : hasElif otherwise = false) :
    Contained (walkStatement env scope goal defined (.conditional head body otherwise)) := by
  have halt : Contained (walkOtherwise env scope goal otherwise) := by
    cases otherwise with
    | none => exact fails_pure _
    | some block => exact contained_walkBranch env scope goal block
  rw [walkStatement_conditional, h]
  refine contained_bind (fails_pure ()) fun _ => contained_bind ?_ fun _ => ?_
  · intro σ e τ hrecord
    cases hrecord
  · exact contained_bind (contained_walkBranch env scope goal body) fun _ =>
      contained_bind halt fun _ => fails_pure _

/-- **A conditional is passed over only as an `elif` chain.** -/
theorem passesOver_conditional_iff {head : Condition} {body : List Statement}
    {otherwise : Option (List Statement)} :
    PassesOver env goal p (.conditional head body otherwise) ↔ hasElif otherwise = true := by
  constructor
  · rintro ⟨construct, span, h⟩
    by_contra helif
    have hwalk := contained_conditional env p.scope goal p.defined head body
      (Bool.eq_false_of_not_eq_true helif)
    cases hwalk _ _ _ (Prod.ext h rfl)
  · intro helif
    refine ⟨Escape.elifChain.describe, head.span, ?_⟩
    rw [Place.check, walkStatement_conditional, helif]
    rfl

/-! ## Returned types -/

mutual

/-- The types that a statement returns, in the order in which its `return` statements are checked.
Those of an `elif` chain are not checked. -/
def returnedBy (env : Env) (goal : Option Goal) (p : Place) : Statement → List Ty
  | .returns span value =>
    (exec (checkReturn env p.scope goal span value) p.state).1.toOption.toList
  | .conditional head body otherwise =>
    if hasElif otherwise then []
    else
      returnedByAll env goal (p.consequent goal head body) body ++
        returnedByOtherwise env goal p head body otherwise
  | _ => []
termination_by structural s => s

/-- The types that the alternative of a conditional returns. -/
def returnedByOtherwise (env : Env) (goal : Option Goal) (p : Place) (head : Condition)
    (body : List Statement) : Option (List Statement) → List Ty
  | none => []
  | some block => returnedByAll env goal (p.alternative env goal head body block) block
termination_by structural o => o

/-- The types that the statements of a block return. -/
def returnedByAll (env : Env) (goal : Option Goal) (p : Place) : List Statement → List Ty
  | [] => []
  | s :: rest => returnedBy env goal p s ++ returnedByAll env goal (p.after env goal s) rest
termination_by structural ss => ss

end

theorem returnedBy_goesOn {s : Statement} (hs : s.goesOn = true) :
    returnedBy env goal p s = [] := by
  cases s with
  | returns | conditional => cases hs
  | _ => rfl

theorem returnedBy_returns (span : Source.Span) (value : Option Expr) :
    returnedBy env goal p (.returns span value) =
      (exec (checkReturn env p.scope goal span value) p.state).1.toOption.toList :=
  rfl

theorem returnedBy_conditional (head : Condition) (body : List Statement)
    {otherwise : Option (List Statement)} (h : hasElif otherwise = false) :
    returnedBy env goal p (.conditional head body otherwise) =
      returnedByAll env goal (p.consequent goal head body) body ++
        returnedByOtherwise env goal p head body otherwise := by
  change (if hasElif otherwise then _ else _) = _
  rw [h, if_neg Bool.false_ne_true]

theorem returnedBy_passesOver {s : Statement} (h : PassesOver env goal p s) :
    returnedBy env goal p s = [] := by
  cases s with
  | returns span value =>
    obtain ⟨construct, place, h⟩ := h
    rw [returnedBy_returns]
    cases hr : (exec (checkReturn env p.scope goal span value) p.state).1 with
    | error e => rfl
    | ok ty =>
      have hok : (exec (walkStatement env p.scope goal p.defined (.returns span value)) p.state).1 =
          .ok (.returning ty) := by
        rw [walkStatement_returns, result_bind_eq_ok]
        exact ⟨ty, hr, rfl⟩
      rw [Place.check, hok] at h
      cases h
  | conditional head body otherwise =>
    change (if hasElif otherwise then _ else _) = _
    rw [passesOver_conditional_iff.1 h, if_pos rfl]
  | _ => rfl

/-! ## Places with well-formed types -/

namespace Place

/-- All types that are bound at a place are well formed. -/
def WellFormed (p : Place) : Prop := p.state.scopes.WellFormed

theorem wellFormed_start {σ : WalkState} (hσ : σ.scopes.WellFormed) (scope : ScopeId)
    (block : List Statement) : (start scope block σ).WellFormed :=
  (sustains_declareAll scope block σ hσ).1

theorem wellFormed_branch {σ : WalkState} (hσ : σ.scopes.WellFormed) (scope : ScopeId)
    (block : List Statement) : (branch scope block σ).WellFormed := by
  rw [branch]
  exact wellFormed_start (hσ.extend scope) σ.fresh block

theorem WellFormed.after (hb : env.builtins.WellFormed) (hp : p.WellFormed) (s : Statement) :
    (p.after env goal s).WellFormed :=
  (sustains_tolerate Outcome.wellFormed_passedOver
    (sustains_walkStatement hb p.scope goal p.defined s) p.state hp).1

theorem WellFormed.exploring (hp : p.WellFormed) (head : Condition) :
    (p.exploring goal head).scopes.WellFormed :=
  hp

theorem WellFormed.consequent (hp : p.WellFormed) (head : Condition) (body : List Statement) :
    (p.consequent goal head body).WellFormed := by
  rw [Place.consequent]
  exact wellFormed_branch (hp.exploring head) p.scope body

theorem WellFormed.alternative (hb : env.builtins.WellFormed) (hp : p.WellFormed)
    (head : Condition) (body block : List Statement) :
    (p.alternative env goal head body block).WellFormed := by
  rw [Place.alternative]
  have hfirst := (sustainsBlock hb body).walkBranch p.scope goal (p.exploring goal head)
    (hp.exploring head)
  exact wellFormed_branch hfirst.1 p.scope block

theorem wellFormed_body (hb : env.builtins.WellFormed) {scope : ScopeId} {head : FunctionHead}
    {declared : Signature} {σ : WalkState} (hσ : σ.scopes.WellFormed)
    (h : (exec (checkHeader env scope head) σ).1 = .ok declared) (block : List Statement) :
    (body env scope head declared block σ).WellFormed := by
  obtain ⟨hρ, hd⟩ := sustains_checkHeader hb scope head σ hσ
  rw [body]
  generalize (exec (checkHeader env scope head) σ).2 = ρ at hρ
  have hinner : (ρ.inBody scope head declared).scopes.WellFormed :=
    (sustains_bindParameters ρ.fresh (hd declared h) _ (hρ.extend scope)).1
  exact wellFormed_start hinner ρ.fresh block

end Place

/-! ## Outcomes and returned types -/

/-- The union of some types, if there are any. -/
def unionOf (as : List Ty) : Option Ty := if as = [] then none else some (Ty.join as)

theorem mergeReturns_unionOf (ha : ∀ a ∈ as, a.Flat) (hb : ∀ b ∈ bs, b.Flat) :
    Outcome.mergeReturns (unionOf as) (unionOf bs) = unionOf (as ++ bs) := by
  by_cases has : as = []
  · simp [has, unionOf, Outcome.mergeReturns]
  · by_cases hbs : bs = []
    · simp [has, hbs, unionOf, Outcome.mergeReturns]
    · simp [has, hbs, unionOf, Outcome.mergeReturns, Ty.merge_join has hbs ha hb]

/-- The outcome has the union of the types `as`, which are well formed. -/
structure Outcome.Collects (o : Outcome) (as : List Ty) : Prop where
  wellFormed : ∀ a ∈ as, a.WellFormed
  returns : o.returns = unionOf as

namespace Outcome

variable {a b : Outcome}

theorem collects_proceeds : proceeds.Collects [] := ⟨nofun, rfl⟩

theorem collects_passedOver : passedOver.Collects [] := ⟨nofun, rfl⟩

theorem collects_returning {ty : Ty} (h : ty.WellFormed) : (returning ty).Collects [ty] where
  wellFormed := by simpa using h
  returns := by simp [returning, unionOf, Ty.join_singleton h.toFlat.toProper]

theorem Collects.andThen (ha : a.Collects as) (hb : b.Collects bs) :
    (a.andThen b).Collects (as ++ bs) where
  wellFormed := List.forall_mem_append.2 ⟨ha.wellFormed, hb.wellFormed⟩
  returns := by
    rw [Outcome.andThen, ha.returns, hb.returns]
    exact mergeReturns_unionOf (fun t ht => (ha.wellFormed t ht).toFlat)
      fun t ht => (hb.wellFormed t ht).toFlat

theorem Collects.orElse (ha : a.Collects as) (hb : b.Collects bs) :
    (a.orElse b).Collects (as ++ bs) :=
  ⟨(ha.andThen hb).wellFormed, (ha.andThen hb).returns⟩

end Outcome

/-- The outcome of a block has the union of what it returns, after other types collected before. -/
theorem collects_checkAll_after (hb : env.builtins.WellFormed) (goal : Option Goal)
    (block : List Statement) :
    ∀ p before o as, p.WellFormed → (Place.checkAll env goal p before block).1 = .ok o →
      before.Collects as → o.Collects (as ++ returnedByAll env goal p block) := by
  induction block using Statement.way_induction (P := fun s => ∀ p o, p.WellFormed →
    (Place.check env goal p s).1 = .ok o → o.Collects (returnedBy env goal p s)) with
  | goesOn s hs p o _ h =>
    rw [check_goesOn hs h, returnedBy_goesOn hs]
    exact Outcome.collects_proceeds
  | returns span value p o hp h =>
    obtain ⟨ty, hty, rfl⟩ := check_returns h
    rw [returnedBy_returns, hty]
    exact Outcome.collects_returning
      ((sustains_checkReturn hb p.scope goal span value p.state hp).2 ty hty)
  | conditional head body otherwise hbody hblock p o hp h =>
    have helif : hasElif otherwise = false :=
      Bool.eq_false_of_not_eq_true fun he => not_passesOver h (passesOver_conditional_iff.2 he)
    obtain ⟨a, b, ha, hnone, hsome, rfl⟩ := check_conditional h
    rw [returnedBy_conditional head body helif]
    refine (hbody _ _ _ _ (hp.consequent head body) ha Outcome.collects_proceeds).orElse ?_
    cases otherwise with
    | none =>
      rw [hnone rfl]
      exact Outcome.collects_proceeds
    | some block =>
      exact hblock block rfl _ _ _ _ (hp.alternative hb head body block) (hsome block rfl)
        Outcome.collects_proceeds
  | nil =>
    intro p before o as _ h hbefore
    rw [Place.checkAll, walkStatements_nil] at h
    cases h
    simpa [returnedByAll] using hbefore
  | cons s rest hs hrest =>
    intro p before o as hp h hbefore
    obtain ⟨a, ha, h⟩ := checkAll_cons h
    rw [returnedByAll, ← List.append_assoc]
    refine hrest _ _ _ _ (hp.after hb s) h (hbefore.andThen ?_)
    rcases ha with ha | ⟨hover, rfl⟩
    · exact hs p a hp ha
    · rw [returnedBy_passesOver hover]
      exact Outcome.collects_passedOver

/-- **The outcome of a block has the union of the types that it returns.** -/
theorem collects_checkAll (hb : env.builtins.WellFormed) (hp : p.WellFormed)
    {block : List Statement} (h : (p.checkAll env goal .proceeds block).1 = .ok o) :
    o.Collects (returnedByAll env goal p block) :=
  collects_checkAll_after hb goal block _ _ _ [] hp h Outcome.collects_proceeds

/-! ## Results of functions -/

/-- The result that a function appears to have is the declared one where it is trusted, and else the
union of what its body returns, with the absent value if the body may come to its end. -/
theorem Outcome.Collects.apparent (h : o.Collects as) (hg : o.Grounded) (declared : Ty) :
    o.apparent declared = if o.escaped && !o.alwaysReturns then declared
      else Ty.join (if o.alwaysReturns then as else as ++ [.none]) := by
  have hflat : ∀ a ∈ as, a.Flat := fun a ha => (h.wellFormed a ha).toFlat
  cases hr : o.alwaysReturns with
  | true =>
    have hreturns := h.returns
    rw [hg.apparent hr declared, unionOf] at hreturns
    split at hreturns
    · cases hreturns
    · simpa using hreturns
  | false =>
    rw [Outcome.apparent, h.returns, hr, unionOf]
    by_cases has : as = []
    · simp [has, Ty.join_singleton Ty.flat_none.toProper]
    · have hmerge : (Ty.join as).merge (Ty.join [.none]) = Ty.join (as ++ [.none]) :=
        Ty.merge_join has (by simp) hflat (by simpa using Ty.flat_none)
      rw [Ty.join_singleton Ty.flat_none.toProper] at hmerge
      simp [has, hmerge]

/-- The header of a function is accepted with the signature `declared`, and the walk of its body
has the outcome `outcome`. -/
structure BodyAccepted (env : Env) (scope : ScopeId) (head : FunctionHead) (body : List Statement)
    (σ : WalkState) (declared : Signature) (outcome : Outcome) : Prop where
  header : (exec (checkHeader env scope head) σ).1 = .ok declared
  body : (exec (walkBody env scope head declared body)
    ((exec (checkHeader env scope head) σ).2.logged
      (.entering head.name.name head.span.line))).1 = .ok outcome

/-- The types that the body of a function returns. -/
def returnedByBody (env : Env) (scope : ScopeId) (head : FunctionHead) (body : List Statement)
    (σ : WalkState) (declared : Signature) : List Ty :=
  returnedByAll env (Place.goalOf head declared) (Place.body env scope head declared body σ) body

namespace BodyAccepted

variable {scope : ScopeId} {head : FunctionHead} {body : List Statement} {σ : WalkState}
  {declared : Signature}

theorem grounded (h : BodyAccepted env scope head body σ declared o) : o.Grounded :=
  grounded_checkAll env _ body _ _ _ (checkAll_of_walkBody h.body) Outcome.grounded_proceeds

theorem collects (h : BodyAccepted env scope head body σ declared o)
    (hb : env.builtins.WellFormed) (hσ : σ.scopes.WellFormed) :
    o.Collects (returnedByBody env scope head body σ declared) :=
  collects_checkAll hb (Place.wellFormed_body hb hσ h.header body) (checkAll_of_walkBody h.body)

end BodyAccepted

/-- **Merging does not depend on any order**, and neither does the result that a function appears to
have: it is the declared one where that is trusted, and else the join of what its body gives. -/
theorem merging_order_free :
    (∀ a b c : Ty, a.Flat → b.Flat → c.Flat → (a.merge b).merge c = a.merge (b.merge c)) ∧
    (∀ a b : Ty, a.merge b = b.merge a) ∧
    (∀ a : Ty, a.Flat → a.merge a = a) ∧
    (∀ a b : Ty, a.Flat → b.Flat → (a.merge b).Flat) ∧
    (∀ as bs : List Ty, (∀ t, t ∈ as ↔ t ∈ bs) → Ty.join as = Ty.join bs) ∧
    ∀ (env : Env) (scope : ScopeId) (head : FunctionHead) (body : List Statement) (σ : WalkState)
      (declared : Signature) (outcome : Outcome) (types : List Ty),
      env.builtins.WellFormed → σ.scopes.WellFormed →
      BodyAccepted env scope head body σ declared outcome →
      (∀ t, t ∈ types ↔ t ∈ returnedByBody env scope head body σ declared ∨
        outcome.alwaysReturns = false ∧ t = .none) →
      outcome.apparent declared.ret =
        if outcome.escaped && !outcome.alwaysReturns then declared.ret else Ty.join types := by
  refine ⟨fun a b c => Ty.merge_assoc, Ty.merge_comm, fun a h => Ty.merge_self h.toProper,
    fun a b => Ty.Flat.merge, fun as bs => Ty.join_congr, ?_⟩
  intro env scope head body σ declared outcome types hb hσ hbody htypes
  rw [(hbody.collects hb hσ).apparent hbody.grounded]
  congr 1
  apply Ty.join_congr
  intro t
  rw [htypes]
  cases outcome.alwaysReturns <;> simp

/-- A body with the same returns as `mixedReturns`, in another order and in other branches, and one
of them twice. -/
def regroupedReturns : List Statement :=
  let test : Condition := ⟨.none, .opening, .name .none ⟨"c", .none⟩⟩
  let give value : Statement := .returns .none (some (.literal .none value))
  [.conditional test [give (.string "a"), give (.integer 1)] none,
    .conditional test [.pass .none] (some [give (.integer 2)])]

/-- Both bodies have the same outcome, and the result that it leads to is the join of their returns
and of the absent value in any order. -/
theorem regroupedReturns_result :
    let both : Ty := .union [.int, .str]
    let head : FunctionHead := ⟨⟨"f", .none⟩, .none, [], none⟩
    let start : WalkState := ⟨.empty, .start (some 0)⟩
    let declared : Signature := ⟨[], [], .unknown, []⟩
    let outcome : Outcome := ⟨some both, false, false⟩
    both.Flat ∧ (both.merge .none).merge (.list both) = both.merge (Ty.none.merge (.list both)) ∧
    BodyAccepted ⟨.standard, ∅⟩ Scopes.root head mixedReturns start declared outcome ∧
    BodyAccepted ⟨.standard, ∅⟩ Scopes.root head regroupedReturns start declared outcome ∧
    outcome.apparent declared.ret = Ty.join [.str, .none, .int, .str] := by
  intro both head start declared outcome
  have hboth : both.Flat := by
    refine Ty.flat_union (by decide) ?_ (by simp [Ty.int, Ty.str])
    unfold Sorted.IsSorted
    decide +kernel
  have hmixed : BodyAccepted ⟨.standard, ∅⟩ Scopes.root head mixedReturns start declared outcome :=
    ⟨by decide +kernel, by decide +kernel⟩
  have hregrouped :
      BodyAccepted ⟨.standard, ∅⟩ Scopes.root head regroupedReturns start declared outcome :=
    ⟨by decide +kernel, by decide +kernel⟩
  have hreturned : returnedByBody ⟨.standard, ∅⟩ Scopes.root head regroupedReturns start declared =
      [.str, .int, .int] := by
    decide +kernel
  have htypes (t : Ty) : t ∈ [Ty.str, .none, .int, .str] ↔
      t ∈ returnedByBody ⟨.standard, ∅⟩ Scopes.root head regroupedReturns start declared ∨
        outcome.alwaysReturns = false ∧ t = .none := by
    rw [hreturned]
    simp only [List.mem_cons, List.not_mem_nil, outcome]
    tauto
  obtain ⟨hassoc, -, -, -, -, hresult⟩ := merging_order_free
  have hlist : (Ty.list both).Flat := Ty.flat_of_ne (by simp)
  refine ⟨hboth, hassoc _ _ _ hboth Ty.flat_none hlist, hmixed, hregrouped, ?_⟩
  exact hresult _ _ _ _ _ _ _ [.str, .none, .int, .str] Builtins.wellFormed_standard
    Scopes.wellFormed_empty hregrouped htypes

/-- **Results depend on more than what is returned**: of two bodies that return a number and a text
one always returns, and in one of two that return a number a loop is passed over. -/
theorem sameReturns_differ :
    let test : Condition := ⟨.none, .opening, .name .none ⟨"c", .none⟩⟩
    let give value : Statement := .returns .none (some (.literal .none value))
    let number : Statement := .conditional test [give (.integer 1)] none
    let either := [.conditional test [give (.integer 1)] (some [give (.string "a")])]
    let inTurn := [number, .conditional test [give (.string "a")] none]
    let looping := [number, .unsupported .none (.statement "for")]
    let head : FunctionHead := ⟨⟨"f", .none⟩, .none, [], none⟩
    let start : WalkState := ⟨.empty, .start (some 0)⟩
    let declared : Signature := ⟨[], [], .unknown, []⟩
    let returned body := returnedByBody ⟨.standard, ∅⟩ Scopes.root head body start declared
    let bound body := (exec (walkStatement ⟨.standard, ∅⟩ Scopes.root none []
      (.function head body)) start).2.scopes.lookupLocal Scopes.root "f"
    (returned either = returned inTurn ∧
      bound either = some (.func (declared.withReturn (.union [.int, .str]))) ∧
      bound inTurn = some (.func (declared.withReturn (.union [.none, .int, .str])))) ∧
    returned [number] = returned looping ∧
      bound [number] = some (.func (declared.withReturn (.union [.none, .int]))) ∧
      bound looping = some (.func declared) := by
  decide +kernel

end Gradual
