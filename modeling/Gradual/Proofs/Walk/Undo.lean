import Gradual.Proofs.Walk.Scopes

/-!
# Failed statements

A statement whose check fails leaves the scopes as they were, and the outcome of the block around
it. A suspicion is the one exception: it is raised after its assignment has bound the target.

* `fails_walkFunction`: a function definition that fails binds nothing;
* `fails_checkAssignment`: only a suspicion can come after a binding;
* **`failed_statement_undone`**: what a failed statement leaves behind.
-/

namespace Gradual

open Effect Source

variable {α : Type} {env : Env} {scope : ScopeId} {goal : Option Goal} {defined : List String}

/-! ## Failures before and after bindings -/

/-- A failure without a change of the scopes. -/
def Undone (σ : WalkState) (_ : CheckError) (τ : WalkState) : Prop := SameScopes σ τ

/-- A failure without a change of the scopes, or a suspicion after the target of an assignment was
bound. -/
def UndoneOrBound (scope : ScopeId) (a : Assignment) (σ : WalkState) (e : CheckError)
    (τ : WalkState) : Prop :=
  Undone σ e τ ∨ ((∃ message span, e = .suspicion message span) ∧
    ∃ place id ty, a.targets = [.name place id] ∧ τ.scopes = σ.scopes.add scope id.name ty)

theorem fails_of_keeps {x : Walk α} (h : Keeps SameScopes x) : Fails Undone x :=
  fun _ _ _ hx => h.of_exec hx

theorem fails_bind_undone {β : Type} {x : Walk α} {f : α → Walk β} (hx : Keeps SameScopes x)
    (hf : ∀ a, Fails Undone (f a)) : Fails Undone (x >>= f) :=
  fails_bind (fun _ _ _ _ h k => Eq.trans k h) (fails_of_keeps hx) hx hf

theorem fails_bind_undoneOrBound {β : Type} {a : Assignment} {x : Walk α} {f : α → Walk β}
    (hx : Keeps SameScopes x) (hf : ∀ b, Fails (UndoneOrBound scope a) (f b)) :
    Fails (UndoneOrBound scope a) (x >>= f) := by
  refine fails_bind (R := SameScopes) ?_ (fun σ e τ h => .inl (fails_of_keeps hx σ e τ h)) hx hf
  rintro σ τ ρ e hστ (h | ⟨he, place, id, ty, ht, h⟩)
  · exact .inl (Eq.trans h hστ)
  · refine .inr ⟨he, place, id, ty, ht, ?_⟩
    rw [h, hστ]

theorem fails_bindName (scope : ScopeId) (name : String) (ty : Ty) :
    Fails Undone (Walk.bindName scope name ty) := by
  intro σ e τ h
  cases h

/-! ## Functions -/

theorem fails_concludeFunction (scope : ScopeId) (head : FunctionHead) (declared : Signature)
    (outcome : Outcome) : Fails Undone (concludeFunction scope head declared outcome) :=
  fails_bind_undone (scopeLaw.reads_record scope _) fun _ =>
    fails_bind_undone (scopeLaw.reads_require scope _ (Complaint.ofRule_heresy rfl _)) fun _ =>
      fails_bindName scope _ _

/-- **A function definition that fails binds nothing.** -/
theorem fails_walkFunction (env : Env) (scope : ScopeId) (head : FunctionHead)
    (body : List Statement) : Fails Undone (walkFunction env scope head body) :=
  fails_bind_undone (scopeLaw.reads_checkHeader env scope head) fun declared =>
    fails_bind_undone (scopeLaw.reads_record scope _) fun _ =>
      fails_bind_undone ((scopeLaw.onBlock env body).walkBody scope head declared) fun outcome =>
        fails_concludeFunction scope head declared outcome

/-! ## Assignments -/

theorem fails_rebind {a : Assignment} {place : Span} {id : Identifier}
    (ha : a.targets = [.name place id]) (ty : Ty) :
    Fails (UndoneOrBound scope a) (rebind scope defined id.name a.span ty) := by
  intro σ e τ h
  rw [rebind, exec_bind_of_ok (exec_get σ), exec_bind_of_ok (exec_bindName scope id.name ty σ),
    exec_require] at h
  split at h
  · cases h
  · cases h
    exact .inr ⟨⟨_, _, rfl⟩, place, id, ty, ha, rfl⟩

/-- **Only a suspicion can come after a binding.** -/
theorem fails_checkAssignment (env : Env) (scope : ScopeId) (defined : List String)
    (a : Assignment) : Fails (UndoneOrBound scope a) (checkAssignment env scope defined a) := by
  have hthrow : ∀ e, Fails (UndoneOrBound scope a) (throw e : Walk Unit) := fun e σ d τ h =>
    .inl (fails_of_keeps (keeps_throw e) σ d τ h)
  unfold checkAssignment
  split
  next place id ha =>
    refine fails_bind_undoneOrBound
      (scopeLaw.reads_require scope _ (Complaint.ofRule_heresy rfl _)) fun _ => ?_
    refine fails_bind_undoneOrBound (scopeLaw.reads_statedType env scope a) fun declared => ?_
    refine fails_bind_undoneOrBound
      (scopeLaw.reads_mapM (scopeLaw.reads_typeOf env scope) a.value) fun value => ?_
    refine fails_bind_undoneOrBound
      (scopeLaw.reads_liftExcept scope (ruled_boundType _ _ _ _)) fun ty? => ?_
    cases ty? with
    | none => exact fails_pure ()
    | some ty => exact fails_rebind ha ty
  · exact hthrow _
  · exact hthrow _

/-! ## Statements -/

theorem fails_walkStatement (s : Statement) :
    Fails (fun σ e τ => Undone σ e τ ∨ ∃ a, s = .assignment a ∧ UndoneOrBound scope a σ e τ)
      (walkStatement env scope goal defined s) := by
  intro σ e τ h
  cases s with
  | function head body =>
    rw [walkStatement_function_eq_error] at h
    exact .inl (fails_walkFunction env scope head body σ e τ h)
  | assignment a =>
    rw [walkStatement_assignment, exec_bind_eq_error] at h
    rcases h with h | ⟨_, _, -, h⟩
    · exact .inr ⟨a, rfl, fails_checkAssignment env scope defined a σ e τ h⟩
    · cases h
  | returns span value =>
    rw [walkStatement_returns, exec_bind_eq_error] at h
    rcases h with h | ⟨_, _, -, h⟩
    · exact .inl ((scopeLaw.reads_checkReturn env scope goal span value).of_exec h)
    · cases h
  | conditional head body otherwise =>
    have hblock (block : List Statement) (_ : otherwise = some block) := scopeLaw.onBlock env block
    have hreads := (scopeLaw.onBlock env body).conditional hblock scope goal defined head
    exact .inl (hreads.of_exec h)
  | expression value =>
    rw [walkStatement_expression, exec_bind_eq_error] at h
    rcases h with h | ⟨_, _, -, h⟩
    · exact .inl ((scopeLaw.reads_typeOf env scope value).of_exec h)
    · cases h
  | pass span =>
    rw [walkStatement_pass] at h
    cases h
  | unsupported span construct =>
    rw [walkStatement_unsupported] at h
    exact .inl ((keeps_throw (R := SameScopes) _).of_exec h)

theorem sameScopes_of_error {s : Statement} {σ τ : WalkState} {e : CheckError}
    (h : exec (walkStatement env scope goal defined s) σ = (.error e, τ))
    (he : ∀ message span, e ≠ .suspicion message span) : SameScopes σ τ := by
  rcases fails_walkStatement s σ e τ h with hs | ⟨a, -, hs | ⟨⟨message, span, hm⟩, -⟩⟩
  · exact hs
  · exact hs
  · exact absurd hm (he message span)

theorem Outcome.andThen_passedOver (o : Outcome) :
    o.andThen .passedOver = { o with escaped := true } := by
  obtain ⟨returns, always, escaped⟩ := o
  cases returns <;> simp [andThen, passedOver, mergeReturns]

/-- How a block with the outcome `before` goes on with `rest` after a failed statement: it goes on
after what it passes over, and ends with any other failure. -/
def resume (env : Env) (scope : ScopeId) (goal : Option Goal) (defined : List String)
    (before : Outcome) (rest : List Statement) (τ : WalkState) :
    CheckError → Except CheckError Outcome × WalkState
  | .unsupported construct span =>
    exec (walkStatements env scope goal defined { before with escaped := true } rest)
      (τ.logged (.unsupported construct span.line))
  | e => (.error e, τ)

theorem walkStatements_of_error {s : Statement} {σ τ : WalkState} {e : CheckError}
    (h : exec (walkStatement env scope goal defined s) σ = (.error e, τ)) (before : Outcome)
    (rest : List Statement) :
    exec (walkStatements env scope goal defined before (s :: rest)) σ =
      resume env scope goal (definedAfter defined s) before rest τ e := by
  rw [walkStatements_cons, exec_bind, exec_tolerate, h]
  cases e with
  | unsupported construct span =>
    change exec (walkStatements env scope goal _ (before.andThen .passedOver) rest) _ = _
    rw [Outcome.andThen_passedOver, resume]
  | heresy _ _ | suspicion _ _ => rfl

/-- **A failed statement is undone**: the scopes are those from before, unless an assignment ends
with a suspicion after it has bound its target. -/
theorem failed_statement_undone {s : Statement} {σ τ : WalkState} {e : CheckError}
    (h : exec (walkStatement env scope goal defined s) σ = (.error e, τ)) :
    (∀ message span, e = .heresy message span → τ.scopes = σ.scopes) ∧
    (∀ construct span, e = .unsupported construct span → τ.scopes = σ.scopes) ∧
    (∀ message span, e = .suspicion message span → τ.scopes = σ.scopes ∨
      ∃ a place id ty, s = .assignment a ∧ a.targets = [.name place id] ∧
        τ.scopes = σ.scopes.add scope id.name ty) ∧
    ∀ before rest, exec (walkStatements env scope goal defined before (s :: rest)) σ =
      resume env scope goal (definedAfter defined s) before rest τ e := by
  refine ⟨?_, ?_, ?_, walkStatements_of_error h⟩
  · rintro message span rfl
    exact sameScopes_of_error h nofun
  · rintro construct span rfl
    exact sameScopes_of_error h nofun
  · rintro message span rfl
    rcases fails_walkStatement s σ _ τ h with hs | ⟨a, rfl, hs | ⟨-, place, id, ty, ht, hs⟩⟩
    · exact .inl hs
    · exact .inl hs
    · exact .inr ⟨a, place, id, ty, rfl, ht, hs⟩

/-- A branch that rebinds a function defined in it, which is suspicious. -/
def rebindingBranch : Statement :=
  .conditional ⟨.none, .opening, .name .none ⟨"c", .none⟩⟩
    [.function ⟨⟨"f", .none⟩, .none, [], none⟩ [.pass .none],
      .assignment ⟨.none, [.name .none ⟨"f", .none⟩], none, some (.literal .none (.integer 1))⟩]
    none

/-- The suspicion in the branch leaves no trace of the function or of its new value. -/
theorem rebindingBranch_undone :
    let start : WalkState := ⟨.empty, .start (some 0)⟩
    (exec (walkStatement ⟨.standard, ∅⟩ Scopes.root none [] rebindingBranch) start).1 =
      .error (.suspicion "'f' was bound to a function and is rebound to 'int'" .none) ∧
    (exec (walkStatement ⟨.standard, ∅⟩ Scopes.root none [] rebindingBranch) start).2.scopes =
      .empty := by
  intro start
  have h : (exec (walkStatement ⟨.standard, ∅⟩ Scopes.root none [] rebindingBranch) start).1 =
      .error (.suspicion "'f' was bound to a function and is rebound to 'int'" .none) := by
    decide +kernel
  refine ⟨h, ?_⟩
  rcases (failed_statement_undone (Prod.ext h rfl)).2.2.1 _ _ rfl with hs | ⟨a, _, _, _, ha, -⟩
  · exact hs
  · cases ha

end Gradual
