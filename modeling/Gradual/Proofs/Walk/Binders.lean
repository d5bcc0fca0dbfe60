import Gradual.Proofs.Walk.Scopes
import Gradual.Proofs.Walk.Ways

/-!
# What a statement binds

A statement binds at most one name in the scope that it stands in, and this name is one that it is
to bind by its form.

* `Statement.binders`: the names that an assignment or a definition is to bind;
* `MayBind`: no change of the scopes, or one more binding of one of these names;
* **`mayBind_walkStatement`**: what the check of a statement binds, whether it fails or not.
-/

namespace Gradual

open Effect Source

/-! ## Binders -/

mutual

/-- The names in a target of an assignment. -/
def Expr.targetNames : Expr → List String
  | .name _ id => [id.name]
  | .tuple _ elements => targetNamesOf elements
  | _ => []
termination_by structural e => e

/-- The names in some targets of an assignment. -/
def targetNamesOf : List Expr → List String
  | [] => []
  | e :: rest => e.targetNames ++ targetNamesOf rest
termination_by structural es => es

end

/-- The names that an assignment or a definition is to bind. -/
def Statement.binders : Statement → List String
  | .assignment a => targetNamesOf a.targets
  | .function head _ => [head.name.name]
  | _ => []

/-! ## At most one binding -/

variable {α β : Type} {env : Env} {scope : ScopeId} {names : List String} {σ τ : WalkState}

/-- The scopes are the same, up to one more binding of one of the names in the scope `scope`. -/
def MayBind (scope : ScopeId) (names : List String) (σ τ : WalkState) : Prop :=
  SameScopes σ τ ∨ ∃ n ∈ names, ∃ ty, τ.scopes = σ.scopes.add scope n ty

theorem MayBind.lookupLocal_eq {n : String} (h : MayBind scope names σ τ) (hn : n ∉ names) :
    τ.scopes.lookupLocal scope n = σ.scopes.lookupLocal scope n := by
  rcases h with h | ⟨m, hm, ty, h⟩
  · rw [h]
  · have hne : m ≠ n := fun hmn => hn (hmn ▸ hm)
    rw [h, Scopes.lookupLocal_add, if_neg hne]

theorem keeps_bind_mayBind {x : Walk α} {f : α → Walk β} (hx : Keeps SameScopes x)
    (hf : ∀ a, Keeps (MayBind scope names) (f a)) : Keeps (MayBind scope names) (x >>= f) := by
  refine keeps_seq (fun σ τ h => .inl h) (fun σ τ ρ h k => ?_) hx hf
  rw [MayBind, SameScopes, ← h]
  exact k

theorem keeps_mayBind_bind {x : Walk α} {f : α → Walk β} (hx : Keeps (MayBind scope names) x)
    (hf : ∀ a, Keeps SameScopes (f a)) : Keeps (MayBind scope names) (x >>= f) := by
  refine keeps_seq (fun σ τ h => h) (fun σ τ ρ h k => ?_) hx hf
  rw [MayBind, SameScopes, k]
  exact h

theorem mayBind_bindName {n : String} (hn : n ∈ names) (scope : ScopeId) (ty : Ty) :
    Keeps (MayBind scope names) (Walk.bindName scope n ty) :=
  fun _ => .inr ⟨n, hn, ty, rfl⟩

theorem mayBind_of_reads {x : Walk α} (h : Keeps SameScopes x) : Keeps (MayBind scope names) x :=
  h.mono fun _ _ hs => .inl hs

/-! ## Statements -/

theorem mayBind_walkFunction (env : Env) (scope : ScopeId) (head : FunctionHead)
    (body : List Statement) :
    Keeps (MayBind scope [head.name.name]) (walkFunction env scope head body) :=
  keeps_bind_mayBind (scopeLaw.reads_checkHeader env scope head) fun declared =>
    keeps_bind_mayBind (scopeLaw.reads_record scope _) fun _ =>
      keeps_bind_mayBind ((scopeLaw.onBlock env body).walkBody scope head declared) fun _ =>
        keeps_bind_mayBind (scopeLaw.reads_record scope _) fun _ =>
          keeps_bind_mayBind (scopeLaw.reads_require scope _ (Complaint.ofRule_heresy rfl _))
            fun _ => mayBind_bindName (List.mem_singleton.2 rfl) scope _

theorem mayBind_rebind (scope : ScopeId) (defined : List String) (name : String) (span : Span)
    (ty : Ty) : Keeps (MayBind scope [name]) (rebind scope defined name span ty) := by
  refine keeps_bind_mayBind (fun _ => rfl) fun σ => ?_
  exact keeps_mayBind_bind (mayBind_bindName (List.mem_singleton.2 rfl) scope ty) fun _ =>
    scopeLaw.reads_require scope _ (Complaint.ofRule_suspicion rfl _)

theorem mayBind_checkAssignment (env : Env) (scope : ScopeId) (defined : List String)
    (a : Assignment) :
    Keeps (MayBind scope (targetNamesOf a.targets)) (checkAssignment env scope defined a) := by
  unfold checkAssignment
  split
  next span id ha =>
    rw [ha]
    refine keeps_bind_mayBind (scopeLaw.reads_require scope _ (Complaint.ofRule_heresy rfl _))
      fun _ => ?_
    refine keeps_bind_mayBind (scopeLaw.reads_statedType env scope a) fun declared => ?_
    refine keeps_bind_mayBind (scopeLaw.reads_mapM (scopeLaw.reads_typeOf env scope) a.value)
      fun value => ?_
    refine keeps_bind_mayBind (scopeLaw.reads_liftExcept scope (ruled_boundType _ _ _ _))
      fun ty? => ?_
    cases ty? with
    | none => exact mayBind_of_reads (keeps_pure ())
    | some ty => exact mayBind_rebind scope defined id.name a.span ty
  · exact mayBind_of_reads (keeps_throw _)
  · exact mayBind_of_reads (keeps_throw _)

/-- **A statement binds at most one name**, one of those that it is to bind, whether its check fails
or not. -/
theorem mayBind_walkStatement (env : Env) (scope : ScopeId) (goal : Option Goal)
    (defined : List String) (s : Statement) :
    Keeps (MayBind scope s.binders) (walkStatement env scope goal defined s) := by
  cases s with
  | function head body =>
    rw [walkStatement_function]
    exact keeps_mayBind_bind (mayBind_walkFunction env scope head body) fun _ => keeps_pure _
  | assignment a =>
    rw [walkStatement_assignment]
    exact keeps_mayBind_bind (mayBind_checkAssignment env scope defined a) fun _ => keeps_pure _
  | returns span value =>
    rw [walkStatement_returns]
    exact mayBind_of_reads (keeps_bind (scopeLaw.reads_checkReturn env scope goal span value)
      fun _ => keeps_pure _)
  | conditional head body otherwise =>
    have hblock (block : List Statement) (_ : otherwise = some block) := scopeLaw.onBlock env block
    exact mayBind_of_reads ((scopeLaw.onBlock env body).conditional hblock scope goal defined head)
  | expression value =>
    rw [walkStatement_expression]
    exact mayBind_of_reads (keeps_bind (scopeLaw.reads_typeOf env scope value) fun _ =>
      keeps_pure _)
  | pass span =>
    rw [walkStatement_pass]
    exact mayBind_of_reads (keeps_pure _)
  | unsupported span construct =>
    rw [walkStatement_unsupported]
    exact mayBind_of_reads (keeps_throw _)

theorem scopes_after (goal : Option Goal) (p : Place) (s : Statement) :
    (p.after env goal s).state.scopes = (p.check env goal s).2.scopes := by
  rw [Place.after, scopes_tolerate, Place.check]

end Gradual
