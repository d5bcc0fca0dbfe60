import Gradual.Proofs.Inference
import Gradual.Proofs.Lookup
import Gradual.Proofs.Walk.Scopes

/-!
# Visible names

A name that has a type where a statement stands keeps to have one while the statement is checked, in
its own scope and in those inside it. So the check never finds that this name is undefined.

* `WalkState.Sees`: a name has a type, seen from a scope;
* **`visibleLaw`**: no walk finds a visible name to be undefined;
* `walkStatement_bareName`: the bare use of a name fails if and only if it is not visible.
-/

namespace Gradual

open Effect Source

variable {α β : Type} {scope : ScopeId} {name : String} {σ τ : WalkState}

/-! ## What a scope sees -/

/-- A name has a type, seen from a scope: as a constant, or bound there or around it. -/
def WalkState.Sees (σ : WalkState) (scope : ScopeId) (name : String) : Prop :=
  HasType (σ.scopes.lookup scope) name

theorem WalkState.sees_iff : σ.Sees scope name ↔
    (constantType? name).isSome ∨ (σ.scopes.lookup scope name).isSome := by
  simp [Sees, HasType]

theorem WalkState.Sees.of_grows (h : σ.Sees scope name) (hg : σ.scopes.Grows τ.scopes) :
    τ.Sees scope name :=
  sees_iff.2 ((sees_iff.1 h).imp_right hg.lookup_isSome)

theorem WalkState.Sees.of_bindsIn {inner : ScopeId} (h : σ.Sees scope name)
    (hb : BindsIn inner σ τ) : τ.Sees scope name :=
  h.of_grows hb.grows

theorem WalkState.Sees.opened (h : σ.Sees scope name) : (σ.opened scope).Sees σ.fresh name :=
  sees_iff.2 ((sees_iff.1 h).imp_right Scopes.lookup_extend_isSome)

/-! ## Walks -/

/-- A walk does not find that the name is undefined, wherever it is visible from the scope. -/
def Heeds (scope : ScopeId) (name : String) (x : Walk α) : Prop :=
  ∀ σ : WalkState, σ.Sees scope name → NotUndefined name x σ

theorem heeds_bind {x : Walk α} {f : α → Walk β} (hx : Heeds scope name x)
    (hk : Keeps (BindsIn scope) x) (hf : ∀ a, Heeds scope name (f a)) :
    Heeds scope name (x >>= f) :=
  fun σ hσ => notUndefined_bind (hx σ hσ) fun a => hf a _ (hσ.of_bindsIn (hk σ))

theorem heeds_typeOf (env : Env) (scope : ScopeId) (e : Expr) :
    Heeds scope name (Walk.typeOf env scope e) := by
  intro σ hσ
  rw [NotUndefined, exec_typeOf]
  exact infer_not_undefined env.builtins hσ e σ.log

theorem heeds_tolerate {skipped : α} {x : Walk α} (h : Heeds scope name x) :
    Heeds scope name (Walk.tolerate skipped x) := by
  intro σ hσ e he
  have hx := h σ hσ e
  rw [exec_tolerate] at he
  split at he
  · cases he
  · exact hx he

theorem heeds_inChild {body : ScopeId → Walk α} (h : ∀ inner, Heeds inner name (body inner)) :
    Heeds scope name (Walk.inChild scope body) := by
  intro σ hσ
  rw [NotUndefined, exec_inChild]
  exact h σ.fresh (σ.opened scope) hσ.opened

/-- **No walk finds a visible name to be undefined.** -/
def visibleLaw (name : String) : WalkLaw where
  Reads scope x := Keeps SameScopes x ∧ Heeds scope name x
  Binds scope x := Keeps (BindsIn scope) x ∧ Heeds scope name x
  reads_pure _ a := ⟨keeps_pure a, fun _ _ => notUndefined_pure a⟩
  reads_throw _ _ h := ⟨keeps_throw _, fun _ _ => notUndefined_throw (h name)⟩
  reads_bind hx hf := ⟨keeps_bind hx.1 fun a => (hf a).1,
    heeds_bind hx.2 (hx.1.mono fun _ _ hs => hs.bindsIn) fun a => (hf a).2⟩
  reads_record scope event := ⟨scopeLaw.reads_record scope event, fun _ _ => nofun⟩
  reads_typeOf env scope e := ⟨scopeLaw.reads_typeOf env scope e, heeds_typeOf env scope e⟩
  reads_localType scope name := ⟨scopeLaw.reads_localType scope name, fun _ _ => nofun⟩
  reads_inChild h :=
    ⟨keeps_inChild fun inner => (h inner).1, heeds_inChild fun inner => (h inner).2⟩
  binds_of_reads h := ⟨scopeLaw.binds_of_reads h.1, h.2⟩
  binds_bind hx hf := ⟨keeps_bind hx.1 fun a => (hf a).1, heeds_bind hx.2 hx.1 fun a => (hf a).2⟩
  binds_bindName scope name ty := ⟨scopeLaw.binds_bindName scope name ty, fun _ _ => nofun⟩
  binds_tolerate h := ⟨keeps_tolerate h.1, heeds_tolerate h.2⟩

/-- A statement is not found to use a visible name that is undefined. -/
theorem walkStatement_not_undefined (env : Env) (goal : Option Goal) (defined : List String)
    (s : Statement) (h : σ.Sees scope name) :
    NotUndefined name (walkStatement env scope goal defined s) σ :=
  ((visibleLaw name).binds_walkStatement env scope goal defined s).2 σ h

/-- **The bare use of a name fails if and only if the name is not visible.** -/
theorem walkStatement_bareName (env : Env) (goal : Option Goal) (defined : List String)
    (span : Span) (id : Identifier) :
    (exec (walkStatement env scope goal defined (.expression (.name span id))) σ).1 =
      .error ((Complaint.undefinedName id.name).heresy id.span) ↔ ¬ σ.Sees scope id.name := by
  constructor
  · intro h hσ
    exact walkStatement_not_undefined env goal defined _ hσ _ h ⟨_, rfl, rfl⟩
  · intro h
    have hnone : (constantType? id.name <|> σ.scopes.lookup scope id.name) = none := by
      rw [← Option.not_isSome_iff_eq_none]
      exact h
    have htype : exec (Walk.typeOf env scope (.name span id)) σ =
        (.error ((Complaint.undefinedName id.name).heresy id.span), σ) := by
      rw [exec_typeOf, infer_name, nameType, hnone]
      rfl
    rw [walkStatement_expression, exec_bind_of_error htype]

end Gradual
