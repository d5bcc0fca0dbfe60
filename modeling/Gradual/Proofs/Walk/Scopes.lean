import Gradual.Proofs.Walk.Law

/-!
# What a walk does to the scopes

A walk in a scope binds names in that scope and changes nothing else. What it opens it closes again,
also when it fails.

* `SameScopes`, `BindsIn`: no change of the scopes, and bindings in one scope only;
* `keeps_inChild`: a child scope leaves no trace;
* **`scopeLaw`**: a walk binds in its own scope only.
-/

namespace Gradual

open Effect

variable {α : Type} {scope : ScopeId}

/-! ## Relations between states -/

/-- The scopes are the same. -/
def SameScopes (σ τ : WalkState) : Prop := τ.scopes = σ.scopes

/-- The scopes are the same up to bindings in the scope `scope`. -/
def BindsIn (scope : ScopeId) (σ τ : WalkState) : Prop := σ.scopes.OnlyBinds scope τ.scopes

instance : Std.Refl SameScopes := ⟨fun _ => rfl⟩

instance : Trans SameScopes SameScopes SameScopes := ⟨fun h k => Eq.trans k h⟩

instance : Std.Refl (BindsIn scope) := ⟨fun σ => .refl scope σ.scopes⟩

instance : Trans (BindsIn scope) (BindsIn scope) (BindsIn scope) := ⟨fun h k => h.trans k⟩

theorem SameScopes.bindsIn {σ τ : WalkState} (h : SameScopes σ τ) : BindsIn scope σ τ := by
  rw [BindsIn, h]
  exact .refl scope σ.scopes

/-! ## Steps -/

theorem keeps_tolerate {skipped : α} {x : Walk α} (h : Keeps (BindsIn scope) x) :
    Keeps (BindsIn scope) (Walk.tolerate skipped x) := by
  intro σ
  rw [BindsIn, scopes_tolerate]
  exact h σ

/-- **A child scope leaves no trace**, whether the walk in it fails or not. -/
theorem keeps_inChild {body : ScopeId → Walk α} (h : ∀ inner, Keeps (BindsIn inner) (body inner)) :
    Keeps SameScopes (Walk.inChild scope body) := by
  intro σ
  rw [exec_inChild]
  -- The child is the newest scope again when it is closed, so nothing else is closed with it.
  exact Scopes.discard_of_onlyBinds (h σ.fresh (σ.opened scope))

/-- **A walk binds in its own scope only.** -/
def scopeLaw : WalkLaw where
  Reads _ := Keeps SameScopes
  Binds scope := Keeps (BindsIn scope)
  reads_pure _ := keeps_pure
  reads_throw _ _ _ := keeps_throw _
  reads_bind := keeps_bind
  reads_record _ _ _ := rfl
  reads_typeOf _ _ _ _ := rfl
  reads_localType _ _ _ := rfl
  reads_inChild := keeps_inChild
  binds_of_reads h := h.mono fun _ _ hs => hs.bindsIn
  binds_bind := keeps_bind
  binds_bindName scope name ty σ := Scopes.onlyBinds_add σ.scopes scope name ty
  binds_tolerate := keeps_tolerate

end Gradual
