import Gradual.Proofs.Inference
import Gradual.Proofs.Walk.Scopes

/-!
# The log is only written

What a check finds, what it binds and which events it notes does not depend on what is in the log
before it.

* `Alike`: the same scopes, and logs that are related in some way;
* **`silenceLaw`**: alike states lead to the same result and to alike states.
-/

namespace Gradual

open Effect

variable {α : Type} {scope : ScopeId} {r : Log → Log → Prop}

/-- The same scopes, and logs related by `r`. -/
structure Alike (r : Log → Log → Prop) (σ τ : WalkState) : Prop where
  scopes : SameScopes σ τ
  log : r σ.log τ.log

theorem Alike.logged {σ τ : WalkState} (hr : Log.Tracks r) (h : Alike r σ τ) (event : Event) :
    Alike r (σ.logged event) (τ.logged event) :=
  ⟨h.scopes, hr _ _ event h.log⟩

theorem respects_bindName (scope : ScopeId) (name : String) (ty : Ty) :
    Respects (Alike r) (Walk.bindName scope name ty) := by
  intro σ τ h
  have hbound : SameScopes (σ.bound scope name ty) (τ.bound scope name ty) := by
    rw [SameScopes, WalkState.bound_scopes, WalkState.bound_scopes, h.scopes]
  exact ⟨rfl, hbound, h.log⟩

theorem respects_typeOf (hr : Log.Tracks r) (env : Env) (scope : ScopeId) (e : Expr) :
    Respects (Alike r) (Walk.typeOf env scope e) := by
  intro σ τ h
  rw [exec_typeOf, exec_typeOf, h.scopes]
  have hinfer := respects_infer hr env.builtins (σ.scopes.lookup scope) e σ.log τ.log h.log
  exact ⟨hinfer.1, rfl, hinfer.2⟩

theorem respects_localType (scope : ScopeId) (name : String) :
    Respects (Alike r) (Walk.localType scope name) := by
  intro σ τ h
  rw [Walk.localType, exec_bind_of_ok (exec_get σ), exec_bind_of_ok (exec_get τ), h.scopes]
  exact ⟨rfl, h⟩

theorem respects_tolerate (hr : Log.Tracks r) {skipped : α} {x : Walk α}
    (h : Respects (Alike r) x) : Respects (Alike r) (Walk.tolerate skipped x) := by
  intro σ τ hs
  obtain ⟨hres, hsc⟩ := h σ τ hs
  rw [exec_tolerate, exec_tolerate]
  rcases hσ : exec x σ with ⟨r, σ'⟩
  rcases hτ : exec x τ with ⟨q, τ'⟩
  rw [hσ, hτ] at hres hsc
  cases hres
  rcases r with (_ | _ | _) | _
  case error.unsupported => exact ⟨rfl, hsc.logged hr _⟩
  all_goals exact ⟨rfl, hsc⟩

theorem respects_inChild {body : ScopeId → Walk α} (h : ∀ inner, Respects (Alike r) (body inner)) :
    Respects (Alike r) (Walk.inChild scope body) := by
  intro σ τ hs
  have hfresh : τ.fresh = σ.fresh := by rw [WalkState.fresh, hs.scopes, WalkState.fresh]
  have hopened : SameScopes (σ.opened scope) (τ.opened scope) := by
    rw [SameScopes, WalkState.opened, WalkState.opened, hs.scopes]
  obtain ⟨hres, hsc⟩ := h σ.fresh _ _ ⟨hopened, hs.log⟩
  rw [exec_inChild, exec_inChild, hfresh]
  refine ⟨hres, ?_, hsc.log⟩
  rw [SameScopes, WalkState.closed, WalkState.closed, hsc.scopes]

/-- **All walks only write the log**, and note the same events whatever is in it. -/
def silenceLaw (hr : Log.Tracks r) : WalkLaw where
  Reads _ := Respects (Alike r)
  Binds _ := Respects (Alike r)
  reads_pure _ := respects_pure
  reads_throw _ _ _ := respects_throw _
  reads_bind := respects_bind
  reads_record _ event _ _ h := ⟨rfl, h.logged hr event⟩
  reads_typeOf := respects_typeOf hr
  reads_localType := respects_localType
  reads_inChild := respects_inChild
  binds_of_reads h := h
  binds_bind := respects_bind
  binds_bindName := respects_bindName
  binds_tolerate := respects_tolerate hr

end Gradual
