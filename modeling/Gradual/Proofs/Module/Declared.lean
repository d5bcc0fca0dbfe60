import Gradual.Proofs.Lookup
import Gradual.Proofs.Module.Steps

/-!
# Declared functions

The first walk of a block or of a module binds the functions that it defines to the signatures that
their headers state. A function whose header states none stays unbound, and of several functions
with one name the last one counts.

* `Statement.declaredAs`: the signature that a statement declares a name with;
* `Scopes.declared`: the scopes after the declaration of a statement;
* `scopes_declareAll`, `Checker.scopes_declareModule`: the scopes after the first walk;
* **`Scopes.lookupLocal_declared`**, **`Scopes.lookup_declared`**: what the first walk binds.
-/

namespace Gradual

open Effect

variable {scope : ScopeId} {s : Scopes} {n : String}

/-- The signature that a statement declares the name `n` with. -/
def Statement.declaredAs : Statement → String → Option Signature
  | .function head _, n => if head.name.name = n then (declaredSignature head).toOption else none
  | _, _ => none

theorem Statement.declaredAs_function {head : FunctionHead} {declared : Signature}
    (h : declaredSignature head = .ok declared) (body : List Statement) :
    (Statement.function head body).declaredAs head.name.name = some declared := by
  rw [declaredAs, if_pos rfl, h]
  rfl

/-- The signature that the last declaration of a name in a block states. -/
def lastDeclared (block : List Statement) (n : String) : Option Signature :=
  block.reverse.findSome? (·.declaredAs n)

theorem lastDeclared_append (A B : List Statement) (n : String) :
    lastDeclared (A ++ B) n = (lastDeclared B n).or (lastDeclared A n) := by
  rw [lastDeclared, List.reverse_append, List.findSome?_append]
  rfl

theorem lastDeclared_cons (d : Statement) (block : List Statement) (n : String) :
    lastDeclared (d :: block) n = (lastDeclared block n).or (d.declaredAs n) := by
  have hd : lastDeclared [d] n = d.declaredAs n := by
    cases h : d.declaredAs n <;> simp [lastDeclared, h]
  rw [← hd]
  exact lastDeclared_append [d] block n

theorem lastDeclared_isSome {block : List Statement} {n : String} :
    (lastDeclared block n).isSome ↔ ∃ d ∈ block, (d.declaredAs n).isSome := by
  simp [lastDeclared, List.isSome_findSome?]

namespace Scopes

/-- The scopes after the declaration of a statement in the scope `scope`. -/
def declared (scope : ScopeId) (s : Scopes) : Statement → Scopes
  | .function head _ =>
    match declaredSignature head with
    | .ok signature => s.add scope head.name.name (.func signature)
    | .error _ => s
  | _ => s

/-! ## One declaration -/

theorem onlyBinds_declared (scope : ScopeId) (s : Scopes) (d : Statement) :
    OnlyBinds scope s (s.declared scope d) := by
  unfold declared
  split
  · split
    · exact onlyBinds_add s scope _ _
    · exact .refl scope s
  · exact .refl scope s

theorem declared_cases (scope : ScopeId) (s : Scopes) (d : Statement) :
    (s.declared scope d = s ∧ ∀ n, d.declaredAs n = none) ∨
    ∃ name signature, s.declared scope d = s.add scope name (.func signature) ∧
      ∀ n, d.declaredAs n = if name = n then some signature else none := by
  cases d with
  | function head body =>
    cases h : declaredSignature head with
    | ok signature =>
      refine .inr ⟨head.name.name, signature, ?_, fun n => ?_⟩
      · rw [declared, h]
      · rw [Statement.declaredAs, h]
        rfl
    | error e =>
      refine .inl ⟨?_, fun n => ?_⟩
      · rw [declared, h]
      · rw [Statement.declaredAs, h]
        split <;> rfl
  | _ => exact .inl ⟨rfl, fun _ => rfl⟩

/-! ## All declarations -/

/-- What the first walk does to a view of the scopes that shows the type bound to `n`. -/
theorem view_declared {V : Scopes → Option Ty}
    (hself : ∀ (s : Scopes) (ty : Ty), s.Open scope → V (s.add scope n ty) = some ty)
    (hne : ∀ (s : Scopes) (name : String) (ty : Ty), name ≠ n → V (s.add scope name ty) = V s)
    (h : s.Open scope) (block : List Statement) :
    V (block.foldl (declared scope) s) = ((lastDeclared block n).map Ty.func).or (V s) := by
  induction block generalizing s with
  | nil => rfl
  | cons d block ih =>
    have hopen := ((onlyBinds_declared scope s d).open_iff scope).2 h
    have hd : V (s.declared scope d) = ((d.declaredAs n).map Ty.func).or (V s) := by
      rcases declared_cases scope s d with ⟨hs, hd⟩ | ⟨name, signature, hs, hd⟩
      · rw [hs, hd, Option.map_none, Option.none_or]
      · rw [hs, hd]
        by_cases hn : name = n
        · rw [hn, hself s _ h, if_pos rfl]
          rfl
        · rw [hne s name _ hn, if_neg hn]
          rfl
    rw [List.foldl_cons, ih hopen, hd, lastDeclared_cons, Option.map_or, Option.or_assoc]

/-- **The last declaration of a name counts** in the scope of the block. -/
theorem lookupLocal_declared (h : s.Open scope) (block : List Statement) (n : String) :
    (block.foldl (declared scope) s).lookupLocal scope n =
      ((lastDeclared block n).map Ty.func).or (s.lookupLocal scope n) := by
  refine view_declared (V := fun s => s.lookupLocal scope n) (fun s ty hs => ?_)
    (fun s name ty hn => ?_) h block
  · exact lookupLocal_add_self hs n ty
  · rw [lookupLocal_add, if_neg hn]

/-- **The first walk makes its declarations visible** in the scope of the block, and hides nothing
else. -/
theorem lookup_declared (h : s.Open scope) (block : List Statement) (n : String) :
    (block.foldl (declared scope) s).lookup scope n =
      ((lastDeclared block n).map Ty.func).or (s.lookup scope n) :=
  view_declared (V := fun s => s.lookup scope n) (fun _ ty hs => lookup_add_self hs n ty)
    (fun s _ ty hn => lookup_add_of_ne hn s scope ty scope) h block

end Scopes

/-! ## The first walk -/

theorem scopes_tolerate_declare (scope : ScopeId) (d : Statement) (σ : WalkState) :
    (exec (Walk.tolerate () (declare scope d)) σ).2.scopes = σ.scopes.declared scope d := by
  rw [scopes_tolerate]
  cases d with
  | function head body =>
    rw [declare, Scopes.declared]
    cases h : declaredSignature head <;> rfl
  | _ => rfl

theorem declareAll_cons (scope : ScopeId) (d : Statement) (block : List Statement) :
    declareAll scope (d :: block) = (do
      Walk.tolerate () (declare scope d)
      declareAll scope block) := rfl

/-- The scopes after the first walk of a block, if nothing is found in it. -/
theorem scopes_declareAll {block : List Statement} {σ τ : WalkState}
    (h : exec (declareAll scope block) σ = (.ok (), τ)) :
    τ.scopes = block.foldl (Scopes.declared scope) σ.scopes := by
  induction block generalizing σ with
  | nil =>
    cases h
    rfl
  | cons d block ih =>
    rw [declareAll_cons, exec_bind_eq_ok] at h
    obtain ⟨_, ρ, hd, h⟩ := h
    rw [ih h, List.foldl_cons, ← scopes_tolerate_declare, hd]

/-- The scopes after the first walk of a module. -/
theorem Checker.scopes_declareModule (c : Checker) (module : List Statement) :
    (c.declareModule module).state.scopes =
      module.foldl (Scopes.declared moduleScope) c.state.scopes := by
  induction module generalizing c with
  | nil => rfl
  | cons d module ih =>
    rw [declareModule_cons, ih, declareStep, settle_state, scopes_tolerate_declare,
      List.foldl_cons]

end Gradual
