import Gradual.Check.Module
import Gradual.Proofs.Effect
import Gradual.Proofs.Scopes

/-!
# Running walks

What each step of a walk does to the scopes and the log, and the walk of a statement in terms of
the walks of its parts.

* `exec_inChild`, `exec_tolerate`, `exec_typeOf`: the steps;
* `walkBlock`, `walkBranch`, `walkBody`, `walkFunction`: the parts of a walk by name;
* `Statement.block_induction`: induction on statements and blocks together.
-/

namespace Gradual

open Effect Source

/-! ## States -/

namespace WalkState

/-- The state after an event is recorded in the log. -/
def logged (σ : WalkState) (event : Event) : WalkState := { σ with log := σ.log.record event }

/-- The state with a name bound in a scope. -/
def bound (σ : WalkState) (scope : ScopeId) (name : String) (ty : Ty) : WalkState :=
  { σ with scopes := σ.scopes.add scope name ty }

/-- The state with one more scope, which lies inside `scope`. -/
def opened (σ : WalkState) (scope : ScopeId) : WalkState :=
  { σ with scopes := (σ.scopes.extend scope).1 }

/-- The scope that is opened next. -/
def fresh (σ : WalkState) : ScopeId := ⟨σ.scopes.frames.size⟩

/-- The state with a scope closed. -/
def closed (σ : WalkState) (scope : ScopeId) : WalkState :=
  { σ with scopes := σ.scopes.discard scope }

@[simp] theorem logged_scopes (σ : WalkState) (event : Event) :
    (σ.logged event).scopes = σ.scopes := rfl

@[simp] theorem bound_scopes (σ : WalkState) (scope : ScopeId) (name : String) (ty : Ty) :
    (σ.bound scope name ty).scopes = σ.scopes.add scope name ty := rfl

end WalkState

/-! ## Steps -/

variable {α : Type}

@[simp]
theorem exec_record (event : Event) (σ : WalkState) :
    exec (Walk.record event) σ = (.ok (), σ.logged event) := rfl

@[simp]
theorem exec_bindName (scope : ScopeId) (name : String) (ty : Ty) (σ : WalkState) :
    exec (Walk.bindName scope name ty) σ = (.ok (), σ.bound scope name ty) := rfl

theorem exec_require (holds : Bool) (e : CheckError) (σ : WalkState) :
    exec (Walk.require holds e) σ = (if holds then .ok () else .error e, σ) := by
  cases holds <;> rfl

theorem exec_inChild (scope : ScopeId) (body : ScopeId → Walk α) (σ : WalkState) :
    exec (Walk.inChild scope body) σ =
      ((exec (body σ.fresh) (σ.opened scope)).1,
        (exec (body σ.fresh) (σ.opened scope)).2.closed σ.fresh) := by
  change exec (liftExcept (exec (body σ.fresh) (σ.opened scope)).1 : Walk α)
    ((exec (body σ.fresh) (σ.opened scope)).2.closed σ.fresh) = _
  rw [exec_liftExcept]

theorem exec_tolerate (skipped : α) (body : Walk α) (σ : WalkState) :
    exec (Walk.tolerate skipped body) σ = match exec body σ with
      | (.error (.unsupported construct span), τ) =>
        (.ok skipped, τ.logged (.unsupported construct span.line))
      | r => r := by
  rw [Walk.tolerate, exec_tryCatch]
  rcases exec body σ with ⟨(_ | _ | _) | _, _⟩ <;> rfl

/-- To pass over an error changes the log only. -/
theorem scopes_tolerate (skipped : α) (body : Walk α) (σ : WalkState) :
    (exec (Walk.tolerate skipped body) σ).2.scopes = (exec body σ).2.scopes := by
  rw [exec_tolerate]
  split
  next h => rw [h, WalkState.logged_scopes]
  next => rfl

theorem result_tolerate_eq_ok {skipped a : α} {body : Walk α} {σ : WalkState} :
    (exec (Walk.tolerate skipped body) σ).1 = .ok a ↔ (exec body σ).1 = .ok a ∨
      (∃ construct span, (exec body σ).1 = .error (.unsupported construct span)) ∧ a = skipped := by
  rw [exec_tolerate]
  rcases exec body σ with ⟨(_ | _ | _) | _, _⟩ <;> simp [eq_comm]

theorem exec_typeOf (env : Env) (scope : ScopeId) (e : Expr) (σ : WalkState) :
    exec (Walk.typeOf env scope e) σ =
      ((exec (infer env.builtins (σ.scopes.lookup scope) e) σ.log).1,
        ⟨σ.scopes, (exec (infer env.builtins (σ.scopes.lookup scope) e) σ.log).2⟩) := rfl

/-! ## Parts of a walk -/

/-- The walk of a block: its functions are declared, and then its statements are checked. -/
def walkBlock (env : Env) (scope : ScopeId) (goal : Option Goal) (block : List Statement) :
    Walk Outcome := do
  declareAll scope block
  walkStatements env scope goal [] .proceeds block

/-- The walk of a branch of a conditional, in a scope of its own. -/
def walkBranch (env : Env) (scope : ScopeId) (goal : Option Goal) (block : List Statement) :
    Walk Outcome :=
  Walk.inChild scope fun inner => walkBlock env inner goal block

/-- The walk of the body of a function, in a scope of its own that binds the parameters. -/
def walkBody (env : Env) (scope : ScopeId) (head : FunctionHead) (declared : Signature)
    (body : List Statement) : Walk Outcome :=
  Walk.inChild scope fun inner => do
    bindParameters inner declared
    walkBlock env inner (some ⟨head.name.name, declared.ret⟩) body

/-- The check of a function definition. -/
def walkFunction (env : Env) (scope : ScopeId) (head : FunctionHead) (body : List Statement) :
    Walk Unit := do
  let declared ← checkHeader env scope head
  Walk.record (.entering head.name.name head.span.line)
  let outcome ← walkBody env scope head declared body
  concludeFunction scope head declared outcome

/-- A function whose header states no signature is refused at once. -/
theorem walkFunction_of_refused {head : FunctionHead} {e : CheckError}
    (h : declaredSignature head = .error e) (env : Env) (scope : ScopeId) (body : List Statement)
    (σ : WalkState) : exec (walkFunction env scope head body) σ = (.error e, σ) := by
  have hheader : exec (checkHeader env scope head) σ = (.error e, σ) := by
    rw [checkHeader]
    exact exec_bind_of_error (by rw [exec_liftExcept, h])
  exact exec_bind_of_error hheader

/-- The state in which the body of a function is walked, from that after its header. -/
def WalkState.inBody (σ : WalkState) (scope : ScopeId) (head : FunctionHead)
    (declared : Signature) : WalkState :=
  (exec (bindParameters σ.fresh declared)
    ((σ.logged (.entering head.name.name head.span.line)).opened scope)).2

/-- The type of what a `return` statement returns. -/
def returnedType (env : Env) (scope : ScopeId) : Option Expr → Walk Ty
  | some e => Walk.typeOf env scope e
  | none => return .none

section Parts

variable (env : Env) (scope : ScopeId) (goal : Option Goal) (defined : List String)

theorem checkReturn_some (goal : Goal) (span : Span) (value : Option Expr) :
    checkReturn env scope (some goal) span value = (do
      let ty ← returnedType env scope value
      Walk.record (.returning ty goal.expected span.line)
      Walk.require (ty.fits goal.expected)
        ((Complaint.returnMismatch goal.function ty goal.expected).heresy span)
      return ty) := by
  cases value <;> rfl

theorem walkStatement_function (head : FunctionHead) (body : List Statement) :
    walkStatement env scope goal defined (.function head body) = (do
      walkFunction env scope head body
      return .proceeds) := by
  rw [walkStatement]
  simp only [walkFunction, bind_assoc]
  rfl

theorem walkStatement_function_eq_ok {head : FunctionHead} {body : List Statement} {o : Outcome}
    {σ τ : WalkState} :
    exec (walkStatement env scope goal defined (.function head body)) σ = (.ok o, τ) ↔
      exec (walkFunction env scope head body) σ = (.ok (), τ) ∧ o = .proceeds := by
  rw [walkStatement_function, exec_bind_eq_ok]
  constructor
  · rintro ⟨_, _, h, hend⟩
    cases hend
    exact ⟨h, rfl⟩
  · rintro ⟨h, rfl⟩
    exact ⟨(), τ, h, rfl⟩

theorem walkStatement_function_eq_error {head : FunctionHead} {body : List Statement}
    {e : CheckError} {σ τ : WalkState} :
    exec (walkStatement env scope goal defined (.function head body)) σ = (.error e, τ) ↔
      exec (walkFunction env scope head body) σ = (.error e, τ) := by
  rw [walkStatement_function, exec_bind_eq_error]
  constructor
  · rintro (h | ⟨_, _, -, hend⟩)
    · exact h
    · cases hend
  · exact .inl

theorem walkStatement_assignment (a : Assignment) :
    walkStatement env scope goal defined (.assignment a) = (do
      checkAssignment env scope defined a
      return .proceeds) :=
  rfl

theorem walkStatement_returns (span : Span) (value : Option Expr) :
    walkStatement env scope goal defined (.returns span value) = (do
      let ty ← checkReturn env scope goal span value
      return .returning ty) :=
  rfl

theorem walkOtherwise_none : walkOtherwise env scope goal none = pure .proceeds :=
  rfl

theorem walkOtherwise_some (block : List Statement) :
    walkOtherwise env scope goal (some block) = walkBranch env scope goal block :=
  rfl

theorem walkStatement_conditional (head : Condition) (body : List Statement)
    (otherwise : Option (List Statement)) :
    walkStatement env scope goal defined (.conditional head body otherwise) = (do
      Walk.require (!hasElif otherwise) (Escape.elifChain.error head.span)
      Walk.record (.exploring (goal.map (·.expected)) head.span.line)
      let consequent ← walkBranch env scope goal body
      let alternative ← walkOtherwise env scope goal otherwise
      return consequent.orElse alternative) :=
  rfl

theorem walkStatement_expression (e : Expr) :
    walkStatement env scope goal defined (.expression e) = (do
      let _ ← Walk.typeOf env scope e
      return .proceeds) :=
  rfl

theorem walkStatement_pass (span : Span) :
    walkStatement env scope goal defined (.pass span) = pure .proceeds :=
  rfl

theorem walkStatement_unsupported (span : Span) (construct : Construct) :
    walkStatement env scope goal defined (.unsupported span construct) =
      throw ((Escape.construct construct).error span) :=
  rfl

theorem walkStatements_nil (before : Outcome) :
    walkStatements env scope goal defined before [] = pure before :=
  rfl

theorem walkStatements_cons (before : Outcome) (s : Statement) (rest : List Statement) :
    walkStatements env scope goal defined before (s :: rest) = (do
      let outcome ← Walk.tolerate .passedOver (walkStatement env scope goal defined s)
      walkStatements env scope goal (definedAfter defined s) (before.andThen outcome) rest) :=
  rfl

end Parts

/-! ## Induction -/

/-- **Induction on statements and blocks together.** -/
theorem Statement.block_induction {P : Statement → Prop} {Q : List Statement → Prop}
    (function : ∀ head body, Q body → P (.function head body))
    (assignment : ∀ a, P (.assignment a))
    (returns : ∀ span value, P (.returns span value))
    (conditional : ∀ head body otherwise, Q body → (∀ block, otherwise = some block → Q block) →
      P (.conditional head body otherwise))
    (expression : ∀ e, P (.expression e))
    (pass : ∀ span, P (.pass span))
    (unsupported : ∀ span construct, P (.unsupported span construct))
    (nil : Q []) (cons : ∀ s rest, P s → Q rest → Q (s :: rest)) :
    (∀ s, P s) ∧ ∀ block, Q block := by
  have hsome : ∀ block, Q block → ∀ b, some block = some b → Q b := by
    intro block h b hb
    cases hb
    exact h
  constructor
  · exact @Statement.rec P Q (fun o => ∀ block, o = some block → Q block) function assignment
      returns conditional expression pass unsupported nil cons nofun hsome
  · exact @Statement.rec_1 P Q (fun o => ∀ block, o = some block → Q block) function assignment
      returns conditional expression pass unsupported nil cons nofun hsome

end Gradual
