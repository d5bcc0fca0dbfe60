import Gradual.Proofs.Rules
import Gradual.Proofs.Walk.Run

/-!
# Laws of walks

A law says what holds of the steps of a walk, and how it passes from steps to a walk made of them.
From the steps alone it then follows for the check of each statement.

* `WalkLaw`: a law, for walks that look up names in one scope, and for walks that bind in it;
* **`WalkLaw.binds_walkStatement`**, **`WalkLaw.onBlock`**: laws hold of statements and blocks;
* `WalkLaw.OnBlock.walkBranch`, `WalkLaw.OnBlock.walkBody`: what has a scope of its own.
-/

namespace Gradual

open Effect Source

/-- The type that is bound to a name in the scope itself. -/
def Walk.localType (scope : ScopeId) (name : String) : Walk (Option Ty) := do
  return (← get).scopes.lookupLocal scope name

/-- A law of walks. `Reads` is for those that look up names in a given scope and bind nothing in the
end, and `Binds` for those that also bind in that scope. -/
structure WalkLaw where
  Reads {α : Type} : ScopeId → Walk α → Prop
  Binds {α : Type} : ScopeId → Walk α → Prop
  reads_pure {α : Type} (scope : ScopeId) (a : α) : Reads scope (pure a)
  reads_throw {α : Type} (scope : ScopeId) {e : CheckError} (h : e.OfRule) :
    Reads scope (throw e : Walk α)
  reads_bind {α β : Type} {scope : ScopeId} {x : Walk α} {f : α → Walk β} (hx : Reads scope x)
    (hf : ∀ a, Reads scope (f a)) : Reads scope (x >>= f)
  reads_record (scope : ScopeId) (event : Event) : Reads scope (Walk.record event)
  reads_typeOf (env : Env) (scope : ScopeId) (e : Expr) : Reads scope (Walk.typeOf env scope e)
  reads_localType (scope : ScopeId) (name : String) : Reads scope (Walk.localType scope name)
  reads_inChild {α : Type} {scope : ScopeId} {body : ScopeId → Walk α}
    (h : ∀ inner, Binds inner (body inner)) : Reads scope (Walk.inChild scope body)
  binds_of_reads {α : Type} {scope : ScopeId} {x : Walk α} (h : Reads scope x) : Binds scope x
  binds_bind {α β : Type} {scope : ScopeId} {x : Walk α} {f : α → Walk β} (hx : Binds scope x)
    (hf : ∀ a, Binds scope (f a)) : Binds scope (x >>= f)
  binds_bindName (scope : ScopeId) (name : String) (ty : Ty) :
    Binds scope (Walk.bindName scope name ty)
  binds_tolerate {α : Type} {scope : ScopeId} {skipped : α} {x : Walk α} (h : Binds scope x) :
    Binds scope (Walk.tolerate skipped x)

namespace WalkLaw

variable (L : WalkLaw) {α β : Type} {scope : ScopeId}

/-! ## Steps -/

theorem binds_pure (a : α) : L.Binds scope (pure a) := L.binds_of_reads (L.reads_pure scope a)

theorem binds_throw {e : CheckError} (h : e.OfRule) : L.Binds scope (throw e : Walk α) :=
  L.binds_of_reads (L.reads_throw scope h)

/-- What binds in a scope still does so after something that binds nothing. -/
theorem binds_after {x : Walk α} {f : α → Walk β} (hx : L.Reads scope x)
    (hf : ∀ a, L.Binds scope (f a)) : L.Binds scope (x >>= f) :=
  L.binds_bind (L.binds_of_reads hx) hf

theorem reads_liftExcept (scope : ScopeId) {r : Except CheckError α} (h : Ruled r) :
    L.Reads scope (liftExcept r : Walk α) := by
  cases r with
  | ok a => exact L.reads_pure scope a
  | error e => exact L.reads_throw scope (h e rfl)

theorem reads_require (scope : ScopeId) (holds : Bool) {e : CheckError} (h : e.OfRule) :
    L.Reads scope (Walk.require holds e) := by
  cases holds with
  | true => exact L.reads_pure scope ()
  | false => exact L.reads_throw scope h

theorem reads_mapM {g : α → Walk β} (hg : ∀ a, L.Reads scope (g a)) (o : Option α) :
    L.Reads scope (o.mapM g) := by
  cases o with
  | none => exact L.reads_pure scope none
  | some a =>
    rw [Option.mapM_some]
    exact L.reads_bind (hg a) fun b => L.reads_pure scope (some b)

theorem reads_forM {g : α → Walk PUnit} (l : List α) (hg : ∀ a ∈ l, L.Reads scope (g a)) :
    L.Reads scope (l.forM g) := by
  induction l with
  | nil => exact L.reads_pure scope PUnit.unit
  | cons a l ih =>
    rw [List.forM_eq_forM, List.forM_cons]
    exact L.reads_bind (hg a List.mem_cons_self) fun _ =>
      ih fun b hb => hg b (List.mem_cons_of_mem a hb)

theorem binds_forM {g : α → Walk PUnit} (l : List α) (hg : ∀ a ∈ l, L.Binds scope (g a)) :
    L.Binds scope (l.forM g) := by
  induction l with
  | nil => exact L.binds_pure PUnit.unit
  | cons a l ih =>
    rw [List.forM_eq_forM, List.forM_cons]
    exact L.binds_bind (hg a List.mem_cons_self) fun _ =>
      ih fun b hb => hg b (List.mem_cons_of_mem a hb)

/-! ## Single statements -/

theorem binds_declare (scope : ScopeId) (s : Statement) : L.Binds scope (declare scope s) := by
  cases s with
  | function head body =>
    exact L.binds_after (L.reads_liftExcept scope (ruled_declaredSignature head)) fun signature =>
      L.binds_bindName scope head.name.name (.func signature)
  | _ => exact L.binds_pure ()

theorem binds_declareAll (scope : ScopeId) (block : List Statement) :
    L.Binds scope (declareAll scope block) :=
  L.binds_forM block fun s _ => L.binds_tolerate (L.binds_declare scope s)

theorem reads_checkHeader (env : Env) (scope : ScopeId) (head : FunctionHead) :
    L.Reads scope (checkHeader env scope head) := by
  refine L.reads_bind (L.reads_liftExcept scope (ruled_declaredSignature head)) fun declared => ?_
  refine L.reads_bind (L.reads_forM (defaults head declared) fun d _ => ?_) fun _ =>
    L.reads_pure scope declared
  exact L.reads_bind (L.reads_typeOf env scope d.2.1) fun _ =>
    L.reads_require scope _ (Complaint.ofRule_heresy rfl _)

theorem binds_bindParameters (scope : ScopeId) (signature : Signature) :
    L.Binds scope (bindParameters scope signature) :=
  L.binds_forM _ fun p _ => L.binds_bindName scope p.1 p.2

theorem binds_concludeFunction (scope : ScopeId) (head : FunctionHead) (declared : Signature)
    (outcome : Outcome) : L.Binds scope (concludeFunction scope head declared outcome) :=
  L.binds_after (L.reads_record scope _) fun _ =>
    L.binds_after (L.reads_require scope _ (Complaint.ofRule_heresy rfl _)) fun _ =>
      L.binds_bindName scope _ _

theorem reads_statedType (env : Env) (scope : ScopeId) (a : Assignment) :
    L.Reads scope (statedType env a) := by
  unfold statedType
  split
  · exact L.reads_bind (L.reads_liftExcept scope (ruled_declaredType _)) fun ty =>
      L.reads_pure scope (some ty)
  · unfold hintedType
    split
    · exact L.reads_pure scope none
    next e _ =>
      split
      · exact L.reads_pure scope _
      · exact L.reads_bind (L.reads_record scope _) fun _ => L.reads_pure scope none
      next d _ hd => exact L.reads_throw scope (ruled_declaredType e d hd)

theorem binds_rebind (scope : ScopeId) (defined : List String) (name : String) (span : Span)
    (ty : Ty) : L.Binds scope (rebind scope defined name span ty) := by
  -- Of the state, only the local binding is read; a law need not allow to read the rest.
  change L.Binds scope (Walk.localType scope name >>= fun previous => do
    Walk.bindName scope name ty
    Walk.require (!(defined.contains name && previous.any Ty.isCallable && !ty.isCallable))
      (.suspicion (Complaint.reboundFunction name ty).message span))
  exact L.binds_after (L.reads_localType scope name) fun _ =>
    L.binds_bind (L.binds_bindName scope name ty) fun _ =>
      L.binds_of_reads (L.reads_require scope _ (Complaint.ofRule_suspicion rfl _))

theorem binds_checkAssignment (env : Env) (scope : ScopeId) (defined : List String)
    (a : Assignment) : L.Binds scope (checkAssignment env scope defined a) := by
  unfold checkAssignment
  split
  next id _ =>
    refine L.binds_after (L.reads_require scope _ (Complaint.ofRule_heresy rfl _)) fun _ => ?_
    refine L.binds_after (L.reads_statedType env scope a) fun declared => ?_
    refine L.binds_after (L.reads_mapM (L.reads_typeOf env scope) a.value) fun value => ?_
    refine L.binds_after (L.reads_liftExcept scope (ruled_boundType _ _ _ _)) fun ty? => ?_
    cases ty? with
    | none => exact L.binds_pure ()
    | some ty => exact L.binds_rebind scope defined id.name a.span ty
  · exact L.binds_throw (Escape.ofRule_error _ _)
  · exact L.binds_throw (Escape.ofRule_error _ _)

theorem reads_checkReturn (env : Env) (scope : ScopeId) (goal : Option Goal) (span : Span)
    (value : Option Expr) : L.Reads scope (checkReturn env scope goal span value) := by
  have hvalue : L.Reads scope (returnedType env scope value) := by
    cases value with
    | none => exact L.reads_pure scope _
    | some e => exact L.reads_typeOf env scope e
  cases goal with
  | none => exact L.reads_throw scope (Complaint.ofRule_heresy rfl _)
  | some goal =>
    rw [checkReturn_some]
    exact L.reads_bind hvalue fun ty => L.reads_bind (L.reads_record scope _) fun _ =>
      L.reads_bind (L.reads_require scope _ (Complaint.ofRule_heresy rfl _)) fun _ =>
        L.reads_pure scope ty

/-! ## Blocks -/

/-- The law holds of the walk of the statements of a block, in the scope of the block. -/
def OnBlock (env : Env) (block : List Statement) : Prop :=
  ∀ scope goal defined before, L.Binds scope (walkStatements env scope goal defined before block)

namespace OnBlock

variable {L} {env : Env} {body block : List Statement}

theorem walkBlock (h : L.OnBlock env block) (scope : ScopeId) (goal : Option Goal) :
    L.Binds scope (walkBlock env scope goal block) :=
  L.binds_bind (L.binds_declareAll scope block) fun _ => h scope goal [] .proceeds

theorem walkBranch (h : L.OnBlock env block) (scope : ScopeId) (goal : Option Goal) :
    L.Reads scope (walkBranch env scope goal block) :=
  L.reads_inChild fun inner => h.walkBlock inner goal

theorem walkBody (h : L.OnBlock env body) (scope : ScopeId) (head : FunctionHead)
    (declared : Signature) : L.Reads scope (walkBody env scope head declared body) :=
  L.reads_inChild fun inner => L.binds_bind (L.binds_bindParameters inner declared) fun _ =>
    h.walkBlock inner _

theorem walkFunction (h : L.OnBlock env body) (scope : ScopeId) (head : FunctionHead) :
    L.Binds scope (walkFunction env scope head body) :=
  L.binds_after (L.reads_checkHeader env scope head) fun declared =>
    L.binds_after (L.reads_record scope _) fun _ =>
      L.binds_after (h.walkBody scope head declared) fun outcome =>
        L.binds_concludeFunction scope head declared outcome

theorem conditional (h : L.OnBlock env body) {otherwise : Option (List Statement)}
    (ho : ∀ block, otherwise = some block → L.OnBlock env block) (scope : ScopeId)
    (goal : Option Goal) (defined : List String) (head : Condition) :
    L.Reads scope (walkStatement env scope goal defined (.conditional head body otherwise)) := by
  have halt : L.Reads scope (walkOtherwise env scope goal otherwise) := by
    cases otherwise with
    | none =>
      rw [walkOtherwise_none]
      exact L.reads_pure scope _
    | some block =>
      rw [walkOtherwise_some]
      exact (ho block rfl).walkBranch scope goal
  rw [walkStatement_conditional]
  exact L.reads_bind (L.reads_require scope _ (Escape.ofRule_error _ _)) fun _ =>
    L.reads_bind (L.reads_record scope _) fun _ =>
      L.reads_bind (h.walkBranch scope goal) fun _ => L.reads_bind halt fun _ =>
        L.reads_pure scope _

end OnBlock

theorem binds_walkStatement_and_onBlock (env : Env) :
    (∀ s scope goal defined, L.Binds scope (walkStatement env scope goal defined s)) ∧
    ∀ block, L.OnBlock env block := by
  apply Statement.block_induction
  case function =>
    intro head body ih scope goal defined
    rw [walkStatement_function]
    exact L.binds_bind (ih.walkFunction scope head) fun _ => L.binds_pure _
  case assignment =>
    intro a scope goal defined
    rw [walkStatement_assignment]
    exact L.binds_bind (L.binds_checkAssignment env scope defined a) fun _ => L.binds_pure _
  case returns =>
    intro span value scope goal defined
    rw [walkStatement_returns]
    exact L.binds_after (L.reads_checkReturn env scope goal span value) fun _ => L.binds_pure _
  case conditional =>
    intro head body otherwise ih iho scope goal defined
    exact L.binds_of_reads (ih.conditional iho scope goal defined head)
  case expression =>
    intro e scope goal defined
    rw [walkStatement_expression]
    exact L.binds_after (L.reads_typeOf env scope e) fun _ => L.binds_pure _
  case pass =>
    intro span scope goal defined
    rw [walkStatement_pass]
    exact L.binds_pure _
  case unsupported =>
    intro span construct scope goal defined
    rw [walkStatement_unsupported]
    exact L.binds_throw (Escape.ofRule_error _ _)
  case nil =>
    intro scope goal defined before
    rw [walkStatements_nil]
    exact L.binds_pure _
  case cons =>
    intro s rest ihs ihr scope goal defined before
    rw [walkStatements_cons]
    exact L.binds_bind (L.binds_tolerate (ihs scope goal defined)) fun outcome =>
      ihr scope goal (definedAfter defined s) (before.andThen outcome)

/-- **A law holds of the check of each statement.** -/
theorem binds_walkStatement (env : Env) (scope : ScopeId) (goal : Option Goal)
    (defined : List String) (s : Statement) :
    L.Binds scope (walkStatement env scope goal defined s) :=
  (L.binds_walkStatement_and_onBlock env).1 s scope goal defined

/-- **A law holds of each block.** -/
theorem onBlock (env : Env) (block : List Statement) : L.OnBlock env block :=
  (L.binds_walkStatement_and_onBlock env).2 block

end WalkLaw

end Gradual
