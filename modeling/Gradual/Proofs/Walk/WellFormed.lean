import Gradual.Proofs.Builtins
import Gradual.Proofs.Inference
import Gradual.Proofs.Scopes
import Gradual.Proofs.Walk.Run

/-!
# Types during a check

From well-formed built-in types a check makes only well-formed types: those of expressions, those
that it binds in scopes, and those of what blocks return.

* `Scopes.WellFormed`, `Outcome.WellFormed`;
* `gives_callType`, `gives_declaredSignature`: types of calls, and types that are stated;
* **`ensures_infer`**: the type of an expression;
* `Sustains`: a walk that keeps well-formed scopes, and what holds of its result;
* **`sustains_walkStatement`**, **`sustainsBlock`**: statements and blocks.
-/

namespace Gradual

open Effect Source

/-! ## Bound types -/

namespace Scopes

variable {s : Scopes}

/-- All types that are bound in any scope are well formed. -/
def WellFormed (s : Scopes) : Prop := ∀ scope, NamesWellFormed (s.lookupLocal scope)

theorem wellFormed_of_frames
    (h : ∀ (i : Nat) (f : Frame), s.frames[i]? = some f → NamesWellFormed (f.bound[·]?)) :
    s.WellFormed := by
  intro scope name ty hty
  obtain ⟨f, hf, hb⟩ := Option.bind_eq_some_iff.1 hty
  exact h scope.index f hf name ty hb

theorem wellFormed_empty : empty.WellFormed := by
  apply wellFormed_of_frames
  intro i f hf
  obtain ⟨hi, rfl⟩ := Array.getElem?_eq_some_iff.1 hf
  intro name ty hty
  simp [empty] at hty

theorem WellFormed.frame (h : s.WellFormed) {i : Nat} {f : Frame} (hf : s.frames[i]? = some f) :
    NamesWellFormed (f.bound[·]?) := by
  intro name ty hty
  apply h ⟨i⟩ name ty
  rw [lookupLocal, hf]
  exact hty

theorem WellFormed.lookup (h : s.WellFormed) (scope : ScopeId) :
    NamesWellFormed (s.lookup scope) := by
  have key (steps : Nat) (scope : ScopeId) : NamesWellFormed (s.lookupWithin · steps scope) := by
    intro name ty hty
    induction steps generalizing scope with
    | zero => cases hty
    | succ steps ih =>
      simp only [lookupWithin] at hty
      split at hty
      · cases hty
      next f hf =>
        split at hty
        next hb =>
          cases hty
          exact h.frame hf name ty hb
        · obtain ⟨parent, -, hparent⟩ := Option.bind_eq_some_iff.1 hty
          exact ih parent hparent
  exact key s.frames.size scope

theorem WellFormed.add (h : s.WellFormed) (scope : ScopeId) (name : String) {ty : Ty}
    (hty : ty.WellFormed) : (s.add scope name ty).WellFormed := by
  apply wellFormed_of_frames
  intro i f hf
  rw [getElem?_add] at hf
  split at hf
  · obtain ⟨g, hg, rfl⟩ := Option.map_eq_some_iff.1 hf
    intro n t ht
    simp only [Std.ExtTreeMap.getElem?_insert] at ht
    split at ht
    · cases ht
      exact hty
    · exact h.frame hg n t ht
  · exact h.frame hf

theorem WellFormed.extend (h : s.WellFormed) (parent : ScopeId) :
    (s.extend parent).1.WellFormed := by
  apply wellFormed_of_frames
  intro i f hf
  rw [getElem?_extend] at hf
  split at hf
  · cases hf
    intro n t ht
    simp at ht
  · exact h.frame hf

theorem WellFormed.discard (h : s.WellFormed) (scope : ScopeId) : (s.discard scope).WellFormed := by
  by_cases hpos : 0 < scope.index
  · apply wellFormed_of_frames
    intro i f hf
    rw [getElem?_discard s hpos] at hf
    split at hf
    · exact h.frame hf
    · cases hf
  · rwa [Scopes.discard, dif_neg hpos]

end Scopes

/-! ## Types of calls -/

theorem gives_checkArguments (name : String) {f : Signature} (h : f.WellFormed)
    (positional : List Ty) (keywords : List (String × Ty)) (span : Span) :
    Gives Ty.WellFormed (checkArguments name f positional keywords span) := by
  unfold checkArguments
  dsimp only
  split
  · exact gives_error _
  · refine gives_bind (gives_any _) fun slots _ => ?_
    split
    · exact gives_error _
    · exact gives_bind (gives_any _) fun _ _ => gives_ok h.ret

theorem gives_callType (span : Span) (name : String) {callee : Ty} (h : callee.WellFormed)
    (arguments : List (Argument Ty)) :
    Gives Ty.WellFormed (callType span name callee arguments) := by
  cases h with
  | func hf => exact gives_checkArguments name hf _ _ span
  | overload _ members =>
    simp only [callType]
    split
    · split
      next ty hty => exact gives_ok (gives_resolve members _ ty hty)
      · exact gives_error _
    · exact gives_error _
  | _ => exact gives_error _

theorem gives_unaryType (span : Span) (op : UnaryOp) {operand : Ty} (h : operand.WellFormed) :
    Gives Ty.WellFormed (unaryType span op operand) := by
  unfold unaryType
  split
  · exact gives_ok (.primitive _)
  all_goals
    split
    · exact gives_ok h
    · exact gives_error _

/-! ## Declared types -/

theorem gives_declaredType (e : Expr) : Gives Ty.WellFormed (declaredType e) := by
  fun_induction declaredType e with
  | case1 _ id =>
    apply gives_ok
    unfold namedType
    split
    · exact .unknown
    · exact .primitive _
  | case2 | case4 | case5 | case7 | case9 | case10 | case11 => exact gives_error _
  | case3 _ _ ih => exact gives_bind ih fun _ h => gives_ok (.list h)
  | case6 _ _ _ ihk ihv =>
    exact gives_bind ihk fun _ hk => gives_bind ihv fun _ hv => gives_ok (.dict hk hv)
  | case8 _ _ _ _ _ ih =>
    refine gives_bind ih fun ty h => ?_
    split
    next hb => exact gives_ok (Ty.wellFormed_optional h hb)
    · exact gives_error _

theorem gives_declaredOrUnknown (e : Option Expr) : Gives Ty.WellFormed (declaredOrUnknown e) := by
  cases e with
  | none => exact gives_ok .unknown
  | some e => exact gives_declaredType e

theorem gives_declaredParameters (ps : List Parameter) :
    Gives (fun typed => ∀ p ∈ typed, p.2.WellFormed) (declaredParameters ps) := by
  induction ps with
  | nil => exact gives_ok nofun
  | cons p ps ih =>
    rw [declaredParameters]
    split
    · refine gives_bind (gives_declaredOrUnknown _) fun ty hty => gives_bind ih fun typed h => ?_
      exact gives_ok (List.forall_mem_cons.2 ⟨hty, h⟩)
    · exact gives_error _

theorem gives_declaredSignature (head : FunctionHead) :
    Gives Signature.WellFormed (declaredSignature head) := by
  refine gives_bind (gives_declaredParameters _) fun typed h =>
    gives_bind (gives_declaredOrUnknown _) fun ret hret => gives_ok ⟨?_, hret, ?_⟩
  all_goals
    intro p hp
    obtain ⟨q, hq, rfl⟩ := List.mem_map.1 hp
    exact h q (List.mem_filter.1 hq).1

/-! ## Types of expressions -/

section Infer

variable {builtins : Builtins} {names : String → Option Ty}

/-- A computation whose log may be anything, and whose result satisfies `P`. -/
abbrev Infers {α : Type} (P : α → Prop) (x : Inference α) : Prop := Ensures (fun _ => True) P x

theorem infers_traced (e : Expr) {form : Inference Ty} (h : Infers Ty.WellFormed form) :
    Infers Ty.WellFormed (traced e form) :=
  ensures_bind h fun _ hty => ensures_bind (P := fun _ => True) (fun _ _ => ⟨trivial, gives_any _⟩)
    fun _ _ => ensures_pure hty

theorem wellFormed_constantType? {name : String} {ty : Ty} (h : constantType? name = some ty) :
    ty.WellFormed := by
  unfold constantType? at h
  split at h
  · cases h
    exact .primitive _
  · split at h
    · cases h
      exact .primitive _
    · cases h

theorem infers_nameType (hn : NamesWellFormed names) (id : Identifier) :
    Infers Ty.WellFormed (nameType names id) := by
  unfold nameType
  split
  next ty hty =>
    apply ensures_pure
    cases hconst : constantType? id.name with
    | some constant =>
      rw [hconst] at hty
      cases hty
      exact wellFormed_constantType? hconst
    | none =>
      rw [hconst] at hty
      exact hn _ _ hty
  · exact ensures_throw _

theorem infers_binaryType (hb : builtins.WellFormed) (span : Span) (op : BinaryOp) (l r : Ty) :
    Infers Ty.WellFormed (binaryType builtins span op l r) := by
  unfold binaryType
  split
  · exact ensures_throw _
  · split
    · exact ensures_bind (P := fun _ => True) (fun _ _ => ⟨trivial, gives_any _⟩) fun _ _ =>
        ensures_pure .unknown
    · split
      · exact ensures_throw _
      next signature hs =>
        split
        next ty hty =>
          exact ensures_pure (gives_callResult (hb.operators _ _ signature hs) [l, r] ty hty)
        · exact ensures_throw _

theorem wellFormed_literal (v : Literal) : v.type.WellFormed := by
  cases v <;> exact .primitive _

theorem infers_and_infersArguments (hb : builtins.WellFormed) (hn : NamesWellFormed names) :
    (∀ e, Infers Ty.WellFormed (infer builtins names e)) ∧
    ∀ as, Infers (fun _ => True) (inferArguments builtins names as) := by
  apply Expr.inference_induction
  case literal =>
    intro s v
    rw [infer]
    exact infers_traced _ (ensures_pure (wellFormed_literal v))
  case name =>
    intro s id
    rw [infer_name]
    exact infers_traced _ (infers_nameType hn id)
  case emptyList =>
    intro s
    rw [infer]
    exact infers_traced _ (ensures_pure .emptyList)
  case list =>
    intro s first rest ih
    rw [infer]
    exact infers_traced _ (ensures_bind ih fun _ h => ensures_pure (.list h))
  case emptyDict =>
    intro s
    rw [infer]
    exact infers_traced _ (ensures_pure .emptyDict)
  case dict =>
    intro s key value rest ihk ihv
    rw [infer]
    exact infers_traced _ (ensures_bind ihk fun _ hk => ensures_bind ihv fun _ hv =>
      ensures_pure (.dict hk hv))
  case unary =>
    intro s op operand ih
    rw [infer]
    exact infers_traced _ (ensures_bind ih fun _ h => ensures_liftExcept (gives_unaryType s op h))
  case binary =>
    intro s op left right ihl ihr
    rw [infer]
    exact infers_traced _ (ensures_bind ihl fun l _ => ensures_bind ihr fun r _ =>
      infers_binaryType hb s op l r)
  case call =>
    intro s callee arguments ihc iha
    rw [infer_call]
    refine infers_traced _ ?_
    split
    · exact ensures_throw _
    · exact ensures_bind ihc fun _ hf => ensures_bind iha fun as _ =>
        ensures_liftExcept (gives_callType s _ hf as)
  case inert =>
    intro e h
    rw [infer_inert builtins names h]
    exact infers_traced _ (ensures_throw _)
  case nil =>
    rw [inferArguments]
    exact ensures_pure trivial
  case cons =>
    intro keyword value rest ihv ihr
    rw [inferArguments]
    exact ensures_bind ihv fun _ _ => ensures_bind ihr fun _ _ => ensures_pure trivial

/-- **The type of an expression is well formed.** -/
theorem ensures_infer (hb : builtins.WellFormed) (hn : NamesWellFormed names) (e : Expr) :
    Infers Ty.WellFormed (infer builtins names e) :=
  (infers_and_infersArguments hb hn).1 e

end Infer

/-! ## Walks -/

theorem wellFormed_of_some {ty : Ty} (h : ty.WellFormed) :
    ∀ t, some ty = some t → t.WellFormed := by
  intro t ht
  cases ht
  exact h

/-- What a block may return is well formed. -/
def Outcome.WellFormed (o : Outcome) : Prop := ∀ ty, o.returns = some ty → ty.WellFormed

namespace Outcome

variable {a b o : Outcome}

theorem wellFormed_proceeds : proceeds.WellFormed := nofun

theorem wellFormed_passedOver : passedOver.WellFormed := nofun

theorem wellFormed_returning {ty : Ty} (h : ty.WellFormed) : (returning ty).WellFormed :=
  wellFormed_of_some h

theorem wellFormed_mergeReturns {r q : Option Ty} (hr : ∀ ty, r = some ty → ty.WellFormed)
    (hq : ∀ ty, q = some ty → ty.WellFormed) :
    ∀ ty, mergeReturns r q = some ty → ty.WellFormed := by
  intro ty hty
  cases r with
  | none => exact hq ty hty
  | some a =>
    cases q with
    | none => exact hr ty hty
    | some b =>
      cases hty
      exact (hr a rfl).merge (hq b rfl)

theorem WellFormed.andThen (ha : a.WellFormed) (hb : b.WellFormed) : (a.andThen b).WellFormed :=
  wellFormed_mergeReturns ha hb

theorem WellFormed.orElse (ha : a.WellFormed) (hb : b.WellFormed) : (a.orElse b).WellFormed :=
  wellFormed_mergeReturns ha hb

theorem WellFormed.apparent (h : o.WellFormed) {declared : Ty} (hd : declared.WellFormed) :
    (o.apparent declared).WellFormed := by
  unfold Outcome.apparent
  split
  · exact hd
  · split
    · exact .primitive _
    next ty hty =>
      split
      · exact h ty hty
      · exact (h ty hty).merge (.primitive _)

end Outcome

/-- The walk keeps well-formed scopes, and `P` holds of its result. -/
abbrev Sustains {α : Type} (P : α → Prop) (x : Walk α) : Prop :=
  Ensures (fun σ => σ.scopes.WellFormed) P x

section Walks

variable {α β : Type} {P : α → Prop} {Q : β → Prop} {env : Env} {scope : ScopeId}

theorem sustains_record (event : Event) : Sustains (fun _ => True) (Walk.record event) :=
  fun _ h => ⟨h, gives_any _⟩

theorem sustains_bindName (scope : ScopeId) (name : String) {ty : Ty} (h : ty.WellFormed) :
    Sustains (fun _ => True) (Walk.bindName scope name ty) :=
  fun _ hσ => ⟨hσ.add scope name h, gives_any _⟩

theorem sustains_require (holds : Bool) (e : CheckError) :
    Sustains (fun _ => True) (Walk.require holds e) := by
  cases holds with
  | true => exact ensures_pure trivial
  | false => exact ensures_throw e

theorem sustains_typeOf (hb : env.builtins.WellFormed) (scope : ScopeId) (e : Expr) :
    Sustains Ty.WellFormed (Walk.typeOf env scope e) := by
  intro σ h
  rw [exec_typeOf]
  exact ⟨h, (ensures_infer hb (h.lookup scope) e σ.log trivial).2⟩

theorem sustains_tolerate {skipped : α} {x : Walk α} (hs : P skipped) (h : Sustains P x) :
    Sustains P (Walk.tolerate skipped x) := by
  intro σ hσ
  obtain ⟨hkept, hgives⟩ := h σ hσ
  rw [exec_tolerate]
  rcases hx : exec x σ with ⟨(_ | _ | _) | a, τ⟩ <;> rw [hx] at hkept hgives
  case error.unsupported => exact ⟨hkept, gives_ok hs⟩
  all_goals exact ⟨hkept, hgives⟩

theorem sustains_inChild {body : ScopeId → Walk α} (h : ∀ inner, Sustains P (body inner)) :
    Sustains P (Walk.inChild scope body) := by
  intro σ hσ
  rw [exec_inChild]
  obtain ⟨hkept, hgives⟩ := h σ.fresh (σ.opened scope) (hσ.extend scope)
  exact ⟨hkept.discard σ.fresh, hgives⟩

theorem sustains_forM {g : α → Walk PUnit} (l : List α)
    (hg : ∀ a ∈ l, Sustains (fun _ => True) (g a)) : Sustains (fun _ => True) (l.forM g) := by
  induction l with
  | nil => exact ensures_pure trivial
  | cons a l ih =>
    rw [List.forM_eq_forM, List.forM_cons]
    exact ensures_bind (hg a List.mem_cons_self) fun _ _ =>
      ih fun b hb => hg b (List.mem_cons_of_mem a hb)

/-! ### Single statements -/

theorem sustains_declare (scope : ScopeId) (s : Statement) :
    Sustains (fun _ => True) (declare scope s) := by
  cases s with
  | function head body =>
    exact ensures_bind (ensures_liftExcept (gives_declaredSignature head)) fun _ h =>
      sustains_bindName scope _ (.func h)
  | _ => exact ensures_pure trivial

theorem sustains_declareAll (scope : ScopeId) (block : List Statement) :
    Sustains (fun _ => True) (declareAll scope block) :=
  sustains_forM block fun s _ => sustains_tolerate trivial (sustains_declare scope s)

theorem sustains_checkHeader (hb : env.builtins.WellFormed) (scope : ScopeId)
    (head : FunctionHead) : Sustains Signature.WellFormed (checkHeader env scope head) := by
  refine ensures_bind (ensures_liftExcept (gives_declaredSignature head)) fun declared h => ?_
  refine ensures_bind (sustains_forM _ fun d _ => ?_) fun _ _ => ensures_pure h
  exact ensures_bind (sustains_typeOf hb scope _) fun _ _ => sustains_require _ _

theorem sustains_bindNames (scope : ScopeId) {ps : List (String × Ty)}
    (h : ∀ p ∈ ps, p.2.WellFormed) :
    Sustains (fun _ => True) (ps.forM fun p => Walk.bindName scope p.1 p.2) :=
  sustains_forM ps fun p hp => sustains_bindName scope p.1 (h p hp)

theorem Signature.WellFormed.parameters {f : Signature} (h : f.WellFormed) :
    ∀ p ∈ f.names.zip f.params ++ f.kwargs, p.2.WellFormed := by
  obtain ⟨params, -, kwargs⟩ := h
  intro p hp
  rcases List.mem_append.1 hp with hp | hp
  · exact params p.2 (List.of_mem_zip hp).2
  · exact kwargs p hp

theorem sustains_bindParameters (scope : ScopeId) {signature : Signature}
    (h : signature.WellFormed) : Sustains (fun _ => True) (bindParameters scope signature) :=
  sustains_bindNames scope h.parameters

theorem sustains_concludeFunction (scope : ScopeId) (head : FunctionHead) {declared : Signature}
    (hd : declared.WellFormed) {outcome : Outcome} (ho : outcome.WellFormed) :
    Sustains (fun _ => True) (concludeFunction scope head declared outcome) :=
  ensures_bind (sustains_record _) fun _ _ => ensures_bind (sustains_require _ _) fun _ _ =>
    sustains_bindName scope _ (.func (hd.withReturn (ho.apparent hd.ret)))

theorem sustains_statedType (env : Env) (a : Assignment) :
    Sustains (fun stated => ∀ ty, stated = some ty → ty.WellFormed) (statedType env a) := by
  unfold statedType
  split
  · exact ensures_bind (ensures_liftExcept (gives_declaredType _)) fun _ h =>
      ensures_pure (wellFormed_of_some h)
  · unfold hintedType
    split
    · exact ensures_pure nofun
    next e _ =>
      split
      next ty hty => exact ensures_pure (wellFormed_of_some (gives_declaredType e ty hty))
      · exact ensures_bind (sustains_record _) fun _ _ => ensures_pure nofun
      · exact ensures_throw _

theorem sustains_rebind (scope : ScopeId) (defined : List String) (name : String) (span : Span)
    {ty : Ty} (h : ty.WellFormed) :
    Sustains (fun _ => True) (rebind scope defined name span ty) :=
  ensures_bind (P := fun _ => True) (fun _ hσ => ⟨hσ, gives_any _⟩) fun _ _ =>
    ensures_bind (sustains_bindName scope name h) fun _ _ => sustains_require _ _

theorem gives_boundType (name : String) (span : Span) {declared value : Option Ty}
    (hd : ∀ ty, declared = some ty → ty.WellFormed) (hv : ∀ ty, value = some ty → ty.WellFormed) :
    Gives (fun bound => ∀ ty, bound = some ty → ty.WellFormed)
      (boundType name span declared value) := by
  unfold boundType
  split
  · split
    · exact gives_ok hd
    · exact gives_error _
  · exact gives_ok hd
  · exact gives_ok hv

theorem sustains_checkAssignment (hb : env.builtins.WellFormed) (scope : ScopeId)
    (defined : List String) (a : Assignment) :
    Sustains (fun _ => True) (checkAssignment env scope defined a) := by
  unfold checkAssignment
  split
  next id _ =>
    refine ensures_bind (sustains_require _ _) fun _ _ => ?_
    refine ensures_bind (sustains_statedType env a) fun stated hs => ?_
    refine ensures_bind (P := fun value => ∀ ty, value = some ty → ty.WellFormed) ?_
      fun value hv => ?_
    · cases a.value with
      | none => exact ensures_pure nofun
      | some e =>
        rw [Option.mapM_some]
        exact ensures_bind (sustains_typeOf hb scope e) fun _ h =>
          ensures_pure (wellFormed_of_some h)
    · refine ensures_bind (ensures_liftExcept (gives_boundType _ _ hs hv)) fun bound h => ?_
      cases bound with
      | none => exact ensures_pure trivial
      | some ty => exact sustains_rebind scope defined id.name a.span (h ty rfl)
  · exact ensures_throw _
  · exact ensures_throw _

theorem sustains_checkReturn (hb : env.builtins.WellFormed) (scope : ScopeId) (goal : Option Goal)
    (span : Span) (value : Option Expr) :
    Sustains Ty.WellFormed (checkReturn env scope goal span value) := by
  have hvalue : Sustains Ty.WellFormed (returnedType env scope value) := by
    cases value with
    | none => exact ensures_pure (.primitive _)
    | some e => exact sustains_typeOf hb scope e
  cases goal with
  | none => exact ensures_throw _
  | some goal =>
    rw [checkReturn_some]
    exact ensures_bind hvalue fun _ h => ensures_bind (sustains_record _) fun _ _ =>
      ensures_bind (sustains_require _ _) fun _ _ => ensures_pure h

/-! ### Blocks -/

/-- The walk of the statements of a block keeps well-formed scopes, and what the block may return is
well formed. -/
def SustainsBlock (env : Env) (block : List Statement) : Prop :=
  ∀ scope goal defined before, Outcome.WellFormed before →
    Sustains Outcome.WellFormed (walkStatements env scope goal defined before block)

namespace SustainsBlock

variable {body block : List Statement}

theorem walkBlock (h : SustainsBlock env block) (scope : ScopeId) (goal : Option Goal) :
    Sustains Outcome.WellFormed (walkBlock env scope goal block) :=
  ensures_bind (sustains_declareAll scope block) fun _ _ =>
    h scope goal [] .proceeds Outcome.wellFormed_proceeds

theorem walkBranch (h : SustainsBlock env block) (scope : ScopeId) (goal : Option Goal) :
    Sustains Outcome.WellFormed (walkBranch env scope goal block) :=
  sustains_inChild fun inner => h.walkBlock inner goal

theorem walkBody (h : SustainsBlock env body) (scope : ScopeId) (head : FunctionHead)
    {declared : Signature} (hd : declared.WellFormed) :
    Sustains Outcome.WellFormed (walkBody env scope head declared body) :=
  sustains_inChild fun inner => ensures_bind (sustains_bindParameters inner hd) fun _ _ =>
    h.walkBlock inner _

theorem walkFunction (h : SustainsBlock env body) (hb : env.builtins.WellFormed) (scope : ScopeId)
    (head : FunctionHead) : Sustains (fun _ => True) (walkFunction env scope head body) :=
  ensures_bind (sustains_checkHeader hb scope head) fun _ hd =>
    ensures_bind (sustains_record _) fun _ _ => ensures_bind (h.walkBody scope head hd) fun _ ho =>
      sustains_concludeFunction scope head hd ho

end SustainsBlock

theorem sustains_walkStatement_and_block (hb : env.builtins.WellFormed) :
    (∀ s scope goal defined,
      Sustains Outcome.WellFormed (walkStatement env scope goal defined s)) ∧
    ∀ block, SustainsBlock env block := by
  apply Statement.block_induction
  case function =>
    intro head body ih scope goal defined
    rw [walkStatement_function]
    exact ensures_bind (ih.walkFunction hb scope head) fun _ _ =>
      ensures_pure Outcome.wellFormed_proceeds
  case assignment =>
    intro a scope goal defined
    rw [walkStatement_assignment]
    exact ensures_bind (sustains_checkAssignment hb scope defined a) fun _ _ =>
      ensures_pure Outcome.wellFormed_proceeds
  case returns =>
    intro span value scope goal defined
    rw [walkStatement_returns]
    exact ensures_bind (sustains_checkReturn hb scope goal span value) fun _ h =>
      ensures_pure (Outcome.wellFormed_returning h)
  case conditional =>
    intro head body otherwise ih iho scope goal defined
    have halt : Sustains Outcome.WellFormed (walkOtherwise env scope goal otherwise) := by
      cases otherwise with
      | none =>
        rw [walkOtherwise_none]
        exact ensures_pure Outcome.wellFormed_proceeds
      | some block =>
        rw [walkOtherwise_some]
        exact (iho block rfl).walkBranch scope goal
    rw [walkStatement_conditional]
    exact ensures_bind (sustains_require _ _) fun _ _ => ensures_bind (sustains_record _) fun _ _ =>
      ensures_bind (ih.walkBranch scope goal) fun _ hc => ensures_bind halt fun _ ha =>
        ensures_pure (hc.orElse ha)
  case expression =>
    intro e scope goal defined
    rw [walkStatement_expression]
    exact ensures_bind (sustains_typeOf hb scope e) fun _ _ =>
      ensures_pure Outcome.wellFormed_proceeds
  case pass =>
    intro span scope goal defined
    rw [walkStatement_pass]
    exact ensures_pure Outcome.wellFormed_proceeds
  case unsupported =>
    intro span construct scope goal defined
    rw [walkStatement_unsupported]
    exact ensures_throw _
  case nil =>
    intro scope goal defined before h
    rw [walkStatements_nil]
    exact ensures_pure h
  case cons =>
    intro s rest ihs ihr scope goal defined before h
    rw [walkStatements_cons]
    exact ensures_bind (sustains_tolerate Outcome.wellFormed_passedOver (ihs scope goal defined))
      fun outcome ho => ihr scope goal (definedAfter defined s) _ (h.andThen ho)

/-- **Statements keep well-formed scopes**, and what they return is well formed. -/
theorem sustains_walkStatement (hb : env.builtins.WellFormed) (scope : ScopeId)
    (goal : Option Goal) (defined : List String) (s : Statement) :
    Sustains Outcome.WellFormed (walkStatement env scope goal defined s) :=
  (sustains_walkStatement_and_block hb).1 s scope goal defined

/-- **Blocks keep well-formed scopes**, and what they return is well formed. -/
theorem sustainsBlock (hb : env.builtins.WellFormed) (block : List Statement) :
    SustainsBlock env block :=
  (sustains_walkStatement_and_block hb).2 block

end Walks

end Gradual
