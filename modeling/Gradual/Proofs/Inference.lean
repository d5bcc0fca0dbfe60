import Gradual.Proofs.Effect
import Gradual.Proofs.Rules

/-!
# Types of expressions

A law of inference holds of the type of each expression if it holds of the single rules, and those
for names are the only ones that read something.

* `infer_name`, `infer_call`, `infer_inert`: the rules for names, for calls, and for forms without a
  type;
* `Expr.inference_induction`: induction on the expressions that a type is inferred from;
* `InferenceLaw`, **`InferenceLaw.holds_infer`**: laws of inference;
* **`respects_infer`**: the type of an expression does not depend on the log;
* **`infer_not_undefined`**: a name that has a type is not found to be undefined.
-/

namespace Gradual

open Effect Source

/-! ## Rules and induction -/

/-- Whether an expression is of a form that no type is inferred for. -/
def Expr.isInert : Expr → Bool
  | tuple .. | member .. | index .. | unsupported .. => true
  | _ => false

/-- The type of a name. -/
def nameType (names : String → Option Ty) (id : Identifier) : Inference Ty :=
  match constantType? id.name <|> names id.name with
  | some ty => return ty
  | none => throw ((Complaint.undefinedName id.name).heresy id.span)

theorem infer_name (builtins : Builtins) (names : String → Option Ty) (s : Span)
    (id : Identifier) :
    infer builtins names (.name s id) = traced (.name s id) (nameType names id) := by
  rw [infer]
  rfl

theorem infer_inert (builtins : Builtins) (names : String → Option Ty) {e : Expr}
    (h : e.isInert = true) :
    infer builtins names e = traced e (throw ((Escape.form e).error e.span)) := by
  cases e with
  | tuple | member | index | unsupported => simp only [infer]
  | _ => cases h

theorem infer_call (builtins : Builtins) (names : String → Option Ty) (s : Span) (callee : Expr)
    (arguments : List (Argument Expr)) :
    infer builtins names (.call s callee arguments) = traced (.call s callee arguments)
      (match callee with
      | .member .. => throw (Escape.methodCall.error s)
      | callee => do
        let f ← infer builtins names callee
        let as ← inferArguments builtins names arguments
        liftExcept (callType s (calleeName callee f) f as)) := by
  cases callee <;> simp [infer]

section Induction

variable {P : Expr → Prop} {Q : List (Argument Expr) → Prop}
  (literal : ∀ s v, P (.literal s v))
  (name : ∀ s id, P (.name s id))
  (emptyList : ∀ s, P (.list s []))
  (list : ∀ s first rest, P first → P (.list s (first :: rest)))
  (emptyDict : ∀ s, P (.dict s []))
  (dict : ∀ s key value rest, P key → P value → P (.dict s ((key, value) :: rest)))
  (unary : ∀ s op operand, P operand → P (.unary s op operand))
  (binary : ∀ s op left right, P left → P right → P (.binary s op left right))
  (call : ∀ s callee arguments, P callee → Q arguments → P (.call s callee arguments))
  (inert : ∀ e, e.isInert = true → P e)
  (nil : Q [])
  (cons : ∀ keyword value rest, P value → Q rest → Q (⟨keyword, value⟩ :: rest))

include literal name emptyList list emptyDict dict unary binary call inert nil cons

set_option linter.unusedSectionVars false

mutual

theorem inference_induction_expr : ∀ e, P e
  | .literal s v => literal s v
  | .name s id => name s id
  | .list s [] => emptyList s
  | .list s (first :: rest) => list s first rest (inference_induction_expr first)
  | .dict s [] => emptyDict s
  | .dict s ((key, value) :: rest) =>
    dict s key value rest (inference_induction_expr key) (inference_induction_expr value)
  | .unary s op operand => unary s op operand (inference_induction_expr operand)
  | .binary s op left right =>
    binary s op left right (inference_induction_expr left) (inference_induction_expr right)
  | .call s callee arguments =>
    call s callee arguments (inference_induction_expr callee)
      (inference_induction_arguments arguments)
  | .tuple .. => inert _ rfl
  | .member .. => inert _ rfl
  | .index .. => inert _ rfl
  | .unsupported .. => inert _ rfl
termination_by structural e => e

theorem inference_induction_arguments : ∀ as, Q as
  | [] => nil
  | ⟨keyword, value⟩ :: rest =>
    cons keyword value rest (inference_induction_expr value) (inference_induction_arguments rest)
termination_by structural as => as

end

/-- **Induction on the expressions that a type is inferred from**, and on arguments. -/
theorem Expr.inference_induction : (∀ e, P e) ∧ ∀ as, Q as :=
  ⟨inference_induction_expr literal name emptyList list emptyDict dict unary binary call inert nil
      cons,
    inference_induction_arguments literal name emptyList list emptyDict dict unary binary call
      inert nil cons⟩

end Induction

/-! ## Laws -/

/-- A law of inference: it holds of all rules but that for names, whatever they find, and of the
rule for names with the types `names`. -/
structure InferenceLaw (names : String → Option Ty) where
  Holds {α : Type} : Inference α → Prop
  holds_pure {α : Type} (a : α) : Holds (pure a)
  holds_throw {α : Type} {e : CheckError} (h : e.OfRule) : Holds (throw e : Inference α)
  holds_bind {α β : Type} {x : Inference α} {f : α → Inference β} (hx : Holds x)
    (hf : ∀ a, Holds (f a)) : Holds (x >>= f)
  holds_record (event : Event) : Holds (Inference.record event)
  holds_nameType (id : Identifier) : Holds (nameType names id)

namespace InferenceLaw

variable {names : String → Option Ty} (L : InferenceLaw names) {α : Type}

theorem holds_liftExcept {r : Except CheckError α} (h : Ruled r) :
    L.Holds (liftExcept r : Inference α) := by
  cases r with
  | ok a => exact L.holds_pure a
  | error e => exact L.holds_throw (h e rfl)

theorem holds_traced {e : Expr} {form : Inference Ty} (h : L.Holds form) :
    L.Holds (traced e form) :=
  L.holds_bind h fun ty => L.holds_bind (L.holds_record _) fun _ => L.holds_pure ty

theorem holds_binaryType (builtins : Builtins) (span : Span) (op : BinaryOp) (left right : Ty) :
    L.Holds (binaryType builtins span op left right) := by
  unfold binaryType
  split
  · exact L.holds_throw (Escape.ofRule_error _ _)
  · split
    · exact L.holds_bind (L.holds_record _) fun _ => L.holds_pure _
    · split
      · exact L.holds_throw (Complaint.ofRule_heresy rfl _)
      · split
        · exact L.holds_pure _
        · exact L.holds_throw (Complaint.ofRule_heresy rfl _)

theorem holds_infer_and_inferArguments (builtins : Builtins) :
    (∀ e, L.Holds (infer builtins names e)) ∧
    ∀ as, L.Holds (inferArguments builtins names as) := by
  apply Expr.inference_induction
  case literal =>
    intro s v
    rw [infer]
    exact L.holds_traced (L.holds_pure _)
  case name =>
    intro s id
    rw [infer_name]
    exact L.holds_traced (L.holds_nameType id)
  case emptyList =>
    intro s
    rw [infer]
    exact L.holds_traced (L.holds_pure _)
  case list =>
    intro s first rest ih
    rw [infer]
    exact L.holds_traced (L.holds_bind ih fun _ => L.holds_pure _)
  case emptyDict =>
    intro s
    rw [infer]
    exact L.holds_traced (L.holds_pure _)
  case dict =>
    intro s key value rest ihk ihv
    rw [infer]
    exact L.holds_traced (L.holds_bind ihk fun _ => L.holds_bind ihv fun _ => L.holds_pure _)
  case unary =>
    intro s op operand ih
    rw [infer]
    exact L.holds_traced (L.holds_bind ih fun _ => L.holds_liftExcept (ruled_unaryType _ _ _))
  case binary =>
    intro s op left right ihl ihr
    rw [infer]
    exact L.holds_traced (L.holds_bind ihl fun l => L.holds_bind ihr fun r =>
      L.holds_binaryType builtins s op l r)
  case call =>
    intro s callee arguments ihc iha
    rw [infer_call]
    refine L.holds_traced ?_
    split
    · exact L.holds_throw (Escape.ofRule_error _ _)
    · exact L.holds_bind ihc fun _ => L.holds_bind iha fun _ =>
        L.holds_liftExcept (ruled_callType _ _ _ _)
  case inert =>
    intro e h
    rw [infer_inert builtins names h]
    exact L.holds_traced (L.holds_throw (Escape.ofRule_error _ _))
  case nil =>
    rw [inferArguments]
    exact L.holds_pure []
  case cons =>
    intro keyword value rest ihv ihr
    rw [inferArguments]
    exact L.holds_bind ihv fun _ => L.holds_bind ihr fun _ => L.holds_pure _

/-- **A law of inference holds of each expression.** -/
theorem holds_infer (builtins : Builtins) (e : Expr) : L.Holds (infer builtins names e) :=
  (L.holds_infer_and_inferArguments builtins).1 e

end InferenceLaw

/-! ## The log -/

/-- A relation between logs that holds on after any event. -/
def Log.Tracks (r : Log → Log → Prop) : Prop :=
  ∀ a b event, r a b → r (a.record event) (b.record event)

theorem Log.tracks_any : Log.Tracks fun _ _ => True := fun _ _ _ h => h

section Logs

variable {r : Log → Log → Prop}

theorem respects_nameType (names : String → Option Ty) (id : Identifier) :
    Respects r (nameType names id) := by
  unfold nameType
  split
  · exact respects_pure _
  · exact respects_throw _

/-- Two runs note the same events, whatever is in their logs. -/
def loggedInference (hr : Log.Tracks r) (names : String → Option Ty) : InferenceLaw names where
  Holds := Respects r
  holds_pure := respects_pure
  holds_throw _ := respects_throw _
  holds_bind := respects_bind
  holds_record event a b h := ⟨rfl, hr a b event h⟩
  holds_nameType := respects_nameType names

/-- **The type of an expression does not depend on the log**, nor do the events that are noted. -/
theorem respects_infer (hr : Log.Tracks r) (builtins : Builtins) (names : String → Option Ty)
    (e : Expr) : Respects r (infer builtins names e) :=
  (loggedInference hr names).holds_infer builtins e

end Logs

/-! ## Undefined names -/

/-- The computation does not end with the error that `name` is not defined. -/
def Effect.NotUndefined {σ α : Type} (name : String) (x : ExceptT CheckError (StateM σ) α) (s : σ) :
    Prop :=
  ∀ e, (exec x s).1 = .error e → ¬ e.FindsUndefined name

section NotUndefined

variable {σ α β : Type} {name : String} {s : σ}

theorem notUndefined_pure (a : α) :
    NotUndefined name (pure a : ExceptT CheckError (StateM σ) α) s := nofun

theorem notUndefined_throw {e : CheckError} (h : ¬ e.FindsUndefined name) :
    NotUndefined name (throw e : ExceptT CheckError (StateM σ) α) s := by
  intro d hd
  cases hd
  exact h

theorem notUndefined_bind {x : ExceptT CheckError (StateM σ) α}
    {f : α → ExceptT CheckError (StateM σ) β} (hx : NotUndefined name x s)
    (hf : ∀ a, NotUndefined name (f a) (exec x s).2) : NotUndefined name (x >>= f) s := by
  intro e he
  rcases h : exec x s with ⟨d | a, t⟩
  · rw [exec_bind_of_error h] at he
    cases he
    exact hx e (by rw [h])
  · rw [exec_bind_of_ok h] at he
    rw [h] at hf
    exact hf a e he

end NotUndefined

/-- A name has a type, as a constant or among the types `names`. -/
def HasType (names : String → Option Ty) (name : String) : Prop :=
  (constantType? name <|> names name).isSome = true

/-- What has a type is not found to be undefined. -/
def definedInference {names : String → Option Ty} {name : String} (h : HasType names name) :
    InferenceLaw names where
  Holds x := ∀ log, NotUndefined name x log
  holds_pure a _ := notUndefined_pure a
  holds_throw h _ := notUndefined_throw (h name)
  holds_bind hx hf log := notUndefined_bind (hx log) fun a => hf a _
  holds_record _ _ := nofun
  holds_nameType id log := by
    unfold nameType
    split
    next => exact notUndefined_pure _
    next hid =>
      -- Only `id` itself can be found to be undefined here, and it is another name.
      refine notUndefined_throw fun hu => ?_
      cases Complaint.eq_of_findsUndefined hu
      rw [HasType, hid] at h
      cases h

/-- **A name that has a type is not found to be undefined.** -/
theorem infer_not_undefined (builtins : Builtins) {names : String → Option Ty} {name : String}
    (h : HasType names name) (e : Expr) (log : Log) :
    NotUndefined name (infer builtins names e) log :=
  (definedInference h).holds_infer builtins e log

end Gradual
