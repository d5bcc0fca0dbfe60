import Gradual.Proofs.Expr.Spans
import Gradual.Proofs.Inference
import Gradual.Proofs.Module.Steps

/-!
# The names that inference reads

The type of an expression depends on the types of the names in it and on the built-in operators, not
on where these names are bound or on what else is. To infer it changes the log only.

* `Expr.Mentions`: a name stands in an expression;
* **`infer_congr`**: types of names that agree where an expression mentions them;
* **`Checker.inference_reads_mentioned`**: inference in two checkers, and what it leaves.
-/

namespace Gradual

open Effect Source

/-! ## Names in an expression -/

/-- The name stands in the expression, at some depth. -/
def Expr.Mentions (e : Expr) (name : String) : Prop :=
  ∃ s id, (Expr.name s id).Within e ∧ id.name = name

section Mentions

variable {e c : Expr} {name : String}

theorem Expr.Mentions.of_child (h : c.Mentions name) (hc : c ∈ e.children) : e.Mentions name := by
  obtain ⟨s, id, hwithin, hname⟩ := h
  exact ⟨s, id, .child hc hwithin, hname⟩

/-- A name stands in an expression that is this name, or in one of the direct parts. -/
theorem Expr.mentions_iff : e.Mentions name ↔
    (∃ s id, e = .name s id ∧ id.name = name) ∨ ∃ c ∈ e.children, c.Mentions name := by
  constructor
  · rintro ⟨s, id, hwithin, hname⟩
    cases hwithin with
    | self => exact .inl ⟨s, id, rfl, hname⟩
    | child hc h => exact .inr ⟨_, hc, s, id, h, hname⟩
  · rintro (⟨s, id, rfl, rfl⟩ | ⟨c, hc, h⟩)
    · exact ⟨s, id, .self, rfl⟩
    · exact h.of_child hc

theorem Expr.mentions_name_iff {s : Span} {id : Identifier} :
    (Expr.name s id).Mentions name ↔ id.name = name := by
  rw [mentions_iff]
  simp [children]

end Mentions

/-! ## Agreement -/

theorem constantType?_eq_none_iff {name : String} :
    constantType? name = none ↔ name ∉ ["None", "True", "False"] := by
  unfold constantType?
  split
  · simp_all
  · split <;> simp_all

/-- Two assignments of types to names agree on those in an expression that are no constants. -/
def Expr.AgreeOn (e : Expr) (names names' : String → Option Ty) : Prop :=
  ∀ name, e.Mentions name → name ∉ ["None", "True", "False"] → names name = names' name

variable {names names' : String → Option Ty}

theorem Expr.AgreeOn.child {e c : Expr} (h : e.AgreeOn names names') (hc : c ∈ e.children) :
    c.AgreeOn names names' :=
  fun name hname => h name (hname.of_child hc)

theorem nameType_congr {s : Span} {id : Identifier}
    (h : (Expr.name s id).AgreeOn names names') : nameType names id = nameType names' id := by
  unfold nameType
  cases hconstant : constantType? id.name with
  | some ty => rfl
  | none => rw [h id.name (Expr.mentions_name_iff.2 rfl) (constantType?_eq_none_iff.1 hconstant)]

theorem infer_congr_and_inferArguments_congr (builtins : Builtins) :
    (∀ e : Expr, e.AgreeOn names names' → infer builtins names e = infer builtins names' e) ∧
    ∀ as : List (Argument Expr), (∀ a ∈ as, a.value.AgreeOn names names') →
      inferArguments builtins names as = inferArguments builtins names' as := by
  apply Expr.inference_induction
  case literal =>
    intro s v _
    rw [infer, infer]
  case name =>
    intro s id h
    rw [infer_name, infer_name, nameType_congr h]
  case emptyList =>
    intro s _
    rw [infer, infer]
  case list =>
    intro s first rest ih h
    rw [infer, infer, ih (h.child (by simp [Expr.children]))]
  case emptyDict =>
    intro s _
    rw [infer, infer]
  case dict =>
    intro s key value rest ihk ihv h
    rw [infer, infer, ihk (h.child (by simp [Expr.children])),
      ihv (h.child (by simp [Expr.children]))]
  case unary =>
    intro s op operand ih h
    rw [infer, infer, ih (h.child (by simp [Expr.children]))]
  case binary =>
    intro s op left right ihl ihr h
    rw [infer, infer, ihl (h.child (by simp [Expr.children])),
      ihr (h.child (by simp [Expr.children]))]
  case call =>
    intro s callee arguments ihc iha h
    have hcallee := ihc (h.child (by simp [Expr.children]))
    have harguments := iha fun a ha =>
      h.child (List.mem_cons_of_mem callee (List.mem_map_of_mem ha))
    rw [infer_call, infer_call]
    cases callee with
    | member => rfl
    | _ => simp only [hcallee, harguments]
  case inert =>
    intro e he _
    rw [infer_inert builtins names he, infer_inert builtins names' he]
  case nil =>
    intro _
    rw [inferArguments, inferArguments]
  case cons =>
    intro keyword value rest ihv ihr h
    obtain ⟨hvalue, hrest⟩ := List.forall_mem_cons.1 h
    rw [inferArguments, inferArguments, ihv hvalue, ihr hrest]

/-- **The type of an expression depends on the names in it only.** -/
theorem infer_congr (builtins : Builtins) {e : Expr} (h : e.AgreeOn names names') :
    infer builtins names e = infer builtins names' e :=
  (infer_congr_and_inferArguments_congr builtins).1 e h

/-! ## Checkers -/

theorem result_typeOf_congr {env env' : Env} {scope scope' : ScopeId} {σ τ : WalkState} {e : Expr}
    (hb : env.builtins = env'.builtins)
    (h : e.AgreeOn (σ.scopes.lookup scope) (τ.scopes.lookup scope')) :
    (exec (Walk.typeOf env scope e) σ).1 = (exec (Walk.typeOf env' scope' e) τ).1 := by
  rw [exec_typeOf, exec_typeOf, hb, infer_congr env'.builtins h]
  -- The two runs may start with different logs, of which the result knows nothing.
  exact (respects_infer Log.tracks_any env'.builtins _ e σ.log τ.log trivial).1

/-- A walk whose result is looked at, be it an error, and one after it. -/
theorem exec_lift_bind {α β : Type} (x : Walk α) (next : Except CheckError α → Walk β)
    (σ : WalkState) :
    exec (ExceptT.lift x.run >>= next) σ = exec (next (exec x σ).1) (exec x σ).2 :=
  exec_bind_of_ok rfl

namespace Checker

/-- **Inference sees only the names that it mentions**, and changes nothing but the log. -/
theorem inference_reads_mentioned :
    (∀ (c d : Checker) (s t : ScopeId) (e : Expr), c.env.builtins = d.env.builtins →
      (∀ name, e.Mentions name → name ∉ ["None", "True", "False"] →
        c.state.scopes.lookup s name = d.state.scopes.lookup t name) →
      (exec (Walk.typeOf c.env s e) c.state).1 = (exec (Walk.typeOf d.env t e) d.state).1) ∧
    ∀ (c : Checker) (s : ScopeId) (e : Expr), ∃ result log,
      exec (Walk.typeOf c.env s e) c.state = (result, { c.state with log }) ∧
      ∀ (α : Type) (next : Except CheckError Ty → Walk α),
        c.settle (ExceptT.lift (Walk.typeOf c.env s e).run >>= next) =
          { c with state := { c.state with log } }.settle (next result) := by
  refine ⟨fun c d s t e hb h => result_typeOf_congr hb h, fun c s e => ?_⟩
  refine ⟨_, _, exec_typeOf c.env s e c.state, fun α next => ?_⟩
  rw [settle_eq, exec_lift_bind, settle_eq, exec_typeOf]

/-- The type of a function with a parameter that has to be given, and one with a default value. -/
def pairType : Ty := .func ⟨[.int], ["a"], .str, [("k", .bool)]⟩

/-- A checker that has the names `f` and `x` in its outermost scope. -/
def shallow : Checker :=
  ⟨⟨.standard, ∅⟩,
    ⟨(Scopes.empty.add Scopes.root "x" .int).add Scopes.root "f" pairType, .start none⟩, .empty⟩

/-- A checker that has `x` in an inner scope, beside another name, and binds a constant. -/
def deep : Checker :=
  let outer := (Scopes.empty.add Scopes.root "f" pairType).add Scopes.root "True" .float
  ⟨⟨.standard, ∅⟩,
    ⟨((outer.extend Scopes.root).1.add ⟨1⟩ "y" .int).add ⟨1⟩ "x" .int, .start (some 3)⟩, .empty⟩

/-- The call `f(x, k=True)`. -/
def pairCall : Expr :=
  .call .none (.name .none ⟨"f", .none⟩) [⟨none, .name .none ⟨"x", .none⟩⟩,
    ⟨some ⟨"k", .none⟩, .name .none ⟨"True", .none⟩⟩]

theorem pairCall_typed_alike :
    shallow.env.builtins = deep.env.builtins ∧
    (∀ name, pairCall.Mentions name → name ∉ ["None", "True", "False"] →
      shallow.state.scopes.lookup Scopes.root name = deep.state.scopes.lookup ⟨1⟩ name) ∧
    (exec (Walk.typeOf shallow.env Scopes.root pairCall) shallow.state).1 = .ok .str ∧
    (exec (Walk.typeOf deep.env ⟨1⟩ pairCall) deep.state).1 = .ok .str := by
  have hnames : ∀ name, pairCall.Mentions name → name ∉ ["None", "True", "False"] →
      shallow.state.scopes.lookup Scopes.root name = deep.state.scopes.lookup ⟨1⟩ name := by
    intro name hname hconstant
    obtain ⟨_, _, hcall, -⟩ | ⟨c, hc, hname⟩ := Expr.mentions_iff.1 hname
    · cases hcall
    · have hcases : name = "f" ∨ name = "x" ∨ name = "True" := by
        simp only [pairCall, Expr.children, List.map_cons, List.map_nil, List.mem_cons,
          List.not_mem_nil, or_false] at hc
        rcases hc with rfl | rfl | rfl <;> simp [← Expr.mentions_name_iff.1 hname]
      rcases hcases with rfl | rfl | rfl
      · decide +kernel
      · decide +kernel
      · simp at hconstant
  have hstr : (exec (Walk.typeOf shallow.env Scopes.root pairCall) shallow.state).1 = .ok .str := by
    decide +kernel
  refine ⟨rfl, hnames, hstr, ?_⟩
  rw [← inference_reads_mentioned.1 shallow deep Scopes.root ⟨1⟩ pairCall rfl hnames, hstr]

end Checker

end Gradual
