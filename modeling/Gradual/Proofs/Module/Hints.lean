import Mathlib.Data.List.Forall2
import Gradual.Proofs.Module.Steps

/-!
# Types in comments

A type that is stated in a comment counts for an assignment on its line that states none beside its
target, and then like one stated there.

* `Occurs`, `Unstated`: assignments at any depth of a block, and the block without the type that one
  of them states;
* `Interchange`: statements that are checked alike, each with its own types in comments;
* `interchange_of_agree`: only the lines of assignments without a type of their own are looked up;
* **`Checker.comment_acts_like_annotation`**: a type in a comment in place of one at the target.
-/

namespace Gradual

open Effect Source

/-! ## Assignments in a block -/

/-- An assignment stands in a block, at any depth. -/
inductive Occurs (a : Assignment) : List Statement → Prop
  | here {block : List Statement} (h : .assignment a ∈ block) : Occurs a block
  | body {block body : List Statement} {head : FunctionHead} (h : .function head body ∈ block)
      (ha : Occurs a body) : Occurs a block
  | consequent {block body : List Statement} {head : Condition}
      {otherwise : Option (List Statement)} (h : .conditional head body otherwise ∈ block)
      (ha : Occurs a body) : Occurs a block
  | alternative {block body other : List Statement} {head : Condition}
      (h : .conditional head body (some other) ∈ block) (ha : Occurs a other) : Occurs a block

/-- The second block is the first one without the type that the assignment `a` states, which stands
in it at any depth. -/
inductive Unstated (a : Assignment) : List Statement → List Statement → Prop
  | here (before after : List Statement) :
      Unstated a (before ++ .assignment a :: after)
        (before ++ .assignment { a with declared := none } :: after)
  | body (before after : List Statement) {head : FunctionHead} {body body' : List Statement}
      (h : Unstated a body body') :
      Unstated a (before ++ .function head body :: after) (before ++ .function head body' :: after)
  | consequent (before after : List Statement) {head : Condition} {body body' : List Statement}
      {otherwise : Option (List Statement)} (h : Unstated a body body') :
      Unstated a (before ++ .conditional head body otherwise :: after)
        (before ++ .conditional head body' otherwise :: after)
  | alternative (before after : List Statement) {head : Condition}
      {body other other' : List Statement} (h : Unstated a other other') :
      Unstated a (before ++ .conditional head body (some other) :: after)
        (before ++ .conditional head body (some other') :: after)

theorem Occurs.mono {a : Assignment} {block larger : List Statement} (h : Occurs a block)
    (hsub : block ⊆ larger) : Occurs a larger := by
  cases h with
  | here h => exact .here (hsub h)
  | body h ha => exact .body (hsub h) ha
  | consequent h ha => exact .consequent (hsub h) ha
  | alternative h ha => exact .alternative (hsub h) ha

/-! ## Statements that are checked alike -/

/-- The statement `s'` with the types in comments `hints'` is checked like `s` with `hints`. -/
structure Interchange (builtins : Builtins) (hints hints' : Hints) (s s' : Statement) : Prop where
  isElif : s'.isElif = s.isElif
  declare : ∀ scope, declare scope s' = declare scope s
  defined : ∀ defined, definedAfter defined s' = definedAfter defined s
  walk : ∀ scope goal defined, walkStatement ⟨builtins, hints'⟩ scope goal defined s' =
    walkStatement ⟨builtins, hints⟩ scope goal defined s

/-- The statements of two blocks are checked alike, one by one. -/
abbrev InterchangeAll (builtins : Builtins) (hints hints' : Hints) :
    List Statement → List Statement → Prop :=
  List.Forall₂ (Interchange builtins hints hints')

variable {builtins : Builtins} {hints hints' : Hints} {block block' body body' : List Statement}

namespace InterchangeAll

theorem declareAll (h : InterchangeAll builtins hints hints' block block') (scope : ScopeId) :
    declareAll scope block' = declareAll scope block := by
  induction h with
  | nil => rfl
  | cons hs _ ih =>
    simp only [Gradual.declareAll, List.forM_eq_forM, List.forM_cons] at ih ⊢
    rw [hs.declare, ih]

theorem walkStatements (h : InterchangeAll builtins hints hints' block block') (scope : ScopeId)
    (goal : Option Goal) (defined : List String) (before : Outcome) :
    walkStatements ⟨builtins, hints'⟩ scope goal defined before block' =
      walkStatements ⟨builtins, hints⟩ scope goal defined before block := by
  induction h generalizing defined before with
  | nil => rw [walkStatements_nil, walkStatements_nil]
  | cons hs _ ih =>
    rw [walkStatements_cons, walkStatements_cons, hs.walk, hs.defined]
    simp only [ih]

theorem walkBlock (h : InterchangeAll builtins hints hints' block block') (scope : ScopeId)
    (goal : Option Goal) :
    walkBlock ⟨builtins, hints'⟩ scope goal block' =
      walkBlock ⟨builtins, hints⟩ scope goal block := by
  rw [Gradual.walkBlock, Gradual.walkBlock, h.declareAll, h.walkStatements]

theorem walkBranch (h : InterchangeAll builtins hints hints' block block') (scope : ScopeId)
    (goal : Option Goal) :
    walkBranch ⟨builtins, hints'⟩ scope goal block' =
      walkBranch ⟨builtins, hints⟩ scope goal block := by
  simp only [Gradual.walkBranch, h.walkBlock]

theorem hasElif (h : InterchangeAll builtins hints hints' block block') :
    hasElif (some block') = hasElif (some block) := by
  cases h with
  | nil => rfl
  | cons hs _ => exact hs.isElif

end InterchangeAll

namespace Interchange

theorem function (h : InterchangeAll builtins hints hints' body body') (head : FunctionHead) :
    Interchange builtins hints hints' (.function head body) (.function head body') where
  isElif := rfl
  declare _ := rfl
  defined _ := rfl
  walk scope goal defined := by
    have hbody (declared : Signature) :
        walkBody ⟨builtins, hints'⟩ scope head declared body' =
          walkBody ⟨builtins, hints⟩ scope head declared body := by
      simp only [walkBody, h.walkBlock]
    rw [walkStatement_function, walkStatement_function, walkFunction, walkFunction]
    simp only [hbody]
    rfl

theorem conditional (h : InterchangeAll builtins hints hints' body body')
    {otherwise otherwise' : Option (List Statement)}
    (ho : Option.Rel (InterchangeAll builtins hints hints') otherwise otherwise')
    (head : Condition) :
    Interchange builtins hints hints' (.conditional head body otherwise)
      (.conditional head body' otherwise') where
  isElif := rfl
  declare _ := rfl
  defined _ := rfl
  walk scope goal defined := by
    rw [walkStatement_conditional, walkStatement_conditional, h.walkBranch]
    cases ho with
    | none => rw [walkOtherwise_none, walkOtherwise_none]
    | some ho => rw [walkOtherwise_some, walkOtherwise_some, ho.walkBranch, ho.hasElif]

/-- An assignment is checked alike if the same type is stated for it. -/
theorem assignment {a : Assignment} {declared : Option Expr}
    (h : statedType ⟨builtins, hints'⟩ { a with declared } = statedType ⟨builtins, hints⟩ a) :
    Interchange builtins hints hints' (.assignment a) (.assignment { a with declared }) where
  isElif := rfl
  declare _ := rfl
  defined _ := rfl
  walk scope goal defined := by
    rw [walkStatement_assignment, walkStatement_assignment, checkAssignment, checkAssignment, h]
    rfl

end Interchange

/-! ## The types that are looked up -/

/-- The same types are stated in comments on the lines of the assignments in a block that state no
type themselves. -/
def Agree (hints hints' : Hints) (block : List Statement) : Prop :=
  ∀ a, Occurs a block → a.declared = none → hints'[a.span.line]? = hints[a.span.line]?

theorem Agree.mono {larger : List Statement} (h : Agree hints hints' larger)
    (hsub : block ⊆ larger) : Agree hints hints' block :=
  fun a ha => h a (ha.mono hsub)

theorem statedType_of_agree {a : Assignment}
    (h : a.declared = none → hints'[a.span.line]? = hints[a.span.line]?) :
    statedType ⟨builtins, hints'⟩ a = statedType ⟨builtins, hints⟩ a := by
  unfold statedType
  split
  · rfl
  next hnone => rw [hintedType, hintedType, h hnone]

/-- A type in a comment counts like one at the target, if it is not outside the check. -/
theorem statedType_of_comment {a : Assignment} {e : Expr} (ha : a.declared = some e)
    (he : ∀ construct span, declaredType e ≠ .error (.unsupported construct span))
    (hints : Hints) :
    statedType ⟨builtins, hints.insert a.span.line e⟩ { a with declared := none } =
      statedType ⟨builtins, hints⟩ a := by
  have hline : (hints.insert a.span.line e)[a.span.line]? = some e := by simp
  rw [statedType, statedType, ha, hintedType, hline]
  dsimp only
  cases h : declaredType e with
  | ok ty => rfl
  | error fault =>
    cases fault with
    | unsupported construct span => exact absurd h (he construct span)
    | heresy | suspicion => rfl

theorem interchange_and_interchangeAll :
    (∀ s, Agree hints hints' [s] → Interchange builtins hints hints' s s) ∧
    ∀ block, Agree hints hints' block → InterchangeAll builtins hints hints' block block := by
  apply Statement.block_induction
  case function =>
    intro head body ih h
    exact .function (ih fun a ha => h a (.body (List.mem_singleton_self _) ha)) head
  case assignment =>
    intro a h
    exact .assignment (statedType_of_agree (h a (.here (List.mem_singleton_self _))))
  case returns =>
    intro span value _
    refine ⟨rfl, fun _ => rfl, fun _ => rfl, fun scope goal defined => ?_⟩
    rw [walkStatement_returns, walkStatement_returns]
    rfl
  case conditional =>
    intro head body otherwise ih iho h
    refine .conditional (ih fun a ha => h a (.consequent (List.mem_singleton_self _) ha)) ?_ head
    cases otherwise with
    | none => exact .none
    | some other =>
      exact .some (iho other rfl fun a ha => h a (.alternative (List.mem_singleton_self _) ha))
  case expression =>
    intro e _
    refine ⟨rfl, fun _ => rfl, fun _ => rfl, fun scope goal defined => ?_⟩
    rw [walkStatement_expression, walkStatement_expression]
    rfl
  case pass =>
    intro span _
    refine ⟨rfl, fun _ => rfl, fun _ => rfl, fun scope goal defined => ?_⟩
    rw [walkStatement_pass, walkStatement_pass]
  case unsupported =>
    intro span construct _
    refine ⟨rfl, fun _ => rfl, fun _ => rfl, fun scope goal defined => ?_⟩
    rw [walkStatement_unsupported, walkStatement_unsupported]
  case nil => exact fun _ => .nil
  case cons =>
    intro s rest ihs ihr h
    exact .cons (ihs (h.mono (by simp))) (ihr (h.mono (List.subset_cons_self s rest)))

/-- **Only the lines of assignments without a type of their own are looked up.** -/
theorem interchange_of_agree (h : Agree hints hints' block) :
    InterchangeAll builtins hints hints' block block :=
  interchange_and_interchangeAll.2 block h

/-- One statement of a block is replaced. -/
theorem Agree.replace {before after : List Statement} {s s' : Statement}
    (h : Agree hints hints' (before ++ s :: after))
    (hs : Interchange builtins hints hints' s s') :
    InterchangeAll builtins hints hints' (before ++ s :: after) (before ++ s' :: after) := by
  apply List.rel_append
  · exact interchange_of_agree (h.mono (List.subset_append_left before _))
  · exact .cons hs (interchange_of_agree (h.mono (by simp)))

/-- **A type in a comment in place of one at the target**, at any depth of a block. -/
theorem Unstated.interchange {a : Assignment} {e : Expr} (ha : a.declared = some e)
    (he : ∀ construct span, declaredType e ≠ .error (.unsupported construct span))
    (h : Unstated a block block') (hagree : Agree hints (hints.insert a.span.line e) block) :
    InterchangeAll builtins hints (hints.insert a.span.line e) block block' := by
  induction h with
  | here before after => exact hagree.replace (.assignment (statedType_of_comment ha he hints))
  | body before after _ ih =>
    have hbody := ih fun b hb => hagree b (.body List.mem_append_cons_self hb)
    exact hagree.replace (.function hbody _)
  | @consequent before after _ _ _ otherwise _ ih =>
    have hbody := ih fun b hb => hagree b (.consequent List.mem_append_cons_self hb)
    refine hagree.replace (.conditional hbody ?_ _)
    cases otherwise with
    | none => exact .none
    | some other =>
      exact .some (interchange_of_agree fun b hb =>
        hagree b (.alternative List.mem_append_cons_self hb))
  | alternative before after _ ih =>
    have hother := ih fun b hb => hagree b (.alternative List.mem_append_cons_self hb)
    refine hagree.replace (.conditional ?_ (.some hother) _)
    exact interchange_of_agree fun b hb => hagree b (.consequent List.mem_append_cons_self hb)

/-! ## Modules -/

namespace Checker

variable {c : Checker} {module module' : List Statement}

theorem settle_withHints {α : Type} (c : Checker) (hints : Hints) (walk : Walk α) :
    (c.withHints hints).settle walk = (c.settle walk).withHints hints := by
  rw [settle_eq, settle_eq]
  have hstate : (c.withHints hints).state = c.state := rfl
  rw [hstate]
  split
  · rfl
  next e _ _ => cases e <;> rfl

theorem declareModule_withHints (hints' : Hints)
    (h : InterchangeAll builtins hints hints' module module') :
    (c.declareModule module).withHints hints' = (c.withHints hints').declareModule module' := by
  induction h generalizing c with
  | nil => rfl
  | cons hs _ ih =>
    rw [declareModule_cons, declareModule_cons, ih, declareStep, declareStep, settle_withHints,
      hs.declare]

theorem checkStatements_withHints (hc : c.env = ⟨builtins, hints⟩)
    (h : InterchangeAll builtins hints hints' module module') (defined : List String) :
    (c.checkStatements defined module).withHints hints' =
      (c.withHints hints').checkStatements defined module' := by
  induction h generalizing c defined with
  | nil => rfl
  | @cons s s' _ _ hs _ ih =>
    have henv : (c.withHints hints').env = ⟨builtins, hints'⟩ := by rw [withHints, hc]
    have hstep : (c.checkStatement defined s).withHints hints' =
        (c.withHints hints').checkStatement defined s' := by
      rw [checkStatement, checkStatement, settle_withHints, hc, henv, hs.walk]
    rw [checkStatements, checkStatements, ih, hstep, hs.defined]
    rw [checkStatement, settle_env, hc]

/-- **A module is checked alike with the same types stated elsewhere.** -/
theorem checkModule_withHints (hc : c.env = ⟨builtins, hints⟩)
    (h : InterchangeAll builtins hints hints' module module') :
    (c.checkModule module).withHints hints' = (c.withHints hints').checkModule module' := by
  have hrecord (bs : List (String × Ty)) (d : Checker) :
      (bs.foldl (fun d b => d.record (.binding b.1 b.2)) d).withHints hints' =
        bs.foldl (fun d b => d.record (.binding b.1 b.2)) (d.withHints hints') := by
    induction bs generalizing d with
    | nil => rfl
    | cons b bs ih => exact ih (d.record (.binding b.1 b.2))
  have hdeclared : (c.declareModule module).env = ⟨builtins, hints⟩ := by
    rw [declareModule_env, hc]
  have hchecked := checkStatements_withHints hdeclared h []
  rw [declareModule_withHints hints' h] at hchecked
  rw [checkModule, checkModule, hrecord, ← hchecked]
  rfl

/-- **A comment acts like an annotation**: the check reports, binds and logs the same if a type is
stated in a comment on the line of the assignment instead. -/
theorem comment_acts_like_annotation (c : Checker) (hints : Hints) {a : Assignment} {e : Expr}
    (ha : a.declared = some e)
    (he : ∀ construct span, declaredType e ≠ .error (.unsupported construct span))
    (h : Unstated a module module')
    (hline : ∀ b, Occurs b module → b.declared = none → b.span.line ≠ a.span.line) :
    let stated := (c.withHints hints).checkModule module
    let commented := (c.withHints (hints.insert a.span.line e)).checkModule module'
    commented.diagnostics = stated.diagnostics ∧ commented.bindings = stated.bindings ∧
      commented.state.log = stated.state.log := by
  intro stated commented
  have hagree : Agree hints (hints.insert a.span.line e) module := by
    intro b hb hnone
    rw [Std.ExtTreeMap.getElem?_insert, if_neg]
    exact fun heq => hline b hb hnone (Std.LawfulEqCmp.eq_of_compare heq).symm
  have hsame : stated.withHints (hints.insert a.span.line e) = commented :=
    checkModule_withHints rfl (h.interchange ha he hagree)
  rw [← hsame]
  exact ⟨rfl, rfl, rfl⟩

/-- A text is assigned in a branch inside a function, on line 4 where a number is stated. It is
reported as wrong, also if the number is stated in a comment. -/
theorem branchAssignment_commented :
    let number : Expr := .name .none ⟨"int", .none⟩
    let wrong : Assignment := ⟨⟨4, 8, 4, 19⟩, [.name .none ⟨"x", .none⟩], some number,
      some (.literal .none (.string ""))⟩
    let other : Assignment := ⟨⟨1, 0, 1, 5⟩, [.name .none ⟨"y", .none⟩], none,
      some (.literal .none (.integer 1))⟩
    let test : Condition := ⟨.none, .opening, .name .none ⟨"y", .none⟩⟩
    let module (inner : Assignment) : List Statement :=
      [.assignment other, .function ⟨⟨"f", .none⟩, .none, [], none⟩
        [.conditional test [.assignment inner] none]]
    let c := new .standard
    let hints : Hints := ∅
    let commented := (c.withHints (hints.insert 4 number)).checkModule
      (module { wrong with declared := none })
    commented.diagnostics.size = 1 ∧
      commented.diagnostics = ((c.withHints hints).checkModule (module wrong)).diagnostics ∧
      commented.bindings = ((c.withHints hints).checkModule (module wrong)).bindings := by
  intro number wrong other test module c hints commented
  have hstated : ∀ construct span, declaredType number ≠ .error (.unsupported construct span) := by
    simp [number, declaredType]
  have hinner : Unstated wrong [.conditional test [.assignment wrong] none]
      [.conditional test [.assignment { wrong with declared := none }] none] :=
    .consequent [] [] (.here [] [])
  have herased : Unstated wrong (module wrong) (module { wrong with declared := none }) :=
    .body [.assignment other] [] hinner
  have hline : ∀ b, Occurs b (module wrong) → b.declared = none →
      b.span.line ≠ wrong.span.line := by
    intro b hb hnone
    have hb' : b = wrong ∨ b = other := by
      rcases hb with h | ⟨h, hb⟩ | ⟨h, hb⟩ | ⟨h, hb⟩ <;> simp [module] at h
      · exact .inr h
      · obtain ⟨-, rfl⟩ := h
        rcases hb with h | ⟨h, hb⟩ | ⟨h, hb⟩ | ⟨h, hb⟩ <;> simp at h
        obtain ⟨-, rfl, -⟩ := h
        rcases hb with h | ⟨h, -⟩ | ⟨h, -⟩ | ⟨h, -⟩ <;> simp at h
        exact .inl h
    rcases hb' with rfl | rfl
    · cases hnone
    · decide
  obtain ⟨hdiags, hbindings, -⟩ :=
    comment_acts_like_annotation c hints rfl hstated herased hline
  refine ⟨?_, hdiags, hbindings⟩
  rw [hdiags]
  decide +kernel

end Checker

end Gradual
