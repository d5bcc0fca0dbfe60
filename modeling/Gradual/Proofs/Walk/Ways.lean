import Gradual.Proofs.Walk.Run

/-!
# Ways through a block

A way through a block takes one branch of each conditional, or passes by a conditional without an
alternative, until a `return` statement or the end of the block. A `return` statement is checked in
the state that all statements before it leave, whatever way leads to it.

* `Place`: where a statement is checked;
* `Way`, `BlockWay`: the ways through a statement or a block, and what they end with;
* `Visits`, `Clean`: the statements of a block at any depth, and blocks in which none of them is
  passed over.
-/

namespace Gradual

open Effect

/-! ## Places -/

/-- Where a statement is checked: the scope, the functions defined before it, and the state. -/
structure Place where
  scope : ScopeId
  defined : List String
  state : WalkState

namespace Place

variable (env : Env) (goal : Option Goal) (p : Place)

/-- The check of a statement at a place. -/
def check (s : Statement) : Except CheckError Outcome × WalkState :=
  exec (walkStatement env p.scope goal p.defined s) p.state

/-- The check of statements from a place on, after others with the outcome `before`. -/
def checkAll (before : Outcome) (block : List Statement) : Except CheckError Outcome × WalkState :=
  exec (walkStatements env p.scope goal p.defined before block) p.state

/-- The place after a statement, which may be passed over. -/
def after (s : Statement) : Place :=
  ⟨p.scope, definedAfter p.defined s,
    (exec (Walk.tolerate .passedOver (walkStatement env p.scope goal p.defined s)) p.state).2⟩

/-- The place after some statements, each of which may be passed over. -/
def afterAll (first : List Statement) : Place := first.foldl (fun q s => q.after env goal s) p

/-- The place at the start of a block in the scope `scope`. -/
def start (scope : ScopeId) (block : List Statement) (σ : WalkState) : Place :=
  ⟨scope, [], (exec (declareAll scope block) σ).2⟩

/-- The place at the start of a branch inside the scope `scope`. -/
def branch (scope : ScopeId) (block : List Statement) (σ : WalkState) : Place :=
  start σ.fresh block (σ.opened scope)

/-- The state in which the branches of a conditional are entered. -/
def exploring (head : Condition) : WalkState :=
  p.state.logged (.exploring (goal.map (·.expected)) head.span.line)

/-- The place at the start of the first branch of a conditional. -/
def consequent (head : Condition) (body : List Statement) : Place :=
  branch p.scope body (p.exploring goal head)

/-- The place at the start of the second branch of a conditional. -/
def alternative (head : Condition) (body block : List Statement) : Place :=
  branch p.scope block (exec (walkBranch env p.scope goal body) (p.exploring goal head)).2

/-- What the `return` statements of a function have to agree with. -/
def goalOf (head : FunctionHead) (declared : Signature) : Option Goal :=
  some ⟨head.name.name, declared.ret⟩

/-- The place at the start of the body of a function that is defined in a state. -/
def body (scope : ScopeId) (head : FunctionHead) (declared : Signature) (block : List Statement)
    (σ : WalkState) : Place :=
  let ρ := (exec (checkHeader env scope head) σ).2
  start ρ.fresh block (ρ.inBody scope head declared)

end Place

/-! ## Ways -/

/-- Whether a statement neither returns nor branches. -/
def Statement.goesOn : Statement → Bool
  | .returns _ _ | .conditional _ _ _ => false
  | _ => true

/-- Induction on statements and blocks together, without the bodies of functions. -/
theorem Statement.way_induction {P : Statement → Prop} {Q : List Statement → Prop}
    (goesOn : ∀ s, s.goesOn = true → P s)
    (returns : ∀ span value, P (.returns span value))
    (conditional : ∀ head body otherwise, Q body → (∀ block, otherwise = some block → Q block) →
      P (.conditional head body otherwise))
    (nil : Q []) (cons : ∀ s rest, P s → Q rest → Q (s :: rest)) (block : List Statement) :
    Q block :=
  (Statement.block_induction (fun _ _ _ => goesOn _ rfl) (fun _ => goesOn _ rfl) returns conditional
    (fun _ => goesOn _ rfl) (fun _ => goesOn _ rfl) (fun _ _ => goesOn _ rfl) nil cons).2 block

mutual

/-- A way through a statement: to what comes next, or to a `return` statement, with the result of
its check. -/
inductive Way (env : Env) (goal : Option Goal) :
    Place → Statement → Option (Except CheckError Ty) → Prop
  | goesOn {p : Place} {s : Statement} (h : s.goesOn = true) : Way env goal p s none
  | returns {p : Place} {span : Source.Span} {value : Option Expr} :
      Way env goal p (.returns span value)
        (some (exec (checkReturn env p.scope goal span value) p.state).1)
  | consequent {p : Place} {head : Condition} {body : List Statement}
      {otherwise : Option (List Statement)} {r : Option (Except CheckError Ty)}
      (h : BlockWay env goal (p.consequent goal head body) body r) :
      Way env goal p (.conditional head body otherwise) r
  | alternative {p : Place} {head : Condition} {body block : List Statement}
      {r : Option (Except CheckError Ty)}
      (h : BlockWay env goal (p.alternative env goal head body block) block r) :
      Way env goal p (.conditional head body (some block)) r
  | passesBy {p : Place} {head : Condition} {body : List Statement} :
      Way env goal p (.conditional head body none) none

/-- A way through a block: to its end, or to a `return` statement, with the result of its check. -/
inductive BlockWay (env : Env) (goal : Option Goal) :
    Place → List Statement → Option (Except CheckError Ty) → Prop
  | done {p : Place} : BlockWay env goal p [] none
  | next {p : Place} {s : Statement} {rest : List Statement} {r : Option (Except CheckError Ty)}
      (hs : Way env goal p s none) (h : BlockWay env goal (p.after env goal s) rest r) :
      BlockWay env goal p (s :: rest) r
  | ends {p : Place} {s : Statement} {rest : List Statement} {r : Except CheckError Ty}
      (h : Way env goal p s (some r)) : BlockWay env goal p (s :: rest) (some r)

end

/-- What the ways through some part of a block end with. -/
abbrev Endings := Option (Except CheckError Ty) → Prop

namespace Endings

/-- The ways through one part, and through another part after it. -/
def andThen (W V : Endings) : Endings := fun r => r ≠ none ∧ W r ∨ W none ∧ V r

theorem andThen_none {W V : Endings} : W.andThen V none ↔ W none ∧ V none := by
  simp [andThen]

theorem andThen_some {W V : Endings} {x : Except CheckError Ty} :
    W.andThen V (some x) ↔ W (some x) ∨ W none ∧ V (some x) := by
  simp [andThen]

theorem andThen_assoc (W V U : Endings) : (W.andThen V).andThen U = W.andThen (V.andThen U) := by
  funext r
  cases r with
  | none => simp [andThen_none, and_assoc]
  | some x => simp [andThen_some, andThen_none, or_assoc, and_or_left, and_assoc]

theorem andThen_done (W : Endings) : W.andThen (· = none) = W := by
  funext r
  cases r <;> simp [andThen]

theorem done_andThen (W : Endings) : Endings.andThen (· = none) W = W := by
  funext r
  cases r <;> simp [andThen]

end Endings

section Ways

variable {env : Env} {goal : Option Goal} {p : Place} {s : Statement} {rest body : List Statement}
  {r : Option (Except CheckError Ty)}

theorem way_of_goesOn (hs : s.goesOn = true) : Way env goal p s r ↔ r = none := by
  constructor
  · rintro (_ | _ | _ | _ | _)
    · rfl
    all_goals cases hs
  · rintro rfl
    exact .goesOn hs

theorem way_returns {span : Source.Span} {value : Option Expr} :
    Way env goal p (.returns span value) r ↔
      r = some (exec (checkReturn env p.scope goal span value) p.state).1 := by
  constructor
  · rintro (h | _)
    · cases h
    · rfl
  · rintro rfl
    exact .returns

theorem way_conditional_none {head : Condition} :
    Way env goal p (.conditional head body none) r ↔
      BlockWay env goal (p.consequent goal head body) body r ∨ r = none := by
  constructor
  · rintro (h | _ | h | _ | _)
    · cases h
    · exact .inl h
    · exact .inr rfl
  · rintro (h | rfl)
    · exact .consequent h
    · exact .passesBy

theorem way_conditional_some {head : Condition} {block : List Statement} :
    Way env goal p (.conditional head body (some block)) r ↔
      BlockWay env goal (p.consequent goal head body) body r ∨
        BlockWay env goal (p.alternative env goal head body block) block r := by
  constructor
  · rintro (h | _ | h | h | _)
    · cases h
    · exact .inl h
    · exact .inr h
  · rintro (h | h)
    · exact .consequent h
    · exact .alternative h

theorem blockWay_nil : BlockWay env goal p [] r ↔ r = none := by
  constructor
  · rintro ⟨⟩
    rfl
  · rintro rfl
    exact .done

theorem blockWay_cons : BlockWay env goal p (s :: rest) r ↔
    Endings.andThen (Way env goal p s) (BlockWay env goal (p.after env goal s) rest) r := by
  constructor
  · rintro (_ | ⟨hs, h⟩ | h)
    · exact .inr ⟨hs, h⟩
    · exact .inl ⟨Option.some_ne_none _, h⟩
  · rintro (⟨hr, h⟩ | ⟨hs, h⟩)
    · obtain ⟨x, rfl⟩ := Option.ne_none_iff_exists'.1 hr
      exact .ends h
    · exact .next hs h

end Ways

/-! ## Statements at any depth -/

/-- The statements of a block at any depth of conditionals, each with the place where it is checked.
-/
inductive Visits (env : Env) (goal : Option Goal) :
    Place → List Statement → Place → Statement → Prop
  | head {p : Place} {s : Statement} {rest : List Statement} : Visits env goal p (s :: rest) p s
  | tail {p q : Place} {s t : Statement} {rest : List Statement}
      (h : Visits env goal (p.after env goal s) rest q t) : Visits env goal p (s :: rest) q t
  | consequent {p q : Place} {t : Statement} {head : Condition} {body rest : List Statement}
      {otherwise : Option (List Statement)}
      (h : Visits env goal (p.consequent goal head body) body q t) :
      Visits env goal p (.conditional head body otherwise :: rest) q t
  | alternative {p q : Place} {t : Statement} {head : Condition} {body block rest : List Statement}
      (h : Visits env goal (p.alternative env goal head body block) block q t) :
      Visits env goal p (.conditional head body (some block) :: rest) q t

/-- A statement at a place is outside the check. -/
def PassesOver (env : Env) (goal : Option Goal) (p : Place) (s : Statement) : Prop :=
  ∃ construct span, (p.check env goal s).1 = .error (.unsupported construct span)

/-- No statement of a block, at any depth of conditionals, is passed over. -/
def Clean (env : Env) (goal : Option Goal) (p : Place) (block : List Statement) : Prop :=
  ∀ q t, Visits env goal p block q t → ¬ PassesOver env goal q t

section Clean

variable {env : Env} {goal : Option Goal} {p : Place} {s : Statement}

theorem clean_nil : Clean env goal p [] := nofun

theorem clean_cons {rest : List Statement} :
    Clean env goal p (s :: rest) ↔
      Clean env goal p [s] ∧ Clean env goal (p.after env goal s) rest := by
  constructor
  · intro h
    refine ⟨fun q t hv => h q t ?_, fun q t hv => h q t (.tail hv)⟩
    rcases hv with _ | hv | hv | hv
    · exact .head
    · cases hv
    · exact .consequent hv
    · exact .alternative hv
  · rintro ⟨hs, hrest⟩ q t (_ | hv | hv | hv)
    · exact hs _ _ .head
    · exact hrest _ _ hv
    · exact hs _ _ (.consequent hv)
    · exact hs _ _ (.alternative hv)

theorem clean_conditional {head : Condition} {body : List Statement}
    {otherwise : Option (List Statement)} :
    Clean env goal p [.conditional head body otherwise] ↔
      ¬ PassesOver env goal p (.conditional head body otherwise) ∧
      Clean env goal (p.consequent goal head body) body ∧
      ∀ block, otherwise = some block →
        Clean env goal (p.alternative env goal head body block) block := by
  constructor
  · intro h
    refine ⟨h _ _ .head, fun q t hv => h q t (.consequent hv), ?_⟩
    rintro block rfl q t hv
    exact h q t (.alternative hv)
  · rintro ⟨hs, hbody, hblock⟩ q t (_ | hv | hv | hv)
    · exact hs
    · cases hv
    · exact hbody _ _ hv
    · exact hblock _ rfl _ _ hv

theorem clean_singleton (hs : ∀ head body otherwise, s ≠ .conditional head body otherwise) :
    Clean env goal p [s] ↔ ¬ PassesOver env goal p s := by
  constructor
  · intro h
    exact h _ _ .head
  · rintro h q t (_ | hv | hv | hv)
    · exact h
    · cases hv
    · exact absurd rfl (hs _ _ _)
    · exact absurd rfl (hs _ _ _)

end Clean

end Gradual
