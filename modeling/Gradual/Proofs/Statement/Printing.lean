import Gradual.Proofs.Expr.Printing
import Gradual.Proofs.Statement.Grammar

/-!
# Printing statements

Statements as words. Every statement without others inside ends its line, and the statements that
belong to a header stand in an indented block below it.

* `Statement.Plain`, `PlainBlock`: statements in which nothing was read over;
* **`Statement.words`**, `wordsOfBlock`: the words of statements;
* `Statement.bare`, `bareBlock`: statements without their spans;
* `Statement.Plain.inside`: no word of a statement ends the input.
-/

namespace Gradual

open Source

/-! ## Statements in which nothing was read over -/

/-- A parameter that takes one argument, with a type and a default value in which nothing was read
over. -/
structure Parameter.Plain (p : Parameter) : Prop where
  kind : p.kind = .positional
  declared : ∀ e ∈ p.declared, e.Plain
  initial : ∀ e ∈ p.initial, e.Plain

/-- An assignment of a value to one target or more, or one target with its type. -/
inductive Assignment.Plain : Assignment → Prop
  | chain (s : Span) {first value : Expr} {more : List Expr} (head : first.Plain)
      (tail : ∀ e ∈ more, e.Plain) (last : value.Plain) :
      Plain ⟨s, first :: more, none, some value⟩
  | declared (s : Span) {target type : Expr} {value : Option Expr} (head : target.Plain)
      (typed : type.Plain) (last : ∀ e ∈ value, e.Plain) : Plain ⟨s, [target], some type, value⟩

/-- No part of the statement was read over, and a conditional that goes on another one is all of
that one's alternative. -/
inductive Statement.Plain : Statement → Prop
  | function {head : FunctionHead} {body : List Statement}
      (parameters : ∀ p ∈ head.parameters, p.Plain) (returns : ∀ e ∈ head.returns, e.Plain)
      (inside : ∀ s ∈ body, Plain s) (apart : ∀ s ∈ body, s.isElif = false) :
      Plain (.function head body)
  | assignment {a : Assignment} (h : a.Plain) : Plain (.assignment a)
  | returns (s : Span) {value : Option Expr} (h : ∀ e ∈ value, e.Plain) : Plain (.returns s value)
  | conditional {head : Condition} {body : List Statement} (test : head.test.Plain)
      (inside : ∀ s ∈ body, Plain s) (apart : ∀ s ∈ body, s.isElif = false) :
      Plain (.conditional head body none)
  | further {head : Condition} {body : List Statement} {s : Statement} (test : head.test.Plain)
      (inside : ∀ s ∈ body, Plain s) (apart : ∀ s ∈ body, s.isElif = false) (next : Plain s)
      (elif : s.isElif = true) : Plain (.conditional head body (some [s]))
  | otherwise {head : Condition} {body block : List Statement} (test : head.test.Plain)
      (inside : ∀ s ∈ body, Plain s) (apart : ∀ s ∈ body, s.isElif = false)
      (inside' : ∀ s ∈ block, Plain s) (apart' : ∀ s ∈ block, s.isElif = false) :
      Plain (.conditional head body (some block))
  | expression {e : Expr} (h : e.Plain) : Plain (.expression e)
  | pass (s : Span) : Plain (.pass s)

/-- Statements in which nothing was read over, each of which stands for itself. -/
def PlainBlock (ss : List Statement) : Prop := ∀ s ∈ ss, s.Plain ∧ s.isElif = false

/-! ## Words -/

/-- A mark and an expression after it, or nothing. -/
def wordsAfter (m : Mark) : Option Expr → List Word
  | none => []
  | some e => .mark m :: e.words

/-- The words of a parameter: its name, its type and its default value. -/
def Parameter.words (p : Parameter) : List Word :=
  .ofName p.name :: (wordsAfter .colon p.declared ++ wordsAfter .equal p.initial)

/-- The words of the header of a function definition. -/
def FunctionHead.words (head : FunctionHead) : List Word :=
  .keyword .defKw :: .ofName head.name.name ::
    .mark .lparen :: (separated .comma (head.parameters.map Parameter.words) ++
      .mark .rparen :: (wordsAfter .arrow head.returns ++ [.mark .colon]))

/-- The words of an assignment. -/
def Assignment.words (a : Assignment) : List Word :=
  match a.declared with
  | none => separated .equal ((a.targets ++ a.value.toList).map Expr.words)
  | some type =>
    a.targets.flatMap Expr.words ++ .mark .colon :: (type.words ++ wordsAfter .equal a.value)

/-- An indented block below a header. -/
def suiteWords (ws : List Word) : List Word :=
  .ofKind .newline :: .ofKind .indent :: (ws ++ [.ofKind .dedent])

mutual

/-- The words of a statement, with the end of its line. -/
def Statement.words : Statement → List Word
  | .function head body => head.words ++ suiteWords (wordsOfBlock body)
  | .assignment a => a.words ++ [.ofKind .newline]
  | .returns _ none => [.keyword .returnKw, .ofKind .newline]
  | .returns _ (some e) => .keyword .returnKw :: (e.words ++ [.ofKind .newline])
  | .conditional head body otherwise =>
    .keyword head.kind.keyword :: (head.test.words ++
      .mark .colon :: (suiteWords (wordsOfBlock body) ++ wordsOfAlternative otherwise))
  | .expression e => e.words ++ [.ofKind .newline]
  | .pass _ => [.keyword .passKw, .ofKind .newline]
  | .unsupported .. => []

/-- The words of some statements. -/
def wordsOfBlock : List Statement → List Word
  | [] => []
  | s :: ss => s.words ++ wordsOfBlock ss

/-- The words of the alternative of a conditional. -/
def wordsOfAlternative : Option (List Statement) → List Word
  | none => []
  | some ss =>
    if hasElif (some ss) then wordsOfBlock ss
    else .keyword .elseKw :: .mark .colon :: suiteWords (wordsOfBlock ss)

end

/-! ## No word ends the input -/

theorem inside_wordsAfter {m : Mark} {value : Option Expr} (h : ∀ e ∈ value, e.Plain) :
    Inside (wordsAfter m value) := by
  cases value with
  | none => exact inside_nil
  | some e => simp [wordsAfter, (h e rfl).inside]

theorem Parameter.Plain.inside {p : Parameter} (h : p.Plain) : Inside p.words := by
  simp [Parameter.words, inside_wordsAfter h.declared, inside_wordsAfter h.initial]

theorem FunctionHead.inside {head : FunctionHead} (hps : ∀ p ∈ head.parameters, p.Plain)
    (hreturns : ∀ e ∈ head.returns, e.Plain) : Inside head.words := by
  have hparameters : Inside (separated .comma (head.parameters.map Parameter.words)) := by
    refine inside_separated fun ws hws => ?_
    obtain ⟨p, hp, rfl⟩ := List.mem_map.1 hws
    exact (hps p hp).inside
  simp [FunctionHead.words, hparameters, inside_wordsAfter hreturns]

theorem Assignment.Plain.inside {a : Assignment} (h : a.Plain) : Inside a.words := by
  cases h with
  | @chain s first value more head tail last =>
    simp only [Assignment.words]
    refine inside_separated fun ws hws => ?_
    obtain ⟨e, he, rfl⟩ := List.mem_map.1 hws
    have hcases : e = first ∨ e ∈ more ∨ e = value := by simpa using he
    rcases hcases with rfl | he | rfl
    · exact head.inside
    · exact (tail e he).inside
    · exact last.inside
  | declared s head typed last =>
    simp [Assignment.words, head.inside, typed.inside, inside_wordsAfter last]

theorem inside_suiteWords {ws : List Word} (h : Inside ws) : Inside (suiteWords ws) := by
  simp [suiteWords, h]

theorem inside_wordsOfBlock {ss : List Statement} (h : ∀ s ∈ ss, Inside s.words) :
    Inside (wordsOfBlock ss) := by
  induction ss with
  | nil => exact inside_nil
  | cons s ss ih =>
    exact inside_append.2 ⟨h s List.mem_cons_self, ih fun x hx => h x (List.mem_cons_of_mem s hx)⟩

/-- No word of a statement ends the input. -/
theorem Statement.Plain.inside {s : Statement} (h : s.Plain) : Inside s.words := by
  induction h with
  | function hps hreturns _ _ ih =>
    simp [Statement.words, FunctionHead.inside hps hreturns,
      inside_suiteWords (inside_wordsOfBlock ih)]
  | assignment h => simp [Statement.words, h.inside]
  | @returns s value h =>
    cases value with
    | none => simp [Statement.words]
    | some e => simp [Statement.words, (h e rfl).inside]
  | conditional test _ _ ih =>
    simp [Statement.words, wordsOfAlternative, test.inside,
      inside_suiteWords (inside_wordsOfBlock ih)]
  | further test _ _ _ elif ih ih' =>
    simp [Statement.words, wordsOfAlternative, wordsOfBlock, hasElif, elif, test.inside, ih',
      inside_suiteWords (inside_wordsOfBlock ih)]
  | otherwise test _ _ _ apart' ih ih' =>
    have hblock := inside_wordsOfBlock ih'
    simp only [Statement.words, wordsOfAlternative]
    split <;> simp [test.inside, hblock, inside_suiteWords (inside_wordsOfBlock ih),
      inside_suiteWords hblock]
  | expression h => simp [Statement.words, h.inside]
  | pass s => simp [Statement.words]

/-! ## Without spans -/

/-- A parameter without its spans. -/
def Parameter.bare (p : Parameter) : Parameter :=
  ⟨p.name, .none, p.kind, p.declared.map Expr.bare, p.initial.map Expr.bare⟩

/-- A header without its spans. -/
def FunctionHead.bare (head : FunctionHead) : FunctionHead :=
  ⟨head.name.bare, .none, head.parameters.map Parameter.bare, head.returns.map Expr.bare⟩

/-- An assignment without its spans. -/
def Assignment.bare (a : Assignment) : Assignment :=
  ⟨.none, a.targets.map Expr.bare, a.declared.map Expr.bare, a.value.map Expr.bare⟩

/-- A condition without its spans. -/
def Condition.bare (head : Condition) : Condition := ⟨.none, head.kind, head.test.bare⟩

mutual

/-- A statement without its spans. -/
def Statement.bare : Statement → Statement
  | .function head body => .function head.bare (bareBlock body)
  | .assignment a => .assignment a.bare
  | .returns _ value => .returns .none (value.map Expr.bare)
  | .conditional head body otherwise =>
    .conditional head.bare (bareBlock body) (bareAlternative otherwise)
  | .expression e => .expression e.bare
  | .pass _ => .pass .none
  | .unsupported _ k => .unsupported .none k

/-- Statements without their spans. -/
def bareBlock : List Statement → List Statement
  | [] => []
  | s :: ss => s.bare :: bareBlock ss

/-- An alternative without its spans. -/
def bareAlternative : Option (List Statement) → Option (List Statement)
  | none => none
  | some ss => some (bareBlock ss)

end

end Gradual
