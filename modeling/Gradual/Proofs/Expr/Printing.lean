import Gradual.Proofs.Expr.Grammar
import Gradual.Proofs.Token.Words

/-!
# Printing expressions

Expressions as words. Parentheses stand around tuples, and around an operand that binds less tightly
than its place asks for. An expression without its spans is what printing keeps.

* `Expr.Plain`: expressions in which nothing was read over;
* `Expr.rank`, `BinaryOp.leftRank`, `BinaryOp.rightRank`, `UnaryOp.level`: how tightly expressions
  bind, and what operands have to;
* **`Expr.words`**: the words of an expression;
* `Expr.bare`: an expression without its spans;
* `Opening`, `Expr.Plain.opening`: how the words of an expression start.
-/

namespace Gradual

open Source

/-! ## Expressions in which nothing was read over -/

/-- No part of the expression was read over. -/
inductive Expr.Plain : Expr → Prop
  | name (s : Span) (id : Identifier) : Plain (.name s id)
  | literal (s : Span) (v : Literal) : Plain (.literal s v)
  | list (s : Span) {es : List Expr} (elements : ∀ e ∈ es, Plain e) : Plain (.list s es)
  | tuple (s : Span) {es : List Expr} (elements : ∀ e ∈ es, Plain e) : Plain (.tuple s es)
  | dict (s : Span) {es : List (Expr × Expr)} (keys : ∀ e ∈ es, Plain e.1)
      (values : ∀ e ∈ es, Plain e.2) : Plain (.dict s es)
  | unary (s : Span) (op : UnaryOp) {e : Expr} (operand : Plain e) : Plain (.unary s op e)
  | binary (s : Span) (op : BinaryOp) {left right : Expr} (first : Plain left)
      (second : Plain right) : Plain (.binary s op left right)
  | call (s : Span) {callee : Expr} {as : List (Argument Expr)} (head : Plain callee)
      (arguments : ∀ a ∈ as, Plain a.value) : Plain (.call s callee as)
  | member (s : Span) {object : Expr} (p : Identifier) (head : Plain object) :
      Plain (.member s object p)
  | index (s : Span) {object i : Expr} (head : Plain object) (inside : Plain i) :
      Plain (.index s object i)

/-! ## How tightly expressions bind -/

/-- The rank of what needs no operator at all, above those of all operators. -/
def operandRank : Nat := Precedence.power.rank + 1

/-- The level of an operator before its operand. -/
def UnaryOp.level : UnaryOp → Precedence
  | .not => .not
  | _ => .unary

/-- How tightly the left operand has to bind. Only the power operator does not group to the left. -/
def BinaryOp.leftRank : BinaryOp → Nat
  | .power => operandRank
  | op => op.precedence.rank

/-- How tightly the right operand has to bind. An operator before its operand may stand on the right
of the power operator, and so may another power. -/
def BinaryOp.rightRank : BinaryOp → Nat
  | .power => Precedence.unary.rank
  | op => op.precedence.rank + 1

/-- How tightly an expression binds. -/
def Expr.rank : Expr → Nat
  | .unary _ op _ => op.level.rank
  | .binary _ op _ _ => op.precedence.rank
  | _ => operandRank

/-! ## Words -/

/-- Words with parentheses around them, where they are needed. -/
def grouped (needed : Bool) (ws : List Word) : List Word :=
  if needed then .mark .lparen :: (ws ++ [.mark .rparen]) else ws

/-- The kind of the token of a literal. -/
def Literal.kind : Literal → TokenKind
  | .integer n => .integer n
  | .float x => .float x
  | .imaginary x => .imaginary x
  | .string s => .string s
  | .bytes s => .bytes s

/-- The name of an argument and the sign after it. -/
def labelWords : Option Identifier → List Word
  | none => []
  | some id => [.ofName id.name, .mark .equal]

mutual

/-- The words of an expression. -/
def Expr.words : Expr → List Word
  | .name _ id => [.ofName id.name]
  | .literal _ v => [.ofKind v.kind]
  | .list _ es => .mark .lbracket :: (separated .comma (wordsOfAll es) ++ [.mark .rbracket])
  | .tuple _ es =>
    -- a comma marks a tuple of one element
    let last := if es.length = 1 then [.mark .comma] else []
    .mark .lparen :: ((separated .comma (wordsOfAll es) ++ last) ++ [.mark .rparen])
  | .dict _ es => .mark .lbrace :: (separated .comma (wordsOfEntries es) ++ [.mark .rbrace])
  | .unary _ op e => .ofKind op.kind :: grouped (e.rank < op.level.rank) e.words
  | .binary _ op left right =>
    grouped (left.rank < op.leftRank) left.words ++
      (op.kinds.map .ofKind ++ grouped (right.rank < op.rightRank) right.words)
  | .call _ callee as =>
    grouped (callee.rank < operandRank) callee.words ++
      .mark .lparen :: (separated .comma (wordsOfArguments as) ++ [.mark .rparen])
  | .member _ object p =>
    grouped (object.rank < operandRank) object.words ++ [.mark .dot, .ofName p.name]
  | .index _ object i =>
    grouped (object.rank < operandRank) object.words ++
      .mark .lbracket :: (i.words ++ [.mark .rbracket])
  | .unsupported .. => []

/-- The words of each of some expressions. -/
def wordsOfAll : List Expr → List (List Word)
  | [] => []
  | e :: es => e.words :: wordsOfAll es

/-- The words of each of some entries. -/
def wordsOfEntries : List (Expr × Expr) → List (List Word)
  | [] => []
  | (key, value) :: es => (key.words ++ .mark .colon :: value.words) :: wordsOfEntries es

/-- The words of each of some arguments. -/
def wordsOfArguments : List (Argument Expr) → List (List Word)
  | [] => []
  | ⟨id, e⟩ :: as => (labelWords id ++ e.words) :: wordsOfArguments as

end

theorem wordsOfAll_eq (es : List Expr) : wordsOfAll es = es.map Expr.words := by
  induction es with
  | nil => rfl
  | cons e es ih => rw [wordsOfAll, ih, List.map_cons]

theorem wordsOfEntries_eq (es : List (Expr × Expr)) :
    wordsOfEntries es = es.map fun e => e.1.words ++ .mark .colon :: e.2.words := by
  induction es with
  | nil => rfl
  | cons e es ih => rw [wordsOfEntries, ih, List.map_cons]

theorem wordsOfArguments_eq (as : List (Argument Expr)) :
    wordsOfArguments as = as.map fun a => labelWords a.keyword ++ a.value.words := by
  induction as with
  | nil => rfl
  | cons a as ih => rw [wordsOfArguments, ih, List.map_cons]

theorem inside_grouped {needed : Bool} {ws : List Word} (h : Inside ws) :
    Inside (grouped needed ws) := by
  unfold grouped
  split <;> simp [h]

theorem inside_wordsOfAll {es : List Expr} (h : ∀ e ∈ es, Inside e.words) :
    Inside (separated .comma (wordsOfAll es)) := by
  refine inside_separated ?_
  simpa [wordsOfAll_eq] using h

/-- No word of an expression ends the input. -/
theorem Expr.Plain.inside {e : Expr} (h : e.Plain) : Inside e.words := by
  induction h with
  | name s id => simp [Expr.words]
  | literal s v => cases v <;> simp [Expr.words, Literal.kind]
  | list s _ ih => simp [Expr.words, inside_wordsOfAll ih]
  | @tuple s es _ ih =>
    by_cases hone : es.length = 1 <;> simp [Expr.words, inside_wordsOfAll ih, hone]
  | @dict s es _ _ ih ih' =>
    have hes : Inside (separated .comma (wordsOfEntries es)) := by
      refine inside_separated fun ws hws => ?_
      rw [wordsOfEntries_eq] at hws
      obtain ⟨e, he, rfl⟩ := List.mem_map.1 hws
      simp [ih e he, ih' e he]
    simp [Expr.words, hes]
  | unary s op _ ih => cases op <;> simp [Expr.words, UnaryOp.kind, inside_grouped ih]
  | binary s op _ _ ih ih' =>
    cases op <;> simp [Expr.words, BinaryOp.kinds, inside_grouped ih, inside_grouped ih']
  | @call s callee as _ _ ih ih' =>
    have has : Inside (separated .comma (wordsOfArguments as)) := by
      refine inside_separated fun ws hws => ?_
      rw [wordsOfArguments_eq] at hws
      obtain ⟨a, ha, rfl⟩ := List.mem_map.1 hws
      cases hname : a.keyword <;> simp [labelWords, ih' a ha]
    simp [Expr.words, inside_grouped ih, has]
  | member s p _ ih => simp [Expr.words, inside_grouped ih]
  | index s _ _ ih ih' => simp [Expr.words, inside_grouped ih, ih']

/-! ## Without spans -/

/-- A name without its place. -/
def Identifier.bare (id : Identifier) : Identifier := ⟨id.name, .none⟩

mutual

/-- An expression without its spans. -/
def Expr.bare : Expr → Expr
  | .name _ id => .name .none id.bare
  | .literal _ v => .literal .none v
  | .list _ es => .list .none (bareAll es)
  | .tuple _ es => .tuple .none (bareAll es)
  | .dict _ es => .dict .none (bareEntries es)
  | .unary _ op e => .unary .none op e.bare
  | .binary _ op left right => .binary .none op left.bare right.bare
  | .call _ callee as => .call .none callee.bare (bareArguments as)
  | .member _ object p => .member .none object.bare p.bare
  | .index _ object i => .index .none object.bare i.bare
  | .unsupported _ k => .unsupported .none k

/-- Expressions without their spans. -/
def bareAll : List Expr → List Expr
  | [] => []
  | e :: es => e.bare :: bareAll es

/-- Entries without their spans. -/
def bareEntries : List (Expr × Expr) → List (Expr × Expr)
  | [] => []
  | (key, value) :: es => (key.bare, value.bare) :: bareEntries es

/-- Arguments without their spans. -/
def bareArguments : List (Argument Expr) → List (Argument Expr)
  | [] => []
  | ⟨id, e⟩ :: as => ⟨id.map Identifier.bare, e.bare⟩ :: bareArguments as

end

@[simp] theorem Expr.bare_withSpan (s : Span) (e : Expr) : (e.withSpan s).bare = e.bare := by
  cases e <;> simp [Expr.withSpan, Expr.bare]

/-! ## How words start -/

/-- Whether the words of an expression can start with a token of this kind. -/
def opensOperand : TokenKind → Bool
  | .identifier | .integer _ | .float _ | .imaginary _ | .string _ | .bytes _ | .keyword .notKw
  | .mark .plus | .mark .minus | .mark .tilde | .mark .lparen | .mark .lbracket
  | .mark .lbrace => true
  | _ => false

/-- The first of the words, if there is one, is no equality sign. -/
def NoSign (ws : List Word) : Prop := ∀ w ∈ ws.head?, w.kind ≠ .mark .equal

/-- Words start with one that can open an operand, which is `not` only if they bind as loosely, and
the word after it is no equality sign. -/
def Opening (rank : Nat) (ws : List Word) : Prop :=
  ∃ w rest, ws = w :: rest ∧ opensOperand w.kind = true ∧
    (w.kind = .keyword .notKw → rank ≤ Precedence.not.rank) ∧ NoSign rest

section Opening

variable {m n : Nat} {ws : List Word} {e : Expr}

theorem Opening.noSign_append (h : Opening n ws) (vs : List Word) : NoSign (ws ++ vs) := by
  obtain ⟨w, rest, rfl, hopens, -⟩ := h
  rintro v hv hsign
  obtain rfl := Option.some.inj hv
  rw [hsign] at hopens
  cases hopens

theorem Opening.append (h : Opening n ws) {vs : List Word} (hvs : NoSign vs) :
    Opening n (ws ++ vs) := by
  obtain ⟨w, rest, rfl, hopens, hnot, hrest⟩ := h
  refine ⟨w, rest ++ vs, rfl, hopens, hnot, ?_⟩
  cases rest with
  | nil => exact hvs
  | cons v rest => exact hrest

theorem Opening.grouped (h : Opening e.rank e.words) (hn : m ≤ n) :
    Opening m (grouped (e.rank < n) e.words) := by
  unfold Gradual.grouped
  split
  · exact ⟨_, _, rfl, rfl, by simp, h.noSign_append _⟩
  · next hrank =>
    obtain ⟨w, rest, hws, hopens, hnot, hrest⟩ := h
    simp only [decide_eq_true_eq] at hrank
    exact ⟨w, rest, hws, hopens, fun hw => by have := hnot hw; omega, hrest⟩

end Opening

theorem BinaryOp.precedence_le_leftRank (op : BinaryOp) : op.precedence.rank ≤ op.leftRank := by
  cases op <;> decide

theorem Expr.Plain.opening {e : Expr} (h : e.Plain) : Opening e.rank e.words := by
  induction h with
  | name s id => exact ⟨_, _, rfl, rfl, by simp, by simp [NoSign]⟩
  | literal s v =>
    refine ⟨_, _, rfl, ?_, ?_, by simp [NoSign]⟩ <;> cases v <;> simp [Literal.kind, opensOperand]
  | @list s es _ ih =>
    refine ⟨_, _, rfl, rfl, by simp, ?_⟩
    cases es with
    | nil => simp [wordsOfAll, separated, NoSign]
    | cons e es =>
      rw [wordsOfAll, separated, List.append_assoc]
      exact (ih e List.mem_cons_self).noSign_append _
  | @tuple s es _ ih =>
    refine ⟨_, _, rfl, rfl, by simp, ?_⟩
    cases es with
    | nil => simp [wordsOfAll, separated, NoSign]
    | cons e es =>
      rw [wordsOfAll, separated, List.append_assoc, List.append_assoc]
      exact (ih e List.mem_cons_self).noSign_append _
  | @dict s es _ _ ih _ =>
    refine ⟨_, _, rfl, rfl, by simp, ?_⟩
    cases es with
    | nil => simp [wordsOfEntries, separated, NoSign]
    | cons e es =>
      rw [wordsOfEntries, separated, List.append_assoc, List.append_assoc]
      exact (ih e List.mem_cons_self).noSign_append _
  | unary s op _ ih =>
    refine ⟨_, _, rfl, ?_, ?_, ?_⟩
    · cases op <;> rfl
    · cases op <;> simp [UnaryOp.kind, Expr.rank, UnaryOp.level]
    · simpa using (ih.grouped (Nat.le_refl _)).noSign_append []
  | binary s op _ _ ih _ =>
    refine (ih.grouped op.precedence_le_leftRank).append ?_
    cases op <;> simp [BinaryOp.kinds, NoSign]
  | call s _ _ ih _ =>
    exact (ih.grouped (Nat.le_refl _)).append (by simp [NoSign])
  | member s p _ ih =>
    exact (ih.grouped (Nat.le_refl _)).append (by simp [NoSign])
  | index s _ _ ih _ =>
    exact (ih.grouped (Nat.le_refl _)).append (by simp [NoSign])

end Gradual
