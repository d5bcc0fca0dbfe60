import Gradual.Proofs.Expr.Printing

/-!
# Reading expressions back

The parser gives back an expression from its words, up to spans, whatever tokens the words stand
for. An operand and what follows it are read by a loop, so an expression is said to lead the parser
from its first token to the point where the loop goes on behind it.

* `Parser.Follows`: what follows an expression and does not go on it;
* `OperandLeads`, `LevelLeads`: reading an expression leads to the loops behind it;
* `Bracket`, `ReadsBack.bracketed`: what stands between brackets is read by one rule for each;
* `ReadsBack`, **`Expr.Plain.readsBack`**: every expression is read back.
-/

namespace Gradual

open Source Gradual.Parser

/-! ## What follows an expression -/

/-- Whether a token of this kind goes on an operand. -/
def continuesOperand : TokenKind → Bool
  | .mark .lparen | .mark .lbracket | .mark .dot | .string _ | .bytes _ => true
  | _ => false

/-- Whether a token of this kind ends an expression. -/
def endsExpression : TokenKind → Bool
  | .newline | .mark .comma | .mark .colon | .mark .equal | .mark .rparen | .mark .rbracket
  | .mark .rbrace => true
  | _ => false

/-- The stream goes on no operand, and it goes on no expression by an operator that binds more
tightly than `n`. -/
structure Follows (n : Nat) (c : Stream) : Prop where
  apart : continuesOperand c.kind = false
  bounded : ∀ r ∈ operator? c, r.value.precedence.rank ≤ n

section Follows

variable {m n : Nat} {c d : Stream} {k : TokenKind} {t : Token} {e : Expr} {p : Precedence}

theorem Stream.kind_ne {q : TokenKind → Bool} (h : q c.kind = true) (hk : q k = false) :
    c.kind ≠ k := by
  rintro rfl
  rw [h] at hk
  cases hk

theorem Follows.mono (h : Follows m c) (hmn : m ≤ n) : Follows n c :=
  ⟨h.apart, fun r hr => Nat.le_trans (h.bounded r hr) hmn⟩

theorem operator?_of_ends (h : endsExpression c.kind = true) : operator? c = none := by
  unfold operator?
  split
  · rfl
  · next t c₁ h₁ hnext =>
    rw [Stream.kind_of_next? hnext] at h
    split
    · next hk => simp [hk, endsExpression] at h
    · next hk => simp [hk, endsExpression] at h
    · unfold endsExpression at h
      split at h <;> first | (next hk => rw [hk]; rfl) | cases h

theorem follows_of_ends (h : endsExpression c.kind = true) : Follows n c := by
  refine ⟨?_, by simp [operator?_of_ends h]⟩
  unfold endsExpression at h
  split at h <;> first | (next hk => rw [hk]; rfl) | cases h

theorem trailers_of_apart (h : continuesOperand c.kind = false) : Parses (trailers e c) e c := by
  rw [trailers]
  split
  · exact ⟨_, rfl⟩
  · next t c₁ h₁ hnext =>
    rw [Stream.kind_of_next? hnext] at h
    split
    · next hk => simp [hk, continuesOperand] at h
    · next hk => simp [hk, continuesOperand] at h
    · next hk => simp [hk, continuesOperand] at h
    · exact ⟨_, rfl⟩

theorem operators_of_follows (h : Follows p.rank c) : Parses (operators p e c) e c := by
  rw [operators]
  split
  · exact ⟨_, rfl⟩
  · next op c₁ h₁ hop =>
    rw [if_pos (h.bounded _ hop)]
    exact ⟨_, rfl⟩

theorem literalText?_of_apart (h : continuesOperand k = false) : literalText? k = none := by
  unfold literalText?
  split <;> first | cases h | rfl

end Follows

/-! ## Ranks -/

/-- How far an expression reaches to the right: it takes in an operator that follows it if that one
binds more tightly. -/
def Expr.reach : Expr → Nat
  | .unary _ op _ => op.level.rank
  | .binary _ op _ _ => op.rightBound.rank
  | _ => operandRank

/-- The operator of an expression, if it stands between two operands, binds more tightly than `p`.
-/
def Expr.Above (p : Precedence) : Expr → Prop
  | .binary _ op _ _ => p.rank < op.precedence.rank
  | _ => True

section Rank

variable {e : Expr} {p : Precedence} {n : Nat}

theorem Precedence.rank_lt (p : Precedence) : p.rank < operandRank := by
  cases p <;> decide

theorem Expr.rank_le (e : Expr) : e.rank ≤ operandRank := by
  cases e with
  | unary s op => exact Nat.le_of_lt op.level.rank_lt
  | binary s op => exact Nat.le_of_lt op.precedence.rank_lt
  | _ => exact Nat.le_refl _

theorem Expr.le_reach_of_operand (h : operandRank ≤ e.rank) : p.rank ≤ e.reach := by
  cases e with
  | unary s op => exact absurd h (Nat.not_le_of_lt op.level.rank_lt)
  | binary s op => exact absurd h (Nat.not_le_of_lt op.precedence.rank_lt)
  | _ => exact Nat.le_of_lt p.rank_lt

theorem Expr.above_of_lt (h : p.rank < e.rank) : e.Above p := by
  cases e with
  | binary s op => exact h
  | _ => trivial

theorem Expr.above_lowest (e : Expr) : e.Above .lowest := by
  cases e with
  | binary s op =>
    change 0 < op.precedence.rank
    cases op <;> decide
  | _ => trivial

theorem UnaryOp.level_le (op : UnaryOp) : op.level.rank ≤ Precedence.unary.rank := by
  cases op <;> decide

/-- No operator between operands binds as tightly as one before its operand. -/
theorem BinaryOp.rank_ne_level (op : BinaryOp) (u : UnaryOp) :
    op.precedence.rank ≠ u.level.rank := by
  cases op <;> cases u <;> decide

theorem Expr.above_level {u : UnaryOp} (h : u.level.rank ≤ e.rank) : e.Above u.level := by
  cases e with
  | binary s op => exact Nat.lt_of_le_of_ne h (op.rank_ne_level u).symm
  | _ => trivial

theorem BinaryOp.rightBound_eq (op : BinaryOp) :
    op = .power ∨ op.rightBound = op.precedence ∧ op.precedence.rank < Precedence.unary.rank ∧
      op.leftRank = op.precedence.rank ∧ op.rightRank = op.precedence.rank + 1 := by
  cases op <;> decide

theorem Expr.le_reach (h : n ≤ e.rank) (hn : n ≤ Precedence.unary.rank) : n ≤ e.reach := by
  cases e with
  | unary s op => exact h
  | binary s op =>
    obtain rfl | ⟨hbound, -⟩ := op.rightBound_eq
    · exact hn
    · rw [Expr.reach, hbound]
      exact h
  | _ => exact h

theorem Expr.le_reach_left {op : BinaryOp} (h : op.leftRank ≤ e.rank) :
    op.precedence.rank ≤ e.reach := by
  obtain rfl | ⟨-, hunary, hleft, -⟩ := op.rightBound_eq
  · exact e.le_reach_of_operand h
  · exact e.le_reach (hleft ▸ h) (Nat.le_of_lt hunary)

theorem Expr.le_reach_right {op : BinaryOp} (h : op.rightRank ≤ e.rank) :
    op.rightBound.rank ≤ e.reach := by
  obtain rfl | ⟨hbound, hunary, -, hright⟩ := op.rightBound_eq
  · exact e.le_reach h (Nat.le_refl _)
  · rw [hbound]
    exact e.le_reach (by omega) (Nat.le_of_lt hunary)

theorem Expr.above_rightBound {op : BinaryOp} (h : op.rightRank ≤ e.rank) :
    e.Above op.rightBound := by
  obtain rfl | ⟨hbound, -, -, hright⟩ := op.rightBound_eq
  · exact Expr.above_level (u := .negative) h
  · rw [hbound]
    exact Expr.above_of_lt (by omega)

end Rank

/-! ## Leading to the loops -/

/-- Reading the operand at `c` leads to what may go on `e` at `d`. -/
def OperandLeads (c : Stream) (e : Expr) (d : Stream) : Prop :=
  ∃ e', e'.bare = e.bare ∧ ∀ {r d'}, Parses (trailers e' d) r d' → Parses (operand c) r d'

/-- Reading the expression at `c`, by operators that bind more tightly than `p`, leads to the
operators that may go on `e` at `d`. -/
def LevelLeads (p : Precedence) (c : Stream) (e : Expr) (d : Stream) : Prop :=
  ∃ e', e'.bare = e.bare ∧ ∀ {r d'}, Parses (operators p e' d) r d' → Parses (precedence p c) r d'

/-- The words of an expression are read as that expression, up to spans. -/
structure ReadsBack (e : Expr) : Prop where
  opening : Opening e.rank e.words
  operand (h : e.rank = operandRank) {c d : Stream} (hs : c.Spells e.words d)
    (hd : literalText? d.kind = none) : OperandLeads c e d
  level {p : Precedence} (hp : e.Above p) {c d : Stream} (hs : c.Spells e.words d)
    (hd : Follows e.reach d) : LevelLeads p c e d

section Leads

variable {c d : Stream} {e e' : Expr} {p : Precedence} {n m : Nat}

theorem Opening.kind {ws : List Word} (h : Opening n ws) (hs : c.Spells ws d) :
    opensOperand c.kind = true := by
  obtain ⟨w, rest, rfl, hopens, -⟩ := h
  rwa [hs.kind_eq]

theorem Opening.kind_ne_not {ws : List Word} (h : Opening n ws) (hn : Precedence.not.rank < n)
    (hs : c.Spells ws d) : c.kind ≠ .keyword .notKw := by
  obtain ⟨w, rest, rfl, -, hnot, -⟩ := h
  rw [hs.kind_eq]
  exact fun hw => Nat.not_le_of_lt hn (hnot hw)

theorem operandLeads_of_primary (h : Parses (primary c) e' d) (he : e'.bare = e.bare) :
    OperandLeads c e d := by
  refine ⟨e', he, fun htrailers => ?_⟩
  rw [Parser.operand]
  exact .bind h fun _ => .bind htrailers fun _ => parses_ok

theorem OperandLeads.level (h : OperandLeads c e d) (hd : continuesOperand d.kind = false) :
    LevelLeads p c e d := by
  obtain ⟨e', he, hlead⟩ := h
  refine ⟨e', he, fun hoperators => ?_⟩
  rw [precedence]
  exact .bind (hlead (trailers_of_apart hd)) fun _ => .bind hoperators fun _ => parses_ok

theorem ReadsBack.of_operand (hopen : Opening e.rank e.words)
    (h : ∀ {c d}, c.Spells e.words d → literalText? d.kind = none → OperandLeads c e d) :
    ReadsBack e where
  opening := hopen
  operand _ _ _ hs hd := h hs hd
  level _ _ _ hs hd := (h hs (literalText?_of_apart hd.apart)).level hd.apart

theorem LevelLeads.parses (h : LevelLeads p c e d) (hd : Follows p.rank d) :
    ∃ e', e'.bare = e.bare ∧ Parses (precedence p c) e' d := by
  obtain ⟨e', he, hlead⟩ := h
  exact ⟨e', he, hlead (operators_of_follows hd)⟩

/-- An expression is read back where a token ends it. -/
theorem ReadsBack.expression (h : ReadsBack e) (hs : c.Spells e.words d)
    (hd : endsExpression d.kind = true) :
    ∃ e', e'.bare = e.bare ∧ Parses (expression c) e' d := by
  obtain ⟨e', he, hparses⟩ := (h.level e.above_lowest hs (follows_of_ends hd)).parses
    (follows_of_ends hd)
  refine ⟨e', he, ?_⟩
  have hlambda : c.kind ≠ .keyword .lambdaKw := Stream.kind_ne (h.opening.kind hs) rfl
  rw [Parser.expression, Stream.take?_of_kind_ne hlambda]
  refine .bind hparses fun _ => ?_
  dsimp only
  rw [Stream.take?_of_kind_ne (Stream.kind_ne hd rfl),
    Stream.take?_of_kind_ne (Stream.kind_ne hd rfl)]
  exact parses_ok

/-! ## Brackets -/

/-- The brackets an expression may open with. -/
inductive Bracket
  | paren
  | square
  | brace

def Bracket.opening : Bracket → Mark
  | .paren => .lparen
  | .square => .lbracket
  | .brace => .lbrace

def Bracket.closing : Bracket → Mark
  | .paren => .rparen
  | .square => .rbracket
  | .brace => .rbrace

/-- What is read after the opening bracket. -/
def Bracket.rule : Bracket → Token → (c : Stream) → Except ParseError (Parsed c.size Expr)
  | .paren => Parser.parenthesized
  | .square => listLiteral
  | .brace => braceLiteral

theorem primary_bracket {b : Bracket} {t : Token} {c₁ : Stream} {hlt : c₁.size < c.size}
    (hnext : c.next? = some ⟨t, c₁, hlt⟩) (hkind : t.kind = .mark b.opening)
    (h : Parses (b.rule t c₁) e d) : Parses (primary c) e d := by
  rw [primary]
  cases b <;> simp only [hnext, hkind, Bracket.opening] <;> exact .bind h fun _ => parses_ok

/-- A literal between brackets is read back when what stands between them is. -/
theorem ReadsBack.bracketed {b : Bracket} {ws : List Word} (hopen : Opening e.rank e.words)
    (hwords : e.words = .mark b.opening :: (ws ++ [.mark b.closing]))
    (h : ∀ {t t' c c₁ d} {hlt : d.size < c₁.size}, c.Spells ws c₁ →
      c₁.next? = some ⟨t', d, hlt⟩ → t'.kind = .mark b.closing →
      ∃ e', e'.bare = e.bare ∧ Parses (b.rule t c) e' d) : ReadsBack e := by
  refine .of_operand hopen fun hs _ => ?_
  rw [hwords] at hs
  obtain ⟨t, c₁, _, c₂, t', _, hnext, hkind, hs, hnext', hkind'⟩ := hs.bracketed
  obtain ⟨e', hbare, hparses⟩ := h hs hnext' hkind'
  exact operandLeads_of_primary (primary_bracket hnext hkind hparses) hbare

theorem ReadsBack.parenthesized (h : ReadsBack e)
    (hs : c.Spells (.mark .lparen :: (e.words ++ [.mark .rparen])) d) :
    ∃ e', e'.bare = e.bare ∧ Parses (primary c) e' d := by
  obtain ⟨t, c₁, _, c₂, t', _, hnext, hkind, hwords, hnext', hkind'⟩ := hs.bracketed
  have hclose : c₂.kind = .mark .rparen := (Stream.kind_of_next? hnext').trans hkind'
  obtain ⟨e', he, hparses⟩ := h.expression hwords (by rw [hclose]; rfl)
  refine ⟨e'.withSpan (t.span.union t'.span), by simpa using he,
    primary_bracket (b := .paren) hnext hkind ?_⟩
  rw [Bracket.rule, Parser.parenthesized,
    Stream.take?_of_kind_ne (Stream.kind_ne (h.opening.kind hwords) rfl)]
  refine .bind hparses fun _ => ?_
  dsimp only
  rw [Stream.sees_of_kind_ne (by simp [hclose]), Stream.sees_of_kind_ne (by simp [hclose])]
  exact .bind (parses_expect hnext' hkind') fun _ => parses_ok

theorem ReadsBack.groupedOperand (h : ReadsBack e)
    (hs : c.Spells (grouped (e.rank < operandRank) e.words) d) (hd : literalText? d.kind = none) :
    OperandLeads c e d := by
  unfold grouped at hs
  split at hs
  · obtain ⟨e', he, hparses⟩ := h.parenthesized hs
    exact operandLeads_of_primary hparses he
  · next hneeded =>
    simp only [decide_eq_true_eq, Nat.not_lt] at hneeded
    exact h.operand (Nat.le_antisymm e.rank_le hneeded) hs hd

theorem ReadsBack.groupedLevel (h : ReadsBack e)
    (hs : c.Spells (grouped (e.rank < n) e.words) d) (hd : Follows m d)
    (hm : n ≤ e.rank → m ≤ e.reach) (hp : n ≤ e.rank → e.Above p) : LevelLeads p c e d := by
  unfold grouped at hs
  split at hs
  · obtain ⟨e', he, hparses⟩ := h.parenthesized hs
    exact (operandLeads_of_primary hparses he).level hd.apart
  · next hneeded =>
    simp only [decide_eq_true_eq, Nat.not_lt] at hneeded
    exact h.level (hp hneeded) hs (hd.mono (hm hneeded))

end Leads

/-! ## Names, literals and operators -/

section Forms

variable {c d c₁ : Stream} {e : Expr}

theorem readsBack_name (s : Span) (id : Identifier) : ReadsBack (.name s id) := by
  refine .of_operand (Expr.Plain.name s id).opening fun {c d} hs _ => ?_
  obtain ⟨t, c₁, _, hnext, hkind, hname, hs⟩ := hs.name
  obtain rfl := hs.eq_of_nil
  have hparses : Parses (primary c) (.name t.span ⟨t.lexeme, t.span⟩) d := by
    rw [primary]
    simp only [hnext, hkind]
    exact parses_ok
  exact operandLeads_of_primary hparses (by simp [Expr.bare, Identifier.bare, hname])

theorem strings_of_literalText? (t : Token) (asLiteral : String → Literal) (text : String)
    (h : literalText? c.kind = none) :
    strings t asLiteral text c = c.keep (.literal t.span (asLiteral text)) := by
  have hnone : c.ahead.takeWhile (fun u => (literalText? u.kind).isSome) = [] :=
    Stream.takeWhile_of_kind (p := fun k => (literalText? k).isSome) (by simp [h])
  have hdrop : c.drop 0 = c := c.takes_nil.2.symm
  simp [strings, hnone, Stream.keep, hdrop]

theorem readsBack_literal (s : Span) (v : Literal) : ReadsBack (.literal s v) := by
  refine .of_operand (Expr.Plain.literal s v).opening fun {c d} hs hd => ?_
  obtain ⟨t, c₁, _, hnext, hkind, hs⟩ := hs.token
  obtain rfl := hs.eq_of_nil
  have hparses : Parses (primary c) (.literal t.span v) d := by
    rw [primary]
    cases v with
    | integer | float | imaginary =>
      simp only [hnext, hkind, Literal.kind]
      exact parses_ok
    | string text | bytes text =>
      simp only [hnext, hkind, Literal.kind, strings_of_literalText? _ _ _ hd]
      exact parses_ok
  exact operandLeads_of_primary hparses (by simp [Expr.bare])

theorem primary_unary {t : Token} {op : UnaryOp} {hlt : c₁.size < c.size}
    (hnext : c.next? = some ⟨t, c₁, hlt⟩) (hkind : t.kind = op.kind)
    (h : Parses (precedence op.level c₁) e d) :
    Parses (primary c) (.unary (t.span.union e.span) op e) d := by
  rw [primary]
  cases op <;> simp only [hnext, hkind, UnaryOp.kind] <;> exact .bind h fun _ => parses_ok

theorem ReadsBack.unary (s : Span) (op : UnaryOp)
    (hopen : Opening op.level.rank (Expr.unary s op e).words) (h : ReadsBack e) :
    ReadsBack (.unary s op e) where
  opening := hopen
  operand hrank := absurd hrank (Nat.ne_of_lt op.level.rank_lt)
  level {p} _ {c d} hs hd := by
    obtain ⟨t, c₁, _, hnext, hkind, hs⟩ := hs.token
    obtain ⟨e', he, hparses⟩ := (h.groupedLevel hs hd
      (fun hrank => e.le_reach hrank op.level_le) Expr.above_level).parses hd
    refine (operandLeads_of_primary (primary_unary hnext hkind hparses) ?_).level hd.apart
    simp [Expr.bare, he]

theorem operator?_of_ofKind? {t : Token} {op : BinaryOp} {hlt : c₁.size < c.size}
    (hnext : c.next? = some ⟨t, c₁, hlt⟩) (hop : BinaryOp.ofKind? t.kind = some op) :
    operator? c = some ⟨op, c₁, hlt⟩ := by
  unfold operator?
  simp only [hnext]
  split
  · next hk =>
    rw [hk] at hop
    cases hop
  · next hk =>
    rw [hk] at hop
    cases hop
  · simp [hop]

theorem operator?_of_spells {op : BinaryOp} (hs : c.Spells (op.kinds.map .ofKind) d)
    (hd : op = .identical → d.kind ≠ .keyword .notKw) : ∃ hlt, operator? c = some ⟨op, d, hlt⟩ := by
  by_cases hword : op = .identical ∨ op = .notIdentical ∨ op = .notContained
  · unfold operator?
    rcases hword with rfl | rfl | rfl
    · obtain ⟨t, c₁, hlt, hnext, hkind, hs⟩ := hs.token
      obtain rfl := hs.eq_of_nil
      exact ⟨hlt, by simp only [hnext, hkind, Stream.take?_of_kind_ne (hd rfl)]⟩
    all_goals
      obtain ⟨t, c₁, hlt, hnext, hkind, hs⟩ := hs.token
      obtain ⟨t', c₂, hlt', hnext', hkind', hs⟩ := hs.token
      obtain rfl := hs.eq_of_nil
      refine ⟨Nat.lt_trans hlt' hlt, ?_⟩
      simp only [hnext, hkind, Stream.take?_of_next? hnext' hkind']
  · obtain ⟨k, hk, hkind⟩ : ∃ k, op.kinds = [k] ∧ BinaryOp.ofKind? k = some op := by
      cases op <;> simp [BinaryOp.kinds, BinaryOp.ofKind?] at hword ⊢
    rw [hk] at hs
    obtain ⟨t, c₁, hlt, hnext, ht, hs⟩ := hs.token
    obtain rfl := hs.eq_of_nil
    exact ⟨hlt, operator?_of_ofKind? hnext (ht ▸ hkind)⟩

theorem operators_binary {p : Precedence} {op : BinaryOp} {left right : Expr} {c₂ : Stream}
    {hlt : c₁.size < c.size} (hop : operator? c = some ⟨op, c₁, hlt⟩)
    (hp : p.rank < op.precedence.rank) (hright : Parses (precedence op.rightBound c₁) right c₂)
    (h : Parses (operators p (.binary (left.span.union right.span) op left right) c₂) e d) :
    Parses (operators p left c) e d := by
  rw [operators, hop]
  dsimp only
  rw [if_neg (Nat.not_le_of_lt hp)]
  exact .bind hright fun _ => .bind h fun _ => parses_ok

theorem continuesOperand_of_operator? {op : BinaryOp} {hlt : d.size < c.size}
    (h : operator? c = some ⟨op, d, hlt⟩) : continuesOperand c.kind = false := by
  unfold operator? at h
  split at h
  · cases h
  · next t c₁ h₁ hnext =>
    rw [Stream.kind_of_next? hnext]
    split at h
    · next hk => rw [hk]; rfl
    · next hk => rw [hk]; rfl
    · obtain ⟨op', hop, -⟩ := Option.map_eq_some_iff.1 h
      unfold BinaryOp.ofKind? at hop
      split at hop <;> first | (next hk => rw [hk]; rfl) | cases hop

theorem ReadsBack.binary (s : Span) (op : BinaryOp) {left right : Expr}
    (hopen : Opening op.precedence.rank (Expr.binary s op left right).words)
    (hleft : ReadsBack left) (hright : ReadsBack right) : ReadsBack (.binary s op left right) where
  opening := hopen
  operand hrank := absurd hrank (Nat.ne_of_lt op.precedence.rank_lt)
  level {p} hp {c d} hs hd := by
    obtain ⟨c₁, hs₁, hs⟩ := hs.append
    obtain ⟨c₂, hs₂, hs₃⟩ := hs.append
    have hnot : op = .identical → c₂.kind ≠ .keyword .notKw := by
      rintro rfl
      exact (hright.opening.grouped (Nat.le_refl _)).kind_ne_not (by decide) hs₃
    obtain ⟨hlt, hop⟩ := operator?_of_spells hs₂ hnot
    have hc₁ : Follows op.precedence.rank c₁ :=
      ⟨continuesOperand_of_operator? hop, fun r hr => by
        rw [hop] at hr
        obtain rfl := Option.some.inj hr
        exact Nat.le_refl _⟩
    obtain ⟨left', hl, hlead⟩ := hleft.groupedLevel (p := p) hs₁ hc₁ Expr.le_reach_left
      fun hrank => Expr.above_of_lt (Nat.lt_of_lt_of_le hp
        (Nat.le_trans op.precedence_le_leftRank hrank))
    obtain ⟨right', hr, hparses⟩ := (hright.groupedLevel hs₃ hd Expr.le_reach_right
      Expr.above_rightBound).parses hd
    refine ⟨.binary (left'.span.union right'.span) op left' right', by simp [Expr.bare, hl, hr], ?_⟩
    exact fun h => hlead (operators_binary hop hp hparses h)

end Forms

/-! ## Lists in brackets -/

section Lists

variable {c d : Stream}

theorem Stream.Spells.ends_more {wss : List (List Word)}
    (h : c.Spells (wss.flatMap (.mark .comma :: ·)) d) (hd : endsExpression d.kind = true) :
    endsExpression c.kind = true := by
  obtain hkind | hkind := h.kind_more
  · rwa [hkind]
  · rw [hkind]
    rfl

theorem opensOperand_ne {k k' : TokenKind} (h : opensOperand k = true)
    (h' : opensOperand k' = false) : (k == k') = false := by
  rw [beq_eq_false_iff_ne]
  rintro rfl
  rw [h] at h'
  cases h'

theorem elements_readBack (closing : TokenKind) (hclosing : opensOperand closing = false)
    {es : List Expr} (hes : ∀ e ∈ es, ReadsBack e)
    (hs : c.Spells ((wordsOfAll es).flatMap (.mark .comma :: ·)) d)
    (hd : endsExpression d.kind = true) (hcomma : d.kind ≠ .mark .comma) :
    ∃ es', bareAll es' = bareAll es ∧ Parses (elements (· == closing) c) es' d := by
  induction es generalizing c with
  | nil =>
    obtain rfl := hs.eq_of_nil
    refine ⟨[], rfl, ?_⟩
    rw [elements, Stream.take?_of_kind_ne hcomma]
    exact ⟨_, rfl⟩
  | cons e es ih =>
    rw [wordsOfAll, List.flatMap_cons] at hs
    obtain ⟨t, c₁, _, hnext, hkind, hs⟩ := hs.token
    obtain ⟨c₂, hs₁, hs₂⟩ := hs.append
    have he := hes e List.mem_cons_self
    obtain ⟨e', hbare, hparses⟩ := he.expression hs₁ (hs₂.ends_more hd)
    obtain ⟨es', hbares, hmore⟩ := ih (fun x hx => hes x (List.mem_cons_of_mem e hx)) hs₂
    refine ⟨e' :: es', by simp [bareAll, hbare, hbares], ?_⟩
    rw [elements, Stream.take?_of_next? hnext hkind]
    dsimp only
    rw [opensOperand_ne (he.opening.kind hs₁) hclosing, if_neg Bool.false_ne_true]
    exact .bind hparses fun _ => .bind hmore fun _ => parses_ok

theorem listLiteral_readBack {t t' : Token} {c₂ : Stream} {hlt : d.size < c₂.size} (s : Span)
    {es : List Expr} (hes : ∀ e ∈ es, ReadsBack e)
    (hs : c.Spells (separated .comma (wordsOfAll es)) c₂)
    (hnext : c₂.next? = some ⟨t', d, hlt⟩) (hkind : t'.kind = .mark .rbracket) :
    ∃ e', e'.bare = (Expr.list s es).bare ∧ Parses (listLiteral t c) e' d := by
  have hc₂ : c₂.kind = .mark .rbracket := (Stream.kind_of_next? hnext).trans hkind
  rw [listLiteral]
  cases es with
  | nil =>
    obtain rfl := hs.eq_of_nil
    rw [Stream.take?_of_next? hnext hkind]
    exact ⟨.list (t.span.union t'.span) [], rfl, parses_ok⟩
  | cons e es =>
    obtain ⟨c₁, hs₁, hs₂⟩ := hs.append
    have he := hes e List.mem_cons_self
    have hends := hs₂.ends_more (by rw [hc₂]; rfl)
    obtain ⟨e', hbare, hparses⟩ := he.expression hs₁ hends
    obtain ⟨es', hbares, hmore⟩ := elements_readBack (.mark .rbracket) rfl
      (fun x hx => hes x (List.mem_cons_of_mem e hx)) hs₂ (by rw [hc₂]; rfl) (by simp [hc₂])
    rw [Stream.take?_of_kind_ne (Stream.kind_ne (he.opening.kind hs₁) rfl)]
    refine ⟨.list (t.span.union t'.span) (e' :: es'),
      by simp [Expr.bare, bareAll, hbare, hbares], ?_⟩
    refine .bind hparses fun _ => ?_
    dsimp only
    rw [Stream.sees_of_kind_ne (Stream.kind_ne hends rfl)]
    exact .bind hmore fun _ => .bind (parses_expect hnext hkind) fun _ => parses_ok

/-- A tuple of one element has a comma at its end, which the loop over its elements takes. -/
theorem parenthesized_readBack {t t' : Token} {c₂ : Stream} {hlt : d.size < c₂.size} (s : Span)
    {es : List Expr} (hes : ∀ e ∈ es, ReadsBack e)
    (hs : c.Spells (separated .comma (wordsOfAll es) ++
      if es.length = 1 then [.mark .comma] else []) c₂)
    (hnext : c₂.next? = some ⟨t', d, hlt⟩) (hkind : t'.kind = .mark .rparen) :
    ∃ e', e'.bare = (Expr.tuple s es).bare ∧ Parses (parenthesized t c) e' d := by
  have hc₂ : c₂.kind = .mark .rparen := (Stream.kind_of_next? hnext).trans hkind
  rw [parenthesized]
  cases es with
  | nil =>
    obtain rfl := hs.eq_of_nil
    rw [Stream.take?_of_next? hnext hkind]
    exact ⟨.tuple (t.span.union t'.span) [], rfl, parses_ok⟩
  | cons e es =>
    rw [wordsOfAll, separated, List.append_assoc] at hs
    obtain ⟨c₁, hs₁, hs₂⟩ := hs.append
    have he := hes e List.mem_cons_self
    obtain ⟨hcomma, es', hbares, hmore⟩ : c₁.kind = .mark .comma ∧ ∃ es', bareAll es' = bareAll es ∧
        Parses (elements (· == .mark .rparen) c₁) es' c₂ := by
      refine ⟨?_, ?_⟩
      · cases es <;> exact hs₂.kind_eq
      · cases es with
        | nil =>
          obtain ⟨u, c₃, _, hnext', hkind', hs₂⟩ := hs₂.token
          obtain rfl := hs₂.eq_of_nil
          refine ⟨[], rfl, ?_⟩
          rw [elements, Stream.take?_of_next? hnext' hkind']
          dsimp only
          rw [if_pos (by simp [hc₂])]
          exact parses_ok
        | cons x es =>
          refine elements_readBack (.mark .rparen) rfl
            (fun y hy => hes y (List.mem_cons_of_mem e hy)) ?_ (by rw [hc₂]; rfl) (by simp [hc₂])
          simpa using hs₂
    obtain ⟨e', hbare, hparses⟩ := he.expression hs₁ (by rw [hcomma]; rfl)
    rw [Stream.take?_of_kind_ne (Stream.kind_ne (he.opening.kind hs₁) rfl)]
    refine ⟨.tuple (t.span.union t'.span) (e' :: es'),
      by simp [Expr.bare, bareAll, hbare, hbares], ?_⟩
    refine .bind hparses fun _ => ?_
    dsimp only
    rw [Stream.sees_of_kind_ne (by simp [hcomma]), if_neg Bool.false_ne_true,
      if_pos (by simp [Stream.sees, hcomma])]
    exact .bind hmore fun _ => .bind (parses_expect hnext hkind) fun _ => parses_ok

theorem entry_readBack {key value : Expr} {wss : List (List Word)} (hkey : ReadsBack key)
    (hvalue : ReadsBack value)
    (hs : c.Spells ((key.words ++ .mark .colon :: value.words) ++
      wss.flatMap (.mark .comma :: ·)) d)
    (hd : endsExpression d.kind = true) :
    opensOperand c.kind = true ∧ ∃ key' value' t c₁ c₂ c₃ hlt, key'.bare = key.bare ∧
      value'.bare = value.bare ∧ Parses (expression c) key' c₁ ∧
      c₁.next? = some ⟨t, c₂, hlt⟩ ∧ t.kind = .mark .colon ∧ Parses (expression c₂) value' c₃ ∧
      c₃.Spells (wss.flatMap (.mark .comma :: ·)) d := by
  rw [List.append_assoc] at hs
  obtain ⟨c₁, hs₁, hs⟩ := hs.append
  have hc₁ : c₁.kind = .mark .colon := hs.kind_eq
  obtain ⟨t, c₂, hlt, hnext, hkind, hs⟩ := hs.token
  obtain ⟨c₃, hs₂, hs₃⟩ := hs.append
  obtain ⟨key', hbare, hparses⟩ := hkey.expression hs₁ (by rw [hc₁]; rfl)
  obtain ⟨value', hbare', hparses'⟩ := hvalue.expression hs₂ (hs₃.ends_more hd)
  exact ⟨hkey.opening.kind hs₁, key', value', t, c₁, c₂, c₃, hlt, hbare, hbare', hparses, hnext,
    hkind, hparses', hs₃⟩

theorem entries_readBack {es : List (Expr × Expr)} (hkeys : ∀ e ∈ es, ReadsBack e.1)
    (hvalues : ∀ e ∈ es, ReadsBack e.2)
    (hs : c.Spells ((wordsOfEntries es).flatMap (.mark .comma :: ·)) d)
    (hd : d.kind = .mark .rbrace) :
    ∃ es', bareEntries es' = bareEntries es ∧ Parses (entries c) (some es') d := by
  induction es generalizing c with
  | nil =>
    obtain rfl := hs.eq_of_nil
    refine ⟨[], rfl, ?_⟩
    rw [entries, Stream.take?_of_kind_ne (by simp [hd])]
    exact ⟨_, rfl⟩
  | cons e es ih =>
    rw [wordsOfEntries, List.flatMap_cons] at hs
    obtain ⟨t, c₁, _, hnext, hkind, hs⟩ := hs.token
    obtain ⟨hopens, key', value', t', c₂, c₃, c₄, _, hkey, hvalue, hparses, hnext', hkind',
        hparses', hs⟩ := entry_readBack (hkeys e List.mem_cons_self)
      (hvalues e List.mem_cons_self) hs (by rw [hd]; rfl)
    obtain ⟨es', hbares, hmore⟩ := ih (fun x hx => hkeys x (List.mem_cons_of_mem e hx))
      (fun x hx => hvalues x (List.mem_cons_of_mem e hx)) hs
    refine ⟨(key', value') :: es', by simp [bareEntries, hkey, hvalue, hbares], ?_⟩
    rw [entries, Stream.take?_of_next? hnext hkind]
    dsimp only
    rw [Stream.sees_of_kind_ne (Stream.kind_ne hopens rfl), if_neg Bool.false_ne_true,
      Stream.sees_of_kind_ne (Stream.kind_ne hopens rfl), if_neg Bool.false_ne_true]
    exact .bind hparses fun _ => .bind (parses_expect hnext' hkind') fun _ =>
      .bind hparses' fun _ => .bind hmore fun _ => parses_ok

theorem braceLiteral_readBack {t t' : Token} {c₂ : Stream} {hlt : d.size < c₂.size} (s : Span)
    {es : List (Expr × Expr)} (hkeys : ∀ e ∈ es, ReadsBack e.1) (hvalues : ∀ e ∈ es, ReadsBack e.2)
    (hs : c.Spells (separated .comma (wordsOfEntries es)) c₂) (hnext : c₂.next? = some ⟨t', d, hlt⟩)
    (hkind : t'.kind = .mark .rbrace) :
    ∃ e', e'.bare = (Expr.dict s es).bare ∧ Parses (braceLiteral t c) e' d := by
  have hc₂ : c₂.kind = .mark .rbrace := (Stream.kind_of_next? hnext).trans hkind
  rw [braceLiteral]
  cases es with
  | nil =>
    obtain rfl := hs.eq_of_nil
    rw [Stream.take?_of_next? hnext hkind]
    exact ⟨.dict (t.span.union t'.span) [], rfl, parses_ok⟩
  | cons e es =>
    obtain ⟨hopens, key', value', u, c₃, c₄, c₅, _, hkey, hvalue, hparses, hnext', hkind', hparses',
        hs⟩ := entry_readBack (hkeys e List.mem_cons_self) (hvalues e List.mem_cons_self) hs
      (by rw [hc₂]; rfl)
    obtain ⟨es', hbares, hmore⟩ := entries_readBack
      (fun x hx => hkeys x (List.mem_cons_of_mem e hx))
      (fun x hx => hvalues x (List.mem_cons_of_mem e hx)) hs hc₂
    rw [Stream.take?_of_kind_ne (Stream.kind_ne hopens rfl)]
    refine ⟨.dict (t.span.union t'.span) ((key', value') :: es'), ?_, ?_⟩
    · simp [Expr.bare, bareEntries, hkey, hvalue, hbares]
    · refine .bind hparses fun _ => ?_
      dsimp only
      rw [Stream.take?_of_next? hnext' hkind']
      refine .bind hparses' fun _ => ?_
      dsimp only
      rw [Stream.sees_of_kind_ne (Stream.kind_ne (hs.ends_more (by rw [hc₂]; rfl)) rfl)]
      exact .bind hmore fun _ => .bind (parses_expect hnext hkind) fun _ => parses_ok

/-! ## Arguments -/

/-- An argument without a name is not taken for one with a name. -/
theorem argumentName?_of_opening {n : Nat} {ws : List Word} (h : Opening n ws) (hs : c.Spells ws d)
    (hd : d.kind ≠ .mark .equal) : argumentName? c = none := by
  obtain ⟨w, rest, rfl, -, -, hsign⟩ := h
  obtain ⟨t, c₁, _, hnext, -, hs⟩ := hs.cons
  have hc₁ : c₁.kind ≠ .mark .equal := by
    cases rest with
    | nil => rwa [← hs.eq_of_nil]
    | cons v rest =>
      rw [hs.kind_eq]
      exact hsign v rfl
  unfold argumentName?
  by_cases hname : t.kind = .identifier
  · simp only [Stream.take?_of_next? hnext hname, Stream.take?_of_kind_ne hc₁]
  · rw [← Stream.kind_of_next? hnext] at hname
    simp only [Stream.take?_of_kind_ne hname]

/-- The further arguments behind one: a comma and these, or none at all. -/
def ArgumentsTail (c : Stream) (as : List (Argument Expr)) (d : Stream) : Prop :=
  c.take? (.mark .comma) = none ∧ as = [] ∧ d = c ∨
    ∃ r, c.take? (.mark .comma) = some r ∧ Parses (arguments r.rest) as d

theorem arguments_positional {e : Expr} {as : List (Argument Expr)} {c₁ : Stream}
    (hend : c.kind ≠ .mark .rparen) (hname : argumentName? c = none)
    (hparses : Parses (expression c) e c₁) (hfor : c₁.kind ≠ .keyword .forKw)
    (htail : ArgumentsTail c₁ as d) : Parses (arguments c) (⟨none, e⟩ :: as) d := by
  rw [arguments, Stream.sees_of_kind_ne hend, if_neg Bool.false_ne_true, hname]
  refine .bind hparses fun _ => ?_
  dsimp only
  rw [Stream.sees_of_kind_ne hfor, if_neg Bool.false_ne_true]
  obtain ⟨htake, rfl, rfl⟩ | ⟨r, htake, hmore⟩ := htail
  · rw [htake]
    exact parses_ok
  · rw [htake]
    exact .bind hmore fun _ => parses_ok

theorem arguments_named {id : Identifier} {e : Expr} {as : List (Argument Expr)} {c₁ c₂ : Stream}
    {hlt : c₁.size < c.size} (hend : c.kind ≠ .mark .rparen)
    (hname : argumentName? c = some ⟨id, c₁, hlt⟩) (hparses : Parses (expression c₁) e c₂)
    (htail : ArgumentsTail c₂ as d) : Parses (arguments c) (⟨some id, e⟩ :: as) d := by
  rw [arguments, Stream.sees_of_kind_ne hend, if_neg Bool.false_ne_true, hname]
  refine .bind hparses fun _ => ?_
  dsimp only
  obtain ⟨htake, rfl, rfl⟩ | ⟨r, htake, hmore⟩ := htail
  · rw [htake]
    exact parses_ok
  · rw [htake]
    exact .bind hmore fun _ => parses_ok

theorem argumentName?_of_spells {id : Identifier} (hs : c.Spells (labelWords (some id)) d) :
    c.kind = .identifier ∧
      ∃ id' hlt, id'.bare = id.bare ∧ argumentName? c = some ⟨id', d, hlt⟩ := by
  obtain ⟨t, c₁, hlt, hnext, hkind, hname, hs⟩ := hs.name
  obtain ⟨t', c₂, hlt', hnext', hkind', hs⟩ := hs.token
  obtain rfl := hs.eq_of_nil
  refine ⟨(Stream.kind_of_next? hnext).trans hkind, ⟨t.lexeme, t.span⟩, Nat.lt_trans hlt' hlt,
    by simp [Identifier.bare, hname], ?_⟩
  rw [argumentName?, Stream.take?_of_next? hnext hkind]
  dsimp only
  rw [Stream.take?_of_next? hnext' hkind']

theorem arguments_readBack {as : List (Argument Expr)} (has : ∀ a ∈ as, ReadsBack a.value)
    (hs : c.Spells (separated .comma (wordsOfArguments as)) d) (hd : d.kind = .mark .rparen) :
    ∃ as', bareArguments as' = bareArguments as ∧ Parses (arguments c) as' d := by
  induction as generalizing c with
  | nil =>
    obtain rfl := hs.eq_of_nil
    refine ⟨[], rfl, ?_⟩
    rw [arguments, if_pos (by simp [Stream.sees, hd])]
    exact ⟨_, rfl⟩
  | cons a as ih =>
    obtain ⟨id, e⟩ := a
    have he := has _ List.mem_cons_self
    rw [wordsOfArguments, separated, List.append_assoc] at hs
    obtain ⟨c₁, hs₁, hs⟩ := hs.append
    obtain ⟨c₂, hs₂, hs₃⟩ := hs.append
    have hc₂ : c₂.kind = .mark .rparen ∨ c₂.kind = .mark .comma := hd ▸ hs₃.kind_more
    have hends : endsExpression c₂.kind = true := by rcases hc₂ with h | h <;> rw [h] <;> rfl
    obtain ⟨e', hbare, hparses⟩ := he.expression hs₂ hends
    obtain ⟨as', hbares, htail⟩ : ∃ as', bareArguments as' = bareArguments as ∧
        ArgumentsTail c₂ as' d := by
      obtain ⟨hnil, rfl⟩ | ⟨-, t, c₃, hlt, hnext, hkind, hs₄⟩ := hs₃.more
      · cases as with
        | nil => exact ⟨[], rfl, .inl ⟨Stream.take?_of_kind_ne (by simp [hd]), rfl, rfl⟩⟩
        | cons => cases hnil
      · obtain ⟨as', hbares, hmore⟩ := ih (fun x hx => has x (List.mem_cons_of_mem _ hx)) hs₄
        exact ⟨as', hbares, .inr ⟨_, Stream.take?_of_next? hnext hkind, hmore⟩⟩
    cases id with
    | none =>
      obtain rfl := hs₁.eq_of_nil
      have hsign : c₂.kind ≠ .mark .equal := by rcases hc₂ with h | h <;> simp [h]
      refine ⟨⟨none, e'⟩ :: as', by simp [bareArguments, hbare, hbares], ?_⟩
      exact arguments_positional (Stream.kind_ne (he.opening.kind hs₂) rfl)
        (argumentName?_of_opening he.opening hs₂ hsign) hparses (Stream.kind_ne hends rfl) htail
    | some id =>
      obtain ⟨hkind, id', hlt, hname, hlabel⟩ := argumentName?_of_spells hs₁
      refine ⟨⟨some id', e'⟩ :: as', by simp [bareArguments, hbare, hbares, hname], ?_⟩
      exact arguments_named (by simp [hkind]) hlabel hparses htail

end Lists

/-! ## Expressions -/

section Expressions

variable {c d : Stream} {e : Expr}

theorem ReadsBack.list (s : Span) {es : List Expr}
    (hopen : Opening operandRank (Expr.list s es).words) (hes : ∀ e ∈ es, ReadsBack e) :
    ReadsBack (.list s es) :=
  .bracketed (b := .square) hopen rfl (listLiteral_readBack s hes)

theorem ReadsBack.tuple (s : Span) {es : List Expr}
    (hopen : Opening operandRank (Expr.tuple s es).words) (hes : ∀ e ∈ es, ReadsBack e) :
    ReadsBack (.tuple s es) :=
  .bracketed (b := .paren) hopen rfl (parenthesized_readBack s hes)

theorem ReadsBack.dict (s : Span) {es : List (Expr × Expr)}
    (hopen : Opening operandRank (Expr.dict s es).words) (hkeys : ∀ e ∈ es, ReadsBack e.1)
    (hvalues : ∀ e ∈ es, ReadsBack e.2) : ReadsBack (.dict s es) :=
  .bracketed (b := .brace) hopen rfl (braceLiteral_readBack s hkeys hvalues)

theorem ReadsBack.call (s : Span) {as : List (Argument Expr)}
    (hopen : Opening operandRank (Expr.call s e as).words) (he : ReadsBack e)
    (has : ∀ a ∈ as, ReadsBack a.value) : ReadsBack (.call s e as) := by
  refine .of_operand hopen fun hs _ => ?_
  obtain ⟨c₁, hs₁, hs⟩ := hs.append
  obtain ⟨e', hbare, hlead⟩ := he.groupedOperand hs₁ (by rw [hs.kind_eq]; rfl)
  obtain ⟨t, c₂, _, c₃, t', _, hnext, hkind, hs, hnext', hkind'⟩ := hs.bracketed
  obtain ⟨as', hbares, hparses⟩ := arguments_readBack has hs
    ((Stream.kind_of_next? hnext').trans hkind')
  refine ⟨.call (e'.span.union t'.span) e' as', by simp [Expr.bare, hbare, hbares],
    fun h => hlead ?_⟩
  rw [trailers]
  simp only [hnext, hkind]
  exact .bind hparses fun _ => .bind (parses_expect hnext' hkind') fun _ => .bind h fun _ =>
    parses_ok

theorem ReadsBack.member (s : Span) (p : Identifier)
    (hopen : Opening operandRank (Expr.member s e p).words) (he : ReadsBack e) :
    ReadsBack (.member s e p) := by
  refine .of_operand hopen fun hs _ => ?_
  obtain ⟨c₁, hs₁, hs⟩ := hs.append
  obtain ⟨e', hbare, hlead⟩ := he.groupedOperand hs₁ (by rw [hs.kind_eq]; rfl)
  obtain ⟨t, c₂, _, hnext, hkind, hs⟩ := hs.token
  obtain ⟨t', c₃, _, hnext', hkind', hname, hs⟩ := hs.name
  obtain rfl := hs.eq_of_nil
  refine ⟨.member (e'.span.union t'.span) e' ⟨t'.lexeme, t'.span⟩,
    by simp [Expr.bare, hbare, Identifier.bare, hname], fun h => hlead ?_⟩
  rw [trailers]
  simp only [hnext, hkind]
  exact .bind (parses_expect hnext' hkind') fun _ => .bind h fun _ => parses_ok

/-- Without a comma, several expressions are one. -/
theorem ReadsBack.expressionList (h : ReadsBack e) (hs : c.Spells e.words d)
    (hd : endsExpression d.kind = true) (hcomma : d.kind ≠ .mark .comma) :
    ∃ e', e'.bare = e.bare ∧ Parses (expressionList c) e' d := by
  obtain ⟨e', hbare, hparses⟩ := h.expression hs hd
  refine ⟨e', hbare, ?_⟩
  rw [Parser.expressionList]
  refine .bind hparses fun _ => ?_
  dsimp only
  rw [Stream.sees_of_kind_ne hcomma, if_neg Bool.false_ne_true]
  exact parses_ok

theorem ReadsBack.index (s : Span) {i : Expr} (hopen : Opening operandRank (Expr.index s e i).words)
    (he : ReadsBack e) (hi : ReadsBack i) : ReadsBack (.index s e i) := by
  refine .of_operand hopen fun hs _ => ?_
  obtain ⟨c₁, hs₁, hs⟩ := hs.append
  obtain ⟨e', hbare, hlead⟩ := he.groupedOperand hs₁ (by rw [hs.kind_eq]; rfl)
  obtain ⟨t, c₂, _, c₃, t', _, hnext, hkind, hs, hnext', hkind'⟩ := hs.bracketed
  have hc₃ : c₃.kind = .mark .rbracket := (Stream.kind_of_next? hnext').trans hkind'
  obtain ⟨i', hbare', hparses⟩ := hi.expressionList hs (by rw [hc₃]; rfl) (by simp [hc₃])
  refine ⟨.index (e'.span.union t'.span) e' i', by simp [Expr.bare, hbare, hbare'],
    fun h => hlead ?_⟩
  rw [trailers]
  simp only [hnext, hkind]
  refine .bind ?_ fun _ => .bind (parses_expect hnext' hkind') fun _ => .bind h fun _ => parses_ok
  rw [subscript, Stream.sees_of_kind_ne (Stream.kind_ne (hi.opening.kind hs) rfl),
    if_neg Bool.false_ne_true]
  refine .bind hparses fun _ => ?_
  dsimp only
  rw [Stream.sees_of_kind_ne (by simp [hc₃]), if_neg Bool.false_ne_true]
  exact parses_ok

/-- **Expressions are read back.** The words of an expression in which nothing was read over are
read as that expression. -/
theorem Expr.Plain.readsBack (h : e.Plain) : ReadsBack e := by
  have hopen := h.opening
  induction h with
  | name s id => exact readsBack_name s id
  | literal s v => exact readsBack_literal s v
  | list s hes ih => exact .list s hopen fun e he => ih e he (hes e he).opening
  | tuple s hes ih => exact .tuple s hopen fun e he => ih e he (hes e he).opening
  | dict s hkeys hvalues ih ih' =>
    exact .dict s hopen (fun e he => ih e he (hkeys e he).opening)
      fun e he => ih' e he (hvalues e he).opening
  | unary s op he ih => exact .unary s op hopen (ih he.opening)
  | binary s op hl hr ih ih' => exact .binary s op hopen (ih hl.opening) (ih' hr.opening)
  | call s he has ih ih' =>
    exact .call s hopen (ih he.opening) fun a ha => ih' a ha (has a ha).opening
  | member s p he ih => exact .member s p hopen (ih he.opening)
  | index s he hi ih ih' => exact .index s hopen (ih he.opening) (ih' hi.opening)

end Expressions

end Gradual
