import Gradual.Proofs.Statement.Soundness

/-!
# Bounds on parsing

What is read is never larger than the tokens it is read from. A loop of the parser that goes round
once more makes its result larger, so it takes a token each time, and every token it takes stands
before the end of the input.

* `Expr.nodes`, `Statement.nodes`: the size of what is read;
* `Reads.nodes_le`, `ReadsClause.nodes_le`: it is bounded by the tokens;
* `TakesAtLeast`, `Advances`: a parser has taken as many tokens as its result needs;
* **`parser_within_tokens`**.
-/

namespace Gradual

/-! ## The size of expressions and statements -/

mutual

/-- The number of expressions in an expression, itself included. -/
def Expr.nodes : Expr → Nat
  | .name .. | .literal .. | .unsupported .. => 1
  | .list _ es | .tuple _ es => nodesOfAll es + 1
  | .dict _ es => nodesOfEntries es + 1
  | .unary _ _ e => e.nodes + 1
  | .binary _ _ l r => l.nodes + r.nodes + 1
  | .call _ f as => f.nodes + nodesOfArguments as + 1
  | .member _ o _ => o.nodes + 1
  | .index _ o i => o.nodes + i.nodes + 1

/-- The number of expressions in all of some expressions. -/
def nodesOfAll : List Expr → Nat
  | [] => 0
  | e :: es => e.nodes + nodesOfAll es

/-- The number of expressions in the entries of a dictionary. -/
def nodesOfEntries : List (Expr × Expr) → Nat
  | [] => 0
  | (k, v) :: es => k.nodes + v.nodes + nodesOfEntries es

/-- The number of expressions in the arguments of a call. -/
def nodesOfArguments : List (Argument Expr) → Nat
  | [] => 0
  | ⟨_, e⟩ :: as => e.nodes + nodesOfArguments as

end

/-- The number of expressions in one that may be absent. -/
def nodesOfOption : Option Expr → Nat
  | none => 0
  | some e => e.nodes

/-- The size of a parameter: itself, its declared type and its default value. -/
def Parameter.nodes (p : Parameter) : Nat := nodesOfOption p.declared + nodesOfOption p.initial + 1

/-- The sum of the sizes of parameters. -/
def nodesOfParameters : List Parameter → Nat
  | [] => 0
  | p :: ps => p.nodes + nodesOfParameters ps

mutual

/-- The number of statements and expressions in a statement; an expression that is a statement
counts once. -/
def Statement.nodes : Statement → Nat
  | .function head body =>
    nodesOfParameters head.parameters + nodesOfOption head.returns + nodesOfBlock body + 1
  | .assignment a => nodesOfAll a.targets + nodesOfOption a.declared + nodesOfOption a.value + 1
  | .returns _ value => nodesOfOption value + 1
  | .conditional head body otherwise =>
    head.test.nodes + nodesOfBlock body + nodesOfAlternative otherwise + 1
  | .expression e => e.nodes
  | .pass _ | .unsupported _ _ => 1

/-- The number of statements and expressions in a block. -/
def nodesOfBlock : List Statement → Nat
  | [] => 0
  | s :: ss => s.nodes + nodesOfBlock ss

/-- The number of statements and expressions in the alternative of a conditional. -/
def nodesOfAlternative : Option (List Statement) → Nat
  | none => 0
  | some ss => nodesOfBlock ss

end

theorem Expr.nodes_pos (e : Expr) : 0 < e.nodes := by cases e <;> simp [nodes]

theorem Statement.nodes_pos (s : Statement) : 0 < s.nodes := by
  cases s <;> simp [nodes, Expr.nodes_pos]

@[simp] theorem Expr.nodes_withSpan (s : Source.Span) (e : Expr) :
    (e.withSpan s).nodes = e.nodes := by
  cases e <;> simp [withSpan, nodes]

/-! ## Expressions -/

/-- The tokens that a phrase needs at least, when it is read from `n` tokens: one for each
expression in it, and one for the comma before further elements. -/
def Phrase.need (n : Nat) : Phrase → Nat
  | .expr e | .subscript e => e.nodes
  | .elements es => nodesOfAll es + min n 1
  | .entries es => nodesOfEntries (es.getD [])
  | .arguments as => nodesOfArguments as

theorem BinaryOp.kinds_pos (op : BinaryOp) : 0 < op.kinds.length := by cases op <;> simp [kinds]

theorem length_pos_of_head? {ts : List Token} {t : Token} (h : ts.head? = some t) :
    0 < ts.length := by
  cases ts with
  | nil => cases h
  | cons => simp

/-- A phrase is not larger than its tokens. -/
theorem Reads.need_le {ts : List Token} {p : Phrase} (h : Reads ts p) :
    p.need ts.length ≤ ts.length := by
  induction h with
  | name | number | strings | emptyTuple | emptyList | emptyDict | noElements | lastComma
  | noEntries | lastEntry | unpacking | slice | noArguments =>
    simp [Phrase.need, Expr.nodes, nodesOfAll, nodesOfEntries, nodesOfArguments]
  | alone head => exact length_pos_of_head? head
  | subscript _ ih => exact ih
  | @binary _ us _ op _ _ _ kinds _ ihl ihr =>
    have hus : us.length = op.kinds.length := by rw [← kinds, List.length_map]
    have hop := op.kinds_pos
    simp only [Phrase.need, Expr.nodes, List.length_append] at *
    omega
  | opened head _ _ ih =>
    have hhead := length_pos_of_head? head
    simp only [Phrase.need, Expr.nodes, List.length_append] at *
    omega
  | listed _ _ comma ihf ihm =>
    have hus := List.length_pos_iff.2 comma
    simp only [Phrase.need, Expr.nodes, nodesOfAll, List.length_append] at *
    omega
  | @entry _ _ _ _ _ _ _ more _ _ _ _ _ ihk ihv ihm =>
    cases more <;>
      simp only [Phrase.need, Option.map_none, Option.map_some, Option.getD_none, Option.getD_some,
        nodesOfEntries, List.length_cons, List.length_append] at * <;> omega
  | @sliceFrom _ _ i _ _ ih | @generator _ _ i _ _ ih =>
    have hi := i.nodes_pos
    simp only [Phrase.need, Expr.nodes, nodesOfArguments, List.length_append] at *
    omega
  | _ =>
    simp only [Phrase.need, Expr.nodes, Expr.nodes_withSpan, nodesOfAll, nodesOfEntries,
      nodesOfArguments, Option.getD_none, Option.getD_some, List.length_append, List.length_cons,
      List.length_nil] at *
    omega

theorem Reads.nodes_le {ts : List Token} {e : Expr} (h : Reads ts (.expr e)) :
    e.nodes ≤ ts.length := h.need_le

/-- What follows an expression makes it larger by no more than its tokens. -/
theorem Extends.nodes_le {ts : List Token} {left e : Expr} (h : Extends left ts e) :
    e.nodes ≤ left.nodes + ts.length := by
  induction h with
  | nothing => simp
  | @binary us _ _ op _ _ _ kinds operand _ ih =>
    have hus : us.length = op.kinds.length := by rw [← kinds, List.length_map]
    have hop := op.kinds_pos
    have hright := operand.nodes_le
    simp only [Expr.nodes, List.length_append] at *
    omega
  | call _ inside _ _ ih | index _ inside _ _ ih =>
    have hinside := inside.need_le
    simp only [Phrase.need, Expr.nodes, List.length_append, List.length_cons] at *
    omega
  | member _ _ _ ih =>
    simp only [Expr.nodes, List.length_cons] at *
    omega

/-! ## Statements -/

theorem ReadsAfter.nodes_le {m : Mark} {ts : List Token} {e : Option Expr} (h : ReadsAfter m ts e) :
    nodesOfOption e ≤ ts.length := by
  cases h with
  | absent => simp [nodesOfOption]
  | present _ reads =>
    have hreads := reads.nodes_le
    simp only [nodesOfOption, List.length_cons]
    omega

theorem nodesOfParameters_append (ps qs : List Parameter) :
    nodesOfParameters (ps ++ qs) = nodesOfParameters ps + nodesOfParameters qs := by
  induction ps with
  | nil => simp [nodesOfParameters]
  | cons p ps ih => rw [List.cons_append, nodesOfParameters, nodesOfParameters, ih, Nat.add_assoc]

theorem ReadsParameter.nodes_le {ts : List Token} {p : Option Parameter} (h : ReadsParameter ts p) :
    0 < ts.length ∧ nodesOfParameters p.toList ≤ ts.length := by
  cases h with
  | slash | star => simp [nodesOfParameters, Parameter.nodes, nodesOfOption]
  | named _ _ type value =>
    have htype := type.nodes_le
    have hvalue := value.nodes_le
    simp only [nodesOfParameters, Parameter.nodes, Option.toList_some, List.length_append,
      List.length_cons]
    omega

theorem ReadsParameters.nodes_le {ts : List Token} {ps : List Parameter}
    (h : ReadsParameters ts ps) : nodesOfParameters ps ≤ ts.length := by
  induction h with
  | none => simp [nodesOfParameters]
  | last head => exact head.nodes_le.2
  | more head _ _ ih =>
    have hhead := head.nodes_le.2
    simp only [nodesOfParameters_append, List.length_append, List.length_cons] at *
    omega

theorem ReadsAssigned.nodes_le {ts : List Token} {es : List Expr} (h : ReadsAssigned ts es) :
    nodesOfAll es + es.length ≤ ts.length := by
  induction h with
  | none => simp [nodesOfAll]
  | more _ head _ ih =>
    have hhead := head.nodes_le
    simp only [nodesOfAll, List.length_cons, List.length_append] at *
    omega

theorem nodesOfAll_append (es fs : List Expr) :
    nodesOfAll (es ++ fs) = nodesOfAll es + nodesOfAll fs := by
  induction es with
  | nil => simp [nodesOfAll]
  | cons e es ih => rw [List.cons_append, nodesOfAll, nodesOfAll, ih, Nat.add_assoc]

theorem nodes_assignmentOf (first : Expr) (more : List Expr) :
    (Parser.assignmentOf first more).nodes ≤ first.nodes + nodesOfAll more + more.length := by
  unfold Parser.assignmentOf
  split
  · simp [Statement.nodes]
    omega
  · next value hvalue =>
    obtain ⟨es, rfl⟩ := List.getLast?_eq_some_iff.1 hvalue
    simp only [Statement.nodes, nodesOfAll, nodesOfOption, nodesOfAll_append, List.dropLast_concat,
      List.length_append, List.length_singleton]
    omega

theorem ReadsSimple.nodes_le {ts : List Token} {s : Statement} (h : ReadsSimple ts s) :
    s.nodes ≤ ts.length := by
  cases h with
  | pass | returns | skipped | decorator => simp [Statement.nodes, nodesOfOption]
  | returnsValue _ value =>
    have hvalue := value.nodes_le
    simp only [Statement.nodes, nodesOfOption, List.length_cons, List.length_append]
    omega
  | declared head _ typed =>
    have hhead := head.nodes_le
    have htyped := typed.nodes_le
    simp only [Statement.nodes, nodesOfAll, nodesOfOption, List.length_append, List.length_cons]
    omega
  | declaredValue head _ typed _ tail =>
    have hhead := head.nodes_le
    have htyped := typed.nodes_le
    have htail := tail.nodes_le
    simp only [Statement.nodes, nodesOfAll, nodesOfOption, List.length_append, List.length_cons]
    omega
  | augmented head _ tail =>
    simp only [Statement.nodes, List.length_append, List.length_cons]
    omega
  | @assigned _ _ _ first more head tail =>
    have hhead := head.nodes_le
    have htail := tail.nodes_le
    have hboth := nodes_assignmentOf first more
    simp only [List.length_append]
    omega

/-- The size of a clause. -/
def Clause.nodes : Clause → Nat
  | .statement s | .branch _ s => s.nodes
  | .suite ss | .line ss | .block ss => nodesOfBlock ss

/-- A clause is not larger than its tokens. -/
theorem ReadsClause.nodes_le {c c' : Stream} {l : Clause} (h : ReadsClause c l c') :
    l.nodes + c'.size ≤ c.size := by
  induction h with
  | simple h reads =>
    have hsize := h.size_eq
    have hreads := reads.nodes_le
    simp only [Clause.nodes]
    omega
  | skippedLine h =>
    have hsize := h.size_eq
    simp only [Clause.nodes, Statement.nodes, List.length_cons] at *
    omega
  | skippedBlock h _ _ _ _ h' =>
    have hsize := h.size_eq
    have hsize' := h'.size_eq
    simp only [Clause.nodes, Statement.nodes, List.length_cons] at *
    omega
  | function h _ _ _ parameters _ result _ _ ih =>
    have hsize := h.size_eq
    have hps := parameters.nodes_le
    have hresult := result.nodes_le
    simp only [Clause.nodes, Statement.nodes, List.length_cons, List.length_append] at *
    omega
  | conditional _ ih => exact ih
  | branch h _ condition _ _ ih =>
    have hsize := h.size_eq
    have htest := condition.nodes_le
    simp only [Clause.nodes, Statement.nodes, nodesOfAlternative, List.length_cons,
      List.length_append] at *
    omega
  | branchElif h _ condition _ _ _ ih ih' =>
    have hsize := h.size_eq
    have htest := condition.nodes_le
    simp only [Clause.nodes, Statement.nodes, nodesOfAlternative, nodesOfBlock, List.length_cons,
      List.length_append] at *
    omega
  | branchElse h _ condition _ _ h' _ _ _ ih ih' =>
    have hsize := h.size_eq
    have hsize' := h'.size_eq
    have htest := condition.nodes_le
    simp only [Clause.nodes, Statement.nodes, nodesOfAlternative, List.length_cons,
      List.length_append] at *
    omega
  | lineSuite _ _ ih => exact ih
  | blockSuite h _ _ _ _ close ih =>
    have hsize := h.size_eq
    have hclose : _ ≤ _ := close.elim (fun hc => Nat.le_of_eq (congrArg Stream.size hc.2))
      fun ⟨t, ht, _⟩ => by have := ht.size_eq; omega
    simp only [Clause.nodes] at *
    omega
  | lastOfLine _ ih => simpa [Clause.nodes, nodesOfBlock] using ih
  | onLine _ _ _ ih ih' =>
    simp only [Clause.nodes, nodesOfBlock] at *
    omega
  | endOfBlock h _ =>
    have hsize := h.size_eq
    simp only [Clause.nodes, nodesOfBlock]
    omega
  | inBlock h _ _ _ ih ih' =>
    have hsize := h.size_eq
    simp only [Clause.nodes, nodesOfBlock] at *
    omega

theorem ReadsModule.nodes_le {c : Stream} {ss : List Statement} (h : ReadsModule c ss) :
    nodesOfBlock ss ≤ c.size := by
  induction h with
  | done => simp [nodesOfBlock]
  | next h _ _ head _ ih =>
    have hsize := h.size_eq
    have hhead := head.nodes_le
    simp only [Clause.nodes, nodesOfBlock] at *
    omega

/-! ## Parsers -/

/-- A parser that ends well has taken tokens of the stream, and as many as its result needs; an
error is at one of the tokens. -/
def TakesAtLeast {α : Type} {n : Nat} (c : Stream) (x : Except ParseError (Parsed n α))
    (need : α → Nat) : Prop :=
  Settles c x fun r => ∃ ts, c.Takes ts r.rest ∧ need r.value ≤ ts.length

/-- The same of a parser that takes at least one token. -/
def Advances {α : Type} {n : Nat} (c : Stream) (x : Except ParseError (Parsed n α))
    (need : α → Nat) : Prop :=
  Settles c x fun r => ∃ t ts, c.Takes (t :: ts) r.rest ∧ need r.value ≤ ts.length + 1

section

variable {α : Type} {n : Nat} {c : Stream} {x : Except ParseError (Parsed n α)}
  {P : α → Stream → Prop} {need : α → Nat}

theorem Yields.takesAtLeast (h : Yields c x P) (hstop : c.stop.kind = .eof)
    (hP : ∀ a c', P a c' → ∃ ts, c.Takes ts c' ∧ need a ≤ ts.length) : TakesAtLeast c x need :=
  (h hstop).mono fun r hr => hP r.value r.rest hr.2

theorem Yields.advances (h : Yields c x P) (hstop : c.stop.kind = .eof)
    (hP : ∀ a c', P a c' → ∃ ts, c.Takes ts c' ∧ need a ≤ ts.length ∧ 0 < ts.length) :
    Advances c x need := by
  refine (h hstop).mono fun r hr => ?_
  obtain ⟨ts, hts, hneed, hpos⟩ := hP r.value r.rest hr.2
  cases ts with
  | nil => cases hpos
  | cons t ts => exact ⟨t, ts, hts, hneed⟩

/-- Parsers of expressions take at least one token. -/
theorem Yields.advances_expr {x : Except ParseError (Parsed n Expr)}
    (h : Yields c x fun e c' => c.ReadsTo (.expr e) c') (hstop : c.stop.kind = .eof) :
    Advances c x Expr.nodes := by
  refine h.advances hstop ?_
  rintro e c' ⟨ts, hts, he⟩
  have hnodes := he.nodes_le
  have hpos := e.nodes_pos
  exact ⟨ts, hts, hnodes, by omega⟩

theorem Yields.takesAtLeast_clause {l : α → Clause}
    (h : Yields c x fun a c' => ReadsClause c (l a) c') (hstop : c.stop.kind = .eof) :
    TakesAtLeast c x fun a => (l a).nodes := by
  refine (h hstop).mono ?_
  rintro r ⟨⟨ts, hts⟩, hr⟩
  have hnodes := hr.nodes_le
  have hsize := hts.size_eq
  refine ⟨ts, hts, ?_⟩
  dsimp only
  omega

end

section Parsers

variable {c : Stream} (hstop : c.stop.kind = .eof)

include hstop

theorem advances_statement : Advances c (Parser.statement c) Statement.nodes := by
  refine (Parser.yields_statement c hstop).mono ?_
  rintro r ⟨⟨ts, hts⟩, hr⟩
  have hnodes : r.value.nodes + r.rest.size ≤ c.size := hr.nodes_le
  have hsize := hts.size_eq
  have hpos := r.value.nodes_pos
  cases ts with
  | nil =>
    simp only [List.length_nil, Nat.zero_add] at hsize
    omega
  | cons t ts =>
    simp only [List.length_cons] at hsize
    exact ⟨t, ts, hts, by omega⟩

theorem advances_parameter : Advances c (Parser.parameter c) (nodesOfParameters ·.toList) := by
  refine (Parser.yields_parameter c).advances hstop ?_
  rintro p c' ⟨ts, hts, hp⟩
  exact ⟨ts, hts, hp.nodes_le.2, hp.nodes_le.1⟩

theorem takesAtLeast_parameters : TakesAtLeast c (Parser.parameters c) nodesOfParameters := by
  refine (Parser.yields_parameters c).takesAtLeast hstop ?_
  rintro ps c' ⟨ts, hts, hps⟩
  exact ⟨ts, hts, hps.nodes_le⟩

theorem takesAtLeast_assigned : TakesAtLeast c (Parser.assigned c) nodesOfAll := by
  refine (Parser.yields_assigned c).takesAtLeast hstop ?_
  rintro es c' ⟨ts, hts, hes⟩
  have hnodes := hes.nodes_le
  exact ⟨ts, hts, by omega⟩

theorem takesAtLeast_elements (ends : TokenKind → Bool) :
    TakesAtLeast c (Parser.elements ends c) nodesOfAll := by
  refine (Parser.yields_elements ends c).takesAtLeast hstop ?_
  rintro es c' ⟨⟨ts, hts, hes⟩, -⟩
  have hneed := hes.need_le
  simp only [Phrase.need] at hneed
  exact ⟨ts, hts, by omega⟩

theorem takesAtLeast_entries : TakesAtLeast c (Parser.entries c) (nodesOfEntries <| ·.getD []) := by
  refine (Parser.yields_entries c).takesAtLeast hstop ?_
  rintro es c' ⟨ts, hts, hes⟩
  exact ⟨ts, hts, hes.need_le⟩

theorem takesAtLeast_arguments : TakesAtLeast c (Parser.arguments c) nodesOfArguments := by
  refine (Parser.yields_arguments c).takesAtLeast hstop ?_
  rintro as c' ⟨ts, hts, has⟩
  exact ⟨ts, hts, has.need_le⟩

theorem takesAtLeast_trailers (e : Expr) :
    TakesAtLeast c (Parser.trailers e c) (·.nodes - e.nodes) := by
  refine (Parser.yields_trailers e c).takesAtLeast hstop ?_
  rintro e' c' ⟨ts, hts, he⟩
  have hnodes := he.nodes_le
  exact ⟨ts, hts, by omega⟩

theorem takesAtLeast_operators (p : Precedence) (e : Expr) :
    TakesAtLeast c (Parser.operators p e c) (·.nodes - e.nodes) := by
  refine (Parser.yields_operators p e c).takesAtLeast hstop ?_
  rintro e' c' ⟨ts, hts, he⟩
  have hnodes := he.nodes_le
  exact ⟨ts, hts, by omega⟩

theorem takesAtLeast_skipToCloser : TakesAtLeast c c.skipToCloser fun _ => 0 :=
  c.yields_skipToCloser.takesAtLeast hstop fun _ _ ⟨ts, _, hts, _⟩ => ⟨ts, hts, Nat.zero_le _⟩

end Parsers

theorem parseHint_nodes_le (tokens : List Token) :
    Settles (.ofTokens tokens) (parseHint tokens) (·.nodes ≤ (Stream.ofTokens tokens).size) := by
  refine (parseHint_settles tokens).mono ?_
  rintro e ⟨us, gap, c', htakes, he, -, -⟩
  have hsize := htakes.size_eq
  have hnodes := he.nodes_le
  rw [List.length_append] at hsize
  omega

theorem Stream.ofTokens_ahead (tokens : List Token) :
    (∀ t ∈ (Stream.ofTokens tokens).ahead, t.kind ≠ .eof) ∧
      ∃ rest, tokens = (Stream.ofTokens tokens).ahead ++ rest ∧
        ∀ t ∈ rest.head?, t.kind = .eof := by
  refine ⟨fun t ht => ?_, tokens.dropWhile (·.kind != .eof), ?_, fun t ht => ?_⟩
  · simpa using List.all_eq_true.1 List.all_takeWhile t ht
  · exact List.takeWhile_append_dropWhile.symm
  · have hhead := List.head?_dropWhile_not (·.kind != .eof) tokens
    rw [Option.mem_def.1 ht] at hhead
    simpa using hhead

/-- **Parsing ends within its tokens**: from every place each parser takes at least one token, and
both parsers of a stream give a result of bounded size or an error at one of its places. -/
theorem parser_within_tokens (tokens : List Token) (n : Nat) :
    let start := Stream.ofTokens tokens
    let c := start.drop n
    ((∀ t ∈ start.ahead, t.kind ≠ .eof) ∧
        ∃ rest, tokens = start.ahead ++ rest ∧ ∀ t ∈ rest.head?, t.kind = .eof) ∧
      (Settles start (parseModule tokens) (nodesOfBlock · ≤ start.size) ∧
        Settles start (parseHint tokens) (·.nodes ≤ start.size)) ∧
      (Advances c (Parser.statement c) Statement.nodes ∧
        Advances c (Parser.expressionList c) Expr.nodes ∧
        Advances c (Parser.expression c) Expr.nodes ∧
        (∀ p, Advances c (Parser.precedence p c) Expr.nodes) ∧
        Advances c (Parser.operand c) Expr.nodes ∧
        Advances c (Parser.primary c) Expr.nodes ∧
        Advances c (Parser.parameter c) (nodesOfParameters ·.toList)) ∧
      (TakesAtLeast c (Parser.suite c) nodesOfBlock ∧
        TakesAtLeast c (Parser.headerStatements c) nodesOfBlock ∧
        TakesAtLeast c (Parser.blockStatements c) nodesOfBlock ∧
        TakesAtLeast c (Parser.parameters c) nodesOfParameters ∧
        TakesAtLeast c (Parser.assigned c) nodesOfAll ∧
        (∀ ends, TakesAtLeast c (Parser.elements ends c) nodesOfAll) ∧
        TakesAtLeast c (Parser.entries c) (nodesOfEntries <| ·.getD []) ∧
        TakesAtLeast c (Parser.arguments c) nodesOfArguments ∧
        (∀ e, TakesAtLeast c (Parser.trailers e c) (·.nodes - e.nodes)) ∧
        ∀ p e, TakesAtLeast c (Parser.operators p e c) (·.nodes - e.nodes)) ∧
      (∀ p, c.Takes (c.ahead.takeWhile (p ·.kind)) (c.skipWhile p).rest) ∧
      (TakesAtLeast c c.skipToCloser fun _ => 0) ∧
      c.Takes (c.ahead.take (Stream.blockLength 0 c.ahead)) c.skipBlock.rest := by
  intro start c
  have hstop : c.stop.kind = .eof := Stream.stop_ofTokens tokens
  refine ⟨Stream.ofTokens_ahead tokens, ⟨?_, parseHint_nodes_le tokens⟩, ?advance, ?loops,
    c.takes_skipWhile, takesAtLeast_skipToCloser hstop, c.takes_skipBlock⟩
  · exact (parseModule_settles tokens).mono fun _ h => h.nodes_le
  case advance =>
    exact ⟨advances_statement hstop, (Parser.yields_expressionList c).advances_expr hstop,
      (Parser.yields_expression c).advances_expr hstop,
      fun p => (Parser.yields_precedence p c).advances_expr hstop,
      (Parser.yields_operand c).advances_expr hstop, (Parser.yields_primary c).advances_expr hstop,
      advances_parameter hstop⟩
  case loops =>
    exact ⟨(Parser.yields_suite c).takesAtLeast_clause hstop,
      (Parser.yields_headerStatements c).takesAtLeast_clause hstop,
      ((Parser.yields_blockStatements c).mono fun _ _ h => h.1).takesAtLeast_clause hstop,
      takesAtLeast_parameters hstop, takesAtLeast_assigned hstop, takesAtLeast_elements hstop,
      takesAtLeast_entries hstop, takesAtLeast_arguments hstop, takesAtLeast_trailers hstop,
      takesAtLeast_operators hstop⟩

end Gradual
