import Gradual.Proofs.Expr.RoundTrip
import Gradual.Proofs.Statement.Printing
import Gradual.Proofs.Statement.Soundness

/-!
# Reading statements back

The parser gives back the statements of a module from their words, up to spans.

* `Statement.ReadsBack`: a statement is read back where no `elif` or `else` follows it;
* `block_readBack`, `suite_readBack`: so are the statements of a block;
* **`parseModule_words`**: so is a module.
-/

namespace Gradual

open Source Gradual.Parser

/-! ## Parts of statements -/

section Parts

variable {c d : Stream}

theorem expressionAfter_readBack {m : Mark} {value : Option Expr} (h : ∀ e ∈ value, e.Plain)
    (hs : c.Spells (wordsAfter m value) d) (hd : endsExpression d.kind = true)
    (hm : d.kind ≠ .mark m) :
    ∃ value', value'.map Expr.bare = value.map Expr.bare ∧
      Parses (expressionAfter m c) value' d := by
  cases value with
  | none =>
    obtain rfl := hs.eq_of_nil
    refine ⟨none, rfl, ?_⟩
    rw [expressionAfter, Stream.take?_of_kind_ne hm]
    exact ⟨_, rfl⟩
  | some e =>
    obtain ⟨t, c₁, _, hnext, hkind, hs⟩ := hs.token
    obtain ⟨e', hbare, hparses⟩ := (h e rfl).readsBack.expression hs hd
    refine ⟨some e', by simp [hbare], ?_⟩
    rw [expressionAfter, Stream.take?_of_next? hnext hkind]
    exact .bind hparses fun _ => parses_ok

theorem kind_wordsAfter {m : Mark} {value : Option Expr} (hs : c.Spells (wordsAfter m value) d) :
    c.kind = d.kind ∨ c.kind = .mark m := by
  cases value with
  | none => exact .inl (by rw [hs.eq_of_nil])
  | some e => exact .inr hs.kind_eq

theorem parameter_readBack {p : Parameter} (h : p.Plain) (hs : c.Spells p.words d)
    (hd : d.kind = .mark .comma ∨ d.kind = .mark .rparen) :
    ∃ p', p'.bare = p.bare ∧ Parses (parameter c) (some p') d := by
  obtain ⟨t, c₁, _, hnext, hkind, hname, hs⟩ := hs.name
  obtain ⟨c₂, hs₁, hs₂⟩ := hs.append
  have hends : endsExpression d.kind = true := by rcases hd with h | h <;> rw [h] <;> rfl
  obtain ⟨initial', hinitial, hparses₂⟩ := expressionAfter_readBack h.initial hs₂ hends
    (by rcases hd with h | h <;> simp [h])
  have hends₂ : endsExpression c₂.kind = true := by
    rcases kind_wordsAfter hs₂ with h | h <;> rw [h]
    · exact hends
    · rfl
  have hcolon : c₂.kind ≠ .mark .colon := by
    rcases kind_wordsAfter hs₂ with h | h <;> rw [h]
    · rcases hd with h | h <;> simp [h]
    · simp
  obtain ⟨declared', hdeclared, hparses₁⟩ := expressionAfter_readBack h.declared hs₁ hends₂ hcolon
  refine ⟨⟨t.lexeme, t.span, .positional, declared', initial'⟩, ?_, ?_⟩
  · simp [Parameter.bare, hname, h.kind, hdeclared, hinitial]
  · have hc : c.kind = .identifier := (Stream.kind_of_next? hnext).trans hkind
    rw [parameter, Stream.take?_of_kind_ne (by simp [hc]), Stream.take?_of_kind_ne (by simp [hc]),
      Stream.take?_of_kind_ne (by simp [hc])]
    refine .bind ?_ fun _ => parses_ok
    rw [namedParameter]
    exact .bind (parses_expect hnext hkind) fun _ => .bind hparses₁ fun _ => .bind hparses₂ fun _ =>
      parses_ok

theorem parameters_readBack {ps : List Parameter} (h : ∀ p ∈ ps, p.Plain)
    (hs : c.Spells (separated .comma (ps.map Parameter.words)) d) (hd : d.kind = .mark .rparen) :
    ∃ ps', ps'.map Parameter.bare = ps.map Parameter.bare ∧ Parses (parameters c) ps' d := by
  induction ps generalizing c with
  | nil =>
    obtain rfl := hs.eq_of_nil
    refine ⟨[], rfl, ?_⟩
    rw [parameters, if_pos (by simp [Stream.sees, hd])]
    exact ⟨_, rfl⟩
  | cons p ps ih =>
    obtain ⟨c₁, hs₁, hs₂⟩ := hs.append
    have hc : c.kind = .identifier := hs₁.kind_eq
    obtain ⟨p', hbare, hparses⟩ := parameter_readBack (h p List.mem_cons_self) hs₁
      (hd ▸ hs₂.kind_more).symm
    obtain ⟨hnil, rfl⟩ | ⟨-, t, c₂, _, hnext, hkind, hs₃⟩ := hs₂.more
    · obtain rfl := List.map_eq_nil_iff.1 hnil
      refine ⟨[p'], by simp [hbare], ?_⟩
      rw [parameters, Stream.sees_of_kind_ne (by simp [hc]), if_neg Bool.false_ne_true]
      refine .bind hparses fun _ => ?_
      dsimp only
      rw [Stream.take?_of_kind_ne (by simp [hd])]
      exact parses_ok
    · obtain ⟨ps', hbares, hmore⟩ := ih (fun x hx => h x (List.mem_cons_of_mem p hx)) hs₃
      refine ⟨p' :: ps', by simp [hbare, hbares], ?_⟩
      rw [parameters, Stream.sees_of_kind_ne (by simp [hc]), if_neg Bool.false_ne_true]
      refine .bind hparses fun _ => ?_
      dsimp only
      rw [Stream.take?_of_next? hnext hkind]
      exact .bind hmore fun _ => parses_ok

theorem finishSimple_readBack (hs : c.Spells [.ofKind .newline] d) :
    Parses (finishSimple c) () d := by
  obtain ⟨t, c₁, _, hnext, hkind, hs⟩ := hs.token
  obtain rfl := hs.eq_of_nil
  rw [finishSimple, Stream.take?_of_kind_ne (by simp [Stream.kind_of_next? hnext, hkind]),
    Stream.take?_of_next? hnext hkind]
  exact parses_ok

theorem assigned_readBack {es : List Expr} (h : ∀ e ∈ es, e.Plain)
    (hs : c.Spells ((es.map Expr.words).flatMap (.mark .equal :: ·)) d) (hd : d.kind = .newline) :
    ∃ es', es'.map Expr.bare = es.map Expr.bare ∧ Parses (assigned c) es' d := by
  induction es generalizing c with
  | nil =>
    obtain rfl := hs.eq_of_nil
    refine ⟨[], rfl, ?_⟩
    rw [assigned, Stream.take?_of_kind_ne (by simp [hd])]
    exact ⟨_, rfl⟩
  | cons e es ih =>
    rw [List.map_cons, List.flatMap_cons] at hs
    obtain ⟨t, c₁, _, hnext, hkind, hs⟩ := hs.token
    obtain ⟨c₂, hs₁, hs₂⟩ := hs.append
    have hc₂ : c₂.kind = .newline ∨ c₂.kind = .mark .equal := hd ▸ hs₂.kind_more
    obtain ⟨e', hbare, hparses⟩ := (h e List.mem_cons_self).readsBack.expressionList hs₁
      (by rcases hc₂ with h | h <;> rw [h] <;> rfl) (by rcases hc₂ with h | h <;> simp [h])
    obtain ⟨es', hbares, hmore⟩ := ih (fun x hx => h x (List.mem_cons_of_mem e hx)) hs₂
    refine ⟨e' :: es', by simp [hbare, hbares], ?_⟩
    rw [assigned, Stream.take?_of_next? hnext hkind]
    exact .bind hparses fun _ => .bind hmore fun _ => parses_ok

end Parts

/-! ## Statements that hold no others -/

section Simple

variable {c d : Stream} {e : Expr}

/-- Words that start as those of an expression are read as a statement that starts with one. -/
theorem statement_of_opening {n : Nat} {ws : List Word} (h : Opening n ws) (hs : c.Spells ws d) :
    statement c = expressionStatement c := by
  have hopens := h.kind hs
  obtain ⟨w, rest, rfl, -⟩ := h
  obtain ⟨t, c₁, _, hnext, -⟩ := hs.cons
  rw [Stream.kind_of_next? hnext] at hopens
  rw [statement, hnext]
  dsimp only
  split
  · next hk => simp [hk, opensOperand] at hopens
  · next hk => simp [hk, opensOperand] at hopens
  · next hk => simp [hk, opensOperand] at hopens
  · next hk => simp [hk, opensOperand] at hopens
  · next k _ _ _ _ hk =>
    have hnot : k = .notKw := by
      rw [hk] at hopens
      unfold opensOperand at hopens
      split at hopens <;> simp_all
    subst hnot
    rfl
  · next hk => simp [hk, opensOperand] at hopens
  · rfl

theorem bare_assignmentOf {first first' value : Expr} {more es : List Expr} (s : Span)
    (hfirst : first'.bare = first.bare)
    (hes : es.map Expr.bare = (more ++ [value]).map Expr.bare) :
    (assignmentOf first' es).bare =
      (Statement.assignment ⟨s, first :: more, none, some value⟩).bare := by
  rw [List.map_append] at hes
  obtain ⟨more', last, rfl, hmore, hlast⟩ := List.map_eq_append_iff.1 hes
  obtain ⟨value', last', rfl, hvalue, hnil⟩ := List.map_eq_cons_iff.1 hlast
  obtain rfl := List.map_eq_nil_iff.1 hnil
  simp [assignmentOf, Statement.bare, Assignment.bare, hfirst, hmore, hvalue]

/-- Neither `elif` nor `else` comes next. -/
def Apart (c : Stream) : Prop := c.kind ≠ .keyword .elifKw ∧ c.kind ≠ .keyword .elseKw

/-- Whether the words of a statement can start with a token of this kind. -/
def opensStatement : TokenKind → Bool
  | .keyword .defKw | .keyword .ifKw | .keyword .returnKw | .keyword .passKw => true
  | k => opensOperand k

/-- The words of a statement are read as that statement, up to spans. -/
structure Statement.ReadsBack (s : Statement) : Prop where
  opening (h : s.isElif = false) {c d : Stream} (hs : c.Spells s.words d) :
    opensStatement c.kind = true
  statement (h : s.isElif = false) {c d : Stream} (hs : c.Spells s.words d) (hd : Apart d) :
    ∃ s', s'.bare = s.bare ∧ Parses (Parser.statement c) s' d
  further (h : s.isElif = true) {c d : Stream} (hs : c.Spells s.words d) (hd : Apart d) :
    ∃ t c₁ hlt s', c.next? = some ⟨t, c₁, hlt⟩ ∧ t.kind = .keyword .elifKw ∧ s'.bare = s.bare ∧
      Parses (Parser.conditional .elif t c₁) s' d

theorem opensStatement_of_opensOperand {k : TokenKind} (h : opensOperand k = true) :
    opensStatement k = true := by
  unfold opensStatement
  split <;> first | rfl | exact h

theorem Statement.ReadsBack.of_simple {s : Statement} (hs : s.isElif = false)
    (hopen : ∀ {c d}, Stream.Spells c s.words d → opensStatement c.kind = true)
    (h : ∀ {c d}, Stream.Spells c s.words d → ∃ s', s'.bare = s.bare ∧
      Parses (Parser.statement c) s' d) : s.ReadsBack where
  opening _ _ _ hs := hopen hs
  statement _ _ _ hs _ := h hs
  further helif := by
    rw [hs] at helif
    cases helif

theorem Statement.ReadsBack.of_opening {s : Statement} {n : Nat} {ws vs : List Word}
    (hs : s.isElif = false) (hwords : s.words = ws ++ vs) (hopen : Opening n ws)
    (h : ∀ {c d}, Stream.Spells c s.words d → ∃ s', s'.bare = s.bare ∧
      Parses (expressionStatement c) s' d) : s.ReadsBack := by
  refine .of_simple hs (fun hc => ?_) fun hc => ?_
  · rw [hwords] at hc
    obtain ⟨c₁, hc₁, -⟩ := hc.append
    exact opensStatement_of_opensOperand (hopen.kind hc₁)
  · obtain ⟨s', hbare, hparses⟩ := h hc
    rw [hwords] at hc
    obtain ⟨c₁, hc₁, -⟩ := hc.append
    rw [← statement_of_opening hopen hc₁] at hparses
    exact ⟨s', hbare, hparses⟩

theorem readsBack_expression (h : e.Plain) : (Statement.expression e).ReadsBack := by
  refine .of_opening rfl rfl h.opening fun {c d} hs => ?_
  obtain ⟨c₁, hs₁, hs₂⟩ := hs.append
  have hc₁ : c₁.kind = .newline := hs₂.kind_eq
  obtain ⟨e', hbare, hparses⟩ := h.readsBack.expressionList hs₁ (by rw [hc₁]; rfl) (by simp [hc₁])
  refine ⟨.expression e', by simp [Statement.bare, hbare], ?_⟩
  rw [expressionStatement]
  refine .bind hparses fun _ => ?_
  dsimp only
  rw [Stream.take?_of_kind_ne (by simp [hc₁]), Stream.take?_of_kind_ne (by simp [hc₁])]
  have hassigned : Parses (assigned c₁) [] c₁ := by
    rw [assigned, Stream.take?_of_kind_ne (by simp [hc₁])]
    exact ⟨_, rfl⟩
  exact .bind hassigned fun _ => .bind (finishSimple_readBack hs₂) fun _ => parses_ok

theorem readsBack_chain (s : Span) {first value : Expr} {more : List Expr} (head : first.Plain)
    (tail : ∀ e ∈ more, e.Plain) (last : value.Plain) :
    (Statement.assignment ⟨s, first :: more, none, some value⟩).ReadsBack := by
  refine .of_opening rfl (List.append_assoc ..) head.opening fun {c d} hs => ?_
  obtain ⟨c₁, hs₁, hs₂⟩ := hs.append
  obtain ⟨c₂, hs₁, hs₃⟩ := hs₁.append
  have hc₁ : c₁.kind = .newline := hs₂.kind_eq
  have hc₂ : c₂.kind = .mark .equal := by cases more <;> exact hs₃.kind_eq
  have htail : ∀ e ∈ more ++ [value], e.Plain := by
    intro e he
    rcases List.mem_append.1 he with he | he
    · exact tail e he
    · rwa [List.mem_singleton.1 he]
  obtain ⟨first', hfirst, hparses⟩ := head.readsBack.expressionList hs₁ (by rw [hc₂]; rfl)
    (by simp [hc₂])
  obtain ⟨es, hbares, hmore⟩ := assigned_readBack htail hs₃ hc₁
  refine ⟨assignmentOf first' es, bare_assignmentOf s hfirst hbares, ?_⟩
  rw [expressionStatement]
  refine .bind hparses fun _ => ?_
  dsimp only
  rw [Stream.take?_of_kind_ne (by simp [hc₂]), Stream.take?_of_kind_ne (by simp [hc₂])]
  exact .bind hmore fun _ => .bind (finishSimple_readBack hs₂) fun _ => parses_ok

theorem readsBack_declared (s : Span) {target type : Expr} {value : Option Expr}
    (head : target.Plain) (typed : type.Plain) (last : ∀ e ∈ value, e.Plain) :
    (Statement.assignment ⟨s, [target], some type, value⟩).ReadsBack := by
  have hwords : (Statement.assignment ⟨s, [target], some type, value⟩).words =
      target.words ++ .mark .colon :: (type.words ++ (wordsAfter .equal value ++
        [.ofKind .newline])) := by
    simp [Statement.words, Assignment.words]
  refine .of_opening rfl hwords head.opening fun {c d} hs => ?_
  rw [hwords] at hs
  obtain ⟨c₁, hs₁, hs⟩ := hs.append
  have hc₁ : c₁.kind = .mark .colon := hs.kind_eq
  obtain ⟨t, c₂, _, hnext, hkind, hs⟩ := hs.token
  obtain ⟨c₃, hs₂, hs⟩ := hs.append
  obtain ⟨c₄, hs₃, hs₄⟩ := hs.append
  have hc₄ : c₄.kind = .newline := hs₄.kind_eq
  have hc₃ : c₃.kind = .newline ∨ c₃.kind = .mark .equal := hc₄ ▸ kind_wordsAfter hs₃
  obtain ⟨target', htarget, hparses⟩ := head.readsBack.expressionList hs₁ (by rw [hc₁]; rfl)
    (by simp [hc₁])
  obtain ⟨type', htype, hparses'⟩ := typed.readsBack.expression hs₂
    (by rcases hc₃ with h | h <;> rw [h] <;> rfl)
  cases value with
  | none =>
    obtain rfl := hs₃.eq_of_nil
    refine ⟨.assignment ⟨target'.span.union type'.span, [target'], some type', none⟩,
      by simp [Statement.bare, Assignment.bare, htarget, htype], ?_⟩
    rw [expressionStatement]
    refine .bind hparses fun _ => ?_
    dsimp only
    rw [Stream.take?_of_next? hnext hkind]
    refine .bind hparses' fun _ => ?_
    dsimp only
    rw [Stream.take?_of_kind_ne (by simp [hc₄])]
    exact .bind (finishSimple_readBack hs₄) fun _ => parses_ok
  | some e =>
    obtain ⟨u, c₅, _, hnext', hkind', hs₃⟩ := hs₃.token
    obtain ⟨e', hbare, hparses''⟩ := (last e rfl).readsBack.expressionList hs₃ (by rw [hc₄]; rfl)
      (by simp [hc₄])
    refine ⟨.assignment ⟨target'.span.union e'.span, [target'], some type', some e'⟩,
      by simp [Statement.bare, Assignment.bare, htarget, htype, hbare], ?_⟩
    rw [expressionStatement]
    refine .bind hparses fun _ => ?_
    dsimp only
    rw [Stream.take?_of_next? hnext hkind]
    refine .bind hparses' fun _ => ?_
    dsimp only
    rw [Stream.take?_of_next? hnext' hkind']
    exact .bind hparses'' fun _ => .bind (finishSimple_readBack hs₄) fun _ => parses_ok

theorem readsBack_pass (s : Span) : (Statement.pass s).ReadsBack := by
  refine .of_simple rfl (fun hs => by rw [hs.kind_eq]; rfl) fun {c d} hs => ?_
  obtain ⟨t, c₁, _, hnext, hkind, hs⟩ := hs.token
  refine ⟨.pass t.span, rfl, ?_⟩
  rw [statement]
  simp only [hnext, hkind]
  exact .bind (finishSimple_readBack hs) fun _ => parses_ok

theorem not_endsStatement {k : TokenKind} (h : opensOperand k = true) :
    ¬ endsStatement k = true := by
  unfold endsStatement
  split <;> simp_all [opensOperand]

theorem readsBack_returns (s : Span) {value : Option Expr} (h : ∀ e ∈ value, e.Plain) :
    (Statement.returns s value).ReadsBack := by
  cases value with
  | none =>
    refine .of_simple rfl (fun hs => by rw [hs.kind_eq]; rfl) fun {c d} hs => ?_
    obtain ⟨t, c₁, _, hnext, hkind, hs⟩ := hs.token
    refine ⟨.returns t.span none, rfl, ?_⟩
    rw [statement]
    simp only [hnext, hkind]
    refine .bind ?_ fun _ => parses_ok
    rw [returnStatement, if_pos (by rw [hs.kind_eq]; rfl)]
    exact .bind (finishSimple_readBack hs) fun _ => parses_ok
  | some e =>
    refine .of_simple rfl (fun hs => by rw [hs.kind_eq]; rfl) fun {c d} hs => ?_
    obtain ⟨t, c₁, _, hnext, hkind, hs⟩ := hs.token
    obtain ⟨c₂, hs₁, hs₂⟩ := hs.append
    have hc₂ : c₂.kind = .newline := hs₂.kind_eq
    have he := (h e rfl).readsBack
    obtain ⟨e', hbare, hparses⟩ := he.expressionList hs₁ (by rw [hc₂]; rfl) (by simp [hc₂])
    refine ⟨.returns (t.span.union e'.span) (some e'), by simp [Statement.bare, hbare], ?_⟩
    rw [statement]
    simp only [hnext, hkind]
    refine .bind ?_ fun _ => parses_ok
    rw [returnStatement, if_neg (not_endsStatement (he.opening.kind hs₁))]
    exact .bind hparses fun _ => .bind (finishSimple_readBack hs₂) fun _ => parses_ok

end Simple

/-! ## Suites -/

section Suites

variable {c d : Stream} {ss : List Statement}

theorem isAtEnd_of_parses {α : Type} {x : Except ParseError (Parsed c.size α)} {a : α}
    (h : Parses x a d) : c.isAtEnd = false := by
  obtain ⟨hlt, -⟩ := h
  cases hc : c.ahead with
  | nil => simp [Stream.size, hc] at hlt
  | cons t ts => simp [Stream.isAtEnd, hc]

theorem skipNewlines_of_opens (h : opensStatement c.kind = true) : c.skipNewlines = c.keep () :=
  Stream.skipNewlines_of_kind (Stream.kind_ne h rfl) (Stream.kind_ne h rfl)

theorem kind_wordsOfBlock (h : ∀ s ∈ ss, s.ReadsBack) (hss : ∀ s ∈ ss, s.isElif = false)
    (hs : c.Spells (wordsOfBlock ss) d) : c = d ∨ opensStatement c.kind = true := by
  cases ss with
  | nil => exact .inl hs.eq_of_nil.symm
  | cons s ss =>
    obtain ⟨c₁, hs₁, -⟩ := hs.append
    exact .inr ((h s List.mem_cons_self).opening (hss s List.mem_cons_self) hs₁)

theorem apart_wordsOfBlock (h : ∀ s ∈ ss, s.ReadsBack) (hss : ∀ s ∈ ss, s.isElif = false)
    (hs : c.Spells (wordsOfBlock ss) d) (hd : Apart d) : Apart c := by
  obtain rfl | hopens := kind_wordsOfBlock h hss hs
  · exact hd
  · exact ⟨Stream.kind_ne hopens rfl, Stream.kind_ne hopens rfl⟩

/-- The statements of a block are read back, up to its `dedent`. -/
theorem block_readBack (h : ∀ s ∈ ss, s.ReadsBack) (hss : ∀ s ∈ ss, s.isElif = false)
    (hs : c.Spells (wordsOfBlock ss) d) (hd : d.kind = .dedent) :
    ∃ ss', bareBlock ss' = bareBlock ss ∧ Parses (blockStatements c) ss' d := by
  induction ss generalizing c with
  | nil =>
    obtain rfl := hs.eq_of_nil
    refine ⟨[], rfl, ?_⟩
    rw [blockStatements, Stream.skipNewlines_of_kind (by simp [hd]) (by simp [hd])]
    dsimp only [Stream.keep]
    rw [if_pos (by simp [Stream.sees, hd])]
    exact parses_ok
  | cons s ss ih =>
    obtain ⟨c₁, hs₁, hs₂⟩ := hs.append
    have hhead := h s List.mem_cons_self
    have hfirst := hss s List.mem_cons_self
    have htail : ∀ x ∈ ss, x.ReadsBack := fun x hx => h x (List.mem_cons_of_mem s hx)
    have hrest : ∀ x ∈ ss, x.isElif = false := fun x hx => hss x (List.mem_cons_of_mem s hx)
    have hopens := hhead.opening hfirst hs₁
    obtain ⟨s', hbare, hparses⟩ := hhead.statement hfirst hs₁
      (apart_wordsOfBlock htail hrest hs₂ (by simp [Apart, hd]))
    obtain ⟨ss', hbares, hmore⟩ := ih htail hrest hs₂
    refine ⟨s' :: ss', by simp [bareBlock, hbare, hbares], ?_⟩
    rw [blockStatements, skipNewlines_of_opens hopens]
    dsimp only [Stream.keep]
    have hsees : c.sees .dedent = false := Stream.sees_of_kind_ne (Stream.kind_ne hopens rfl)
    rw [if_neg (by simp [hsees, isAtEnd_of_parses hparses])]
    exact .bind hparses fun _ => .bind hmore fun _ => parses_ok

/-- The indented block of a header is read back. -/
theorem suite_readBack (h : ∀ s ∈ ss, s.ReadsBack) (hss : ∀ s ∈ ss, s.isElif = false)
    (hs : c.Spells (suiteWords (wordsOfBlock ss)) d) :
    ∃ ss', bareBlock ss' = bareBlock ss ∧ Parses (suite c) ss' d := by
  obtain ⟨t, c₁, _, hnext, hkind, hs⟩ := hs.token
  have hc₁ : c₁.kind = .indent := hs.kind_eq
  obtain ⟨t', c₂, _, hnext', hkind', hs⟩ := hs.token
  obtain ⟨c₃, hs₁, hs₂⟩ := hs.append
  have hc₃ : c₃.kind = .dedent := hs₂.kind_eq
  obtain ⟨u, c₄, _, hnext'', hkind'', hs₂⟩ := hs₂.token
  obtain rfl := hs₂.eq_of_nil
  obtain ⟨ss', hbare, hparses⟩ := block_readBack h hss hs₁ hc₃
  refine ⟨ss', hbare, ?_⟩
  rw [suite, Stream.take?_of_next? hnext hkind]
  dsimp only
  rw [Stream.skipNewlines_of_kind (by simp [hc₁]) (by simp [hc₁])]
  refine .bind (parses_expect hnext' hkind') fun _ => .bind hparses fun _ => ?_
  dsimp only
  rw [Stream.take?_of_next? hnext'' hkind'']
  exact parses_ok

end Suites

/-! ## Function definitions and conditionals -/

section Compound

variable {c d : Stream}

theorem Statement.ReadsBack.function {head : FunctionHead} {body : List Statement}
    (hps : ∀ p ∈ head.parameters, p.Plain) (hreturns : ∀ e ∈ head.returns, e.Plain)
    (hbody : ∀ s ∈ body, s.ReadsBack) (hapart : ∀ s ∈ body, s.isElif = false) :
    (Statement.function head body).ReadsBack := by
  refine .of_simple rfl (fun hs => by rw [hs.kind_eq]; rfl) fun {c d} hs => ?_
  obtain ⟨c₈, hs, hsuite⟩ := hs.append
  obtain ⟨t, c₁, _, hnext, hkind, hs⟩ := hs.token
  obtain ⟨name, c₂, _, hnext₁, hkind₁, hname, hs⟩ := hs.name
  obtain ⟨lparen, c₃, _, hnext₂, hkind₂, hs⟩ := hs.token
  obtain ⟨c₄, hs₃, hs⟩ := hs.append
  have hc₄ : c₄.kind = .mark .rparen := hs.kind_eq
  obtain ⟨rparen, c₅, _, hnext₄, hkind₄, hs⟩ := hs.token
  obtain ⟨c₆, hs₅, hs⟩ := hs.append
  have hc₆ : c₆.kind = .mark .colon := hs.kind_eq
  obtain ⟨colon, c₇, _, hnext₆, hkind₆, hs⟩ := hs.token
  obtain rfl := hs.eq_of_nil
  obtain ⟨ps', hparameters, hparses⟩ := parameters_readBack hps hs₃ hc₄
  obtain ⟨returns', hresult, hparses'⟩ := expressionAfter_readBack hreturns hs₅
    (by rw [hc₆]; rfl) (by simp [hc₆])
  obtain ⟨body', hbare, hparses''⟩ := suite_readBack hbody hapart hsuite
  refine ⟨.function ⟨⟨name.lexeme, name.span⟩, t.span.union colon.span, ps', returns'⟩ body',
    ?_, ?_⟩
  · simp [Statement.bare, FunctionHead.bare, Identifier.bare, hname, hparameters, hresult, hbare]
  · rw [Parser.statement]
    simp only [hnext, hkind]
    refine .bind ?_ fun _ => parses_ok
    rw [functionDefinition]
    exact .bind (parses_expect hnext₁ hkind₁) fun _ => .bind (parses_expect hnext₂ hkind₂) fun _ =>
      .bind hparses fun _ => .bind (parses_expect hnext₄ hkind₄) fun _ => .bind hparses' fun _ =>
      .bind (parses_expect hnext₆ hkind₆) fun _ => .bind hparses'' fun _ => parses_ok

/-- What follows the block of a conditional: nothing that goes on it, an `elif`, or an `else`. -/
inductive AlternativeAt (c : Stream) : Option (List Statement) → Stream → Prop
  | none (h : Apart c) : AlternativeAt c none c
  | further {t : Token} {c₁ d : Stream} {s : Statement} {hlt : c₁.size < c.size}
      (next : c.next? = some ⟨t, c₁, hlt⟩) (kind : t.kind = .keyword .elifKw)
      (h : Parses (conditional .elif t c₁) s d) : AlternativeAt c (some [s]) d
  | otherwise {t t' : Token} {c₁ c₂ d : Stream} {ss : List Statement} {hlt : c₁.size < c.size}
      {hlt' : c₂.size < c₁.size} (next : c.next? = some ⟨t, c₁, hlt⟩)
      (kind : t.kind = .keyword .elseKw) (next' : c₁.next? = some ⟨t', c₂, hlt'⟩)
      (kind' : t'.kind = .mark .colon) (h : Parses (suite c₂) ss d) : AlternativeAt c (some ss) d

theorem conditional_of_alternativeAt {kind : ConditionKind} {t colon : Token} {test : Expr}
    {body : List Statement} {otherwise : Option (List Statement)} {c₁ c₂ c₃ : Stream}
    {hlt : c₂.size < c₁.size} (htest : Parses (expression c) test c₁)
    (hnext : c₁.next? = some ⟨colon, c₂, hlt⟩) (hkind : colon.kind = .mark .colon)
    (hbody : Parses (suite c₂) body c₃) (h : AlternativeAt c₃ otherwise d) :
    Parses (conditional kind t c)
      (.conditional ⟨t.span.union colon.span, kind, test⟩ body otherwise) d := by
  rw [conditional]
  refine .bind htest fun _ => .bind (parses_expect hnext hkind) fun _ => .bind hbody fun _ => ?_
  dsimp only
  cases h with
  | none h =>
    rw [Stream.take?_of_kind_ne h.1, Stream.take?_of_kind_ne h.2]
    exact parses_ok
  | further next kind h =>
    rw [Stream.take?_of_next? next kind]
    exact .bind h fun _ => parses_ok
  | otherwise next kind next' kind' h =>
    rw [Stream.take?_of_kind_ne (by simp [Stream.kind_of_next? next, kind]),
      Stream.take?_of_next? next kind]
    exact .bind (parses_expect next' kind') fun _ => .bind h fun _ => parses_ok

theorem Statement.ReadsBack.conditional {head : Condition} {body : List Statement}
    {otherwise : Option (List Statement)} (test : head.test.Plain)
    (hbody : ∀ s ∈ body, s.ReadsBack) (hapart : ∀ s ∈ body, s.isElif = false)
    (h : ∀ {c d}, Stream.Spells c (wordsOfAlternative otherwise) d → Apart d →
      ∃ otherwise', bareAlternative otherwise' = bareAlternative otherwise ∧
        AlternativeAt c otherwise' d) : (Statement.conditional head body otherwise).ReadsBack := by
  have hbranch : ∀ {c d : Stream},
      c.Spells (Statement.conditional head body otherwise).words d → Apart d →
      ∃ t c₁ hlt s', c.next? = some ⟨t, c₁, hlt⟩ ∧ t.kind = .keyword head.kind.keyword ∧
        s'.bare = (Statement.conditional head body otherwise).bare ∧
        Parses (Parser.conditional head.kind t c₁) s' d := by
    intro c d hs hd
    obtain ⟨t, c₁, hlt, hnext, hkind, hs⟩ := hs.token
    obtain ⟨c₂, hs₁, hs⟩ := hs.append
    have hc₂ : c₂.kind = .mark .colon := hs.kind_eq
    obtain ⟨colon, c₃, _, hnext', hkind', hs⟩ := hs.token
    obtain ⟨c₄, hs₂, hs₃⟩ := hs.append
    obtain ⟨test', htest, hparses⟩ := test.readsBack.expression hs₁ (by rw [hc₂]; rfl)
    obtain ⟨body', hbares, hparses'⟩ := suite_readBack hbody hapart hs₂
    obtain ⟨otherwise', hother, halternative⟩ := h hs₃ hd
    refine ⟨t, c₁, hlt, _, hnext, hkind, ?_,
      conditional_of_alternativeAt hparses hnext' hkind' hparses' halternative⟩
    simp [Statement.bare, Condition.bare, htest, hbares, hother]
  have hkind : (Statement.conditional head body otherwise).isElif = (head.kind == .elif) := rfl
  constructor
  · intro helif c d hs
    have hopening : head.kind = .opening := by cases hk : head.kind <;> simp_all
    rw [hs.kind_eq, hopening]
    rfl
  · intro helif c d hs hd
    have hopening : head.kind = .opening := by cases hk : head.kind <;> simp_all
    obtain ⟨t, c₁, hlt, s', hnext, hword, hbare, hparses⟩ := hbranch hs hd
    rw [hopening] at hword hparses
    refine ⟨s', hbare, ?_⟩
    rw [Parser.statement]
    simp only [hnext, hword, ConditionKind.keyword]
    exact .bind hparses fun _ => parses_ok
  · intro helif c d hs hd
    have hfurther : head.kind = .elif := by cases hk : head.kind <;> simp_all
    obtain ⟨t, c₁, hlt, s', hnext, hword, hbare, hparses⟩ := hbranch hs hd
    rw [hfurther] at hword hparses
    exact ⟨t, c₁, hlt, s', hnext, hword, hbare, hparses⟩

/-- **Statements are read back.** -/
theorem Statement.Plain.readsBack {s : Statement} (h : s.Plain) : s.ReadsBack := by
  induction h with
  | function hps hreturns _ apart ih => exact .function hps hreturns ih apart
  | assignment h =>
    cases h with
    | chain s head tail last => exact readsBack_chain s head tail last
    | declared s head typed last => exact readsBack_declared s head typed last
  | returns s h => exact readsBack_returns s h
  | conditional test _ apart ih =>
    refine .conditional test ih apart fun hs hd => ⟨none, rfl, ?_⟩
    obtain rfl := hs.eq_of_nil
    exact .none hd
  | further test _ apart _ elif ih ih' =>
    refine .conditional test ih apart fun hs hd => ?_
    simp only [wordsOfAlternative, hasElif, elif, wordsOfBlock, List.append_nil, if_true] at hs
    obtain ⟨t, c₁, _, s', hnext, hkind, hbare, hparses⟩ := ih'.further elif hs hd
    exact ⟨some [s'], by simp [bareAlternative, bareBlock, hbare], .further hnext hkind hparses⟩
  | @otherwise head body block test _ apart _ apart' ih ih' =>
    refine .conditional test ih apart fun hs hd => ?_
    have helse : hasElif (some block) = false := by
      cases block with
      | nil => rfl
      | cons s ss => exact apart' s List.mem_cons_self
    rw [wordsOfAlternative, helse, if_neg Bool.false_ne_true] at hs
    obtain ⟨t, c₁, _, hnext, hkind, hs⟩ := hs.token
    obtain ⟨t', c₂, _, hnext', hkind', hs⟩ := hs.token
    obtain ⟨ss', hbare, hparses⟩ := suite_readBack ih' apart' hs
    exact ⟨some ss', by simp [bareAlternative, hbare], .otherwise hnext hkind hnext' hkind' hparses⟩
  | expression h => exact readsBack_expression h
  | pass s => exact readsBack_pass s

end Compound

/-! ## Modules -/

theorem statements_readBack {c d : Stream} {ss : List Statement} (h : PlainBlock ss)
    (hs : c.Spells (wordsOfBlock ss) d) (hd : d.ahead = []) (hstop : d.stop.kind = .eof) :
    ∃ ss', bareBlock ss' = bareBlock ss ∧ statements c = .ok ss' := by
  have hkind : d.kind = .eof := by rw [Stream.kind, Stream.peek, hd, List.headD_nil, hstop]
  induction ss generalizing c with
  | nil =>
    obtain rfl := hs.eq_of_nil
    refine ⟨[], rfl, ?_⟩
    rw [statements, Stream.skipNewlines_of_kind (by simp [hkind]) (by simp [hkind])]
    dsimp only [Stream.keep]
    rw [if_pos (by simp [Stream.isAtEnd, hd])]
    rfl
  | cons s ss ih =>
    obtain ⟨c₁, hs₁, hs₂⟩ := hs.append
    have htail : PlainBlock ss := fun x hx => h x (List.mem_cons_of_mem s hx)
    obtain ⟨hplain, hfirst⟩ := h s List.mem_cons_self
    have hopens := hplain.readsBack.opening hfirst hs₁
    obtain ⟨s', hbare, hlt, hparses⟩ := hplain.readsBack.statement hfirst hs₁
      (apart_wordsOfBlock (fun x hx => (htail x hx).1.readsBack) (fun x hx => (htail x hx).2) hs₂
        (by simp [Apart, hkind]))
    obtain ⟨ss', hbares, hmore⟩ := ih htail hs₂
    refine ⟨s' :: ss', by simp [bareBlock, hbare, hbares], ?_⟩
    have hindent : c.sees .indent = false := Stream.sees_of_kind_ne (Stream.kind_ne hopens rfl)
    have hdedent : c.sees .dedent = false := Stream.sees_of_kind_ne (Stream.kind_ne hopens rfl)
    rw [statements, skipNewlines_of_opens hopens]
    dsimp only [Stream.keep]
    rw [if_neg (by simp [isAtEnd_of_parses ⟨hlt, hparses⟩]), if_neg (by simp [hindent, hdedent]),
      hparses]
    change (statements c₁ >>= fun ss => pure (s' :: ss)) = _
    rw [hmore]
    rfl

/-- **Parsing inverts printing**: tokens with the words of a module in which nothing was read over
are parsed as that module, up to spans. -/
theorem parseModule_words {m : List Statement} (hm : PlainBlock m) {ts tail : List Token}
    (hts : ts.map Token.word = wordsOfBlock m) (htail : ∀ t ∈ tail.head?, t.kind = .eof) :
    ∃ m', parseModule (ts ++ tail) = .ok m' ∧ bareBlock m' = bareBlock m := by
  have hinside : ∀ t ∈ ts, t.kind ≠ .eof := by
    intro t ht
    have hwords := inside_wordsOfBlock fun s hs => (hm s hs).1.inside
    rw [← hts] at hwords
    exact hwords t.word (List.mem_map_of_mem ht)
  have hahead := Stream.ahead_ofTokens hinside htail
  have htakes := (Stream.ofTokens (ts ++ tail)).takes_drop ts.length
  rw [hahead, List.take_length] at htakes
  obtain ⟨m', hbare, hparses⟩ := statements_readBack hm ⟨ts, htakes, hts⟩
    (by rw [Stream.drop, hahead, List.drop_length]) (Stream.stop_ofTokens (ts ++ tail))
  exact ⟨m', hparses, hbare⟩

/-- A text in which powers, signs, comparisons and an `elif` have to be told apart. -/
def powersText : String :=
  "def f(a: int, b=2) -> str:\n    x = g(-a ** -b, k=(-a) ** b)[(1,)].z\n" ++
    "    if not a is not b:\n        return [a, b]\n    elif a not in b:\n        pass\n"

/-- The statements of that text, without spans. -/
def powersModule : List Statement :=
  let ref (s : String) : Expr := .name .none ⟨s, .none⟩
  let number (n : Nat) : Expr := .literal .none (.integer n)
  let minus (e : Expr) : Expr := .unary .none .negative e
  let power (left right : Expr) : Expr := .binary .none .power left right
  let call : Expr := .call .none (ref "g") [⟨none, minus (power (ref "a") (minus (ref "b")))⟩,
    ⟨some ⟨"k", .none⟩, power (minus (ref "a")) (ref "b")⟩]
  let value : Expr := .member .none (.index .none call (.tuple .none [number 1])) ⟨"z", .none⟩
  let different : Expr := .binary .none .notIdentical (ref "a") (ref "b")
  [.function ⟨⟨"f", .none⟩, .none, [⟨"a", .none, .positional, some (ref "int"), none⟩,
      ⟨"b", .none, .positional, none, some (number 2)⟩], some (ref "str")⟩
    [.assignment ⟨.none, [ref "x"], none, some value⟩,
      .conditional ⟨.none, .opening, .unary .none .not different⟩
        [.returns .none (some (.list .none [ref "a", ref "b"]))]
        (some [.conditional ⟨.none, .elif, .binary .none .notContained (ref "a") (ref "b")⟩
          [.pass .none] none])]]

theorem powersText_parsed :
    PlainBlock powersModule ∧ tokenize powersText = .ok (tokensOf powersText) ∧
      ∃ m', parseModule (tokensOf powersText) = .ok m' ∧ bareBlock m' = bareBlock powersModule := by
  have hplain : PlainBlock powersModule := by
    simp only [PlainBlock, powersModule, List.mem_singleton, forall_eq, Statement.isElif, and_true]
    repeat' first | constructor | simp [Statement.isElif]
  obtain ⟨hlex, hwords, htail⟩ : (tokenize powersText).toOption.isSome = true ∧
      ((tokensOf powersText).take 73).map Token.word = wordsOfBlock powersModule ∧
      ∀ t ∈ ((tokensOf powersText).drop 73).head?, t.kind = .eof := by decide +kernel
  have hparsed := parseModule_words hplain hwords htail
  rw [List.take_append_drop] at hparsed
  exact ⟨hplain, Except.eq_ok_of_isSome [] hlex, hparsed⟩

end Gradual
