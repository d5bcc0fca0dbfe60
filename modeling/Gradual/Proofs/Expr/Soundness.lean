import Gradual.Proofs.Expr.Grammar

/-!
# What the parser of expressions reads

Every function of the parser is followed through: it takes tokens of the stream that the grammar
reads as its result, or it ends with an error at one of them.

* `Stream.ReadsTo`: a phrase is read between two streams;
* `Parser.yields_operand`, `Parser.yields_primary`, **`Parser.yields_expression`**,
  `Parser.yields_expressionList`.
-/

namespace Gradual

/-- Taking the tokens of a phrase from a stream leaves another one. -/
def Stream.ReadsTo (c : Stream) (p : Phrase) (c' : Stream) : Prop :=
  ∃ ts, c.Takes ts c' ∧ Reads ts p

namespace Parser

open Gradual.Stream

variable {c c₀ c₁ : Stream} {t : Token}

/-! ## Single tokens -/

theorem kinds_of_ofKind? {k : TokenKind} {op : BinaryOp} (h : BinaryOp.ofKind? k = some op) :
    op.kinds = [k] := by
  unfold BinaryOp.ofKind? at h
  split at h <;> cases h <;> rfl

theorem takes_of_operator? {op : BinaryOp} {h : c₁.size < c.size}
    (ho : operator? c = some ⟨op, c₁, h⟩) : ∃ ts, c.Takes ts c₁ ∧ ts.map (·.kind) = op.kinds := by
  unfold operator? at ho
  split at ho
  · cases ho
  · next t c₂ h₂ hnext =>
    have ht := takes_of_next? hnext
    split at ho
    · next hkind =>
      split at ho
      · next u c₃ h₃ htake =>
        cases ho
        obtain ⟨hu, hukind⟩ := takes_of_take? htake
        exact ⟨_, ht.cons hu, by simp [hkind, hukind, BinaryOp.kinds]⟩
      · cases ho
    · next hkind =>
      split at ho
      · next u c₃ h₃ htake =>
        cases ho
        obtain ⟨hu, hukind⟩ := takes_of_take? htake
        exact ⟨_, ht.cons hu, by simp [hkind, hukind, BinaryOp.kinds]⟩
      · cases ho
        exact ⟨_, ht, by simp [hkind, BinaryOp.kinds]⟩
    · obtain ⟨op', hop, heq⟩ := Option.map_eq_some_iff.1 ho
      cases heq
      exact ⟨_, ht, by simp [kinds_of_ofKind? hop]⟩

theorem takes_of_argumentName? {id : Identifier} {h : c₁.size < c.size}
    (hn : argumentName? c = some ⟨id, c₁, h⟩) :
    ∃ ts, c.Takes ts c₁ ∧ ArgumentLabel ts (some id) := by
  unfold argumentName? at hn
  split at hn
  · cases hn
  · next t c₂ h₂ htake =>
    obtain ⟨ht, hkind⟩ := takes_of_take? htake
    split at hn
    · next u c₃ h₃ htake' =>
      obtain ⟨hu, hkind'⟩ := takes_of_take? htake'
      cases hn
      exact ⟨_, ht.cons hu, .named hkind hkind'⟩
    · cases hn

theorem foldl_texts (ts : List Token) (first : String)
    (h : ∀ u ∈ ts, (literalText? u.kind).isSome = true) :
    ts.foldl (fun s u => s ++ (literalText? u.kind).getD "") first =
      first ++ String.join (ts.filterMap (literalText? ·.kind)) := by
  induction ts generalizing first with
  | nil => simp
  | cons u ts ih =>
    obtain ⟨s, hs⟩ := Option.isSome_iff_exists.1 (h u List.mem_cons_self)
    rw [List.foldl_cons, ih _ fun v hv => h v (List.mem_cons_of_mem _ hv)]
    simp [hs, String.append_assoc]

/-- The string literals after a first one are read with it. -/
theorem readsTo_strings {asLiteral : String → Literal} {s : String} (ht : c₀.Takes [t] c)
    (hkind : ∀ more, Literal.ofTexts? more t.kind = some (asLiteral (s ++ more))) :
    c₀.ReadsTo (.expr (strings t asLiteral s c).value) (strings t asLiteral s c).rest := by
  have htexts : ∀ u ∈ c.ahead.takeWhile fun u => (literalText? u.kind).isSome,
      (literalText? u.kind).isSome = true := List.all_eq_true.1 List.all_takeWhile
  refine ⟨_, ht.cons (takes_takeWhile c fun u => (literalText? u.kind).isSome), ?_⟩
  simp only [strings, foldl_texts _ _ htexts]
  exact .strings (hkind _) htexts

theorem yields_lambdaBody (c : Stream) :
    Yields c (lambdaBody c) fun _ c₁ => ∃ header colon, c.Takes (header ++ [colon]) c₁ ∧
      (∀ u ∈ header, u.kind ≠ .mark .colon) ∧ colon.kind = .mark .colon := by
  have hskip := c.takes_skipWhile (· != .mark .colon)
  have hinside : ∀ u ∈ c.ahead.takeWhile (·.kind != .mark .colon), u.kind ≠ .mark .colon := by
    intro u hu
    simpa using List.all_eq_true.1 List.all_takeWhile u hu
  simp only [lambdaBody]
  refine .after hskip ?_
  split
  · next u c₂ h₂ htake =>
    obtain ⟨hu, hkind⟩ := takes_of_take? htake
    exact .after hu (.pure ⟨_, u, hskip.append hu, hinside, hkind⟩)
  · exact .fail _ _

/-! ## Expressions -/

mutual

theorem yields_expressionList (c : Stream) :
    Yields c (expressionList c) fun e c' => c.ReadsTo (.expr e) c' := by
  rw [expressionList]
  refine .bind (yields_expression c) fun first c₁ h₁ ⟨ts, hts, hfirst⟩ => ?_
  dsimp only
  split
  · next hsees =>
    refine .bind (yields_elements _ c₁) fun more c₂ h₂ ⟨⟨us, hus, hmore⟩, hcomma⟩ => ?_
    refine .pure ⟨_, hts.append hus, .listed hfirst hmore ?_⟩
    rintro rfl
    exact hcomma (by simpa [sees] using hsees) hus.eq_of_nil
  · exact .pure ⟨ts, hts, hfirst⟩
termination_by 8 * c.size + 6

theorem yields_elements (ends : TokenKind → Bool) (c : Stream) :
    Yields c (elements ends c) fun es c' =>
      c.ReadsTo (.elements es) c' ∧ (c.kind = .mark .comma → c' ≠ c) := by
  rw [elements]
  split
  · next htake =>
    intro hstop
    refine ⟨⟨[], c.takes_nil⟩, ⟨[], c.takes_nil, .noElements⟩, fun hkind => ?_⟩
    rcases take?_eq_none htake with hend | hne
    · simp [kind, peek, hend, hstop] at hkind
    · exact absurd hkind hne
  · next comma c₁ h₁ htake =>
    obtain ⟨hcomma, hkind⟩ := takes_of_take? htake
    refine .after hcomma ?_
    split
    · exact .pure ⟨⟨_, hcomma, .lastComma hkind⟩, fun _ => ne_of_size_lt h₁⟩
    · refine .bind (yields_expression c₁) fun e c₂ h₂ ⟨ts, hts, he⟩ => ?_
      refine .bind (yields_elements ends c₂) fun es c₃ h₃ ⟨⟨us, hus, hes⟩, _⟩ => ?_
      exact .pure ⟨⟨_, hcomma.cons (hts.append hus), .element hkind he hes⟩,
        fun _ => ne_of_size_lt (by omega)⟩
termination_by 8 * c.size

theorem yields_expression (c : Stream) :
    Yields c (expression c) fun e c' => c.ReadsTo (.expr e) c' := by
  rw [expression]
  split
  · next t c₁ h₁ htake =>
    obtain ⟨ht, hkind⟩ := takes_of_take? htake
    refine .after ht (.bind (yields_lambdaBody c₁) ?_)
    rintro _ c₂ h₂ ⟨header, colon, hheader, hin, hlast⟩
    refine .bind (yields_expression c₂) fun body c₃ h₃ ⟨ts, hts, hbody⟩ => ?_
    refine .pure ⟨_, ht.cons (hheader.append hts), ?_⟩
    simpa using Reads.lambda hkind hin hlast hbody
  · refine .bind (yields_precedence .lowest c) fun e c₁ h₁ ⟨ts, hts, he⟩ => ?_
    dsimp only
    split
    · next t c₂ h₂ htake =>
      obtain ⟨ht, hkind⟩ := takes_of_take? htake
      refine .after ht (.bind (yields_precedence .lowest c₂) fun test c₃ h₃ ⟨us, hus, htest⟩ => ?_)
      refine .bind (c₃.yields_expect _ _) fun u c₄ h₄ ⟨hu, hukind⟩ => ?_
      have h₄ : c₄.size < c₃.size := h₄
      refine .bind (yields_expression c₄) fun otherwise c₅ h₅ ⟨vs, hvs, hotherwise⟩ => ?_
      exact .pure ⟨_, hts.append (ht.cons (hus.append (hu.cons hvs))),
        .conditional he hkind htest hukind hotherwise⟩
    · split
      · next t c₂ h₂ htake =>
        obtain ⟨ht, hkind⟩ := takes_of_take? htake
        refine .after ht (.bind (yields_expression c₂) fun value c₃ h₃ ⟨us, hus, hvalue⟩ => ?_)
        exact .pure ⟨_, hts.append (ht.cons hus), .assignment he hkind hvalue⟩
      · exact .pure ⟨ts, hts, he⟩
termination_by 8 * c.size + 5

theorem yields_precedence (p : Precedence) (c : Stream) :
    Yields c (precedence p c) fun e c' => c.ReadsTo (.expr e) c' := by
  rw [precedence]
  refine .bind (yields_operand c) fun left c₁ h₁ ⟨ts, hts, hleft⟩ => ?_
  refine .bind (yields_operators p left c₁) fun e c₂ h₂ ⟨us, hus, he⟩ => ?_
  exact .pure ⟨_, hts.append hus, he.reads hleft⟩
termination_by 8 * c.size + 4

theorem yields_operators (p : Precedence) (left : Expr) (c : Stream) :
    Yields c (operators p left c) fun e c' => ∃ ts, c.Takes ts c' ∧ Extends left ts e := by
  rw [operators]
  split
  · exact .pure ⟨[], c.takes_nil, .nothing⟩
  · next op c₁ h₁ hop =>
    obtain ⟨us, hus, hkinds⟩ := takes_of_operator? hop
    split
    · exact .pure ⟨[], c.takes_nil, .nothing⟩
    · refine .after hus (.bind (yields_precedence _ c₁) fun right c₂ h₂ ⟨vs, hvs, hright⟩ => ?_)
      refine .bind (yields_operators p _ c₂) fun e c₃ h₃ ⟨ws, hws, he⟩ => ?_
      exact .pure ⟨_, hus.append (hvs.append hws), .binary hkinds hright he⟩
termination_by 8 * c.size

theorem yields_operand (c : Stream) :
    Yields c (operand c) fun e c' => c.ReadsTo (.expr e) c' := by
  rw [operand]
  refine .bind (yields_primary c) fun e c₁ h₁ ⟨ts, hts, he⟩ => ?_
  refine .bind (yields_trailers e c₁) fun e' c₂ h₂ ⟨us, hus, he'⟩ => ?_
  exact .pure ⟨_, hts.append hus, he'.reads he⟩
termination_by 8 * c.size + 3

theorem yields_primary (c : Stream) :
    Yields c (primary c) fun e c' => c.ReadsTo (.expr e) c' := by
  rw [primary]
  split
  · exact .fail _ _
  · next t c₁ h₁ hnext =>
    have ht := takes_of_next? hnext
    split
    · next hkind => exact .after ht (.pure ⟨_, ht, .name hkind⟩)
    · next n hkind => exact .after ht (.pure ⟨_, ht, .number (by rw [hkind]; rfl)⟩)
    · next x hkind => exact .after ht (.pure ⟨_, ht, .number (by rw [hkind]; rfl)⟩)
    · next x hkind => exact .after ht (.pure ⟨_, ht, .number (by rw [hkind]; rfl)⟩)
    · next s hkind =>
      obtain ⟨ts, hts, hread⟩ := readsTo_strings ht fun more => by rw [hkind]; rfl
      exact fun _ => ⟨⟨ts, hts⟩, ts, hts, hread⟩
    · next s hkind =>
      obtain ⟨ts, hts, hread⟩ := readsTo_strings ht fun more => by rw [hkind]; rfl
      exact fun _ => ⟨⟨ts, hts⟩, ts, hts, hread⟩
    · next hkind =>
      refine .after ht (.bind (yields_precedence .unary c₁) fun e c₂ h₂ ⟨ts, hts, he⟩ => ?_)
      exact .pure ⟨_, ht.cons hts, .unary hkind he⟩
    · next hkind =>
      refine .after ht (.bind (yields_precedence .unary c₁) fun e c₂ h₂ ⟨ts, hts, he⟩ => ?_)
      exact .pure ⟨_, ht.cons hts, .unary hkind he⟩
    · next hkind =>
      refine .after ht (.bind (yields_precedence .unary c₁) fun e c₂ h₂ ⟨ts, hts, he⟩ => ?_)
      exact .pure ⟨_, ht.cons hts, .unary hkind he⟩
    · next hkind =>
      refine .after ht (.bind (yields_precedence .not c₁) fun e c₂ h₂ ⟨ts, hts, he⟩ => ?_)
      exact .pure ⟨_, ht.cons hts, .unary hkind he⟩
    · next hkind =>
      refine .after ht (.bind (yields_precedence .unary c₁) fun e c₂ h₂ ⟨ts, hts, he⟩ => ?_)
      exact .pure ⟨_, ht.append hts, .opened rfl (by simp [hkind, Construct.openings]) he⟩
    · next hkind =>
      split
      next _ c₂ h₂ hfrom =>
      obtain ⟨ts, hts, hhead, hkinds⟩ : ∃ ts, c.Takes ts c₂ ∧ ts.head? = some t ∧
          ts.map (·.kind) ∈ Construct.yield.openings := by
        split at hfrom <;> cases hfrom
        · next u _ htake =>
          obtain ⟨hu, hukind⟩ := takes_of_take? htake
          exact ⟨_, ht.cons hu, rfl, by simp [hkind, hukind, Construct.openings]⟩
        · exact ⟨_, ht, rfl, by simp [hkind, Construct.openings]⟩
      refine .after hts ?_
      split
      · refine .bind (yields_expressionList c₂) fun e c₃ h₃ ⟨us, hus, he⟩ => ?_
        exact .pure ⟨_, hts.append hus, .opened hhead hkinds he⟩
      · exact .pure ⟨_, hts, .alone hhead hkinds⟩
    · next hkind =>
      refine .after ht (.bind (yields_precedence .bitOr c₁) fun e c₂ h₂ ⟨ts, hts, he⟩ => ?_)
      exact .pure ⟨_, ht.append hts, .opened rfl (by simp [hkind, Construct.openings]) he⟩
    · next hkind =>
      refine .after ht (.bind (yields_precedence .bitOr c₁) fun e c₂ h₂ ⟨ts, hts, he⟩ => ?_)
      exact .pure ⟨_, ht.append hts, .opened rfl (by simp [hkind, Construct.openings]) he⟩
    · next hkind =>
      exact .after ht (.pure ⟨_, ht, .alone rfl (by simp [hkind, Construct.openings])⟩)
    · next hkind =>
      refine .after ht (.bind (yields_parenthesized t c₁ c ht hkind) fun e c₂ h₂ he => ?_)
      exact .pure he
    · next hkind =>
      refine .after ht (.bind (yields_listLiteral t c₁ c ht hkind) fun e c₂ h₂ he => ?_)
      exact .pure he
    · next hkind =>
      refine .after ht (.bind (yields_braceLiteral t c₁ c ht hkind) fun e c₂ h₂ he => ?_)
      exact .pure he
    · exact .fail _ _
termination_by 8 * c.size + 2

theorem yields_parenthesized (t : Token) (c c₀ : Stream) (ht : c₀.Takes [t] c)
    (hkind : t.kind = .mark .lparen) :
    Yields c (parenthesized t c) fun e c' => c₀.ReadsTo (.expr e) c' := by
  rw [parenthesized]
  split
  · next close c₁ h₁ htake =>
    obtain ⟨hclose, hckind⟩ := takes_of_take? htake
    exact .after hclose (.pure ⟨_, ht.cons hclose, .emptyTuple hkind hckind⟩)
  · refine .bind (yields_expression c) fun first c₁ h₁ ⟨ts, hts, hfirst⟩ => ?_
    dsimp only
    split
    · refine .bind c₁.yields_skipToCloser fun _ c₂ h₂ ⟨us, _, hus, hbalanced, _⟩ => ?_
      refine .bind (c₂.yields_expect _ _) fun close c₃ h₃ ⟨hclose, hckind⟩ => ?_
      exact .pure ⟨_, ht.cons (hts.append (hus.append hclose)),
        .readOver rfl hkind hfirst hbalanced hckind⟩
    · split
      · refine .bind (yields_elements _ c₁) fun more c₂ h₂ ⟨⟨us, hus, hmore⟩, _⟩ => ?_
        refine .bind (c₂.yields_expect _ _) fun close c₃ h₃ ⟨hclose, hckind⟩ => ?_
        exact .pure ⟨_, ht.cons (hts.append (hus.append hclose)), .tuple hkind hfirst hmore hckind⟩
      · refine .bind (c₁.yields_expect _ _) fun close c₂ h₂ ⟨hclose, hckind⟩ => ?_
        exact .pure ⟨_, ht.cons (hts.append hclose), .parenthesized hkind hfirst hckind⟩
termination_by 8 * c.size + 6

theorem yields_listLiteral (t : Token) (c c₀ : Stream) (ht : c₀.Takes [t] c)
    (hkind : t.kind = .mark .lbracket) :
    Yields c (listLiteral t c) fun e c' => c₀.ReadsTo (.expr e) c' := by
  rw [listLiteral]
  split
  · next close c₁ h₁ htake =>
    obtain ⟨hclose, hckind⟩ := takes_of_take? htake
    exact .after hclose (.pure ⟨_, ht.cons hclose, .emptyList hkind hckind⟩)
  · refine .bind (yields_expression c) fun first c₁ h₁ ⟨ts, hts, hfirst⟩ => ?_
    dsimp only
    split
    · refine .bind c₁.yields_skipToCloser fun _ c₂ h₂ ⟨us, _, hus, hbalanced, _⟩ => ?_
      refine .bind (c₂.yields_expect _ _) fun close c₃ h₃ ⟨hclose, hckind⟩ => ?_
      exact .pure ⟨_, ht.cons (hts.append (hus.append hclose)),
        .readOver rfl hkind hfirst hbalanced hckind⟩
    · refine .bind (yields_elements _ c₁) fun more c₂ h₂ ⟨⟨us, hus, hmore⟩, _⟩ => ?_
      refine .bind (c₂.yields_expect _ _) fun close c₃ h₃ ⟨hclose, hckind⟩ => ?_
      exact .pure ⟨_, ht.cons (hts.append (hus.append hclose)), .list hkind hfirst hmore hckind⟩
termination_by 8 * c.size + 6

theorem yields_braceLiteral (t : Token) (c c₀ : Stream) (ht : c₀.Takes [t] c)
    (hkind : t.kind = .mark .lbrace) :
    Yields c (braceLiteral t c) fun e c' => c₀.ReadsTo (.expr e) c' := by
  rw [braceLiteral]
  split
  · next close c₁ h₁ htake =>
    obtain ⟨hclose, hckind⟩ := takes_of_take? htake
    exact .after hclose (.pure ⟨_, ht.cons hclose, .emptyDict hkind hckind⟩)
  · refine .bind (yields_expression c) fun key c₁ h₁ ⟨ts, hts, hkey⟩ => ?_
    dsimp only
    split
    · refine .bind c₁.yields_skipToCloser fun _ c₂ h₂ ⟨us, _, hus, hbalanced, _⟩ => ?_
      refine .bind (c₂.yields_expect _ _) fun close c₃ h₃ ⟨hclose, hckind⟩ => ?_
      exact .pure ⟨_, ht.cons (hts.append (hus.append hclose)),
        .readOver rfl hkind hkey hbalanced hckind⟩
    · next colon c₂ h₂ htake =>
      obtain ⟨hcolon, hsign⟩ := takes_of_take? htake
      refine .after hcolon (.bind (yields_expression c₂) fun value c₃ h₃ ⟨us, hus, hvalue⟩ => ?_)
      dsimp only
      split
      · refine .bind c₃.yields_skipToCloser fun _ c₄ h₄ ⟨vs, _, hvs, hbalanced, _⟩ => ?_
        refine .bind (c₄.yields_expect _ _) fun close c₅ h₅ ⟨hclose, hckind⟩ => ?_
        exact .pure ⟨_, ht.cons (hts.append (hcolon.cons (hus.append (hvs.append hclose)))),
          .dictComprehension hkind hkey hsign hvalue hbalanced hckind⟩
      · refine .bind (yields_entries c₃) fun more c₄ h₄ ⟨vs, hvs, hmore⟩ => ?_
        refine .bind (c₄.yields_expect _ _) fun close c₅ h₅ ⟨hclose, hckind⟩ => ?_
        have hall := ht.cons (hts.append (hcolon.cons (hus.append (hvs.append hclose))))
        cases more with
        | none => exact .pure ⟨_, hall, .dictUnpacking hkind hkey hsign hvalue hmore hckind⟩
        | some es => exact .pure ⟨_, hall, .dict hkind hkey hsign hvalue hmore hckind⟩
termination_by 8 * c.size + 6

theorem yields_entries (c : Stream) :
    Yields c (entries c) fun es c' => c.ReadsTo (.entries es) c' := by
  rw [entries]
  split
  · exact .pure ⟨[], c.takes_nil, .noEntries⟩
  · next comma c₁ h₁ htake =>
    obtain ⟨hcomma, hkind⟩ := takes_of_take? htake
    refine .after hcomma ?_
    split
    · exact .pure ⟨_, hcomma, .lastEntry hkind⟩
    · split
      · refine .bind c₁.yields_skipToCloser fun _ c₂ h₂ ⟨us, _, hus, hbalanced, _⟩ => ?_
        exact .pure ⟨_, hcomma.cons hus, .unpacking hkind hbalanced⟩
      · refine .bind (yields_expression c₁) fun key c₂ h₂ ⟨ts, hts, hkey⟩ => ?_
        refine .bind (c₂.yields_expect _ _) fun colon c₃ h₃ ⟨hcolon, hsign⟩ => ?_
        refine .bind (yields_expression c₃) fun value c₄ h₄ ⟨us, hus, hvalue⟩ => ?_
        refine .bind (yields_entries c₄) fun more c₅ h₅ ⟨vs, hvs, hmore⟩ => ?_
        exact .pure ⟨_, hcomma.cons (hts.append (hcolon.cons (hus.append hvs))),
          .entry hkind hkey hsign hvalue hmore⟩
termination_by 8 * c.size

theorem yields_trailers (e : Expr) (c : Stream) :
    Yields c (trailers e c) fun e' c' => ∃ ts, c.Takes ts c' ∧ Extends e ts e' := by
  rw [trailers]
  split
  · exact .pure ⟨[], c.takes_nil, .nothing⟩
  · next t c₁ h₁ hnext =>
    have ht := takes_of_next? hnext
    split
    · next hkind =>
      refine .after ht (.bind (yields_arguments c₁) fun args c₂ h₂ ⟨us, hus, hargs⟩ => ?_)
      refine .bind (c₂.yields_expect _ _) fun close c₃ h₃ ⟨hclose, hckind⟩ => ?_
      refine .bind (yields_trailers _ c₃) fun e' c₄ h₄ ⟨vs, hvs, he'⟩ => ?_
      exact .pure ⟨_, ht.cons (hus.append (hclose.cons hvs)), .call hkind hargs hckind he'⟩
    · next hkind =>
      refine .after ht (.bind (yields_subscript c₁) fun i c₂ h₂ ⟨us, hus, hi⟩ => ?_)
      refine .bind (c₂.yields_expect _ _) fun close c₃ h₃ ⟨hclose, hckind⟩ => ?_
      refine .bind (yields_trailers _ c₃) fun e' c₄ h₄ ⟨vs, hvs, he'⟩ => ?_
      exact .pure ⟨_, ht.cons (hus.append (hclose.cons hvs)), .index hkind hi hckind he'⟩
    · next hkind =>
      refine .after ht (.bind (c₁.yields_expect _ _) fun p c₂ h₂ ⟨hp, hpkind⟩ => ?_)
      refine .bind (yields_trailers _ c₂) fun e' c₃ h₃ ⟨ts, hts, he'⟩ => ?_
      exact .pure ⟨_, ht.cons (hp.cons hts), .member hkind hpkind he'⟩
    · exact .pure ⟨[], c.takes_nil, .nothing⟩
termination_by 8 * c.size

theorem yields_subscript (c : Stream) :
    Yields c (subscript c) fun e c' => c.ReadsTo (.subscript e) c' := by
  rw [subscript]
  split
  · next hsees =>
    refine .bind c.yields_skipToCloser fun _ c₁ h₁ ⟨us, m, hus, hbalanced, hm, hcloses⟩ => ?_
    have hcolon : c.kind = .mark .colon := by simpa [sees] using hsees
    cases us with
    | nil =>
      rw [hus.eq_of_nil, hcolon] at hm
      cases hm
      cases hcloses
    | cons u us =>
      dsimp only
      rw [hus.peek_eq]
      exact .pure ⟨_, hus, .slice (hus.kind_eq ▸ hcolon) hbalanced⟩
  · refine .bind (yields_expressionList c) fun i c₁ h₁ ⟨ts, hts, hi⟩ => ?_
    dsimp only
    split
    · refine .bind c₁.yields_skipToCloser fun _ c₂ h₂ ⟨us, _, hus, hbalanced, _⟩ => ?_
      exact .pure ⟨_, hts.append hus, .sliceFrom hi hbalanced⟩
    · exact .pure ⟨ts, hts, .subscript hi⟩
termination_by 8 * c.size + 7

theorem yields_arguments (c : Stream) :
    Yields c (arguments c) fun as c' => c.ReadsTo (.arguments as) c' := by
  rw [arguments]
  split
  · exact .pure ⟨[], c.takes_nil, .noArguments⟩
  · split
    · next id c₁ h₁ hname =>
      obtain ⟨ts, hts, hlabel⟩ := takes_of_argumentName? hname
      refine .after hts (.bind (yields_expression c₁) fun e c₂ h₂ ⟨us, hus, he⟩ => ?_)
      dsimp only
      split
      · exact .pure ⟨_, hts.append hus, .lastArgument hlabel he⟩
      · next comma c₃ h₃ htake =>
        obtain ⟨hcomma, hsign⟩ := takes_of_take? htake
        refine .after hcomma (.bind (yields_arguments c₃) fun more c₄ h₄ ⟨vs, hvs, hmore⟩ => ?_)
        exact .pure ⟨_, hts.append (hus.append (hcomma.cons hvs)), .argument hlabel he hsign hmore⟩
    · refine .bind (yields_expression c) fun e c₁ h₁ ⟨us, hus, he⟩ => ?_
      dsimp only
      split
      · refine .bind c₁.yields_skipToCloser fun _ c₂ h₂ ⟨vs, _, hvs, hbalanced, _⟩ => ?_
        exact .pure ⟨_, hus.append hvs, .generator he hbalanced⟩
      · split
        · exact .pure ⟨_, hus, .lastArgument .positional he⟩
        · next comma c₂ h₂ htake =>
          obtain ⟨hcomma, hsign⟩ := takes_of_take? htake
          refine .after hcomma (.bind (yields_arguments c₂) fun more c₃ h₃ ⟨vs, hvs, hmore⟩ => ?_)
          exact .pure ⟨_, hus.append (hcomma.cons hvs), .argument .positional he hsign hmore⟩
termination_by 8 * c.size + 7

end

end Parser

end Gradual
