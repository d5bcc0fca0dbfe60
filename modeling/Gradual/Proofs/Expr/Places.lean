import Gradual.Proofs.Expr.Layout

/-!
# Where expressions start

The span of an expression is put together from those of its tokens. As the tokens stand in the order
of the text, it starts where the first of them does.

* `Ordered`: tokens in the order of the text;
* `Span.StartsAt`, `Span.StartsAt.union`;
* **`Reads.startsAt`**: an expression starts at its first token.
-/

namespace Gradual

open Source

/-! ## Tokens in order -/

/-- The tokens stand in the order of a text. -/
def Ordered (ts : List Token) : Prop :=
  (∀ t ∈ ts, 0 < t.start.line) ∧ ts.Pairwise Token.Precedes

section Ordered

variable {t u : Token} {ts us : List Token}

theorem Ordered.sublist (h : Ordered us) (hts : ts.Sublist us) : Ordered ts :=
  ⟨fun t ht => h.1 t (hts.subset ht), h.2.sublist hts⟩

theorem Ordered.left (h : Ordered (ts ++ us)) : Ordered ts :=
  h.sublist (List.sublist_append_left ..)

theorem Ordered.right (h : Ordered (ts ++ us)) : Ordered us :=
  h.sublist (List.sublist_append_right ..)

theorem Ordered.tail (h : Ordered (t :: ts)) : Ordered ts := h.sublist (List.sublist_cons_self ..)

theorem Ordered.atMost (h : Ordered (t :: ts)) (hu : u ∈ t :: ts) : t.start.AtMost u.start := by
  rcases List.mem_cons.1 hu with rfl | hu
  · exact .refl _
  · exact (List.rel_of_pairwise_cons h.2 hu).1

end Ordered

/-! ## Where spans start -/

namespace Source.Span

/-- The span starts at the place `p`. -/
def StartsAt (s : Span) (p : Position) : Prop := s.line = p.line ∧ s.column = p.column

theorem StartsAt.union {a b : Span} {p q : Position} (ha : a.StartsAt p) (hb : b.StartsAt q)
    (h : p.AtMost q) (hp : 0 < p.line) : (a.union b).StartsAt p := by
  obtain ⟨hal, hac⟩ := ha
  obtain ⟨hbl, hbc⟩ := hb
  unfold Position.AtMost at h
  have hby : a.startsBy b = true := by
    simp only [startsBy, Bool.or_eq_true, Bool.and_eq_true, decide_eq_true_eq, beq_iff_eq]
    omega
  rw [Span.union, if_neg (by omega), if_neg (by omega)]
  simp only [hby, if_true]
  exact ⟨hal, hac⟩

end Source.Span

theorem Token.span_startsAt (t : Token) : t.span.StartsAt t.start := ⟨rfl, rfl⟩

section StartsAt

variable {t u : Token} {ts : List Token} {a b : Span}

theorem Ordered.union_startsAt (h : Ordered (t :: ts)) (hu : u ∈ t :: ts)
    (ha : a.StartsAt t.start) (hb : b.StartsAt u.start) : (a.union b).StartsAt t.start :=
  ha.union hb (h.atMost hu) (h.1 t List.mem_cons_self)

/-- Spans of later tokens do not change where a union starts. -/
theorem Ordered.foldl_startsAt {α : Type} (f : α → Span) {xs : List α} (h : Ordered (t :: ts))
    (ha : a.StartsAt t.start) (hxs : ∀ x ∈ xs, ∃ u ∈ t :: ts, (f x).StartsAt u.start) :
    (xs.foldl (fun s x => s.union (f x)) a).StartsAt t.start := by
  induction xs generalizing a with
  | nil => exact ha
  | cons x xs ih =>
    obtain ⟨u, hu, hx⟩ := hxs x List.mem_cons_self
    exact ih (h.union_startsAt hu ha hx) fun y hy => hxs y (List.mem_cons_of_mem _ hy)

end StartsAt

/-! ## Expressions -/

/-- An expression starts at its first token, and elements start at tokens of theirs. -/
def Phrase.Starts : Phrase → List Token → Prop
  | .expr e, ts => ∃ t us, ts = t :: us ∧ t.kind.hasText = true ∧ e.span.StartsAt t.start
  | .elements es, ts => ∀ e ∈ es, ∃ t ∈ ts, e.span.StartsAt t.start
  | _, _ => True

/-- The union of the spans of a first and a later expression starts at the first token. -/
theorem starts_union {e e' x : Expr} {ts us vs : List Token} (hx : x.span = e.span.union e'.span)
    (h : Ordered (ts ++ us)) (he : (Phrase.expr e).Starts ts) (he' : (Phrase.expr e').Starts vs)
    (hvs : vs ⊆ us) : (Phrase.expr x).Starts (ts ++ us) := by
  obtain ⟨t, ts, rfl, htext, he⟩ := he
  obtain ⟨u, vs, rfl, -, he'⟩ := he'
  have hu : u ∈ us := hvs List.mem_cons_self
  exact ⟨t, _, rfl, htext, hx ▸ h.union_startsAt (by simp [hu]) he he'⟩

/-- The union of the spans of an expression and a later token starts at the first token. -/
theorem starts_union_token {e x : Expr} {u : Token} {ts us : List Token}
    (hx : x.span = e.span.union u.span) (h : Ordered (ts ++ us)) (he : (Phrase.expr e).Starts ts)
    (hu : u ∈ us) : (Phrase.expr x).Starts (ts ++ us) := by
  obtain ⟨t, ts, rfl, htext, he⟩ := he
  exact ⟨t, _, rfl, htext, hx ▸ h.union_startsAt (by simp [hu]) he u.span_startsAt⟩

/-- The union of the spans of a token and a later expression starts at the token. -/
theorem starts_token_union {e x : Expr} {t : Token} {us vs : List Token}
    (hx : x.span = t.span.union e.span) (h : Ordered (t :: us)) (htext : t.kind.hasText = true)
    (he : (Phrase.expr e).Starts vs) (hvs : vs ⊆ us) : (Phrase.expr x).Starts (t :: us) := by
  obtain ⟨u, vs, rfl, -, he⟩ := he
  have hu : u ∈ us := hvs List.mem_cons_self
  exact ⟨t, _, rfl, htext, hx ▸ h.union_startsAt (by simp [hu]) t.span_startsAt he⟩

/-- What stands in brackets starts at the opening one. -/
theorem starts_bracketed {x : Expr} {open' close : Token} {m : Mark} {ts : List Token}
    (hx : x.span = open'.span.union close.span) (h : Ordered (open' :: ts))
    (hopen : open'.kind = .mark m) (hclose : close ∈ ts) : (Phrase.expr x).Starts (open' :: ts) :=
  ⟨open', ts, rfl, by rw [hopen]; rfl, hx ▸ h.union_startsAt (List.mem_cons_of_mem _ hclose)
    open'.span_startsAt close.span_startsAt⟩

theorem Reads.starts {ts : List Token} {p : Phrase} (h : Reads ts p) (hts : Ordered ts) :
    p.Starts ts := by
  induction h with
  | @name t kind => exact ⟨t, [], rfl, by rw [kind]; rfl, t.span_startsAt⟩
  | @number t v kind =>
    refine ⟨t, [], rfl, ?_, t.span_startsAt⟩
    cases hk : t.kind <;> simp [hk, Literal.ofNumber?] at kind <;> rfl
  | @strings t more v kind texts =>
    refine ⟨t, more, rfl, ?_, hts.foldl_startsAt Token.span t.span_startsAt fun u hu => ?_⟩
    · cases hk : t.kind <;> simp [hk, Literal.ofTexts?] at kind <;> rfl
    · exact ⟨u, by simp [hu], u.span_startsAt⟩
  | @unary _ _ op _ kind _ ih =>
    exact starts_token_union rfl hts (by rw [kind]; cases op <;> rfl) (ih hts.tail) (by simp)
  | binary _ _ _ ihl ihr =>
    exact starts_union rfl hts (ihl hts.left) (ihr hts.right.right) (by simp)
  | @opened _ ts _ _ _ head kinds _ ih =>
    obtain ⟨us, rfl⟩ := List.head?_eq_some_iff.1 head
    have htext := TokenKind.hasText_of_isFlat (Construct.isFlat_openings kinds _ List.mem_cons_self)
    exact starts_token_union rfl hts htext (ih hts.right) (by simp)
  | @alone t ts _ head kinds =>
    obtain ⟨us, rfl⟩ := List.head?_eq_some_iff.1 head
    have htext := TokenKind.hasText_of_isFlat (Construct.isFlat_openings kinds _ List.mem_cons_self)
    exact ⟨t, us, rfl, htext, t.span_startsAt⟩
  | lambda word _ _ _ ih =>
    exact starts_token_union rfl hts (by rw [word]; rfl) (ih hts.tail.right.tail)
      fun u hu => by simp [hu]
  | conditional _ _ _ _ _ ihe _ iho =>
    exact starts_union rfl hts (ihe hts.left) (iho hts.right.tail.right.tail)
      fun u hu => by simp [hu]
  | assignment _ _ _ ihe ihv =>
    exact starts_union rfl hts (ihe hts.left) (ihv hts.right.tail) (by simp)
  | @listed ts us first more _ _ _ ihe ihm =>
    obtain ⟨t, ts, rfl, htext, hfirst⟩ := ihe hts.left
    refine ⟨t, _, rfl, htext, ?_⟩
    change (more.foldl (fun s e => s.union e.span) first.span).StartsAt t.start
    refine hts.foldl_startsAt Expr.span hfirst fun e he => ?_
    obtain ⟨u, hu, hstart⟩ := ihm hts.right e he
    exact ⟨u, by simp [hu], hstart⟩
  | emptyTuple opens | emptyList opens | emptyDict opens =>
    exact starts_bracketed rfl hts opens (by simp)
  | parenthesized opens => exact starts_bracketed (Expr.span_withSpan _ _) hts opens (by simp)
  | tuple opens | list opens | dictComprehension opens | dict opens | dictUnpacking opens =>
    exact starts_bracketed rfl hts opens (by simp)
  | readOver _ opens => exact starts_bracketed rfl hts opens (by simp)
  | call _ _ _ _ ih | index _ _ _ _ ih => exact starts_union_token rfl hts (ih hts.left) (by simp)
  | member _ _ _ ih => exact starts_union_token rfl hts (ih hts.left) (by simp)
  | noElements | lastComma => exact fun e he => absurd he List.not_mem_nil
  | element _ _ _ ihe ihm =>
    intro x hx
    rcases List.mem_cons.1 hx with rfl | hx
    · obtain ⟨t, us, rfl, -, hstart⟩ := ihe hts.tail.left
      exact ⟨t, by simp, hstart⟩
    · obtain ⟨u, hu, hstart⟩ := ihm hts.tail.right x hx
      exact ⟨u, by simp [hu], hstart⟩
  | _ => trivial

/-- **An expression starts at its first token.** -/
theorem Reads.startsAt {ts : List Token} {e : Expr} (h : Reads ts (.expr e)) (hts : Ordered ts) :
    ∃ t us, ts = t :: us ∧ t.kind.hasText = true ∧ e.span.StartsAt t.start := h.starts hts

end Gradual
