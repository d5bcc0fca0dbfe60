import Gradual.Proofs.Source.Span
import Gradual.Proofs.Token.Layout

/-!
# Where tokens end

The span of a token counts its characters on the line where it starts, also if the token runs over
several lines. It ends before the next token starts all the same.

* `Token.Clears`, `InTurn`, **`tokenize_inTurn`**: each token with a text ends before the tokens
  after it start;
* `Span.MadeOf`: spans from one token up to another one;
* `Successive`: such spans one after the other, with `Successive.append`, `Successive.union_madeOf`
  and `Successive.foldl_madeOf`.
-/

namespace Gradual

open Source

/-! ## Tokens in turn -/

/-- If the token has a text, it ends before another one starts. -/
def Token.Clears (t u : Token) : Prop := t.kind.hasText = true → t.span.Precedes u.span

/-- Each token with a text ends before the tokens after it start, and lines are counted from one. -/
structure InTurn (ts : List Token) : Prop where
  counted : ∀ t ∈ ts, 0 < t.start.line
  clears : ts.Pairwise Token.Clears

section InTurn

variable {t : Token} {ts us : List Token}

theorem InTurn.sublist (h : InTurn us) (hts : ts.Sublist us) : InTurn ts :=
  ⟨fun t ht => h.counted t (hts.subset ht), h.clears.sublist hts⟩

theorem InTurn.left (h : InTurn (ts ++ us)) : InTurn ts := h.sublist (List.sublist_append_left ..)

theorem InTurn.right (h : InTurn (ts ++ us)) : InTurn us := h.sublist (List.sublist_append_right ..)

theorem InTurn.tail (h : InTurn (t :: ts)) : InTurn ts := h.sublist (List.sublist_cons_self ..)

end InTurn

theorem LexStep.last_before {s t : LexState} {piece : List Char} {ts : List Token}
    (h : LexStep s piece ts t) :
    (∀ u ∈ ts, u.kind.hasText = true → u.span.last.Before t.place) ∧
      ts.Pairwise Token.Clears := by
  cases h with
  | newline =>
    refine ⟨fun u hu => ?_, List.pairwise_singleton ..⟩
    rw [List.mem_singleton.1 hu]
    simp [LexState.newline, TokenKind.hasText]
  | @token c cs kind n _ rest _ _ found =>
    refine ⟨fun u hu _ => ?_, List.pairwise_singleton ..⟩
    rw [List.mem_singleton.1 hu]
    have hne : s.rest.take n ≠ [] := by
      rw [rest]
      exact take_recognise_ne_nil found
    have hlen : 0 < (s.rest.take n).length := List.length_pos_iff.2 hne
    have hlast := s.place.before_after_of_length hne
    simp only [Token.span, Span.last, String.length_ofList]
    rwa [Nat.max_eq_left hlen]
  | indent =>
    refine ⟨fun u hu => ?_, List.pairwise_singleton ..⟩
    rw [List.mem_singleton.1 hu]
    simp [LexState.bare, TokenKind.hasText]
  | dedent =>
    refine ⟨fun u hu => ?_, ?_⟩
    · rw [List.eq_of_mem_replicate hu]
      simp [LexState.bare, TokenKind.hasText]
    · rw [List.pairwise_replicate]
      exact .inr (by simp [Token.Clears, LexState.bare, TokenKind.hasText])
  | _ => exact ⟨by simp, .nil⟩

theorem LexState.pairwise_clears {s : LexState} {ts : List Token} (h : s.tokens = .ok ts) :
    ts.Pairwise Token.Clears := by
  refine LexState.run_induction (P := fun _ ts => ts.Pairwise Token.Clears) ?done ?step h
  case done =>
    intro s _
    refine List.pairwise_of_forall_mem_list fun u hu v _ => ?_
    rw [Token.Clears, (mem_finish hu).2]
    simp
  case step =>
    intro s piece ts t us hstep hrest hus
    obtain ⟨hlast, hts⟩ := hstep.last_before
    have hplace := (LexState.ordered hrest).1
    exact List.pairwise_append.2 ⟨hts, hus, fun u hu v hv htext =>
      (hlast u hu htext).trans_atMost (hplace v hv)⟩

/-- **The tokens of a text stand in turn.** -/
theorem tokenize_inTurn {text : String} {ts : List Token} (h : tokenize text = .ok ts) :
    InTurn ts := ⟨(tokenize_ordered h).1, LexState.pairwise_clears h⟩

/-! ## Spans of tokens -/

theorem Token.span_proper {t : Token} (h : 0 < t.start.line) : t.span.Proper :=
  ⟨h, .inr ⟨rfl, Nat.le_add_right ..⟩⟩

/-- The span starts where a token does, and ends where a token with a text does. -/
structure Source.Span.MadeOf (s : Span) (ts : List Token) : Prop where
  proper : s.Proper
  starts : ∃ t ∈ ts, s.first = t.span.first
  ends : ∃ t ∈ ts, t.kind.hasText = true ∧ s.last = t.span.last

namespace Source.Span

variable {a b : Span} {ts us : List Token}

theorem MadeOf.mono (h : a.MadeOf ts) (hsub : ts ⊆ us) : a.MadeOf us := by
  obtain ⟨hproper, ⟨t, ht, hfirst⟩, u, hu, htext, hlast⟩ := h
  exact ⟨hproper, ⟨t, hsub ht, hfirst⟩, u, hsub hu, htext, hlast⟩

theorem MadeOf.precedes (ha : a.MadeOf ts) (hb : b.MadeOf us) (h : InTurn (ts ++ us)) :
    a.Precedes b := by
  obtain ⟨t, ht, htext, hlast⟩ := ha.ends
  obtain ⟨u, hu, hfirst⟩ := hb.starts
  have hcross := (List.pairwise_append.1 h.clears).2.2 t ht u hu htext
  unfold Precedes at hcross ⊢
  rwa [hlast, hfirst]

theorem MadeOf.union (ha : a.MadeOf ts) (hb : b.MadeOf ts) (h : a.Precedes b) :
    (a.union b).MadeOf ts := by
  obtain ⟨hfirst, hlast⟩ := union_of_precedes ha.proper hb.proper h
  exact ⟨ha.proper.union hb.proper h, hfirst ▸ ha.starts, hlast ▸ hb.ends⟩

end Source.Span

/-! ## Spans one after the other -/

/-- Spans made of the tokens, each of which ends before the next one starts. -/
structure Successive (ss : List Span) (ts : List Token) : Prop where
  madeOf : ∀ s ∈ ss, s.MadeOf ts
  apart : ss.Pairwise Span.Precedes

section Successive

variable {a c : Span} {ss ss' : List Span} {t : Token} {ts us : List Token}

theorem successive_nil : Successive [] ts := ⟨by simp, .nil⟩

theorem Source.Span.MadeOf.successive (h : a.MadeOf ts) : Successive [a] ts :=
  ⟨by simpa using h, List.pairwise_singleton ..⟩

theorem InTurn.token (h : InTurn ts) (ht : t ∈ ts) (htext : t.kind.hasText = true) :
    t.span.MadeOf ts := ⟨t.span_proper (h.counted t ht), ⟨t, ht, rfl⟩, t, ht, htext, rfl⟩

/-- The spans of tokens with a text. -/
theorem InTurn.successive (h : InTurn ts) (htext : ∀ t ∈ ts, t.kind.hasText = true) :
    Successive (ts.map Token.span) ts where
  madeOf s hs := by
    obtain ⟨t, ht, rfl⟩ := List.mem_map.1 hs
    exact h.token ht (htext t ht)
  apart := List.pairwise_map.2 (h.clears.imp_of_mem fun ht _ hclears => hclears (htext _ ht))

theorem InTurn.head (h : InTurn (t :: ts)) (htext : t.kind.hasText = true) :
    Successive [t.span] [t] := by
  have hone : InTurn [t] := h.sublist (by simp)
  exact hone.successive (by simpa using htext)

theorem Successive.mono (h : Successive ss ts) (hsub : ts ⊆ us) : Successive ss us :=
  ⟨fun s hs => (h.madeOf s hs).mono hsub, h.apart⟩

theorem Successive.sublist (h : Successive ss ts) (hss : ss'.Sublist ss) : Successive ss' ts :=
  ⟨fun s hs => h.madeOf s (hss.subset hs), h.apart.sublist hss⟩

theorem Successive.append (h : Successive ss ts) (h' : Successive ss' us)
    (hts : InTurn (ts ++ us)) : Successive (ss ++ ss') (ts ++ us) where
  madeOf s hs := by
    rcases List.mem_append.1 hs with hs | hs
    · exact (h.madeOf s hs).mono (List.subset_append_left ..)
    · exact (h'.madeOf s hs).mono (List.subset_append_right ..)
  apart := List.pairwise_append.2 ⟨h.apart, h'.apart, fun s hs s' hs' =>
    (h.madeOf s hs).precedes (h'.madeOf s' hs') hts⟩

/-- **The union of the first and the last span** is made of the tokens and encloses all of them. -/
theorem Successive.union_madeOf (h : Successive (a :: (ss ++ [c])) ts) :
    (a.union c).MadeOf ts ∧ ∀ b ∈ a :: (ss ++ [c]), (a.union c).Encloses b := by
  have ha := h.madeOf a (by simp)
  have hc := h.madeOf c (by simp)
  obtain ⟨hfirst, hrest⟩ := List.pairwise_cons.1 h.apart
  have hac : a.Precedes c := hfirst c (by simp)
  refine ⟨ha.union hc hac, fun b hb => Span.union_encloses ha.proper hc.proper hac ?_ ?_⟩
  · rcases List.mem_cons.1 hb with rfl | hb
    · exact .refl _
    · exact (hfirst b hb).first_atMost ha.proper
  · have happend : ((a :: ss) ++ [c]).Pairwise Span.Precedes := h.apart
    rcases List.mem_append.1 (show b ∈ (a :: ss) ++ [c] from hb) with hb | hb
    · have hbc := (List.pairwise_append.1 happend).2.2 b hb c (by simp)
      exact hbc.last_atMost hc.proper
    · rw [List.mem_singleton.1 hb]
      exact .refl _

/-- The union of the first two spans ends with the second one, so that it too precedes the further
ones. -/
theorem Successive.union_cons (h : Successive (a :: c :: ss) ts) :
    Successive (a.union c :: ss) ts := by
  obtain ⟨hfirst, hrest⟩ := List.pairwise_cons.1 h.apart
  have ha := h.madeOf a (by simp)
  have hc := h.madeOf c (by simp)
  have hac : a.Precedes c := hfirst c (by simp)
  refine ⟨fun s hs => ?_, List.pairwise_cons.2 ⟨fun s hs => ?_, hrest.tail⟩⟩
  · rcases List.mem_cons.1 hs with rfl | hs
    · exact ha.union hc hac
    · exact h.madeOf s (by simp [hs])
  · unfold Span.Precedes
    rw [(Span.union_of_precedes ha.proper hc.proper hac).2]
    exact List.rel_of_pairwise_cons hrest hs

/-- **The union of all spans** is made of the tokens and encloses each of them. -/
theorem Successive.foldl_madeOf (h : Successive (a :: ss) ts) :
    (ss.foldl Span.union a).MadeOf ts ∧ ∀ b ∈ a :: ss, (ss.foldl Span.union a).Encloses b := by
  induction ss generalizing a with
  | nil => exact ⟨h.madeOf a (by simp), fun b hb => List.mem_singleton.1 hb ▸ .refl _⟩
  | cons c ss ih =>
    have hac : Successive (a :: ([] ++ [c])) ts := h.sublist (by simp)
    obtain ⟨-, hencloses⟩ := hac.union_madeOf
    obtain ⟨hmade, hall⟩ := ih h.union_cons
    have hhead := hall (a.union c) (by simp)
    refine ⟨hmade, List.forall_mem_cons.2 ⟨?_, List.forall_mem_cons.2 ⟨?_, fun b hb => ?_⟩⟩⟩
    · exact hhead.trans (hencloses a (by simp))
    · exact hhead.trans (hencloses c (by simp))
    · exact hall b (by simp [hb])

end Successive

end Gradual
