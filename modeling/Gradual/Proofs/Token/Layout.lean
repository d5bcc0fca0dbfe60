import Gradual.Proofs.Token.Cover

/-!
# The layout of tokens

Lines and blocks as they are seen in the tokens alone. Blocks open and close only where a line
starts, every block is closed, and inside brackets there is no line but the last one.

* `Layout`, `Layout.after`: where a sequence of tokens stands;
* `LaidOut`, **`tokenize_laidOut`**: the tokens of a text open and close blocks in good order;
* `Token.Precedes`, **`tokenize_ordered`**: their places are in the order of the text.
-/

namespace Gradual

open Source

/-! ## Lines and blocks -/

/-- Where a sequence of tokens stands: whether a line ended right before, the number of open
brackets, and the number of open blocks. -/
structure Layout where
  fresh : Bool
  depth : Nat
  level : Nat

namespace Layout

/-- The start of a text. -/
def start : Layout := ⟨true, 0, 0⟩

/-- Goes over one token. -/
def next (l : Layout) (t : Token) : Layout :=
  match t.kind with
  | .newline => { l with fresh := true }
  | .indent => { l with fresh := false, level := l.level + 1 }
  | .dedent => { l with fresh := true, level := l.level - 1 }
  | k => { l with fresh := false, depth := depthAfter l.depth k }

/-- Goes over some tokens. -/
def after (l : Layout) (ts : List Token) : Layout := ts.foldl next l

@[simp] theorem after_nil (l : Layout) : l.after [] = l := rfl

@[simp] theorem after_cons (l : Layout) (t : Token) (ts : List Token) :
    l.after (t :: ts) = (l.next t).after ts := rfl

theorem after_append (l : Layout) (ts us : List Token) :
    l.after (ts ++ us) = (l.after ts).after us := List.foldl_append

section Next

variable {l : Layout} {t : Token}

theorem next_newline (h : t.kind = .newline) : l.next t = ⟨true, l.depth, l.level⟩ := by
  simp [next, h]

theorem next_indent (h : t.kind = .indent) : l.next t = ⟨false, l.depth, l.level + 1⟩ := by
  simp [next, h]

theorem next_dedent (h : t.kind = .dedent) : l.next t = ⟨true, l.depth, l.level - 1⟩ := by
  simp [next, h]

theorem next_code (h : t.kind.hasText = true) :
    l.next t = ⟨false, depthAfter l.depth t.kind, l.level⟩ := by
  unfold next
  split
  · next hk => simp [hk, TokenKind.hasText] at h
  · next hk => simp [hk, TokenKind.hasText] at h
  · next hk => simp [hk, TokenKind.hasText] at h
  · rfl

end Next

end Layout

/-- The tokens go on in good order: a line ends outside brackets, unless nothing but line ends and
the ends of blocks follow; a block opens or closes where a line starts, and in the end all are
closed. -/
inductive LaidOut : Layout → List Token → Prop
  | done {l : Layout} (closed : l.level = 0) : LaidOut l []
  | newline {l : Layout} {t : Token} {ts : List Token} (kind : t.kind = .newline)
      (outside : l.depth = 0 ∨ ∀ u ∈ ts, u.kind.hasText = false) (more : LaidOut (l.next t) ts) :
      LaidOut l (t :: ts)
  | indent {l : Layout} {t : Token} {ts : List Token} (kind : t.kind = .indent)
      (fresh : l.fresh = true) (outside : l.depth = 0) (more : LaidOut (l.next t) ts) :
      LaidOut l (t :: ts)
  | dedent {l : Layout} {t : Token} {ts : List Token} (kind : t.kind = .dedent)
      (fresh : l.fresh = true) (inside : 0 < l.level)
      (outside : l.depth = 0 ∨ ∀ u ∈ ts, u.kind.hasText = false) (more : LaidOut (l.next t) ts) :
      LaidOut l (t :: ts)
  | code {l : Layout} {t : Token} {ts : List Token} (kind : t.kind.hasText = true)
      (more : LaidOut (l.next t) ts) : LaidOut l (t :: ts)

theorem LaidOut.after {l : Layout} {us : List Token} (ts : List Token) (h : LaidOut l (ts ++ us)) :
    LaidOut (l.after ts) us := by
  induction ts generalizing l with
  | nil => exact h
  | cons t ts ih =>
    cases h with
    | newline _ _ more | indent _ _ _ more | dedent _ _ _ _ more | code _ more => exact ih more

/-- Blocks that close one after the other. -/
theorem laidOut_dedents {depth level : Nat} {t : Token} {us : List Token} (kind : t.kind = .dedent)
    (outside : depth = 0 ∨ ∀ u ∈ us, u.kind.hasText = false) (h : LaidOut ⟨true, depth, level⟩ us)
    (n : Nat) : LaidOut ⟨true, depth, level + n⟩ (List.replicate n t ++ us) := by
  induction n with
  | zero => exact h
  | succ n ih =>
    have hrest : depth = 0 ∨ ∀ u ∈ List.replicate n t ++ us, u.kind.hasText = false := by
      refine outside.imp_right fun hus u hu => ?_
      rcases List.mem_append.1 hu with hu | hu
      · rw [List.eq_of_mem_replicate hu, kind]
        rfl
      · exact hus u hu
    refine .dedent kind rfl (Nat.succ_pos _) hrest ?_
    rw [Layout.next_dedent kind]
    exact ih

theorem LexStep.kind_ne_eof {s t : LexState} {piece : List Char} {ts : List Token}
    (h : LexStep s piece ts t) : ∀ u ∈ ts, u.kind ≠ .eof := by
  intro u hu
  cases h with
  | token _ _ _ _ found =>
    have htext := recognise_hasText found
    rw [List.mem_singleton.1 hu]
    rintro rfl
    cases htext
  | newline | indent =>
    rw [List.mem_singleton.1 hu]
    exact TokenKind.noConfusion
  | dedent =>
    rw [List.eq_of_mem_replicate hu]
    exact TokenKind.noConfusion
  | _ => cases hu

/-- The tokens from a state on are laid out, up to the end of the input. -/
theorem LexState.laidOut {s : LexState} {ts : List Token} (h : s.tokens = .ok ts) :
    ∃ us e, ts = us ++ [e] ∧ e.kind = .eof ∧ (∀ u ∈ us, u.kind ≠ .eof) ∧
      ∀ fresh, (s.lineStart = true → fresh = true) → (s.lineOpen = false → fresh = true) →
        LaidOut ⟨fresh, s.depth, s.indents.length⟩ us := by
  refine LexState.run_induction (P := fun s ts => ∃ us e, ts = us ++ [e] ∧ e.kind = .eof ∧
    (∀ u ∈ us, u.kind ≠ .eof) ∧ ∀ fresh, (s.lineStart = true → fresh = true) →
      (s.lineOpen = false → fresh = true) → LaidOut ⟨fresh, s.depth, s.indents.length⟩ us)
    ?done ?step h
  case done =>
    intro s _
    have hlast : LaidOut ⟨true, s.depth, s.indents.length⟩
        (List.replicate s.indents.length (s.bare .dedent)) := by
      simpa using laidOut_dedents (t := s.bare .dedent) rfl (.inr (by simp))
        (LaidOut.done (l := ⟨true, s.depth, 0⟩) rfl) s.indents.length
    rw [finish, List.map_const']
    refine ⟨_, _, rfl, rfl, ?_, fun fresh _ hopen => ?_⟩
    · cases s.lineOpen <;> simp [newline, bare]
    · cases hline : s.lineOpen with
      | false =>
        rw [hopen hline]
        exact hlast
      | true => exact .newline rfl (.inr (by simp [bare, TokenKind.hasText])) hlast
  case step =>
    rintro s piece ts t us hstep - ⟨us, e, rfl, he, hus, ih⟩
    refine ⟨ts ++ us, e, by rw [List.append_assoc], he, ?_, fun fresh hstart hopen => ?_⟩
    · intro u hu
      rcases List.mem_append.1 hu with hu | hu
      · exact hstep.kind_ne_eof u hu
      · exact hus u hu
    cases hstep with
    | spacing | innerBreak | comment | continuation => exact ih fresh hstart hopen
    | bracketLine | blankEnd => exact ih fresh (by simp) hopen
    | blankLine start | commentLine start => exact ih fresh (fun _ => hstart start) hopen
    | newline _ _ _ outside => exact .newline rfl (.inl outside) (ih true (by simp) (by simp))
    | token inside _ _ _ found =>
      have htext := recognise_hasText found
      refine .code htext ?_
      rw [Layout.next_code htext]
      exact ih false (by simp [past, inside]) (by simp)
    | indent start outside =>
      exact .indent rfl (hstart start) outside (ih false (by simp) (by simp))
    | @dedent blanks cs closed kept start outside _ _ _ indents =>
      have hlevel : s.indents.length = kept.length + closed.length := by
        rw [indents, List.length_append, Nat.add_comm]
      rw [hstart start, hlevel]
      exact laidOut_dedents rfl (.inl outside) (ih true (by simp) (by simp)) _

/-- **The tokens of a text are laid out in good order**, up to the end of the input, which comes
last. -/
theorem tokenize_laidOut {text : String} {ts : List Token} (h : tokenize text = .ok ts) :
    ∃ us e, ts = us ++ [e] ∧ e.kind = .eof ∧ (∀ u ∈ us, u.kind ≠ .eof) ∧ LaidOut .start us := by
  obtain ⟨us, e, hts, he, hus, hlaid⟩ := LexState.laidOut h
  exact ⟨us, e, hts, he, hus, hlaid true (fun _ => rfl) fun _ => rfl⟩

/-! ## The order of places -/

theorem take_recognise_ne_nil {c : Char} {cs : List Char} {k : TokenKind} {n : Nat}
    (h : recognise c cs = .ok (k, n)) : (c :: cs).take n ≠ [] := by
  have hpos := recognise_pos h
  rw [Ne, List.take_eq_nil_iff]
  simp
  omega

/-- A token stands no later than another one, and before it if it has a text. -/
def Token.Precedes (t u : Token) : Prop :=
  t.start.AtMost u.start ∧ (t.kind.hasText = true → t.start.Before u.start)

theorem LexStep.precedes {s t : LexState} {piece : List Char} {ts : List Token}
    (h : LexStep s piece ts t) :
    (∀ u ∈ ts, s.place.AtMost u.start ∧ u.start.AtMost t.place ∧
      (u.kind.hasText = true → u.start.Before t.place)) ∧ ts.Pairwise Token.Precedes := by
  have hplace : s.place.AtMost t.place := h.place_eq ▸ s.place.atMost_after piece
  have hover : ∀ {k : TokenKind} {u : Token}, u = ⟨k, "", t.place⟩ → k.hasText = false →
      s.place.AtMost u.start ∧ u.start.AtMost t.place ∧
        (u.kind.hasText = true → u.start.Before t.place) := by
    rintro k u rfl hk
    exact ⟨hplace, .refl _, by simp [hk]⟩
  cases h with
  | newline =>
    refine ⟨fun u hu => ?_, List.pairwise_singleton ..⟩
    rw [List.mem_singleton.1 hu]
    exact ⟨.refl _, hplace, by simp [LexState.newline, TokenKind.hasText]⟩
  | token _ rest _ _ found =>
    refine ⟨fun u hu => ?_, List.pairwise_singleton ..⟩
    rw [List.mem_singleton.1 hu]
    refine ⟨.refl _, hplace, fun _ => s.place.before_after ?_⟩
    rw [rest]
    exact take_recognise_ne_nil found
  | indent =>
    refine ⟨fun u hu => hover (List.mem_singleton.1 hu) rfl, List.pairwise_singleton ..⟩
  | dedent =>
    refine ⟨fun u hu => hover (List.eq_of_mem_replicate hu) rfl, ?_⟩
    rw [List.pairwise_replicate]
    exact .inr ⟨.refl _, by simp [LexState.bare, TokenKind.hasText]⟩
  | _ => exact ⟨by simp, .nil⟩

theorem LexState.ordered {s : LexState} {ts : List Token} (h : s.tokens = .ok ts) :
    (∀ u ∈ ts, s.place.AtMost u.start) ∧ ts.Pairwise Token.Precedes := by
  refine LexState.run_induction (P := fun s ts => (∀ u ∈ ts, s.place.AtMost u.start) ∧
    ts.Pairwise Token.Precedes) ?done ?step h
  case done =>
    intro s _
    refine ⟨fun u hu => (mem_finish hu).1 ▸ .refl _, List.pairwise_of_forall_mem_list ?_⟩
    intro u hu v hv
    rw [Token.Precedes, (mem_finish hu).1, (mem_finish hv).1, (mem_finish hu).2]
    exact ⟨.refl _, by simp⟩
  case step =>
    rintro s piece ts t us hstep - ⟨hus, hpairs⟩
    obtain ⟨hts, hpairs'⟩ := hstep.precedes
    have hplace : s.place.AtMost t.place := hstep.place_eq ▸ s.place.atMost_after piece
    refine ⟨fun u hu => ?_, List.pairwise_append.2 ⟨hpairs', hpairs, fun u hu v hv => ?_⟩⟩
    · rcases List.mem_append.1 hu with hu | hu
      · exact (hts u hu).1
      · exact hplace.trans (hus u hu)
    · obtain ⟨-, hle, hlt⟩ := hts u hu
      exact ⟨hle.trans (hus v hv), fun htext => (hlt htext).trans_atMost (hus v hv)⟩

/-- **The tokens of a text stand in its order**, on lines counted from one. -/
theorem tokenize_ordered {text : String} {ts : List Token} (h : tokenize text = .ok ts) :
    (∀ t ∈ ts, 0 < t.start.line) ∧ ts.Pairwise Token.Precedes := by
  obtain ⟨hplace, hpairs⟩ := LexState.ordered h
  refine ⟨fun t ht => ?_, hpairs⟩
  have hstart : Position.start.AtMost t.start := hplace t ht
  unfold Position.AtMost at hstart
  simp only [Position.start] at hstart
  omega

end Gradual
