import Gradual.Proofs.Token.Blocks

/-!
# Ends of lines

A line end follows a token of its line, unless the line is hollow: it starts with a backslash that
continues it, and nothing but spacing and further such backslashes follows.

* `Filler`, `Filler.run`: what a run goes over inside a line without a token;
* `LexState.HollowLine`: a line without tokens that is not passed over as a blank one;
* `Heading`, **`LexRun.heading`**: a run inside a line that has no token yet;
* `LexState.HollowLine.tokens`: a hollow line has a line end of its own;
* `NewlinesEndCode`, **`newlines_end_code_iff`**: the line ends of a text follow tokens of their
  lines if and only if no line is hollow.
-/

namespace Gradual

open Source

/-! ## Inside a line -/

/-- What may stand between the tokens of one line, with `after` behind it: spacing, comments up to
the end of the line, and line breaks after a backslash. -/
inductive Filler : (text after : List Char) → Prop
  | nil (after : List Char) : Filler [] after
  | spacing {c : Char} {text after : List Char} (blank : isSpacing c = true)
      (more : Filler text after) : Filler ([c] ++ text) after
  | comment {remark text after : List Char} (line : ∀ c ∈ remark, isBreak c = false)
      (ends : ∀ c ∈ (text ++ after).head?, isBreak c = true) (more : Filler text after) :
      Filler ('#' :: remark ++ text) after
  | continuation {piece text after : List Char} (ends : LineBreak piece (text ++ after))
      (more : Filler text after) : Filler ('\\' :: piece ++ text) after

theorem Filler.append {a b after : List Char} (ha : Filler a (b ++ after)) (hb : Filler b after) :
    Filler (a ++ b) after := by
  generalize hrest : b ++ after = rest at ha
  induction ha with
  | nil => exact hb
  | spacing blank _ ih =>
    rw [List.append_assoc]
    exact .spacing blank (ih hrest)
  | comment line ends _ ih =>
    subst hrest
    rw [List.append_assoc]
    exact .comment line (by rwa [List.append_assoc]) (ih rfl)
  | continuation ends _ ih =>
    subst hrest
    rw [List.append_assoc]
    exact .continuation (by rwa [List.append_assoc]) (ih rfl)

theorem Filler.head {text after : List Char} {c : Char} (h : Filler text after)
    (hc : text.head? = some c) : isSpacing c = true ∨ c = '#' ∨ c = '\\' := by
  cases h with
  | nil => cases hc
  | spacing blank =>
    obtain rfl := Option.some.inj hc
    exact .inl blank
  | comment =>
    obtain rfl := Option.some.inj hc
    exact .inr (.inl rfl)
  | continuation =>
    obtain rfl := Option.some.inj hc
    exact .inr (.inr rfl)

/-- A step without a token may come before a run without tokens. -/
theorem LexStep.run_past {s : LexState} {piece text after : List Char}
    (next : LexStep s piece [] (s.past piece (text ++ after)))
    (run : LexRun (s.past piece (text ++ after)) text []
      ((s.past piece (text ++ after)).past text after)) :
    LexRun s (piece ++ text) [] (s.past (piece ++ text) after) := by
  rw [← LexState.past_past s next.cleanCut.of_append_right]
  exact .head next run

/-- A run goes over it without a token. -/
theorem Filler.run {text after : List Char} (h : Filler text after) :
    ∀ {s : LexState}, s.rest = text ++ after → s.lineStart = false →
      LexRun s text [] (s.past text after) := by
  induction h with
  | nil after =>
    intro s rest _
    obtain rfl : s.rest = after := rest
    exact .refl
  | spacing blank _ ih =>
    intro s rest inside
    rw [List.append_assoc] at rest
    exact LexStep.run_past (.spacing inside rest blank) (ih rfl inside)
  | comment line ends _ ih =>
    intro s rest inside
    rw [List.append_assoc] at rest
    exact LexStep.run_past (.comment inside rest line ends) (ih rfl inside)
  | continuation ends _ ih =>
    intro s rest inside
    rw [List.append_assoc] at rest
    exact LexStep.run_past (.continuation inside rest ends) (ih rfl inside)

/-! ## Hollow lines -/

/-- A line without tokens that is not passed over as a blank one: it starts with a backslash before
a line break, and goes on with nothing but spacing, further such backslashes and a comment, up to a
line break, or up to the end of the text if it is indented deeper than the open blocks. -/
def LexState.HollowLine (s : LexState) : Prop :=
  s.lineStart = true ∧ ∃ blanks filler after, s.rest = blanks ++ filler ++ after ∧
    (∀ c ∈ blanks, isSpacing c = true) ∧ filler.head? = some '\\' ∧ Filler filler after ∧
    ((∃ c, after.head? = some c ∧ isBreak c = true) ∨
      after = [] ∧ s.margin < indentWidth blanks)

/-- The last token so far has a text of its own. -/
def EndsInCode (ts : List Token) : Prop := ∃ k, lastKind ts = some k ∧ k.hasText = true

/-- The run stands in a line that started at `s₀`: after `blanks` and `filler` it has reached `s`,
and the line has no token with a text yet. -/
structure Heading (s₀ : LexState) (blanks filler : List Char) (ts : List Token) (s : LexState) :
    Prop where
  start : s₀.lineStart = true
  rest : s₀.rest = blanks ++ filler ++ s.rest
  blank : ∀ c ∈ blanks, isSpacing c = true
  fill : Filler filler s.rest
  begun : filler.head? = some '\\' ∨
    filler = [] ∧ (StartsCode s.rest ∨ s.rest = [] ∧ lastKind ts ≠ some .indent)
  outside : s.depth = 0
  deeper : lastKind ts = some .indent → s₀.margin < indentWidth blanks

section Heading

variable {s₀ s t : LexState} {blanks filler piece : List Char} {ts us : List Token}

/-- More filler keeps the line without a token. -/
theorem Heading.extend (h : Heading s₀ blanks filler ts s) {c : Char} {tail after : List Char}
    (rest : s.rest = c :: tail ++ after) (fill : Filler (c :: tail) after) :
    Heading s₀ blanks (filler ++ c :: tail) ts (s.past (c :: tail) after) := by
  have hhead : (filler ++ c :: tail).head? = some '\\' := by
    obtain hfill | ⟨rfl, ⟨d, ds, hrest, spacing, -, hash⟩ | ⟨hnil, -⟩⟩ := h.begun
    · rw [List.head?_append, hfill]
      rfl
    · -- the line starts here, with a character that is neither spacing nor `#`
      obtain ⟨rfl, -⟩ := List.cons.inj (hrest.symm.trans rest)
      obtain hc | hc | rfl := fill.head rfl
      · cases spacing.symm.trans hc
      · exact absurd hc hash
      · rfl
    · cases rest.symm.trans hnil
  refine ⟨h.start, ?_, h.blank, .append (rest ▸ h.fill) fill, .inl hhead, h.outside, h.deeper⟩
  rw [h.rest, rest]
  simp [LexState.past]

theorem Heading.hollowLine (h : Heading s₀ blanks filler ts s) (hfill : filler.head? = some '\\')
    (ends : (∃ c, s.rest.head? = some c ∧ isBreak c = true) ∨
      s.rest = [] ∧ s₀.margin < indentWidth blanks) : s₀.HollowLine :=
  ⟨h.start, blanks, filler, s.rest, h.rest, h.blank, hfill, h.fill, ends⟩

/-- A step inside a line without a token ends the line, gives it a token or goes on in it. -/
theorem Heading.step (h : Heading s₀ blanks filler ts s) (inside : s.lineStart = false)
    (next : LexStep s piece us t) :
    t.lineStart = true ∨ EndsInCode (ts ++ us) ∨
      ∃ filler, Heading s₀ blanks filler (ts ++ us) t := by
  cases next with
  | @spacing c cs _ rest blank =>
    rw [List.append_nil]
    exact .inr (.inr ⟨_, h.extend rest (.spacing blank (.nil cs))⟩)
  | innerBreak _ _ _ bracketed => exact absurd h.outside (by omega)
  | newline => exact .inl rfl
  | @comment text cs _ rest line ends =>
    have fill : Filler ('#' :: text ++ []) cs := .comment line ends (.nil cs)
    rw [List.append_nil] at fill ⊢
    exact .inr (.inr ⟨_, h.extend rest fill⟩)
  | @continuation piece cs _ rest ends =>
    have fill : Filler ('\\' :: piece ++ []) cs := .continuation ends (.nil cs)
    rw [List.append_nil] at fill ⊢
    exact .inr (.inr ⟨_, h.extend rest fill⟩)
  | token _ _ _ _ found =>
    exact .inr (.inl ⟨_, lastKind_append_singleton, recognise_hasText found⟩)
  | bracketLine start | blankEnd start | indent start | dedent start | blankLine start
  | commentLine start =>
    cases inside.symm.trans start

theorem lastKind_of_dedents {u : Token} {n : Nat} {k : TokenKind} (hu : u.kind = .dedent)
    (h : lastKind (ts ++ List.replicate n u) = some k) : lastKind ts = some k ∨ k = .dedent := by
  cases n with
  | zero => exact .inl (by simpa using h)
  | succ n =>
    rw [List.replicate_succ', ← List.append_assoc, lastKind_append_singleton, hu] at h
    exact .inr (Option.some.inj h).symm

theorem EndsInCode.step (h : EndsInCode ts) (inside : s.lineStart = false)
    (next : LexStep s piece us t) : t.lineStart = true ∨ EndsInCode (ts ++ us) := by
  cases next with
  | spacing | innerBreak | comment | continuation =>
    rw [List.append_nil]
    exact .inr h
  | newline => exact .inl rfl
  | token _ _ _ _ found =>
    exact .inr ⟨_, lastKind_append_singleton, recognise_hasText found⟩
  | bracketLine start | blankEnd start | indent start | dedent start | blankLine start
  | commentLine start =>
    cases inside.symm.trans start

/-- A step at the start of a line goes over a blank line or enters the line. -/
theorem Standing.heading (h : Standing ts s) (hstart : s.lineStart = true)
    (next : LexStep s piece us t) :
    t.lineStart = true ∨ ∃ blanks, Heading s blanks [] (ts ++ us) t := by
  have hfresh : lastKind ts ≠ some .indent := by
    rcases h.fresh hstart with hlast | hlast <;> simp [hlast]
  cases next with
  | spacing inside | innerBreak inside | newline inside | comment inside | continuation inside
  | token inside => cases inside.symm.trans hstart
  | bracketLine start bracketed => exact absurd (h.outside start) (by omega)
  | blankLine | commentLine => exact .inl rfl
  | blankEnd start outside blank =>
    rw [List.append_nil]
    exact .inr ⟨s.rest, start, by simp [LexState.past], blank, .nil _,
      .inr ⟨rfl, .inr ⟨rfl, hfresh⟩⟩, outside, fun hlast => absurd hlast hfresh⟩
  | indent start outside rest blank code deeper =>
    exact .inr ⟨_, start, by simpa using rest, blank, .nil _, .inr ⟨rfl, .inl code⟩, outside,
      fun _ => deeper⟩
  | @dedent _ _ closed _ start outside rest blank code =>
    refine .inr ⟨_, start, by simpa using rest, blank, .nil _, .inr ⟨rfl, .inl code⟩, outside,
      fun hindent => ?_⟩
    obtain hsame | hdedent := lastKind_of_dedents rfl hindent
    · exact absurd hsame hfresh
    · cases hdedent

/-- **Inside a line a run stands behind a token of the line, or the line has no token yet.** -/
theorem LexRun.heading {source text : List Char} (h : LexRun (LexState.start source) text ts s) :
    s.lineStart = true ∨ EndsInCode ts ∨ ∃ text₀ ts₀ s₀ blanks filler,
      LexRun (LexState.start source) text₀ ts₀ s₀ ∧ Heading s₀ blanks filler ts s := by
  induction h with
  | refl => exact .inl rfl
  | @step _ _ ts us s t run next ih =>
    cases hstart : s.lineStart with
    | true =>
      refine (run.standing_of_start.heading hstart next).imp_right fun ⟨blanks, hheading⟩ => ?_
      exact .inr ⟨_, _, s, blanks, [], run, hheading⟩
    | false =>
      obtain hline | hcode | ⟨text₀, ts₀, s₀, blanks, filler, run₀, hheading⟩ := ih
      · cases hstart.symm.trans hline
      · exact (hcode.step hstart next).imp_right .inl
      · refine (hheading.step hstart next).imp_right (.imp_right fun ⟨filler, hheading⟩ => ?_)
        exact ⟨text₀, ts₀, s₀, blanks, filler, run₀, hheading⟩

end Heading

/-! ## A hollow line has a line end -/

/-- Each line end comes right after a token of its line. -/
def NewlinesEndCode (ts : List Token) : Prop :=
  ∀ us t vs, ts = us ++ t :: vs → t.kind = .newline →
    ∃ u, us.getLast? = some u ∧ u.kind ≠ .newline ∧ u.kind ≠ .indent ∧ u.kind ≠ .dedent

instance : DecidablePred NewlinesEndCode := fun ts =>
  decidable_of_iff (∀ n, (h : n < ts.length) → ts[n].kind = .newline →
    ∃ u ∈ (ts.take n).getLast?, u.kind ≠ .newline ∧ u.kind ≠ .indent ∧ u.kind ≠ .dedent)
    (forall_split_iff (p := fun us t _ => t.kind = .newline →
      ∃ u, us.getLast? = some u ∧ u.kind ≠ .newline ∧ u.kind ≠ .indent ∧ u.kind ≠ .dedent)).symm

/-- Whether a token may come right after another one: a line ends right after a token with a
text. -/
def TokenKind.EndsCode (k : TokenKind) (before : Option TokenKind) : Prop :=
  k = .newline → ∃ b, before = some b ∧ b.hasText = true

section LineEnds

variable {s t : LexState} {source text : List Char} {ts us : List Token}

/-- What leaves a line open is a token of the line or the start of a block. -/
theorem LexRun.endsInCode_or_indent (run : LexRun (LexState.start source) text ts s)
    (hopen : s.lineOpen = true) : EndsInCode ts ∨ lastKind ts = some .indent := by
  have hended : ¬LineEnded ts := fun hended => by
    cases hopen.symm.trans (run.standing_of_start.ended.2 hended)
  cases hlast : lastKind ts with
  | none => exact absurd (.inl hlast) hended
  | some k =>
    obtain ⟨u, hu, rfl⟩ := exists_of_lastKind hlast
    have hne := run.kind_ne_eof u (List.mem_of_getLast? hu)
    have hnewline : u.kind ≠ .newline := fun hk => hended (.inr (.inl (hk ▸ hlast)))
    have hdedent : u.kind ≠ .dedent := fun hk => hended (.inr (.inr (hk ▸ hlast)))
    by_cases hindent : u.kind = .indent
    · exact .inr (congrArg some hindent)
    · exact .inl ⟨_, hlast, TokenKind.hasText_iff.2 ⟨hnewline, hindent, hdedent, hne⟩⟩

/-- A line end at the current place comes after a token of its line, or the line is hollow. -/
theorem LexRun.endsInCode_or_hollow (run : LexRun (LexState.start source) text ts s)
    (inside : s.lineStart = false)
    (ends : (∃ c, s.rest.head? = some c ∧ isBreak c = true) ∨ s.rest = [] ∧ s.lineOpen = true) :
    EndsInCode ts ∨
      ∃ text₀ ts₀ s₀, LexRun (LexState.start source) text₀ ts₀ s₀ ∧ s₀.HollowLine := by
  obtain hline | hcode | ⟨text₀, ts₀, s₀, blanks, filler, run₀, h⟩ := run.heading
  · cases inside.symm.trans hline
  · exact .inl hcode
  · obtain hfill | ⟨-, ⟨c, cs, hrest, -, hc, -⟩ | ⟨hnil, hfresh⟩⟩ := h.begun
    · rcases ends with ends | ⟨hnil, hopen⟩
      · exact .inr ⟨text₀, ts₀, s₀, run₀, h.hollowLine hfill (.inl ends)⟩
      · refine (run.endsInCode_or_indent hopen).imp_right fun hindent => ?_
        exact ⟨text₀, ts₀, s₀, run₀, h.hollowLine hfill (.inr ⟨hnil, h.deeper hindent⟩)⟩
    · rcases ends with ⟨d, hd, hbreak⟩ | ⟨hnil, -⟩
      · rw [hrest] at hd
        obtain rfl := Option.some.inj hd
        cases hc.symm.trans hbreak
      · cases hrest.symm.trans hnil
    · rcases ends with ⟨d, hd, -⟩ | ⟨-, hopen⟩
      · rw [hnil] at hd
        cases hd
      · exact .inl ((run.endsInCode_or_indent hopen).resolve_right hfresh)

/-- A line that is open at its end yields a line end first. -/
theorem LexState.tokens_lineEnd (inside : s.lineStart = false) (outside : s.depth = 0)
    (ends : (∃ c, s.rest.head? = some c ∧ isBreak c = true) ∨ s.rest = [] ∧ s.lineOpen = true)
    (hts : s.tokens = .ok ts) : ∃ t vs, ts = t :: vs ∧ t.kind = .newline := by
  rcases ends with ⟨c, hc, hbreak⟩ | ⟨hnil, hopen⟩
  · obtain ⟨cs, hrest⟩ := List.head?_eq_some_iff.1 hc
    have hends := lineBreak_take cs hbreak
    have hstep := LexStep.newline inside (by rw [hrest, List.take_append_drop]) hends outside
    obtain ⟨vs, -, rfl⟩ := (LexRun.step .refl hstep).exists_tokens hts
    exact ⟨s.newline, vs, rfl, rfl⟩
  · have hdone : s.isDone = true := by simp [isDone, hnil, inside]
    obtain rfl := Except.ok.inj ((tokens_of_isDone hdone).symm.trans hts)
    rw [finish_eq, lineEnd, if_pos hopen]
    exact ⟨s.newline, _, rfl, rfl⟩

/-- Filler with nothing behind it on its line comes before a line end. -/
theorem LexStep.tokens_filler {piece filler after : List Char} {opening : List Token}
    (next : LexStep s piece opening t) (rest : t.rest = filler ++ after)
    (inside : t.lineStart = false) (outside : t.depth = 0) (fill : Filler filler after)
    (ends : (∃ c, after.head? = some c ∧ isBreak c = true) ∨ after = [] ∧ t.lineOpen = true)
    (hts : s.tokens = .ok ts) : ∃ u vs, ts = opening ++ u :: vs ∧ u.kind = .newline := by
  obtain ⟨ws, hws, rfl⟩ := (LexRun.head next (fill.run rest inside)).exists_tokens hts
  have hend := LexState.tokens_lineEnd (s := t.past filler after) inside outside ends hws
  obtain ⟨u, vs, rfl, hu⟩ := hend
  exact ⟨u, vs, by rw [List.append_nil], hu⟩

/-- Blocks are closed down to a level that is at most the margin. -/
theorem LexState.le_margin {closed kept : List Nat} {width : Nat}
    (hsplit : s.indents = closed ++ kept) (hclosed : ∀ w ∈ closed, width < w)
    (hkept : kept.headD 0 = width) : width ≤ s.margin := by
  rw [margin, hsplit]
  cases closed with
  | nil => exact hkept.ge
  | cons w closed => exact (hclosed w (by simp)).le

/-- A hollow line yields a line end right after what opens or closes blocks at its start. -/
theorem LexState.HollowLine.tokens (h : s.HollowLine) (hs : Standing us s)
    (hts : s.tokens = .ok ts) :
    ∃ opening u vs, ts = opening ++ u :: vs ∧ u.kind = .newline ∧
      ∀ k, lastKind (us ++ opening) = some k → k = .newline ∨ k = .indent ∨ k = .dedent := by
  obtain ⟨start, blanks, filler, after, rest, blank, hfill, fill, ends⟩ := h
  obtain ⟨tail, rfl⟩ := List.head?_eq_some_iff.1 hfill
  have outside := hs.outside start
  have hdone : s.isDone = false := by simp [isDone, start]
  have code : StartsCode ('\\' :: tail ++ after) := ⟨'\\', _, rfl, rfl, rfl, by decide⟩
  rw [List.append_assoc] at rest
  have hstep := (step_start start outside).trans (startLine_code rest blank code)
  cases hind : { s.past blanks ('\\' :: tail ++ after) with lineStart := false }.indentTo
      (indentWidth blanks) with
  | error e => cases (tokens_of_error hdone (hstep.trans hind)).symm.trans hts
  | ok r =>
    obtain ⟨opening, t⟩ := r
    have next := lexStep_of_indentTo start outside rest blank code hind
    obtain ⟨-, rfl, rfl⟩ | ⟨closed, kept, hsplit, hclosed, hkept, rfl, rfl⟩ := indentTo_eq_ok hind
    · obtain ⟨u, vs, rfl, hu⟩ := next.tokens_filler rfl rfl outside fill
        (ends.imp_right fun hend => ⟨hend.1, rfl⟩) hts
      refine ⟨_, u, vs, rfl, hu, fun k hk => .inr (.inl ?_)⟩
      exact (Option.some.inj (lastKind_append_singleton.symm.trans hk)).symm
    · -- a line that closes blocks is not deeper than them, so it ends in a line break
      have hshallow : indentWidth blanks ≤ s.margin := le_margin hsplit hclosed hkept
      obtain ⟨u, vs, rfl, hu⟩ := next.tokens_filler rfl rfl outside fill
        (ends.imp_right fun hend => absurd hend.2 hshallow.not_gt) hts
      refine ⟨_, u, vs, rfl, hu, fun k hk => ?_⟩
      obtain hsame | rfl := lastKind_of_dedents rfl hk
      · obtain hnone | hnewline := hs.fresh start
        · cases hnone.symm.trans hsame
        · exact .inl (Option.some.inj (hnewline.symm.trans hsame)).symm
      · exact .inr (.inr rfl)

theorem EachAfter.append_of_forall {r : TokenKind → Option TokenKind → Prop} (h : EachAfter r ts)
    (hus : ∀ u ∈ us, ∀ before, r u.kind before) : EachAfter r (ts ++ us) := by
  induction us using List.reverseRecOn with
  | nil => rwa [List.append_nil]
  | append_singleton us u ih =>
    rw [← List.append_assoc]
    exact (ih fun v hv => hus v (by simp [hv])).append_singleton (hus u (by simp) _)

/-- A step yields no line end, or it yields one at a line break inside a line. -/
theorem LexStep.newline_cases (next : LexStep s text us t) :
    (∀ u ∈ us, u.kind ≠ .newline) ∨
      us = [s.newline] ∧ s.lineStart = false ∧ ∃ c, s.rest.head? = some c ∧ isBreak c = true := by
  cases next with
  | spacing | innerBreak | comment | continuation | bracketLine | blankEnd | blankLine
  | commentLine => exact .inl (by simp)
  | newline inside rest ends =>
    obtain ⟨c, cs, hcons, hc⟩ := ends.exists_cons
    exact .inr ⟨rfl, inside, c, by rw [rest, hcons]; rfl, hc⟩
  | @token _ _ kind _ _ _ _ _ found =>
    refine .inl (List.forall_mem_singleton.2 fun hk => ?_)
    obtain rfl : kind = .newline := hk
    cases recognise_hasText found
  | indent => exact .inl (by simp [LexState.bare])
  | dedent => exact .inl (by simp [LexState.bare])

theorem LexRun.eachAfter_endsCode
    (hnone : ¬∃ before us s, LexRun (LexState.start source) before us s ∧ s.HollowLine)
    (run : LexRun (LexState.start source) text ts s) : EachAfter TokenKind.EndsCode ts := by
  induction run with
  | refl => exact eachAfter_nil _
  | step run next ih =>
    obtain hother | ⟨rfl, inside, ends⟩ := next.newline_cases
    · exact ih.append_of_forall fun u hu _ hk => absurd hk (hother u hu)
    · refine ih.append_singleton fun _ => ?_
      exact (run.endsInCode_or_hollow inside (.inl ends)).resolve_right hnone

/-- The line end at the end of the text follows a token of its line too. -/
theorem LexRun.eachAfter_endsCode_finish
    (hnone : ¬∃ before us s, LexRun (LexState.start source) before us s ∧ s.HollowLine)
    (run : LexRun (LexState.start source) text ts s) (hdone : s.isDone = true) :
    EachAfter TokenKind.EndsCode (ts ++ s.finish) := by
  obtain ⟨hrest, inside⟩ : s.rest = [] ∧ s.lineStart = false := by
    simpa [LexState.isDone] using hdone
  have hend : EachAfter TokenKind.EndsCode (ts ++ s.lineEnd) := by
    unfold LexState.lineEnd
    split
    · next hopen =>
      refine (run.eachAfter_endsCode hnone).append_singleton fun _ => ?_
      exact (run.endsInCode_or_hollow inside (.inr ⟨hrest, hopen⟩)).resolve_right hnone
    · rw [List.append_nil]
      exact run.eachAfter_endsCode hnone
  rw [LexState.finish_eq, List.append_assoc, ← List.append_assoc ts]
  refine hend.append_of_forall fun u hu _ hk => ?_
  simp only [List.mem_append, List.mem_replicate, List.mem_singleton] at hu
  rcases hu with ⟨-, rfl⟩ | rfl <;> cases hk

/-- **Each line end follows a token of its line** if and only if no line of the text is hollow. -/
theorem newlines_end_code_iff {text : String} (h : tokenize text = .ok ts) :
    NewlinesEndCode ts ↔ ¬∃ before us s,
      LexRun (LexState.start text.toList) before us s ∧ s.HollowLine := by
  constructor
  · rintro hts ⟨before, us, s, run, hollow⟩
    obtain ⟨ws, hws, rfl⟩ := run.exists_tokens h
    obtain ⟨opening, t, vs, rfl, ht, hlast⟩ := hollow.tokens run.standing_of_start hws
    obtain ⟨u, hu, hnewline, hindent, hdedent⟩ :=
      hts (us ++ opening) t vs (List.append_assoc ..).symm ht
    rcases hlast u.kind (congrArg (Option.map Token.kind) hu) with hk | hk | hk
    exacts [hnewline hk, hindent hk, hdedent hk]
  · intro hnone us t vs heq ht
    obtain ⟨ws, u, run, hdone, rfl⟩ := LexState.exists_run h
    obtain ⟨k, hk, htext⟩ := run.eachAfter_endsCode_finish hnone hdone us t vs heq ht
    obtain ⟨v, hv, rfl⟩ := exists_of_lastKind hk
    obtain ⟨hnewline, hindent, hdedent, -⟩ := TokenKind.hasText_iff.1 htext
    exact ⟨v, hv, hnewline, hindent, hdedent⟩

/-- A block whose line starts with a backslash, and goes on with a token on the next line. -/
def continuedBlock : String := "f:\n  \\\n x\n\ny\n"

theorem continuedBlock_not_hollow : ∃ ts, tokenize continuedBlock = .ok ts ∧ NewlinesEndCode ts ∧
    ¬∃ before us s, LexRun (LexState.start continuedBlock.toList) before us s ∧ s.HollowLine := by
  have h : tokenize continuedBlock = .ok ((tokenize continuedBlock).toOption.getD []) := by
    decide +kernel
  have hend : NewlinesEndCode ((tokenize continuedBlock).toOption.getD []) := by decide +kernel
  exact ⟨_, h, hend, (newlines_end_code_iff h).1 hend⟩

/-- A hollow line has a line end without a token: as the first line, and as the last one if it is
indented. -/
theorem hollow_lines_end : (∃ ts, tokenize "\\\n\n" = .ok ts ∧ ¬NewlinesEndCode ts) ∧
    ∃ ts, tokenize "  \\\n" = .ok ts ∧ ¬NewlinesEndCode ts := by
  have hfirst : tokenize "\\\n\n" = .ok ((tokenize "\\\n\n").toOption.getD []) := by
    decide +kernel
  have hlast : tokenize "  \\\n" = .ok ((tokenize "  \\\n").toOption.getD []) := by
    decide +kernel
  exact ⟨⟨_, hfirst, by decide +kernel⟩, _, hlast, by decide +kernel⟩

end LineEnds

end Gradual
