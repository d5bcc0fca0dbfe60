import Gradual.Proofs.Token.Blocks
import Gradual.Proofs.Token.Boundary

/-!
# A line spaced anew

The lexemes of a line with single spaces between them are read as the same tokens again: what was
between them in the text, and where its lines were broken, does not matter.

* `Token.reading`: a token without its place;
* `Lexeme.exists_step`, **`Lexeme.tokenize_eq`**, `tokenize_fault`: a text that is one token or
  starts with none;
* `exists_run_lexemes`, **`tokenize_lexemes`**: lexemes with spaces between them;
* `lexeme_of_mem`: the tokens of a text are lexemes;
* `OneLine`, `respaced`, **`tokenize_respaced`**: a text of one line and its lexemes with spaces
  between them have the same tokens.
-/

namespace Gradual

open Source

/-- A token without its place. -/
def Token.reading (t : Token) : TokenKind × String := (t.kind, t.lexeme)

/-! ## A run over lexemes -/

section Lexemes

variable {s t : LexState} {k : TokenKind} {text after : List Char} {ts us : List Token}

theorem Lexeme.hasText (h : Lexeme k text) : k.hasText = true := by
  obtain ⟨c, cs, rfl, -⟩ := h.code
  exact recognise_hasText (h.read c cs [] rfl detached_nil)

/-- A lexeme before a detached text is gone over as one token. -/
theorem Lexeme.exists_step (h : Lexeme k text) (inside : s.lineStart = false)
    (rest : s.rest = text ++ after) (behind : Detached after) :
    ∃ t, LexStep s text [⟨k, String.ofList text, s.place⟩] t ∧ t.rest = after ∧
      t.lineStart = false ∧ t.indents = s.indents ∧ t.lineOpen = true := by
  obtain ⟨c, cs, rfl, hcode⟩ := h.code
  have hread := h.read c cs after rfl behind
  have next := LexStep.token inside rest ⟨c, cs ++ after, rest, hcode⟩
    (fun hc => h.whole (congrArg some hc)) hread
  have htake : s.rest.take (cs.length + 1) = c :: cs := by simp [rest]
  have hdrop : s.rest.drop (cs.length + 1) = after := by simp [rest]
  rw [htake, hdrop] at next
  exact ⟨_, next, rfl, inside, rfl, rfl⟩

/-- The first line is entered at once if no blanks stand before its first token. -/
theorem lexStep_start (code : StartsCode text) :
    LexStep (LexState.start text) [] [] { LexState.start text with lineStart := false } :=
  @LexStep.dedent (LexState.start text) [] text [] [] rfl rfl rfl (by simp) code rfl (by simp) rfl

/-- **A lexeme alone** is one token, with the end of its line and of the text behind it. -/
theorem Lexeme.tokenize_eq {text : String} (h : Lexeme k text.toList) :
    tokenize text = .ok [⟨k, text, .start⟩,
      ⟨.newline, "\n", Position.start.after text.toList⟩,
      ⟨.eof, "", Position.start.after text.toList⟩] := by
  obtain ⟨t, next, hrest, hline, hindents, hopen⟩ :=
    @Lexeme.exists_step { LexState.start text.toList with lineStart := false } k text.toList [] h
      rfl (List.append_nil _).symm detached_nil
  have hdone : t.isDone = true := by simp [LexState.isDone, hrest, hline]
  have hplace : t.place = Position.start.after text.toList := next.place_eq
  rw [tokenize, (lexStep_start h.code).tokens_eq_of_nil, next.tokens_eq, tokens_of_isDone hdone,
    LexState.finish_eq, LexState.lineEnd, if_pos hopen, hindents, LexState.newline, LexState.bare,
    LexState.bare, hplace, String.ofList_toList]
  rfl

/-- A text that starts with what is no token has its fault there. -/
theorem tokenize_fault {text : String} {c : Char} {cs : List Char} {fault : LexFault}
    (htext : text.toList = c :: cs) (code : StartsCode text.toList) (whole : c ≠ '\\')
    (h : recognise c cs = .error fault) : tokenize text = .error ⟨fault, .start⟩ := by
  obtain ⟨d, ds, hcons, spacing, line, hash⟩ := id code
  obtain ⟨rfl, rfl⟩ := List.cons.inj (htext.symm.trans hcons)
  have hstep : { LexState.start text.toList with lineStart := false }.step =
      .error ⟨fault, .start⟩ := by
    rw [LexState.step_inside rfl htext, LexState.inLine, spacing, if_neg Bool.false_ne_true, line,
      if_neg Bool.false_ne_true, if_neg (by simpa using hash), if_neg (by simpa using whole), h]
    rfl
  have hdone : { LexState.start text.toList with lineStart := false }.isDone = false := by
    simp [LexState.isDone, LexState.start, htext]
  rw [tokenize, (lexStep_start code).tokens_eq_of_nil, tokens_of_error hdone hstep]

/-- The lexemes of some tokens, with single spaces between them. -/
def spaced (us : List Token) : List Char := [' '].intercalate (us.map (·.lexeme.toList))

theorem spaced_cons (u : Token) (us : List Token) :
    spaced (u :: us) = u.lexeme.toList ++ if us = [] then [] else ' ' :: spaced us := by
  cases us with
  | nil => simp [spaced]
  | cons v us => simp [spaced, List.intercalate_cons_cons]

/-- Lexemes with spaces between them are gone over token by token. -/
theorem exists_run_lexemes (hus : ∀ u ∈ us, Lexeme u.kind u.lexeme.toList)
    (inside : s.lineStart = false) (rest : s.rest = spaced us) :
    ∃ ts t, LexRun s (spaced us) ts t ∧ ts.map Token.reading = us.map Token.reading ∧
      t.rest = [] ∧ t.lineStart = false ∧ t.indents = s.indents ∧
      (us ≠ [] → t.lineOpen = true) := by
  induction us generalizing s with
  | nil => exact ⟨[], s, .refl, rfl, rest, inside, rfl, absurd rfl⟩
  | cons u us ih =>
    obtain ⟨hu, hus⟩ := List.forall_mem_cons.1 hus
    rw [spaced_cons] at rest ⊢
    by_cases hnil : us = []
    · subst hnil
      rw [if_pos rfl] at rest ⊢
      obtain ⟨t, next, hrest, hline, hindents, hopen⟩ := hu.exists_step inside rest detached_nil
      rw [List.append_nil]
      exact ⟨_, t, .step .refl next, by simp [Token.reading], hrest, hline, hindents,
        fun _ => hopen⟩
    · rw [if_neg hnil] at rest ⊢
      obtain ⟨s₁, next, hrest₁, hline₁, hindents₁, -⟩ :=
        hu.exists_step inside rest (detached_cons rfl _)
      have hspace : LexStep s₁ [' '] [] (s₁.past [' '] (spaced us)) := .spacing hline₁ hrest₁ rfl
      obtain ⟨ts, t, run, hts, hrest, hline, hindents, hopen⟩ :=
        ih (s := s₁.past [' '] (spaced us)) hus hline₁ rfl
      refine ⟨_, t, .head next (.head hspace run), ?_, hrest, hline, hindents.trans hindents₁,
        fun _ => hopen hnil⟩
      simp [Token.reading, hts]

/-- **Lexemes with single spaces between them are the tokens of their text.** -/
theorem tokenize_lexemes (hus : ∀ u ∈ us, Lexeme u.kind u.lexeme.toList) (hne : us ≠ []) :
    ∃ ts, tokenize (" ".intercalate (us.map Token.lexeme)) = .ok ts ∧
      ts.map Token.reading = us.map Token.reading ++ [(.newline, "\n"), (.eof, "")] := by
  have htext : (" ".intercalate (us.map Token.lexeme)).toList = spaced us := by
    rw [String.toList_intercalate, List.map_map]
    rfl
  have code : StartsCode (spaced us) := by
    obtain ⟨u, us, rfl⟩ := List.exists_cons_of_ne_nil hne
    obtain ⟨c, cs, hc, hcode⟩ := (hus u (by simp)).code
    exact ⟨c, _, by rw [spaced_cons, hc]; rfl, hcode⟩
  obtain ⟨ts, t, run, hts, hrest, hline, hindents, hopen⟩ :=
    exists_run_lexemes (s := { LexState.start (spaced us) with lineStart := false }) hus rfl rfl
  have hdone : t.isDone = true := by simp [LexState.isDone, hrest, hline]
  refine ⟨ts ++ t.finish, ?_, ?_⟩
  · rw [tokenize, htext, (LexRun.head (lexStep_start code) run).tokens_eq, tokens_of_isDone hdone]
    rfl
  · rw [List.map_append, hts, LexState.finish_eq, LexState.lineEnd, if_pos (hopen hne), hindents]
    rfl

end Lexemes

/-! ## A text of one line -/

/-- The tokens of one line: they open and close no block, a line ends only right before the end of
the text, and there is a token besides these ends. -/
structure OneLine (ts : List Token) : Prop where
  unnested : ∀ t ∈ ts, t.kind ≠ .indent ∧ t.kind ≠ .dedent
  ended : ∀ us t vs, ts = us ++ t :: vs → t.kind = .newline → vs.map Token.kind = [.eof]
  code : ∃ t ∈ ts, t.kind ≠ .newline ∧ t.kind ≠ .eof

instance : DecidablePred OneLine := fun ts =>
  decidable_of_iff ((∀ t ∈ ts, t.kind ≠ .indent ∧ t.kind ≠ .dedent) ∧
    (∀ n, (h : n < ts.length) → ts[n].kind = .newline →
      (ts.drop (n + 1)).map Token.kind = [.eof]) ∧
    ∃ t ∈ ts, t.kind ≠ .newline ∧ t.kind ≠ .eof)
    ⟨fun h => ⟨h.1, forall_split_iff.2 h.2.1, h.2.2⟩,
      fun h => ⟨h.unnested, forall_split_iff.1 h.ended, h.code⟩⟩

/-- The lexemes of a line with single spaces between them. -/
def respaced (ts : List Token) : String :=
  " ".intercalate ((ts.filter fun t => t.kind ≠ .newline ∧ t.kind ≠ .eof).map Token.lexeme)

section OneLine

variable {s t : LexState} {text : List Char} {ts us : List Token}

/-- What steps yield: a token with its lexeme, the end of a line, or the start or the end of a
block. -/
def Token.Yielded (u : Token) : Prop :=
  Lexeme u.kind u.lexeme.toList ∨ u.reading = (.newline, "\n") ∨ u.kind = .indent ∨ u.kind = .dedent

theorem LexStep.yielded (next : LexStep s text us t) : ∀ u ∈ us, u.Yielded := by
  cases next with
  | spacing | innerBreak | comment | continuation | bracketLine | blankEnd | blankLine
  | commentLine => simp
  | newline => exact List.forall_mem_singleton.2 (.inr (.inl rfl))
  | token _ rest code whole found =>
    rw [List.forall_mem_singleton, Token.Yielded, String.toList_ofList, rest]
    exact .inl (recognise_lexeme found (rest ▸ code) whole)
  | indent => exact List.forall_mem_singleton.2 (.inr (.inr (.inl rfl)))
  | dedent =>
    intro u hu
    rw [(List.mem_replicate.1 hu).2]
    exact .inr (.inr (.inr rfl))

theorem LexRun.yielded (run : LexRun s text us t) : ∀ u ∈ us, u.Yielded := by
  induction run with
  | refl => simp
  | step _ next ih => exact List.forall_mem_append.2 ⟨ih, next.yielded⟩

/-- A token that has a text is a lexeme. -/
theorem lexeme_of_mem {text : String} {u : Token} (h : tokenize text = .ok ts) (hu : u ∈ ts)
    (htext : u.kind.hasText = true) : Lexeme u.kind u.lexeme.toList := by
  obtain ⟨us, t, run, -, rfl⟩ := LexState.exists_run h
  obtain ⟨hnewline, hindent, hdedent, -⟩ := TokenKind.hasText_iff.1 htext
  rcases List.mem_append.1 hu with hu | hu
  · obtain hlexeme | hreading | hk | hk := run.yielded u hu
    · exact hlexeme
    · exact absurd (congrArg Prod.fst hreading) hnewline
    · exact absurd hk hindent
    · exact absurd hk hdedent
  · cases htext.symm.trans (LexState.mem_finish hu).2

theorem LexState.yielded_lineEnd (t : LexState) : ∀ u ∈ t.lineEnd, u.Yielded := by
  intro u hu
  unfold lineEnd at hu
  split at hu
  · rw [List.mem_singleton.1 hu]
    exact .inr (.inl rfl)
  · cases hu

/-- What a text of one line has before its end is ended as a line. -/
theorem OneLine.lastKind_eq {text : String} (h : OneLine (us ++ t.finish))
    (run : LexRun (LexState.start text.toList) text.toList us t) :
    t.indents = [] ∧ lastKind (us ++ t.lineEnd) = some .newline := by
  have hs := run.standing_of_start
  have hindents : t.indents = [] := by
    cases hind : t.indents with
    | nil => rfl
    | cons w ws =>
      have hmem : t.bare .dedent ∈ us ++ t.finish := by simp [LexState.finish_eq, hind]
      exact absurd rfl (h.unnested _ hmem).2
  refine ⟨hindents, ?_⟩
  unfold LexState.lineEnd
  split
  · exact lastKind_append_singleton
  · next hclosed =>
    rw [List.append_nil]
    rcases hs.ended.1 (Bool.eq_false_iff.2 hclosed) with hnone | hnewline | hdedent
    · -- without a token there is only the end of the text
      obtain rfl : us = [] := by simpa [lastKind] using hnone
      obtain ⟨u, hu, -, heof⟩ := h.code
      rw [LexState.finish_eq, LexState.lineEnd, if_neg hclosed, hindents] at hu
      obtain rfl : u = t.bare .eof := by simpa using hu
      exact absurd rfl heof
    · exact hnewline
    · obtain ⟨u, hu, hkind⟩ := exists_of_lastKind hdedent
      have hmem : u ∈ us ++ t.finish := List.mem_append_left _ (List.mem_of_getLast? hu)
      exact absurd hkind (h.unnested u hmem).2

/-- The tokens of one line are lexemes, the end of the line and the end of the text. -/
theorem OneLine.eq_append {text : String} (h : OneLine ts) (hts : tokenize text = .ok ts) :
    ∃ us n e, ts = us ++ [n, e] ∧ us ≠ [] ∧ (∀ u ∈ us, Lexeme u.kind u.lexeme.toList) ∧
      n.reading = (.newline, "\n") ∧ e.reading = (.eof, "") := by
  obtain ⟨ws, t, run, -, rfl⟩ := LexState.exists_run hts
  obtain ⟨hindents, hlast⟩ := h.lastKind_eq run
  obtain ⟨n, hn, hkind⟩ := exists_of_lastKind hlast
  obtain ⟨us, hus⟩ := List.getLast?_eq_some_iff.1 hn
  have hall : ws ++ t.finish = us ++ [n, t.bare .eof] := by
    rw [LexState.finish_eq, hindents, ← List.append_assoc, ← List.append_assoc, hus]
    simp
  have hyielded := List.forall_mem_append.2 ⟨run.yielded, t.yielded_lineEnd⟩
  rw [hus] at hyielded
  rw [hall] at h ⊢
  refine ⟨us, n, t.bare .eof, rfl, ?_, fun u hu => ?_, ?_, rfl⟩
  · rintro rfl
    obtain ⟨u, hu, hnewline, heof⟩ := h.code
    obtain rfl | rfl : u = n ∨ u = t.bare .eof := by simpa using hu
    · exact hnewline hkind
    · exact heof rfl
  · obtain ⟨hindent, hdedent⟩ := h.unnested u (List.mem_append_left _ hu)
    obtain hlexeme | hnewline | hk | hk := hyielded u (List.mem_append_left _ hu)
    · exact hlexeme
    · obtain ⟨before, after, rfl⟩ := List.append_of_mem hu
      have hended := h.ended before u (after ++ [n, t.bare .eof]) (by simp)
        (congrArg Prod.fst hnewline)
      have hlen := congrArg List.length hended
      simp at hlen
    · exact absurd hk hindent
    · exact absurd hk hdedent
  · obtain hlexeme | hnewline | hk | hk := hyielded n (by simp)
    · have htext := hlexeme.hasText
      rw [hkind] at htext
      cases htext
    · exact hnewline
    · cases hkind.symm.trans hk
    · cases hkind.symm.trans hk

/-- **A text of one line and its lexemes with single spaces between them have the same tokens.** -/
theorem tokenize_respaced {text : String} (hts : tokenize text = .ok ts) (h : OneLine ts) :
    ∃ us, tokenize (respaced ts) = .ok us ∧ us.map Token.reading = ts.map Token.reading := by
  obtain ⟨us, n, e, rfl, hne, hus, hn, he⟩ := h.eq_append hts
  have hcode : ∀ u ∈ us, u.kind ≠ .newline ∧ u.kind ≠ .eof := fun u hu => by
    obtain ⟨hnewline, -, -, heof⟩ := TokenKind.hasText_iff.1 (hus u hu).hasText
    exact ⟨hnewline, heof⟩
  have hfilter : (us ++ [n, e]).filter (fun t => t.kind ≠ .newline ∧ t.kind ≠ .eof) = us := by
    have hn : n.kind = .newline := congrArg Prod.fst hn
    have he : e.kind = .eof := congrArg Prod.fst he
    rw [List.filter_append, List.filter_eq_self.2 (by simpa using hcode)]
    simp [hn, he]
  obtain ⟨vs, hvs, hreading⟩ := tokenize_lexemes hus hne
  refine ⟨vs, by rw [respaced, hfilter, hvs], ?_⟩
  rw [hreading, List.map_append, List.map_cons, List.map_singleton, hn, he]

/-- A line that is broken inside brackets, inside a string and behind a backslash. -/
def brokenLine : String := "x>>=(rB'\\'',\n1_0.e+5J # c\n,.5\"\"\"a\n\"\"\" ).\\\n...0XfF"

theorem brokenLine_respaced : ∃ ts us, tokenize brokenLine = .ok ts ∧ OneLine ts ∧
    respaced ts = "x >>= ( rB'\\'' , 1_0.e+5J , .5 \"\"\"a\n\"\"\" ) . ... 0XfF" ∧
    tokenize (respaced ts) = .ok us ∧ us.map Token.reading = ts.map Token.reading := by
  have h : tokenize brokenLine = .ok ((tokenize brokenLine).toOption.getD []) := by decide +kernel
  have hline : OneLine ((tokenize brokenLine).toOption.getD []) := by decide +kernel
  obtain ⟨us, hus, hreading⟩ := tokenize_respaced h hline
  exact ⟨_, us, h, hline, by decide +kernel, hus, hreading⟩

end OneLine

end Gradual
