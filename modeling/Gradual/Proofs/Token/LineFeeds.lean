import Mathlib.Data.List.Forall2
import Gradual.Proofs.Token.Paired
import Gradual.Proofs.Token.Run

/-!
# Line endings do not change the tokens

A text without carriage returns and the same text with one before each line feed are gone over side
by side. Each step over the one has a step over the other, which goes over the same piece with its
line feeds paired.

* `Token.Alike`: the same token, but for a string over several lines;
* `LexState.paired`, **`LexState.step_paired`**: one step over both texts;
* `LexState.tokens_paired`, **`tokenize_paired`**: all tokens of both texts.
-/

namespace Gradual

open Source

/-! ## One step -/

/-- Tokens at the same place and of the same kind, the second from a text whose line feeds are
paired: they are the same, unless they are strings over several lines. -/
structure Token.Alike (t u : Token) : Prop where
  kind : t.kind.Alike u.kind
  start : u.start = t.start
  lexeme : t.kind.hasText = true → u.lexeme.toList = paired t.lexeme.toList
  whole : t.kind.hasText = false ∨ (∀ c ∈ t.lexeme.toList, isBreak c = false) → u = t

theorem Token.alike_refl {t : Token} (h : t.kind.hasText = false) : t.Alike t where
  kind := .refl _
  start := rfl
  lexeme ht := Bool.noConfusion (h.symm.trans ht)
  whole _ := rfl

theorem forall₂_alike_refl {ts : List Token} (h : ∀ t ∈ ts, t.kind.hasText = false) :
    List.Forall₂ Token.Alike ts ts :=
  List.forall₂_same.2 fun t ht => Token.alike_refl (h t ht)

theorem depthAfter_alike {k l : TokenKind} (h : k.Alike l) (depth : Nat) :
    depthAfter depth l = depthAfter depth k := by
  cases h <;> rfl

namespace LexState

variable {s : LexState} {c : Char} {cs piece rest : List Char}

/-- The same state over the text with its line feeds paired. -/
def paired (s : LexState) : LexState := { s with rest := Source.paired s.rest }

/-- What two steps yield: tokens that are alike, and the same state over the two texts. -/
def StepAlike (p q : List Token × LexState) : Prop :=
  List.Forall₂ Token.Alike p.1 q.1 ∧ q.2 = p.2.paired

theorem past_paired (h : ∀ c ∈ piece, c ≠ '\r') :
    s.paired.past (Source.paired piece) (Source.paired rest) = (s.past piece rest).paired :=
  congrArg (LexState.mk _ · _ _ _ _) (s.place.after_paired h)

/-- Going over a piece and over the same piece with its line feeds paired. -/
theorem move_paired (hrest : s.rest = piece ++ rest) (h : ∀ c ∈ s.rest, c ≠ '\r') :
    s.paired.move (Source.paired piece).length = (s.move piece.length).paired := by
  rw [hrest] at h
  have hpaired : s.paired.rest = Source.paired piece ++ Source.paired rest := by
    rw [← paired_append, ← hrest]
    rfl
  rw [move_of_rest hpaired, move_of_rest hrest, past_paired (List.forall_mem_append.1 h).1]

theorem move_breakless (hrest : s.rest = piece ++ rest) (h : ∀ c ∈ s.rest, c ≠ '\r')
    (hpiece : ∀ c ∈ piece, isBreak c = false) :
    s.paired.move piece.length = (s.move piece.length).paired := by
  rw [← move_paired hrest h, paired_of_breakless hpiece]

/-- A line feed is gone over as the pair that stands for it. -/
theorem move_lineBreak_paired (h : ∀ c ∈ s.rest, c ≠ '\r') :
    s.paired.move (breakLength s.paired.rest) = (s.move (breakLength s.rest)).paired := by
  have hone : ∀ {c : Char} (cs : List Char), c ≠ '\r' → breakLength (c :: cs) = 1 := by
    intro c cs hc
    unfold breakLength
    split
    · next heq => exact absurd (List.cons.inj heq).1 hc
    · rfl
  obtain ⟨rest, place, indents, depth, lineStart, lineOpen⟩ := s
  cases rest with
  | nil => rfl
  | cons c cs =>
    have hmove := @move_paired ⟨c :: cs, place, indents, depth, lineStart, lineOpen⟩ [c] cs rfl h
    have hc : c ≠ '\r' := h c (by simp)
    change LexState.move _ (breakLength (Source.paired (c :: cs))) =
      (LexState.move _ (breakLength (c :: cs))).paired
    rw [hone cs hc]
    by_cases hn : c = '\n'
    · subst hn
      exact hmove
    · rw [paired_cons hn] at hmove ⊢
      rw [hone _ hc]
      exact hmove

theorem skipComment_paired (h : ∀ c ∈ s.rest, c ≠ '\r') :
    s.paired.skipComment = s.skipComment.paired := by
  have hline : s.paired.rest.takeWhile (!isBreak ·) = s.rest.takeWhile (!isBreak ·) :=
    takeWhile_paired rfl rfl s.rest
  rw [skipComment, hline]
  exact move_breakless List.takeWhile_append_dropWhile.symm h fun c => isBreak_of_mem_comment

/-- A line without tokens is gone over whole in both texts. -/
theorem skipLine_paired (h : ∀ c ∈ s.rest, c ≠ '\r') :
    { s.paired.skipComment.move (breakLength s.paired.skipComment.rest) with lineStart := true } =
      { s.skipComment.move (breakLength s.skipComment.rest) with lineStart := true }.paired := by
  have hrest : ∀ c ∈ s.skipComment.rest, c ≠ '\r' := fun c hc => h c (List.mem_of_mem_drop hc)
  rw [skipComment_paired h, move_lineBreak_paired hrest]
  rfl

theorem indentTo_paired (s : LexState) (width : Nat) :
    Corresponds StepAlike (s.indentTo width) (s.paired.indentTo width) := by
  have hmargin : s.paired.margin = s.margin := rfl
  have hindents : s.paired.indents = s.indents := rfl
  unfold indentTo
  rw [hmargin, hindents]
  split
  · exact .ok ⟨forall₂_alike_refl (by simp [bare, TokenKind.hasText]), rfl⟩
  · simp only
    split
    · refine .ok ⟨forall₂_alike_refl fun t ht => ?_, rfl⟩
      rw [List.eq_of_mem_replicate ht]
      rfl
    · exact .error _

theorem startLine_paired (h : ∀ c ∈ s.rest, c ≠ '\r') :
    Corresponds StepAlike s.startLine s.paired.startLine := by
  have hblanks : s.paired.rest.takeWhile isSpacing = s.rest.takeWhile isSpacing :=
    takeWhile_paired rfl rfl s.rest
  have hmove : s.paired.move (s.rest.takeWhile isSpacing).length =
      (s.move (s.rest.takeWhile isSpacing).length).paired :=
    move_breakless List.takeWhile_append_dropWhile.symm h fun c hc =>
      isBreak_of_spacing (List.mem_takeWhile_imp hc)
  have hrest : ∀ c ∈ (s.move (s.rest.takeWhile isSpacing).length).rest, c ≠ '\r' :=
    fun c hc => h c (List.mem_of_mem_drop hc)
  unfold startLine
  simp only [hblanks, hmove]
  generalize s.move _ = t at hrest
  obtain ⟨rest, place, indents, depth, _, lineOpen⟩ := t
  cases rest with
  | nil => exact .ok ⟨.nil, rfl⟩
  | cons c cs =>
    have hskip := @skipLine_paired ⟨c :: cs, place, indents, depth, false, lineOpen⟩ hrest
    by_cases hn : c = '\n'
    · subst hn
      exact .ok ⟨.nil, hskip⟩
    · have hindent := indentTo_paired ⟨c :: cs, place, indents, depth, false, lineOpen⟩
        (indentWidth (s.rest.takeWhile isSpacing))
      simp only [paired, paired_cons hn] at hskip hindent ⊢
      split
      · exact .ok ⟨.nil, hskip⟩
      · exact hindent

/-- The token at the head of both texts. -/
theorem stepAlike_token {p q : Recognised} (h : ∀ c ∈ s.rest, c ≠ '\r')
    (hread : ReadAlike TokenKind.Alike s.rest p q) (htext : p.1.hasText = true) :
    StepAlike
      ([⟨p.1, String.ofList (s.rest.take p.2), s.place⟩],
        { s.move p.2 with depth := depthAfter s.depth p.1, lineOpen := true })
      ([⟨q.1, String.ofList (s.paired.rest.take q.2), s.place⟩],
        { s.paired.move q.2 with depth := depthAfter s.depth q.1, lineOpen := true }) := by
  generalize hrest : s.rest = text at hread
  obtain @⟨k, l, piece, rest, halike, whole⟩ := hread
  have hmove := move_paired hrest h
  have hpaired : s.paired.rest = Source.paired piece ++ Source.paired rest := by
    rw [← paired_append, ← hrest]
    rfl
  rw [hpaired, List.take_left, List.take_left]
  refine ⟨.cons ⟨halike, rfl, fun _ => ?_, fun honly => ?_⟩ .nil, ?_⟩
  · rw [String.toList_ofList, String.toList_ofList]
  · rcases honly with hnone | hline
    · cases htext.symm.trans hnone
    · rw [String.toList_ofList] at hline
      rw [whole hline, paired_of_breakless hline]
  · simp only [hmove, depthAfter_alike halike]
    rfl

theorem inLine_paired (hrest : s.rest = c :: cs) (h : ∀ c ∈ s.rest, c ≠ '\r') (hn : c ≠ '\n') :
    Corresponds StepAlike (s.inLine c cs) (s.paired.inLine c (Source.paired cs)) := by
  have hcs : ∀ c ∈ cs, c ≠ '\r' := fun d hd => h d (by rw [hrest]; exact List.mem_cons_of_mem c hd)
  have hbreak : isBreak c = false := by
    have hr : c ≠ '\r' := h c (by simp [hrest])
    simp [isBreak, hn, hr]
  unfold inLine
  split
  · exact .ok ⟨.nil, @move_breakless s [c] cs hrest h (by simpa using hbreak)⟩
  · rw [hbreak, if_neg Bool.false_ne_true, if_neg Bool.false_ne_true]
    split
    · exact .ok ⟨.nil, skipComment_paired h⟩
    · rw [@any_head_paired isBreak rfl cs]
      split
      · next hslash =>
        obtain rfl := eq_of_beq hslash
        split
        · next hhead =>
          obtain ⟨d, hd, hbreak⟩ := (Option.any_eq_true ..).1 hhead
          obtain ⟨after, rfl⟩ := List.head?_eq_some_iff.1 hd
          obtain rfl := eq_feed_of_break hbreak (hcs d (by simp))
          exact .ok ⟨.nil, @move_paired s ['\\', '\n'] after hrest h⟩
        · exact .error _
      · have hread := recognise_paired hbreak hcs
        have htext : ∀ p, recognise c cs = .ok p → p.1.hasText = true := fun p => recognise_hasText
        rw [← hrest] at hread
        generalize recognise c cs = x at hread htext
        generalize recognise c (Source.paired cs) = y at hread
        cases hread with
        | error e => exact .error _
        | ok related => exact .ok (stepAlike_token h related (htext _ rfl))

theorem inLine_feed_paired (hrest : s.rest = '\n' :: cs) (h : ∀ c ∈ s.rest, c ≠ '\r') :
    Corresponds StepAlike (s.inLine '\n' cs)
      (s.paired.inLine '\r' ('\n' :: Source.paired cs)) := by
  have hmove := @move_paired s ['\n'] cs hrest h
  change Corresponds StepAlike
    (if 0 < s.depth then .ok ([], s.move 1)
      else .ok ([s.newline], { s.move 1 with lineStart := true, lineOpen := false }))
    (if 0 < s.depth then .ok ([], s.paired.move 2)
      else .ok ([s.newline], { s.paired.move 2 with lineStart := true, lineOpen := false }))
  split
  · exact .ok ⟨.nil, hmove⟩
  · refine .ok ⟨forall₂_alike_refl (by simp [newline, TokenKind.hasText]), ?_⟩
    exact congrArg (fun t : LexState => { t with lineStart := true, lineOpen := false }) hmove

/-- **A step does the same over both texts.** -/
theorem step_paired (h : ∀ c ∈ s.rest, c ≠ '\r') :
    Corresponds StepAlike s.step s.paired.step := by
  cases hline : s.lineStart with
  | true =>
    by_cases hdepth : s.depth = 0
    · rw [step_start hline hdepth, @step_start s.paired hline hdepth]
      exact startLine_paired h
    · rw [step, step, if_pos hline, if_neg hdepth, @if_pos (s.paired.lineStart = true) _ hline,
        @if_neg (s.paired.depth = 0) _ hdepth]
      exact .ok ⟨.nil, rfl⟩
  | false =>
    cases hrest : s.rest with
    | nil =>
      have hpaired : s.paired.rest = [] := congrArg Source.paired hrest
      rw [step, step, hrest, hpaired, hline, show s.paired.lineStart = false from hline]
      exact .ok ⟨.nil, rfl⟩
    | cons c cs =>
      have hpaired : s.paired.rest = Source.paired (c :: cs) := congrArg Source.paired hrest
      rw [step_inside hline hrest]
      by_cases hn : c = '\n'
      · subst hn
        rw [@step_inside s.paired _ _ hline hpaired]
        exact inLine_feed_paired hrest h
      · rw [paired_cons hn] at hpaired
        rw [@step_inside s.paired _ _ hline hpaired]
        exact inLine_paired hrest h hn

/-! ## All tokens -/

theorem isDone_paired (s : LexState) : s.paired.isDone = s.isDone := by
  have hempty : (Source.paired s.rest).isEmpty = s.rest.isEmpty := by
    cases s.rest with
    | nil => rfl
    | cons c cs =>
      by_cases hn : c = '\n'
      · subst hn
        rfl
      · rw [paired_cons hn]
        rfl
  exact congrArg (· && !s.lineStart) hempty

/-- All tokens of both texts. -/
theorem tokens_paired (h : ∀ c ∈ s.rest, c ≠ '\r') :
    Corresponds (List.Forall₂ Token.Alike) s.tokens s.paired.tokens := by
  fun_induction tokens s with
  | case1 s hdone =>
    rw [@tokens_of_isDone s.paired ((isDone_paired s).trans hdone)]
    exact .ok (forall₂_alike_refl fun t ht => (mem_finish ht).2)
  | case2 s hdone e hstep =>
    have hdone : s.isDone = false := by simpa using hdone
    have hpaired := step_paired h
    rw [hstep] at hpaired
    generalize hy : s.paired.step = y at hpaired
    cases hpaired with
    | error =>
      rw [tokens_of_error ((isDone_paired s).trans hdone) hy]
      exact .error e
  | case3 s hdone ts t hstep _ ih =>
    have hdone : s.isDone = false := by simpa using hdone
    obtain ⟨piece, next⟩ := lexStep_of_step hdone hstep
    have hrest : ∀ c ∈ t.rest, c ≠ '\r' := fun c hc =>
      h c (by rw [next.rest_eq]; exact List.mem_append_right piece hc)
    have hpaired := step_paired h
    rw [hstep] at hpaired
    generalize hy : s.paired.step = y at hpaired
    cases hpaired with
    | @ok _ q related =>
      obtain ⟨us, u⟩ := q
      obtain ⟨halike, rfl⟩ := related
      rw [tokens_of_step ((isDone_paired s).trans hdone) hy]
      exact (ih hrest).map fun _ _ hvs => List.rel_append halike hvs

end LexState

/-- **Line endings do not change the tokens**, but for strings over several lines: carriage returns
may stand before all line feeds, or before none. -/
theorem tokenize_paired {text : String} (h : '\r' ∉ text.toList) :
    ((∃ ts, tokenize text = .ok ts) ↔
      ∃ us, tokenize (String.ofList (paired text.toList)) = .ok us) ∧
    ∀ ts us, tokenize text = .ok ts → tokenize (String.ofList (paired text.toList)) = .ok us →
      List.Forall₂ Token.Alike ts us := by
  have htext : ∀ c ∈ (LexState.start text.toList).rest, c ≠ '\r' := by
    rintro c hc rfl
    exact h hc
  have hpaired : tokenize (String.ofList (paired text.toList)) =
      (LexState.start text.toList).paired.tokens := by
    rw [tokenize, String.toList_ofList]
    rfl
  have htokens := LexState.tokens_paired htext
  rw [hpaired]
  refine ⟨htokens.isOk_iff, fun ts us hts hus => ?_⟩
  rw [show (LexState.start text.toList).tokens = .ok ts from hts, hus] at htokens
  exact htokens.of_ok

/-- Line feeds inside brackets, behind a comment, on a blank line, behind a backslash, and in two
strings. -/
def feedsEverywhere : String := "x(\n) #c\n\n y \\\n'''a\n''' 'b\\\n'\n"

theorem feedsEverywhere_paired : '\r' ∉ feedsEverywhere.toList ∧
    ∃ ts us, tokenize feedsEverywhere = .ok ts ∧
      tokenize (String.ofList (paired feedsEverywhere.toList)) = .ok us ∧
      List.Forall₂ Token.Alike ts us ∧
      ts.map Token.kind = [.identifier, .mark .lparen, .mark .rparen, .newline, .indent,
        .identifier, .string "a\n", .string "b", .newline, .dedent, .eof] ∧
      us.map Token.kind = [.identifier, .mark .lparen, .mark .rparen, .newline, .indent,
        .identifier, .string "a\r", .string "b", .newline, .dedent, .eof] := by
  have hreturns : '\r' ∉ feedsEverywhere.toList := by decide +kernel
  have hts : tokenize feedsEverywhere = .ok ((tokenize feedsEverywhere).toOption.getD []) := by
    decide +kernel
  have hus : tokenize (String.ofList (paired feedsEverywhere.toList)) =
      .ok ((tokenize (String.ofList (paired feedsEverywhere.toList))).toOption.getD []) := by
    decide +kernel
  exact ⟨hreturns, _, _, hts, hus, (tokenize_paired hreturns).2 _ _ hts hus, by decide +kernel,
    by decide +kernel⟩

end Gradual
