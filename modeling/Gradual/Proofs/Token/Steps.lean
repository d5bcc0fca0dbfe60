import Gradual.Proofs.Source.Position
import Gradual.Token.Lexer

/-!
# What a step over a text can do

Each step goes over a piece of the text and yields the tokens of that piece. All that follows about
the tokens of a text is read off the list of possible steps.

* `LineBreak`: a whole line break;
* `LexStep`, **`lexStep_of_step`**: the possible steps, each with the piece of text it goes over;
* `LexStep.rest_eq`, `LexStep.place_eq`: a step moves over its piece;
* **`LexState.run_induction`**: what each step carries back from the tokens after it holds of all
  tokens.
-/

namespace Gradual

open Source

theorem takeWhile_append_stop {α : Type} {p : α → Bool} {a b : List α}
    (inside : ∀ c ∈ a, p c = true) (stop : ∀ c ∈ b.head?, p c = false) :
    (a ++ b).takeWhile p = a := by
  have hb : b.takeWhile p = [] := by
    cases b with
    | nil => rfl
    | cons c b => exact List.takeWhile_cons_of_neg (by simp [stop c rfl])
  rw [List.takeWhile_append_of_pos inside, hb, List.append_nil]

/-- `text` is a whole line break, with `after` behind it. -/
inductive LineBreak : (text after : List Char) → Prop
  | pair (after : List Char) : LineBreak ['\r', '\n'] after
  | single {c : Char} {after : List Char} (isBreak : isBreak c = true)
      (whole : c = '\r' → after.head? ≠ some '\n') : LineBreak [c] after

theorem lineBreak_take (cs : List Char) {c : Char} (h : isBreak c = true) :
    LineBreak ((c :: cs).take (breakLength (c :: cs)))
      ((c :: cs).drop (breakLength (c :: cs))) := by
  unfold breakLength
  split
  · next tail heq =>
    rw [heq]
    exact .pair tail
  · next hne =>
    refine .single h fun hc hcs => ?_
    obtain ⟨tail, rfl⟩ : ∃ tail, cs = '\n' :: tail := by
      cases cs with
      | nil => simp at hcs
      | cons d tail =>
        simp only [List.drop_succ_cons, List.drop_zero, List.head?_cons, Option.some.injEq] at hcs
        exact ⟨tail, by rw [hcs]⟩
    exact hne tail (by rw [hc])

namespace LexState

/-- The state after going over `piece`, with `rest` behind it. -/
def past (s : LexState) (piece rest : List Char) : LexState :=
  { s with rest := rest, place := s.place.after piece }

@[simp] theorem rest_past (s : LexState) (piece rest : List Char) :
    (s.past piece rest).rest = rest := rfl

theorem move_eq_past (s : LexState) (n : Nat) :
    s.move n = s.past (s.rest.take n) (s.rest.drop n) := rfl

theorem move_of_rest {s : LexState} {piece rest : List Char} (h : s.rest = piece ++ rest) :
    s.move piece.length = s.past piece rest := by
  rw [move_eq_past, h, List.take_left, List.drop_left]

end LexState

/-- A line with a token starts at `text`: there is a character, and it is none that a line without
tokens may start with. -/
def StartsCode (text : List Char) : Prop :=
  ∃ c cs, text = c :: cs ∧ isSpacing c = false ∧ isBreak c = false ∧ c ≠ '#'

/-- What one step can do: the piece of text that it goes over, the tokens that it yields, and the
state after it. -/
inductive LexStep (s : LexState) : List Char → List Token → LexState → Prop
  | spacing {c : Char} {cs : List Char} (inside : s.lineStart = false) (rest : s.rest = [c] ++ cs)
      (blank : isSpacing c = true) : LexStep s [c] [] (s.past [c] cs)
  | innerBreak {piece cs : List Char} (inside : s.lineStart = false) (rest : s.rest = piece ++ cs)
      (ends : LineBreak piece cs) (bracketed : 0 < s.depth) :
      LexStep s piece [] (s.past piece cs)
  | newline {piece cs : List Char} (inside : s.lineStart = false) (rest : s.rest = piece ++ cs)
      (ends : LineBreak piece cs) (outside : s.depth = 0) :
      LexStep s piece [s.newline] { s.past piece cs with lineStart := true, lineOpen := false }
  | comment {text cs : List Char} (inside : s.lineStart = false)
      (rest : s.rest = '#' :: text ++ cs) (line : ∀ c ∈ text, isBreak c = false)
      (ends : ∀ c ∈ cs.head?, isBreak c = true) :
      LexStep s ('#' :: text) [] (s.past ('#' :: text) cs)
  | continuation {piece cs : List Char} (inside : s.lineStart = false)
      (rest : s.rest = '\\' :: piece ++ cs) (ends : LineBreak piece cs) :
      LexStep s ('\\' :: piece) [] (s.past ('\\' :: piece) cs)
  | token {c : Char} {cs : List Char} {kind : TokenKind} {n : Nat} (inside : s.lineStart = false)
      (rest : s.rest = c :: cs) (code : StartsCode s.rest) (whole : c ≠ '\\')
      (found : recognise c cs = .ok (kind, n)) :
      LexStep s (s.rest.take n) [⟨kind, String.ofList (s.rest.take n), s.place⟩]
        { s.past (s.rest.take n) (s.rest.drop n) with
          depth := depthAfter s.depth kind, lineOpen := true }
  | bracketLine (start : s.lineStart = true) (bracketed : 0 < s.depth) :
      LexStep s [] [] { s with lineStart := false }
  | blankEnd (start : s.lineStart = true) (outside : s.depth = 0)
      (blank : ∀ c ∈ s.rest, isSpacing c = true) :
      LexStep s s.rest [] { s.past s.rest [] with lineStart := false }
  | blankLine {blanks piece cs : List Char} (start : s.lineStart = true) (outside : s.depth = 0)
      (rest : s.rest = blanks ++ piece ++ cs) (blank : ∀ c ∈ blanks, isSpacing c = true)
      (ends : LineBreak piece cs) :
      LexStep s (blanks ++ piece) [] { s.past (blanks ++ piece) cs with lineStart := true }
  | commentLine {blanks text piece cs : List Char} (start : s.lineStart = true)
      (outside : s.depth = 0) (rest : s.rest = blanks ++ ('#' :: text) ++ piece ++ cs)
      (blank : ∀ c ∈ blanks, isSpacing c = true) (line : ∀ c ∈ text, isBreak c = false)
      (ends : LineBreak piece cs ∨ piece = [] ∧ cs = []) :
      LexStep s (blanks ++ ('#' :: text) ++ piece) []
        { s.past (blanks ++ ('#' :: text) ++ piece) cs with lineStart := true }
  | indent {blanks cs : List Char} (start : s.lineStart = true) (outside : s.depth = 0)
      (rest : s.rest = blanks ++ cs) (blank : ∀ c ∈ blanks, isSpacing c = true)
      (code : StartsCode cs) (deeper : s.margin < indentWidth blanks) :
      LexStep s blanks [(s.past blanks cs).bare .indent]
        { s.past blanks cs with
          lineStart := false, indents := indentWidth blanks :: s.indents, lineOpen := true }
  | dedent {blanks cs : List Char} {closed kept : List Nat} (start : s.lineStart = true)
      (outside : s.depth = 0) (rest : s.rest = blanks ++ cs)
      (blank : ∀ c ∈ blanks, isSpacing c = true) (code : StartsCode cs)
      (indents : s.indents = closed ++ kept) (deeper : ∀ w ∈ closed, indentWidth blanks < w)
      (level : kept.headD 0 = indentWidth blanks) :
      LexStep s blanks (List.replicate closed.length ((s.past blanks cs).bare .dedent))
        { s.past blanks cs with
          lineStart := false, indents := kept, lineOpen := s.lineOpen && closed.isEmpty }

/-! ## Each step is one of them -/

theorem isBreak_of_mem_comment {cs : List Char} {c : Char}
    (h : c ∈ cs.takeWhile (!isBreak ·)) : isBreak c = false := by
  simpa using List.mem_takeWhile_imp h

theorem isBreak_head_of_comment {cs : List Char} {c : Char}
    (h : c ∈ (cs.dropWhile (!isBreak ·)).head?) : isBreak c = true := by
  have := List.head?_dropWhile_not (!isBreak ·) cs
  simpa [Option.mem_def.1 h] using this

namespace LexState

variable {s t : LexState} {ts : List Token}

theorem skipComment_eq (s : LexState) :
    s.skipComment = s.past (s.rest.takeWhile (!isBreak ·)) (s.rest.dropWhile (!isBreak ·)) :=
  move_of_rest (List.takeWhile_append_dropWhile ..).symm

theorem rest_skipComment (s : LexState) :
    s.skipComment.rest = s.rest.dropWhile (!isBreak ·) := by rw [skipComment_eq]; rfl

theorem past_past (s : LexState) {a b rest rest' : List Char} (h : CleanCut a b) :
    (s.past a rest).past b rest' = s.past (a ++ b) rest' := by
  simp only [past, Position.after_append s.place h]

end LexState

open LexState

section

variable {s t : LexState} {ts : List Token}

theorem isBreak_of_spacing {c : Char} (h : isSpacing c = true) : isBreak c = false := by
  simp only [isSpacing, Bool.or_eq_true, beq_iff_eq] at h
  rcases h with (rfl | rfl) | rfl <;> rfl

theorem cleanCut_of_breakless {a b : List Char} (h : ∀ c ∈ a, isBreak c = false) : CleanCut a b :=
  cleanCut_of_ne fun c hc hr => by
    have := h c (List.mem_of_getLast? hc)
    simp [hr, isBreak] at this

theorem cleanCut_of_spacing {a b : List Char} (h : ∀ c ∈ a, isSpacing c = true) : CleanCut a b :=
  cleanCut_of_breakless fun c hc => isBreak_of_spacing (h c hc)

theorem lexStep_comment {cs : List Char} (hr : s.rest = '#' :: cs) (hs : s.lineStart = false) :
    LexStep s ('#' :: cs.takeWhile (!isBreak ·)) [] s.skipComment := by
  have hskip : s.skipComment =
      s.past ('#' :: cs.takeWhile (!isBreak ·)) (cs.dropWhile (!isBreak ·)) := by
    rw [skipComment_eq, hr]
    rfl
  rw [hskip]
  exact .comment hs (by rw [hr, List.cons_append, List.takeWhile_append_dropWhile])
    (fun c => isBreak_of_mem_comment) (fun c => isBreak_head_of_comment)

theorem lexStep_continuation {cs : List Char} (hr : s.rest = '\\' :: cs)
    (hs : s.lineStart = false) (hcs : cs.head?.any isBreak = true) :
    LexStep s ('\\' :: cs.take (breakLength cs)) [] (s.move (1 + breakLength cs)) := by
  have hmove : s.move (1 + breakLength cs) =
      s.past ('\\' :: cs.take (breakLength cs)) (cs.drop (breakLength cs)) := by
    rw [move_eq_past, hr, Nat.add_comm]
    rfl
  rw [hmove]
  refine .continuation hs (by rw [hr, List.cons_append, List.take_append_drop]) ?_
  cases cs with
  | nil => simp at hcs
  | cons c cs => exact lineBreak_take cs (by simpa using hcs)

theorem lexStep_of_inLine {c : Char} {cs : List Char} (hr : s.rest = c :: cs)
    (hs : s.lineStart = false) (h : s.inLine c cs = .ok (ts, t)) :
    ∃ piece, LexStep s piece ts t := by
  have hsplit : ∀ n, s.rest = s.rest.take n ++ s.rest.drop n :=
    fun n => (List.take_append_drop n _).symm
  unfold inLine at h
  split at h
  · next hblank =>
    obtain ⟨rfl, rfl⟩ := Prod.mk.inj (Except.ok.inj h)
    have hmove : s.move 1 = s.past [c] cs := by rw [move_eq_past, hr]; rfl
    exact ⟨[c], hmove ▸ .spacing hs hr hblank⟩
  · next hblank =>
    split at h
    · next hbreak =>
      have hends := lineBreak_take cs hbreak
      rw [← hr] at h hends
      simp only at h
      split at h
      · next hd =>
        obtain ⟨rfl, rfl⟩ := Prod.mk.inj (Except.ok.inj h)
        exact ⟨_, .innerBreak hs (hsplit _) hends hd⟩
      · next hd =>
        obtain ⟨rfl, rfl⟩ := Prod.mk.inj (Except.ok.inj h)
        exact ⟨_, .newline hs (hsplit _) hends (by omega)⟩
    · next hbreak =>
      split at h
      · next hc =>
        obtain ⟨rfl, rfl⟩ := Prod.mk.inj (Except.ok.inj h)
        obtain rfl := eq_of_beq hc
        exact ⟨_, lexStep_comment hr hs⟩
      · next hc =>
        split at h
        · next hc' =>
          split at h
          · next hhead =>
            obtain ⟨rfl, rfl⟩ := Prod.mk.inj (Except.ok.inj h)
            obtain rfl := eq_of_beq hc'
            exact ⟨_, lexStep_continuation hr hs hhead⟩
          · cases h
        · next hc' =>
          split at h
          · cases h
          · next kind n hk =>
            obtain ⟨rfl, rfl⟩ := Prod.mk.inj (Except.ok.inj h)
            exact ⟨_, .token hs hr ⟨c, cs, hr, by simpa using hblank, by simpa using hbreak,
              by simpa using hc⟩ (by simpa using hc') hk⟩

theorem indentTo_eq_ok {width : Nat} (h : s.indentTo width = .ok (ts, t)) :
    (s.margin < width ∧ ts = [s.bare .indent] ∧
      t = { s with indents := width :: s.indents, lineOpen := true }) ∨
    ∃ closed kept, s.indents = closed ++ kept ∧ (∀ w ∈ closed, width < w) ∧ kept.headD 0 = width ∧
      ts = List.replicate closed.length (s.bare .dedent) ∧
      t = { s with indents := kept, lineOpen := s.lineOpen && closed.isEmpty } := by
  unfold indentTo at h
  split at h
  · next hm =>
    obtain ⟨rfl, rfl⟩ := Prod.mk.inj (Except.ok.inj h)
    exact .inl ⟨hm, rfl, rfl⟩
  · simp only at h
    split at h
    · next hk =>
      obtain ⟨rfl, rfl⟩ := Prod.mk.inj (Except.ok.inj h)
      have hsplit : s.indents =
          s.indents.takeWhile (width < ·) ++ s.indents.dropWhile (width < ·) :=
        List.takeWhile_append_dropWhile.symm
      have hlen : s.indents.length - (s.indents.dropWhile (width < ·)).length =
          (s.indents.takeWhile (width < ·)).length := by
        have := congrArg List.length hsplit
        rw [List.length_append] at this
        omega
      refine .inr ⟨_, _, hsplit, fun w hw => by simpa using List.mem_takeWhile_imp hw, hk, ?_, ?_⟩
      · rw [hlen]
      · rw [hlen]
        cases s.indents.takeWhile (width < ·) <;> rfl
    · cases h

theorem lexStep_of_indentTo {blanks cs : List Char} (hs : s.lineStart = true) (hd : s.depth = 0)
    (hr : s.rest = blanks ++ cs) (hb : ∀ c ∈ blanks, isSpacing c = true) (hcs : StartsCode cs)
    (h : { s.past blanks cs with lineStart := false }.indentTo (indentWidth blanks) =
      .ok (ts, t)) :
    LexStep s blanks ts t := by
  obtain ⟨hm, rfl, rfl⟩ | ⟨closed, kept, hsplit, hclosed, hkept, rfl, rfl⟩ := indentTo_eq_ok h
  · exact .indent hs hd hr hb hcs hm
  · exact .dedent hs hd hr hb hcs hsplit hclosed hkept

theorem lexStep_blankLine {blanks cs : List Char} {c : Char} (hs : s.lineStart = true)
    (hd : s.depth = 0) (hr : s.rest = blanks ++ c :: cs) (hb : ∀ c ∈ blanks, isSpacing c = true)
    (hc : isBreak c = true) :
    LexStep s (blanks ++ (c :: cs).take (breakLength (c :: cs))) []
      { ({ s.past blanks (c :: cs) with lineStart := false }.skipComment.move
        (breakLength (c :: cs))) with lineStart := true } := by
  have hskip : { s.past blanks (c :: cs) with lineStart := false }.skipComment =
      { s.past blanks (c :: cs) with lineStart := false } := by
    rw [skipComment_eq]
    simp [past, hc, Position.after]
  have hmove : (s.past blanks (c :: cs)).move (breakLength (c :: cs)) =
      s.past (blanks ++ (c :: cs).take (breakLength (c :: cs)))
        ((c :: cs).drop (breakLength (c :: cs))) := s.past_past (cleanCut_of_spacing hb)
  rw [hskip]
  change LexStep s _ [] { (s.past blanks (c :: cs)).move (breakLength (c :: cs)) with
    lineStart := true }
  rw [hmove]
  exact .blankLine hs hd (by rw [hr, List.append_assoc, List.take_append_drop]) hb
    (lineBreak_take cs hc)

theorem lexStep_commentLine {blanks cs : List Char} (hs : s.lineStart = true) (hd : s.depth = 0)
    (hr : s.rest = blanks ++ '#' :: cs) (hb : ∀ c ∈ blanks, isSpacing c = true) :
    ∃ piece, LexStep s piece []
      { ({ s.past blanks ('#' :: cs) with lineStart := false }.skipComment.move
        (breakLength (cs.dropWhile (!isBreak ·)))) with lineStart := true } := by
  have hskip : { s.past blanks ('#' :: cs) with lineStart := false }.skipComment =
      { s.past (blanks ++ '#' :: cs.takeWhile (!isBreak ·)) (cs.dropWhile (!isBreak ·)) with
        lineStart := false } := by
    rw [skipComment_eq]
    simp only [past, Position.after_append s.place (cleanCut_of_spacing hb)]
    rfl
  rw [hskip]
  have htext : ∀ c ∈ cs.takeWhile (!isBreak ·), isBreak c = false :=
    fun c => isBreak_of_mem_comment
  have hrest : s.rest = blanks ++ ('#' :: cs.takeWhile (!isBreak ·)) ++
      cs.dropWhile (!isBreak ·) := by
    rw [hr, List.append_assoc, List.cons_append, List.takeWhile_append_dropWhile]
  have hline : ∀ c ∈ blanks ++ '#' :: cs.takeWhile (!isBreak ·), isBreak c = false := by
    intro c hc
    rcases List.mem_append.1 hc with hc | hc
    · exact isBreak_of_spacing (hb c hc)
    · rcases List.mem_cons.1 hc with rfl | hc
      · rfl
      · exact htext c hc
  generalize cs.takeWhile (!isBreak ·) = text at *
  generalize htail : cs.dropWhile (!isBreak ·) = tail at *
  have hmove : (s.past (blanks ++ '#' :: text) tail).move (breakLength tail) =
      s.past (blanks ++ '#' :: text ++ tail.take (breakLength tail))
        (tail.drop (breakLength tail)) := s.past_past (cleanCut_of_breakless hline)
  refine ⟨blanks ++ ('#' :: text) ++ tail.take (breakLength tail), ?_⟩
  change LexStep s _ [] { (s.past (blanks ++ '#' :: text) tail).move (breakLength tail) with
    lineStart := true }
  rw [hmove]
  refine .commentLine hs hd (by rw [hrest, List.append_assoc _ _ (tail.drop _),
    List.take_append_drop]) hb htext ?_
  cases tail with
  | nil => exact .inr ⟨rfl, rfl⟩
  | cons c tail => exact .inl (lineBreak_take tail (isBreak_head_of_comment (by rw [htail]; rfl)))

theorem lexStep_of_startLine (hs : s.lineStart = true) (hd : s.depth = 0)
    (h : s.startLine = .ok (ts, t)) : ∃ piece, LexStep s piece ts t := by
  have hsplit : s.rest = s.rest.takeWhile isSpacing ++ s.rest.dropWhile isSpacing :=
    List.takeWhile_append_dropWhile.symm
  have hblank : ∀ c ∈ s.rest.takeWhile isSpacing, isSpacing c = true :=
    fun c hc => List.mem_takeWhile_imp hc
  have hhead : ∀ c ∈ (s.rest.dropWhile isSpacing).head?, isSpacing c = false := by
    intro c hc
    have := List.head?_dropWhile_not isSpacing s.rest
    simpa [Option.mem_def.1 hc] using this
  unfold startLine at h
  simp only [move_of_rest hsplit] at h
  generalize s.rest.takeWhile isSpacing = blanks at *
  generalize s.rest.dropWhile isSpacing = code at *
  split at h
  · next hend =>
    obtain ⟨rfl, rfl⟩ := Prod.mk.inj (Except.ok.inj h)
    obtain rfl : code = [] := hend
    rw [List.append_nil] at hsplit
    subst hsplit
    exact ⟨_, .blankEnd hs hd hblank⟩
  · next c cs hcode =>
    obtain rfl : code = c :: cs := hcode
    split at h
    · next hc =>
      obtain ⟨rfl, rfl⟩ := Prod.mk.inj (Except.ok.inj h)
      rw [rest_skipComment]
      rw [Bool.or_eq_true] at hc
      rcases hc with hc | hc
      · obtain rfl := eq_of_beq hc
        exact lexStep_commentLine hs hd hsplit hblank
      · have hnone : (c :: cs).dropWhile (!isBreak ·) = c :: cs := by simp [hc]
        change ∃ piece, LexStep s piece [] { LexState.move _ (breakLength
          ((c :: cs).dropWhile (!isBreak ·))) with lineStart := true }
        rw [hnone]
        exact ⟨_, lexStep_blankLine hs hd hsplit hblank hc⟩
    · next hc =>
      simp only [Bool.or_eq_true, beq_iff_eq, not_or, Bool.not_eq_true] at hc
      exact ⟨blanks, lexStep_of_indentTo hs hd hsplit hblank
        ⟨c, cs, rfl, hhead c rfl, hc.2, hc.1⟩ h⟩

/-- **Each step is one of the possible ones.** -/
theorem lexStep_of_step (hdone : s.isDone = false) (h : s.step = .ok (ts, t)) :
    ∃ piece, LexStep s piece ts t := by
  unfold step at h
  split at h
  · next hs =>
    split at h
    · next hd => exact lexStep_of_startLine hs hd h
    · next hd =>
      obtain ⟨rfl, rfl⟩ := Prod.mk.inj (Except.ok.inj h)
      exact ⟨[], .bracketLine hs (by omega)⟩
  · next hs =>
    split at h
    · next hr => simp [isDone, hr, hs] at hdone
    · next c cs hr => exact lexStep_of_inLine hr (by simpa using hs) h

/-! ## What all steps do -/

variable {piece : List Char}

theorem LexStep.rest_eq (h : LexStep s piece ts t) : s.rest = piece ++ t.rest := by
  cases h with
  | spacing _ rest | innerBreak _ rest | newline _ rest | comment _ rest | continuation _ rest
  | blankLine _ _ rest | commentLine _ _ rest | indent _ _ rest | dedent _ _ rest => exact rest
  | token => exact (List.take_append_drop ..).symm
  | bracketLine => rfl
  | blankEnd => exact (List.append_nil _).symm

theorem LexStep.place_eq (h : LexStep s piece ts t) : t.place = s.place.after piece := by
  cases h <;> rfl

/-- Induction on the steps over a text, from its end. -/
theorem LexState.step_induction {P : LexState → List Token → Prop}
    (done : ∀ s, s.isDone = true → P s s.finish)
    (step : ∀ s ts t us, s.isDone = false → s.step = .ok (ts, t) → t.tokens = .ok us → P t us →
      P s (ts ++ us))
    {s : LexState} {ts : List Token} (h : s.tokens = .ok ts) : P s ts := by
  fun_induction LexState.tokens s generalizing ts with
  | case1 s hs =>
    obtain rfl := Except.ok.inj h
    exact done s hs
  | case2 => cases h
  | case3 s hs us t hstep _ ih =>
    cases hrest : t.tokens with
    | error e => simp [hrest, Except.map] at h
    | ok vs =>
      simp only [hrest, Except.map, Except.ok.injEq] at h
      subst h
      exact step s us t vs (by simpa using hs) hstep hrest (ih hrest)

/-- **What each step carries back from the tokens after it holds of all tokens of a text.** -/
theorem LexState.run_induction {P : LexState → List Token → Prop}
    (done : ∀ s, s.isDone = true → P s s.finish)
    (step : ∀ s piece ts t us, LexStep s piece ts t → t.tokens = .ok us → P t us → P s (ts ++ us))
    {s : LexState} {ts : List Token} (h : s.tokens = .ok ts) : P s ts := by
  refine LexState.step_induction done ?_ h
  intro s ts t us hdone hstep hrest ih
  obtain ⟨piece, hpiece⟩ := lexStep_of_step hdone hstep
  exact step s piece ts t us hpiece hrest ih

end

end Gradual
