import Gradual.Proofs.Token.Cover

/-!
# Runs over a text

The list of possible steps is exact: what it allows is what the step does. A run is a sequence of
steps, with the text that they go over and the tokens that they yield.

* `LexStep.step_eq`, **`step_eq_ok_iff`**: a step yields tokens if and only if it is a possible one;
* `LexStep.tokens_eq`: the tokens of a text by its first step;
* `LexRun`, `LexRun.tokens_eq`, **`LexState.exists_run`**: all tokens of a text are those of a run
  to its end, and then those that end it.
-/

namespace Gradual

open Source

/-! ## The piece that a step goes over -/

section Piece

variable {piece after : List Char}

theorem LineBreak.breakLength_eq (h : LineBreak piece after) :
    breakLength (piece ++ after) = piece.length := by
  cases h with
  | pair => rfl
  | @single c _ _ whole =>
    change breakLength (c :: after) = 1
    unfold breakLength
    split
    · next heq =>
      obtain ⟨rfl, rfl⟩ := List.cons.inj heq
      exact absurd rfl (whole rfl)
    · rfl

theorem LineBreak.exists_cons (h : LineBreak piece after) :
    ∃ c cs, piece ++ after = c :: cs ∧ isBreak c = true := by
  cases h with
  | pair => exact ⟨_, _, rfl, rfl⟩
  | single hc => exact ⟨_, _, rfl, hc⟩

theorem isSpacing_of_break {c : Char} (h : isBreak c = true) : isSpacing c = false := by
  cases hc : isSpacing c with
  | false => rfl
  | true => exact absurd h (by simp [isBreak_of_spacing hc])

end Piece

namespace LexState

variable {s : LexState} {blanks piece cs : List Char} {c : Char}

theorem step_inside (inside : s.lineStart = false) (rest : s.rest = c :: cs) :
    s.step = s.inLine c cs := by
  rw [step, inside, if_neg Bool.false_ne_true, rest]

theorem step_start (start : s.lineStart = true) (outside : s.depth = 0) :
    s.step = s.startLine := by
  rw [step, if_pos start, if_pos outside]

theorem move_lineBreak (rest : s.rest = piece ++ cs) (ends : LineBreak piece cs) :
    s.move (breakLength s.rest) = s.past piece cs := by
  rw [rest, ends.breakLength_eq, move_of_rest rest]

theorem move_lineEnd (rest : s.rest = piece ++ cs)
    (ends : LineBreak piece cs ∨ piece = [] ∧ cs = []) :
    s.move (breakLength s.rest) = s.past piece cs := by
  rcases ends with ends | ⟨rfl, rfl⟩
  · exact move_lineBreak rest ends
  · rw [move_eq_past, rest]
    rfl

theorem skipComment_of_rest {text : List Char} (rest : s.rest = text ++ cs)
    (line : ∀ c ∈ text, isBreak c = false) (ends : ∀ c ∈ cs.head?, isBreak c = true) :
    s.skipComment = s.past text cs := by
  have htext : s.rest.takeWhile (!isBreak ·) = text := by
    rw [rest]
    exact takeWhile_append_stop (by simpa using line) (by simpa using ends)
  rw [skipComment, htext, move_of_rest rest]

/-! ## The step inside a line -/

theorem inLine_lineBreak {tail : List Char} (rest : s.rest = piece ++ cs)
    (ends : LineBreak piece cs) (head : piece ++ cs = c :: tail) (hc : isBreak c = true) :
    s.inLine c tail = if 0 < s.depth then .ok ([], s.past piece cs) else
      .ok ([s.newline], { s.past piece cs with lineStart := true, lineOpen := false }) := by
  rw [inLine, isSpacing_of_break hc, if_neg Bool.false_ne_true, if_pos hc, ← head, ← rest,
    move_lineBreak rest ends]

theorem inLine_continuation (rest : s.rest = '\\' :: piece ++ cs) (ends : LineBreak piece cs) :
    s.inLine '\\' (piece ++ cs) = .ok ([], s.past ('\\' :: piece) cs) := by
  obtain ⟨c, tail, head, hc⟩ := ends.exists_cons
  have hmove : s.move (1 + breakLength (piece ++ cs)) = s.past ('\\' :: piece) cs := by
    rw [ends.breakLength_eq, Nat.add_comm]
    exact move_of_rest rest
  have hnext : (piece ++ cs).head?.any isBreak = true := by simpa [head] using hc
  change (if (piece ++ cs).head?.any isBreak then _ else _) = _
  rw [if_pos hnext, hmove]

theorem inLine_code (spacing : isSpacing c = false) (line : isBreak c = false) (hash : c ≠ '#')
    (whole : c ≠ '\\') {kind : TokenKind} {n : Nat} (found : recognise c cs = .ok (kind, n)) :
    s.inLine c cs = .ok ([⟨kind, String.ofList (s.rest.take n), s.place⟩],
      { s.move n with depth := depthAfter s.depth kind, lineOpen := true }) := by
  rw [inLine, spacing, if_neg Bool.false_ne_true, line, if_neg Bool.false_ne_true,
    if_neg (by simpa using hash), if_neg (by simpa using whole), found]

/-! ## The step at the start of a line -/

theorem takeWhile_blanks {code : List Char} (rest : s.rest = blanks ++ code)
    (blank : ∀ c ∈ blanks, isSpacing c = true) (stop : ∀ c ∈ code.head?, isSpacing c = false) :
    s.rest.takeWhile isSpacing = blanks := by rw [rest, takeWhile_append_stop blank stop]

theorem startLine_blank (blank : ∀ c ∈ s.rest, isSpacing c = true) :
    s.startLine = .ok ([], { s.past s.rest [] with lineStart := false }) := by
  have hrest : s.rest = s.rest ++ [] := (List.append_nil _).symm
  simp only [startLine, takeWhile_blanks hrest blank (by simp), move_of_rest hrest]
  rfl

/-- A line without a token is gone over whole: its blanks, its comment if there is one, and the end
of the line. -/
theorem startLine_skips {remark : List Char} (rest : s.rest = blanks ++ (remark ++ (piece ++ cs)))
    (blank : ∀ c ∈ blanks, isSpacing c = true) (line : ∀ c ∈ remark, isBreak c = false)
    (ends : LineBreak piece cs ∨ piece = [] ∧ cs = [])
    (head : ∃ c tail, remark ++ (piece ++ cs) = c :: tail ∧ (c == '#' || isBreak c) = true) :
    s.startLine = .ok ([], { s.past (blanks ++ (remark ++ piece)) cs with lineStart := true }) := by
  obtain ⟨c, tail, hhead, hc⟩ := head
  have hstop : isSpacing c = false := by
    rcases Bool.or_eq_true_iff.1 hc with hc | hc
    · rw [eq_of_beq hc]
      rfl
    · exact isSpacing_of_break hc
  have hends : ∀ c ∈ (piece ++ cs).head?, isBreak c = true := by
    rcases ends with ends | ⟨rfl, rfl⟩
    · exact ends.head
    · simp
  rw [hhead] at rest
  have hskip : { s.past blanks (c :: tail) with lineStart := false }.skipComment =
      { (s.past blanks (c :: tail)).past remark (piece ++ cs) with lineStart := false } :=
    skipComment_of_rest hhead.symm line hends
  have hmove := move_lineEnd (s := (s.past blanks (c :: tail)).past remark (piece ++ cs)) rfl ends
  have hpast : ((s.past blanks (c :: tail)).past remark (piece ++ cs)).past piece cs =
      s.past (blanks ++ (remark ++ piece)) cs := by
    rw [past_past _ (cleanCut_of_breakless line), past_past s (cleanCut_of_spacing blank)]
  simp only [startLine, takeWhile_blanks rest blank (by simpa using hstop), move_of_rest rest,
    hskip]
  refine (if_pos hc).trans ?_
  rw [← hpast, ← hmove]
  rfl

theorem startLine_code {code : List Char} (rest : s.rest = blanks ++ code)
    (blank : ∀ c ∈ blanks, isSpacing c = true) (hcode : StartsCode code) :
    s.startLine =
      { s.past blanks code with lineStart := false }.indentTo (indentWidth blanks) := by
  obtain ⟨c, cs, rfl, spacing, line, hash⟩ := hcode
  simp only [startLine, takeWhile_blanks rest blank (by simpa using spacing), move_of_rest rest]
  exact if_neg (by simp [line, hash])

theorem indentTo_deeper {width : Nat} (h : s.margin < width) :
    s.indentTo width =
      .ok ([s.bare .indent], { s with indents := width :: s.indents, lineOpen := true }) := by
  rw [indentTo, if_pos h]

theorem indentTo_level {width : Nat} {closed kept : List Nat} (indents : s.indents = closed ++ kept)
    (deeper : ∀ w ∈ closed, width < w) (level : kept.headD 0 = width) :
    s.indentTo width = .ok (List.replicate closed.length (s.bare .dedent),
      { s with indents := kept, lineOpen := s.lineOpen && closed.isEmpty }) := by
  have hkept : s.indents.dropWhile (width < ·) = kept := by
    rw [indents, List.dropWhile_append_of_pos (by simpa using deeper)]
    cases kept with
    | nil => rfl
    | cons w kept => simp [show w = width from level]
  have hmargin : ¬ s.margin < width := by
    rw [margin, indents]
    cases closed with
    | nil => exact Nat.not_lt.2 (Nat.le_of_eq level.symm)
    | cons w closed => simpa using Nat.le_of_lt (deeper w List.mem_cons_self)
  have hlength : s.indents.length - kept.length = closed.length := by simp [indents]
  have hempty : (closed.length == 0) = closed.isEmpty := by cases closed <;> rfl
  rw [indentTo, if_neg hmargin]
  simp only [hkept, level, hlength, if_true, hempty]

end LexState

/-! ## The possible steps are the steps -/

section Step

variable {s t : LexState} {piece : List Char} {ts : List Token}

open LexState

/-- A possible step is taken. -/
theorem LexStep.step_eq (h : LexStep s piece ts t) : s.step = .ok (ts, t) := by
  cases h with
  | spacing inside rest blank =>
    rw [step_inside inside rest, inLine, if_pos blank, move_eq_past, rest]
    rfl
  | innerBreak inside rest ends bracketed =>
    obtain ⟨c, tail, head, hc⟩ := ends.exists_cons
    rw [step_inside inside (rest.trans head), inLine_lineBreak rest ends head hc, if_pos bracketed]
  | newline inside rest ends outside =>
    obtain ⟨c, tail, head, hc⟩ := ends.exists_cons
    rw [step_inside inside (rest.trans head), inLine_lineBreak rest ends head hc,
      if_neg (by omega)]
  | comment inside rest line ends =>
    have hskip := skipComment_of_rest rest (List.forall_mem_cons.2 ⟨rfl, line⟩) ends
    rw [step_inside inside rest, ← hskip]
    rfl
  | continuation inside rest ends =>
    rw [step_inside inside rest]
    exact inLine_continuation rest ends
  | token inside rest code whole found =>
    obtain ⟨c, cs, hrest, spacing, line, hash⟩ := code
    obtain ⟨rfl, rfl⟩ := List.cons.inj (rest.symm.trans hrest)
    rw [step_inside inside rest, inLine_code spacing line hash whole found, move_eq_past]
  | bracketLine start bracketed => rw [step, if_pos start, if_neg (by omega)]
  | blankEnd start outside blank => rw [step_start start outside, startLine_blank blank]
  | @blankLine blanks ending cs start outside rest blank ends =>
    obtain ⟨c, tail, head, hc⟩ := ends.exists_cons
    have hrest : s.rest = blanks ++ ([] ++ (ending ++ cs)) := by rw [rest, List.append_assoc]; rfl
    rw [step_start start outside]
    exact startLine_skips hrest blank (by simp) (.inl ends) ⟨c, tail, head, by simp [hc]⟩
  | @commentLine blanks text ending cs start outside rest blank line ends =>
    rw [List.append_assoc, List.append_assoc] at rest
    rw [step_start start outside, List.append_assoc]
    exact startLine_skips rest blank (List.forall_mem_cons.2 ⟨rfl, line⟩) ends ⟨'#', _, rfl, rfl⟩
  | indent start outside rest blank code deeper =>
    rw [step_start start outside, startLine_code rest blank code]
    exact indentTo_deeper deeper
  | dedent start outside rest blank code indents deeper level =>
    rw [step_start start outside, startLine_code rest blank code]
    exact indentTo_level indents deeper level

theorem LexStep.isDone_eq (h : LexStep s piece ts t) : s.isDone = false := by
  have hbreak : ∀ {piece cs}, s.rest = piece ++ cs → LineBreak piece cs → s.isDone = false := by
    intro piece cs rest ends
    obtain ⟨c, tail, head, -⟩ := ends.exists_cons
    simp [isDone, rest, head]
  cases h with
  | spacing _ rest | comment _ rest | continuation _ rest | token _ rest => simp [isDone, rest]
  | innerBreak _ rest ends | newline _ rest ends => exact hbreak rest ends
  | bracketLine start | blankEnd start | blankLine start | commentLine start | indent start
  | dedent start => simp [isDone, start]

/-- **A step yields tokens if and only if it is a possible one.** -/
theorem step_eq_ok_iff (hdone : s.isDone = false) :
    s.step = .ok (ts, t) ↔ ∃ piece, LexStep s piece ts t :=
  ⟨lexStep_of_step hdone, fun ⟨_, h⟩ => h.step_eq⟩

theorem tokens_of_isDone (hdone : s.isDone = true) : s.tokens = .ok s.finish := by
  rw [tokens, dif_pos hdone]

theorem tokens_of_error {e : LexError} (hdone : s.isDone = false) (h : s.step = .error e) :
    s.tokens = .error e := by
  rw [tokens, dif_neg (by simp [hdone])]
  split
  · next e' he => rw [Except.error.inj (h.symm.trans he)]
  · next hu => cases h.symm.trans hu

theorem tokens_of_step (hdone : s.isDone = false) (h : s.step = .ok (ts, t)) :
    s.tokens = t.tokens.map (ts ++ ·) := by
  rw [tokens, dif_neg (by simp [hdone])]
  split
  · next e he => cases h.symm.trans he
  · next us u hu =>
    obtain ⟨rfl, rfl⟩ := Prod.mk.inj (Except.ok.inj (h.symm.trans hu))
    rfl

/-- The tokens of a text by the first step over it. -/
theorem LexStep.tokens_eq (h : LexStep s piece ts t) : s.tokens = t.tokens.map (ts ++ ·) :=
  tokens_of_step h.isDone_eq h.step_eq

theorem LexStep.tokens_eq_of_nil (h : LexStep s piece [] t) : s.tokens = t.tokens := by
  rw [h.tokens_eq]
  cases t.tokens <;> rfl

end Step

/-! ## Runs -/

/-- The steps from `s` go over a text, yield some tokens and lead to another state. -/
inductive LexRun (s : LexState) : List Char → List Token → LexState → Prop
  | refl : LexRun s [] [] s
  | step {text piece : List Char} {us ts : List Token} {t u : LexState} (run : LexRun s text us t)
      (next : LexStep t piece ts u) : LexRun s (text ++ piece) (us ++ ts) u

section Run

variable {s t u : LexState} {text piece : List Char} {us ts : List Token}

namespace LexRun

theorem rest_eq (h : LexRun s text us t) : s.rest = text ++ t.rest := by
  induction h with
  | refl => rfl
  | step _ next ih => rw [ih, next.rest_eq, List.append_assoc]

/-- No run ends inside a line break. -/
theorem cleanCut (h : LexRun s text us t) : CleanCut text t.rest := by
  induction h with
  | refl => exact cleanCut_nil _
  | step _ next ih => exact .append (next.rest_eq ▸ ih) next.cleanCut

theorem place_eq (h : LexRun s text us t) : t.place = s.place.after text := by
  induction h with
  | refl => rfl
  | step run next ih =>
    have hcut := run.cleanCut
    rw [next.rest_eq] at hcut
    rw [next.place_eq, ih, Position.after_append _ hcut.of_append_right]

/-- A step may come first. -/
theorem head (h : LexStep s piece ts t) (run : LexRun t text us u) :
    LexRun s (piece ++ text) (ts ++ us) u := by
  induction run with
  | refl => simpa using LexRun.step .refl h
  | step _ next ih =>
    rw [← List.append_assoc, ← List.append_assoc]
    exact .step ih next

theorem tokens_eq (h : LexRun s text us t) : s.tokens = t.tokens.map (us ++ ·) := by
  induction h with
  | refl => cases s.tokens <;> rfl
  | @step _ _ us ts t u _ next ih =>
    rw [ih, next.tokens_eq]
    cases u.tokens with
    | error e => rfl
    | ok vs => exact congrArg Except.ok (List.append_assoc us ts vs).symm

/-- What is left of the tokens after a run. -/
theorem exists_tokens {vs : List Token} (h : LexRun s text us t) (hs : s.tokens = .ok vs) :
    ∃ ws, t.tokens = .ok ws ∧ vs = us ++ ws := by
  rw [h.tokens_eq] at hs
  cases ht : t.tokens with
  | error e =>
    rw [ht] at hs
    cases hs
  | ok ws =>
    rw [ht] at hs
    exact ⟨ws, rfl, (Except.ok.inj hs).symm⟩

end LexRun

/-- **All tokens of a text** are those of a run over the whole of it, and then those that end it. -/
theorem LexState.exists_run (h : s.tokens = .ok ts) :
    ∃ us t, LexRun s s.rest us t ∧ t.isDone = true ∧ ts = us ++ t.finish := by
  refine LexState.run_induction (P := fun s ts => ∃ us t, LexRun s s.rest us t ∧
    t.isDone = true ∧ ts = us ++ t.finish) ?_ ?_ h
  · intro s hdone
    have hrest : s.rest = [] := by simpa using (Bool.and_eq_true_iff.1 hdone).1
    exact ⟨[], s, hrest ▸ .refl, hdone, rfl⟩
  · rintro s piece ts t - hstep - ⟨us, u, hrun, hdone, rfl⟩
    refine ⟨ts ++ us, u, ?_, hdone, (List.append_assoc ..).symm⟩
    rw [hstep.rest_eq]
    exact .head hstep hrun

end Run

end Gradual
