import Gradual.Proofs.Source.Lines
import Gradual.Proofs.Token.Run

/-!
# Lines without tokens

A line that holds nothing but spacing and a comment leaves no trace in the tokens: what follows is
read as if the line were not there, one line further down.

* `Position.below`, `Token.below`, `LexError.below`, `LexState.below`: the same, some lines further
  down;
* **`LexState.step_below`**, `LexState.tokens_below`: where a text starts does not matter to its
  tokens but for their places;
* `Position.after_line`: the place behind a line;
* **`LexState.tokens_blank_line`**: a line without tokens only moves the places.
-/

namespace Gradual

open Source

/-! ## Further down -/

/-- The place `n` lines further down. -/
def Source.Position.below (n : Nat) (p : Position) : Position := ⟨p.line + n, p.column⟩

namespace Source.Position

theorem next_below (n : Nat) (p : Position) (c : Char) :
    (p.below n).next c = (p.next c).below n := by
  unfold next
  split
  · exact congrArg (Position.mk · 1) (Nat.add_right_comm ..)
  · rfl

theorem after_below (n : Nat) (p : Position) (cs : List Char) :
    (p.below n).after cs = (p.after cs).below n := by
  rw [after_eq, after_eq]
  exact congrArg (Position.mk · _) (Nat.add_right_comm ..)

end Source.Position

/-- The token `n` lines further down. -/
def Token.below (n : Nat) (t : Token) : Token := { t with start := t.start.below n }

/-- The fault `n` lines further down. -/
def LexError.below (n : Nat) (e : LexError) : LexError := { e with place := e.place.below n }

namespace LexState

/-- The same text `n` lines further down. -/
def below (n : Nat) (s : LexState) : LexState := { s with place := s.place.below n }

/-- The outcome of a step `n` lines further down. -/
def lowerStep (n : Nat) (r : Except LexError (List Token × LexState)) :
    Except LexError (List Token × LexState) :=
  (r.map fun p => (p.1.map (Token.below n), p.2.below n)).mapError (LexError.below n)

/-- The tokens of a text, or its fault, `n` lines further down. -/
def lower (n : Nat) (r : Except LexError (List Token)) : Except LexError (List Token) :=
  (r.map (List.map (Token.below n))).mapError (LexError.below n)

section Below

variable (n : Nat) (s : LexState)

@[simp] theorem rest_below : (s.below n).rest = s.rest := rfl

@[simp] theorem indents_below : (s.below n).indents = s.indents := rfl

@[simp] theorem depth_below : (s.below n).depth = s.depth := rfl

@[simp] theorem lineStart_below : (s.below n).lineStart = s.lineStart := rfl

@[simp] theorem lineOpen_below : (s.below n).lineOpen = s.lineOpen := rfl

@[simp] theorem isDone_below : (s.below n).isDone = s.isDone := rfl

theorem move_below (k : Nat) : (s.below n).move k = (s.move k).below n :=
  congrArg (LexState.mk _ · _ _ _ _) (s.place.after_below n _)

theorem skipComment_below : (s.below n).skipComment = s.skipComment.below n := move_below n s _

theorem indentTo_below (width : Nat) :
    (s.below n).indentTo width = lowerStep n (s.indentTo width) := by
  have hmargin : (s.below n).margin = s.margin := rfl
  unfold indentTo
  rw [hmargin, indents_below]
  split
  · rfl
  · simp only
    split
    · rw [lowerStep, Except.map, Except.mapError, List.map_replicate]
      rfl
    · rfl

theorem startLine_below : (s.below n).startLine = lowerStep n s.startLine := by
  unfold startLine
  simp only [rest_below, move_below]
  generalize s.move _ = t
  obtain ⟨rest, place, indents, depth, _, lineOpen⟩ := t
  cases rest with
  | nil => rfl
  | cons c cs =>
    have hskip := skipComment_below n ⟨c :: cs, place, indents, depth, false, lineOpen⟩
    simp only [below] at hskip ⊢
    split
    · rw [hskip]
      exact congrArg (fun u => Except.ok ([], { u with lineStart := true })) (move_below n _ _)
    · exact indentTo_below n ⟨c :: cs, place, indents, depth, false, lineOpen⟩ _

theorem inLine_below (c : Char) (cs : List Char) :
    (s.below n).inLine c cs = lowerStep n (s.inLine c cs) := by
  unfold inLine
  split
  · exact congrArg (fun t => Except.ok ([], t)) (move_below n s 1)
  · split
    · simp only [move_below, depth_below]
      split <;> rfl
    · split
      · exact congrArg (fun t => Except.ok ([], t)) (skipComment_below n s)
      · split
        · split
          · exact congrArg (fun t => Except.ok ([], t)) (move_below n s _)
          · exact congrArg (fun p => Except.error (LexError.mk _ p)) (s.place.next_below n c)
        · split
          · rfl
          · rw [move_below]
            rfl

/-- **A step does the same further down.** -/
theorem step_below : (s.below n).step = lowerStep n s.step := by
  unfold step
  rw [lineStart_below, depth_below, rest_below]
  split
  · split
    · exact startLine_below n s
    · rfl
  · split
    · rfl
    · exact inLine_below n s _ _

theorem finish_below : (s.below n).finish = s.finish.map (Token.below n) := by
  simp only [finish, lineOpen_below, indents_below, List.map_append, List.map_map,
    apply_ite (List.map (Token.below n))]
  rfl

end Below

theorem lower_map_append (n : Nat) (ts : List Token) (r : Except LexError (List Token)) :
    lower n (r.map (ts ++ ·)) = (lower n r).map (ts.map (Token.below n) ++ ·) := by
  cases r with
  | error e => rfl
  | ok us => exact congrArg Except.ok List.map_append

/-- The tokens of a text further down are its tokens, further down. -/
theorem tokens_below (n : Nat) (s : LexState) : (s.below n).tokens = lower n s.tokens := by
  fun_induction tokens s with
  | case1 s hdone => rw [tokens_of_isDone (s := s.below n) hdone, finish_below, lower]; rfl
  | case2 s hdone e hstep =>
    refine tokens_of_error (s := s.below n) (by simpa using hdone) ?_
    rw [step_below, hstep]
    rfl
  | case3 s hdone ts t hstep _ ih =>
    rw [lower_map_append, ← ih]
    refine tokens_of_step (s := s.below n) (by simpa using hdone) ?_
    rw [step_below, hstep]
    rfl

end LexState

/-! ## A line without tokens -/

theorem Source.Position.after_lineBreak {piece rest : List Char} (p : Position)
    (h : LineBreak piece rest) : p.after piece = ⟨p.line + 1, 1⟩ := by
  cases h with
  | pair => rfl
  | single hc => simp [after, next, hc]

/-- The place behind a line. -/
theorem Source.Position.after_line {line piece rest : List Char} (p : Position)
    (hline : ∀ c ∈ line, isBreak c = false) (h : LineBreak piece rest) :
    p.after (line ++ piece) = ⟨p.line + 1, 1⟩ := by
  rw [after_append p (cleanCut_of_breakless hline), after_lineBreak _ h, after_eq,
    lineBreaks_of_breakless hline]
  rfl

/-- What may stand between the blanks and the end of a line without tokens: nothing or a comment. -/
def Remark (text : List Char) : Prop :=
  text = [] ∨ ∃ line, text = '#' :: line ∧ ∀ c ∈ line, isBreak c = false

theorem Remark.isBreak_eq {text : List Char} (h : Remark text) : ∀ c ∈ text, isBreak c = false := by
  obtain rfl | ⟨line, rfl, hline⟩ := h
  · simp
  · exact List.forall_mem_cons.2 ⟨rfl, hline⟩

theorem Remark.lexStep {s : LexState} {blanks remark piece rest : List Char} (h : Remark remark)
    (start : s.lineStart = true) (outside : s.depth = 0)
    (text : s.rest = blanks ++ remark ++ piece ++ rest)
    (blank : ∀ c ∈ blanks, isSpacing c = true) (ends : LineBreak piece rest) :
    LexStep s (blanks ++ remark ++ piece) []
      { s.past (blanks ++ remark ++ piece) rest with lineStart := true } := by
  obtain rfl | ⟨line, rfl, hline⟩ := h
  · rw [List.append_nil] at text ⊢
    exact .blankLine start outside text blank ends
  · exact .commentLine start outside text blank hline (.inl ends)

/-- **A line without tokens only moves the places**: the rest is read as it would be without that
line, one line further down. -/
theorem LexState.tokens_blank_line {s : LexState} {blanks remark piece rest : List Char}
    (start : s.lineStart = true) (outside : s.depth = 0) (first : s.place.column = 1)
    (text : s.rest = blanks ++ remark ++ piece ++ rest)
    (blank : ∀ c ∈ blanks, isSpacing c = true) (hremark : Remark remark)
    (ends : LineBreak piece rest) :
    s.tokens = lower 1 { s with rest := rest }.tokens := by
  have hline : ∀ c ∈ blanks ++ remark, isBreak c = false :=
    List.forall_mem_append.2 ⟨fun c hc => isBreak_of_spacing (blank c hc), hremark.isBreak_eq⟩
  have hplace : s.place.after (blanks ++ remark ++ piece) = s.place.below 1 := by
    rw [s.place.after_line hline ends, Position.below, first]
  have hstate : { s.past (blanks ++ remark ++ piece) rest with lineStart := true } =
      { s with rest := rest }.below 1 := by
    simp only [past, below, hplace, start]
  rw [(hremark.lexStep start outside text blank ends).tokens_eq_of_nil, hstate, tokens_below]

/-- A line with blanks and a comment only, inside two blocks of which the next line closes one. -/
def remarkInBlock : LexState := ⟨"\t\x0c # c\r\n  y\n".toList, ⟨3, 1⟩, [4, 2], 0, true, false⟩

theorem remarkInBlock_invisible :
    remarkInBlock.tokens = LexState.lower 1 { remarkInBlock with rest := "  y\n".toList }.tokens ∧
    remarkInBlock.tokens.toOption.map (·.map fun t => (t.kind, t.start)) =
      some [(.dedent, ⟨4, 3⟩), (.identifier, ⟨4, 3⟩), (.newline, ⟨4, 4⟩), (.dedent, ⟨5, 1⟩),
        (.eof, ⟨5, 1⟩)] := by
  have htext : remarkInBlock.rest =
      ['\t', '\x0c', ' '] ++ ['#', ' ', 'c'] ++ ['\r', '\n'] ++ "  y\n".toList := by decide
  have hblank : ∀ c ∈ ['\t', '\x0c', ' '], isSpacing c = true := by simp [isSpacing]
  have hremark : Remark ['#', ' ', 'c'] := .inr ⟨[' ', 'c'], rfl, by simp [isBreak]⟩
  exact ⟨LexState.tokens_blank_line rfl rfl rfl htext hblank hremark (.pair _), by decide +kernel⟩

end Gradual
