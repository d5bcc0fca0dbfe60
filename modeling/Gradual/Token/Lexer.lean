import Gradual.Token.Literal

/-!
# From text to tokens

The text is gone through in steps. At the start of a line outside brackets a step measures the
indentation and opens or closes blocks; elsewhere it goes over a blank, a comment or a line break,
or takes one token.

* `LexError`, `LexError.chain`: a fault and its place;
* `LexState`, `LexState.step`: one step, with the tokens that it yields;
* **`LexState.measure_step`**: each step leaves less to do;
* `LexState.tokens`, `tokenize`: all tokens of a text.
-/

namespace Gradual

open Source

/-! ## Errors -/

/-- A fault of a source text and its place. -/
structure LexError where
  fault : LexFault
  place : Position
  deriving DecidableEq, Repr

namespace LexError

/-- The place as it is named in messages. -/
def located (e : LexError) (text : String) : String :=
  s!"{text} at line {e.place.line}, column {e.place.column}"

/-- The message and then the messages of its causes. -/
def chain (e : LexError) : List String :=
  match e.fault with
  | .inconsistentDedent =>
    [s!"Inconsistent dedent at line {e.place.line}: indentation does not match any outer level"]
  | .strayContinuation => [e.located "Unexpected character after line continuation"]
  | .unterminatedString =>
    [s!"Unterminated string literal starting at line {e.place.line}, column {e.place.column}"]
  | .unterminatedEscape => ["Unterminated escape sequence in string literal"]
  | .badInteger text why => [e.located s!"Failed to parse integer literal '{text}'", why.message]
  | .badFloat text =>
    [e.located s!"Failed to parse float literal '{text}'", "invalid float literal"]
  | .badImaginary text =>
    [e.located s!"Failed to parse imaginary literal '{text}'", "invalid float literal"]
  | .unexpected c => [e.located s!"Unexpected character '{c}'", "no operator matches"]

end LexError

/-! ## Steps -/

/-- What is left of a text, and where it stands: the widths of the open blocks (the innermost
first), the number of open brackets, whether a line starts here, and whether the tokens so far still
need a `newline` at their end. -/
structure LexState where
  rest : List Char
  place : Position
  indents : List Nat
  depth : Nat
  lineStart : Bool
  lineOpen : Bool
  deriving DecidableEq, Repr

/-- Whether `c` separates tokens on a line. -/
def isSpacing (c : Char) : Bool := c == ' ' || c == '\t' || c == '\x0c'

/-- The width of an indentation: a tab goes to the next multiple of eight, and a form feed goes back
to the margin. -/
def indentWidth (cs : List Char) : Nat :=
  cs.foldl (fun w c => if c == ' ' then w + 1 else if c == '\t' then (w / 8 + 1) * 8 else 0) 0

/-- The number of characters of the line break at the head of a text. -/
def breakLength : List Char → Nat
  | '\r' :: '\n' :: _ => 2
  | _ => 1

/-- The number of open brackets after a token. -/
def depthAfter (depth : Nat) : TokenKind → Nat
  | .mark m => if m.opens then depth + 1 else if m.closes then depth - 1 else depth
  | _ => depth

namespace LexState

/-- The start of a text. -/
def start (text : List Char) : LexState := ⟨text, .start, [], 0, true, false⟩

/-- Goes over the next `n` characters. -/
def move (s : LexState) (n : Nat) : LexState :=
  { s with rest := s.rest.drop n, place := s.place.after (s.rest.take n) }

/-- Goes over a comment up to the end of its line. -/
def skipComment (s : LexState) : LexState := s.move (s.rest.takeWhile (!isBreak ·)).length

/-- The width of the innermost open block. -/
def margin (s : LexState) : Nat := s.indents.headD 0

/-- A token without text, at the current place. -/
def bare (s : LexState) (kind : TokenKind) : Token := ⟨kind, "", s.place⟩

/-- The token that ends a line, at the current place. -/
def newline (s : LexState) : Token := ⟨.newline, "\n", s.place⟩

/-- Opens or closes blocks at the first character of a line indented by `width`. -/
def indentTo (s : LexState) (width : Nat) : Except LexError (List Token × LexState) :=
  if s.margin < width then
    .ok ([s.bare .indent], { s with indents := width :: s.indents, lineOpen := true })
  else
    let kept := s.indents.dropWhile (width < ·)
    let closed := s.indents.length - kept.length
    if kept.headD 0 = width then
      .ok (List.replicate closed (s.bare .dedent),
        { s with indents := kept, lineOpen := s.lineOpen && closed == 0 })
    else .error ⟨.inconsistentDedent, s.place⟩

/-- The step at the start of a line: a line without a token is gone over whole. -/
def startLine (s : LexState) : Except LexError (List Token × LexState) :=
  let blanks := s.rest.takeWhile isSpacing
  let t := { s.move blanks.length with lineStart := false }
  match t.rest with
  | [] => .ok ([], t)
  | c :: _ =>
    if c == '#' || isBreak c then
      let u := t.skipComment
      .ok ([], { u.move (breakLength u.rest) with lineStart := true })
    else t.indentTo (indentWidth blanks)

/-- The step at the character `c` inside a line, with `cs` after it. -/
def inLine (s : LexState) (c : Char) (cs : List Char) : Except LexError (List Token × LexState) :=
  if isSpacing c then .ok ([], s.move 1)
  else if isBreak c then
    let t := s.move (breakLength (c :: cs))
    if 0 < s.depth then .ok ([], t)
    else .ok ([s.newline], { t with lineStart := true, lineOpen := false })
  else if c == '#' then .ok ([], s.skipComment)
  else if c == '\\' then
    if cs.head?.any isBreak then .ok ([], s.move (1 + breakLength cs))
    else .error ⟨.strayContinuation, s.place.next c⟩
  else
    match recognise c cs with
    | .error fault => .error ⟨fault, s.place⟩
    | .ok (kind, n) =>
      .ok ([⟨kind, String.ofList (s.rest.take n), s.place⟩],
        { s.move n with depth := depthAfter s.depth kind, lineOpen := true })

/-- One step, with the tokens that it yields. -/
def step (s : LexState) : Except LexError (List Token × LexState) :=
  if s.lineStart then
    if s.depth = 0 then s.startLine else .ok ([], { s with lineStart := false })
  else
    match s.rest with
    | [] => .ok ([], s)
    | c :: cs => s.inLine c cs

/-- Whether nothing is left to do. -/
def isDone (s : LexState) : Bool := s.rest.isEmpty && !s.lineStart

/-- What is left to do: twice the number of characters, and one more at the start of a line. -/
def measure (s : LexState) : Nat := 2 * s.rest.length + s.lineStart.toNat

/-! ## Each step leaves less to do -/

@[simp] theorem rest_move (s : LexState) (n : Nat) : (s.move n).rest = s.rest.drop n := rfl

@[simp] theorem lineStart_move (s : LexState) (n : Nat) : (s.move n).lineStart = s.lineStart := rfl

theorem breakLength_pos (cs : List Char) : 0 < breakLength cs := by
  unfold breakLength
  split <;> omega

theorem measure_indentTo {s t : LexState} {w : Nat} {ts : List Token}
    (h : s.indentTo w = .ok (ts, t)) : t.measure = s.measure := by
  unfold indentTo at h
  split at h
  · simp only [Except.ok.injEq, Prod.mk.injEq] at h
    obtain ⟨_, rfl⟩ := h
    rfl
  · simp only at h
    split at h
    · simp only [Except.ok.injEq, Prod.mk.injEq] at h
      obtain ⟨_, rfl⟩ := h
      rfl
    · simp at h

theorem measure_startLine {s t : LexState} {ts : List Token} (hs : s.lineStart = true)
    (h : s.startLine = .ok (ts, t)) : t.measure < s.measure := by
  unfold startLine at h
  simp only at h
  split at h
  · simp only [Except.ok.injEq, Prod.mk.injEq] at h
    obtain ⟨_, rfl⟩ := h
    simp only [measure, rest_move, List.length_drop, hs, Bool.toNat_true, Bool.toNat_false]
    omega
  · next c cs hr =>
    have hlen := congrArg List.length hr
    simp only [rest_move, List.length_drop, List.length_cons] at hlen
    split at h
    · simp only [Except.ok.injEq, Prod.mk.injEq] at h
      obtain ⟨_, rfl⟩ := h
      have := breakLength_pos (skipComment { s.move (s.rest.takeWhile isSpacing).length with
        lineStart := false }).rest
      simp only [measure, skipComment, rest_move, List.length_drop, hs, Bool.toNat_true] at this ⊢
      omega
    · have := measure_indentTo h
      rw [this]
      simp only [measure, rest_move, List.length_drop, hs, Bool.toNat_true, Bool.toNat_false]
      omega

theorem length_skipComment {s : LexState} {cs : List Char} (h : s.rest = '#' :: cs) :
    s.skipComment.rest.length < s.rest.length := by
  have hn : 0 < (s.rest.takeWhile (!isBreak ·)).length := by
    rw [h, List.takeWhile_cons]
    simp [isBreak]
  have hl : 0 < s.rest.length := by simp [h]
  simp only [skipComment, rest_move, List.length_drop]
  omega

theorem measure_inLine {s t : LexState} {c : Char} {cs : List Char} {ts : List Token}
    (hr : s.rest = c :: cs) (hs : s.lineStart = false) (h : s.inLine c cs = .ok (ts, t)) :
    t.measure < s.measure := by
  have hl : 0 < s.rest.length := by simp [hr]
  have drop_lt : ∀ n, 0 < n → 2 * (s.rest.drop n).length + 1 < 2 * s.rest.length := by
    intro n hn
    rw [List.length_drop]
    omega
  unfold inLine at h
  split at h
  · simp only [Except.ok.injEq, Prod.mk.injEq] at h
    obtain ⟨_, rfl⟩ := h
    have := drop_lt 1 (by omega)
    simp only [measure, rest_move, lineStart_move, hs, Bool.toNat_false]
    omega
  · split at h
    · have := drop_lt _ (breakLength_pos (c :: cs))
      simp only at h
      split at h <;>
      · simp only [Except.ok.injEq, Prod.mk.injEq] at h
        obtain ⟨_, rfl⟩ := h
        simp only [measure, rest_move, lineStart_move, hs, Bool.toNat_false, Bool.toNat_true]
        omega
    · split at h
      · next hc =>
        simp only [Except.ok.injEq, Prod.mk.injEq] at h
        obtain ⟨_, rfl⟩ := h
        have : s.skipComment.rest.length < s.rest.length :=
          length_skipComment (by rw [hr, eq_of_beq hc])
        simp only [measure, hs, Bool.toNat_false] at this ⊢
        simp only [skipComment, lineStart_move, hs, Bool.toNat_false] at this ⊢
        omega
      · split at h
        · split at h
          · simp only [Except.ok.injEq, Prod.mk.injEq] at h
            obtain ⟨_, rfl⟩ := h
            have := drop_lt (1 + breakLength cs) (by omega)
            simp only [measure, rest_move, lineStart_move, hs, Bool.toNat_false]
            omega
          · simp at h
        · split at h
          · simp at h
          · next hk =>
            simp only [Except.ok.injEq, Prod.mk.injEq] at h
            obtain ⟨_, rfl⟩ := h
            have := drop_lt _ (recognise_pos hk)
            simp only [measure, rest_move, lineStart_move, hs, Bool.toNat_false]
            omega

/-- **Each step leaves less to do**, until nothing is left. -/
theorem measure_step {s t : LexState} {ts : List Token} (hs : s.isDone = false)
    (h : s.step = .ok (ts, t)) : t.measure < s.measure := by
  unfold step at h
  split at h
  · next hl =>
    split at h
    · exact measure_startLine hl h
    · simp only [Except.ok.injEq, Prod.mk.injEq] at h
      obtain ⟨_, rfl⟩ := h
      simp [measure, hl]
  · next hl =>
    split at h
    · next hr => simp [isDone, hr, hl] at hs
    · next c cs hr => exact measure_inLine hr (by simpa using hl) h

/-! ## All tokens -/

/-- The tokens at the end of a text: the end of its last line, of all open blocks, and of itself. -/
def finish (s : LexState) : List Token :=
  (if s.lineOpen then [s.newline] else []) ++
    s.indents.map (fun _ => s.bare .dedent) ++ [s.bare .eof]

/-- The tokens from a state up to the end of the text. -/
def tokens (s : LexState) : Except LexError (List Token) :=
  if hs : s.isDone then .ok s.finish
  else
    match h : s.step with
    | .error e => .error e
    | .ok (ts, t) =>
      have : t.measure < s.measure := measure_step (by simpa using hs) h
      (tokens t).map (ts ++ ·)
termination_by s.measure

end LexState

/-- The tokens of a text. -/
def tokenize (text : String) : Except LexError (List Token) :=
  (LexState.start text.toList).tokens

end Gradual
