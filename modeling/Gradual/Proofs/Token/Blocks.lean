import Gradual.Proofs.Token.Layout
import Gradual.Proofs.Token.Run

/-!
# Blocks are balanced

The widths of the open blocks are kept on a stack, which grows by one with each `indent` and loses
one with each `dedent`. So the tokens of a text open and close blocks like brackets.

* `openings`, `closings`, `lastKind`, `EachAfter`: blocks as they are seen in the tokens;
* `Standing`, `Standing.step`, **`LexRun.standing`**: what the tokens so far say about the state;
* `LexState.Moment`: the tokens and the stack at each moment of a run, also while several blocks
  close;
* `BlocksBalanced`, `Stacked`, **`tokenize_balanced`**: blocks are balanced, and so is the stack all
  along.
-/

namespace Gradual

open Source

/-! ## Blocks in the tokens -/

/-- The number of blocks that some tokens open. -/
def openings (ts : List Token) : Nat := ts.countP (·.kind = .indent)

/-- The number of blocks that some tokens close. -/
def closings (ts : List Token) : Nat := ts.countP (·.kind = .dedent)

/-- The kind of the last of some tokens. -/
def lastKind (ts : List Token) : Option TokenKind := ts.getLast?.map (·.kind)

/-- A relation holds between the kind of each token and that of the one right before it, if any. -/
def EachAfter (r : TokenKind → Option TokenKind → Prop) (ts : List Token) : Prop :=
  ∀ us t vs, ts = us ++ t :: vs → r t.kind (lastKind us)

/-- Whether a token may come right after another one. A block opens at the start of a text or of a
line, and it closes at the start of a line or after another one. -/
def TokenKind.MayFollow (k : TokenKind) (before : Option TokenKind) : Prop :=
  (k = .indent → before = none ∨ before = some .newline) ∧
  (k = .dedent → before = some .newline ∨ before = some .dedent)

section Tokens

variable {ts us : List Token} {t : Token}

@[simp] theorem openings_append : openings (ts ++ us) = openings ts + openings us :=
  List.countP_append

@[simp] theorem closings_append : closings (ts ++ us) = closings ts + closings us :=
  List.countP_append

@[simp] theorem lastKind_append_singleton : lastKind (ts ++ [t]) = some t.kind := by simp [lastKind]

/-- What holds of each token with those before and behind it, by the index of the token. -/
theorem forall_split_iff {p : List Token → Token → List Token → Prop} :
    (∀ us t vs, ts = us ++ t :: vs → p us t vs) ↔
      ∀ n, (h : n < ts.length) → p (ts.take n) ts[n] (ts.drop (n + 1)) := by
  constructor
  · exact fun h n hn => h _ _ _ (by simp)
  · rintro h us t vs rfl
    simpa using h us.length (by simp)

theorem eachAfter_nil (r : TokenKind → Option TokenKind → Prop) : EachAfter r [] :=
  fun us t vs h => by simp at h

theorem EachAfter.append_singleton {r : TokenKind → Option TokenKind → Prop} (h : EachAfter r ts)
    (ht : r t.kind (lastKind ts)) : EachAfter r (ts ++ [t]) := by
  intro us u vs heq
  obtain rfl | ⟨vs, v, rfl⟩ := List.eq_nil_or_concat' vs
  · obtain ⟨rfl, huv⟩ := List.append_inj' heq rfl
    rwa [← (List.cons.inj huv).1]
  · rw [← List.cons_append, ← List.append_assoc] at heq
    exact h us u vs (List.append_inj' heq rfl).1

theorem lastKind_dedents (ht : t.kind = .dedent)
    (hlast : lastKind ts = some .newline ∨ lastKind ts = some .dedent) (n : Nat) :
    lastKind (ts ++ List.replicate n t) = some .newline ∨
      lastKind (ts ++ List.replicate n t) = some .dedent := by
  cases n with
  | zero => rwa [List.replicate_zero, List.append_nil]
  | succ n =>
    rw [List.replicate_succ', ← List.append_assoc, lastKind_append_singleton, ht]
    exact .inr rfl

theorem EachAfter.append_dedents (h : EachAfter TokenKind.MayFollow ts) (ht : t.kind = .dedent)
    (hlast : lastKind ts = some .newline ∨ lastKind ts = some .dedent) (n : Nat) :
    EachAfter TokenKind.MayFollow (ts ++ List.replicate n t) := by
  induction n with
  | zero => rwa [List.replicate_zero, List.append_nil]
  | succ n ih =>
    rw [List.replicate_succ', ← List.append_assoc]
    exact ih.append_singleton ⟨by simp [ht], fun _ => lastKind_dedents ht hlast n⟩

end Tokens

/-! ## The tokens so far -/

/-- The last of some tokens ends a line or a block, or there is none. -/
def LineEnded (ts : List Token) : Prop :=
  lastKind ts = none ∨ lastKind ts = some .newline ∨ lastKind ts = some .dedent

/-- The widths of open blocks, of which the innermost comes first, lie inside each other and inside
the margin. -/
def Nested (indents : List Nat) : Prop := (indents ++ [0]).Pairwise (· > ·)

/-- What the tokens so far say about the state that was reached. -/
structure Standing (ts : List Token) (s : LexState) : Prop where
  outside : s.lineStart = true → s.depth = 0
  fresh : s.lineStart = true → lastKind ts = none ∨ lastKind ts = some .newline
  ended : s.lineOpen = false ↔ LineEnded ts
  nested : Nested s.indents
  level : s.indents.length + closings ts = openings ts
  turn : EachAfter TokenKind.MayFollow ts

theorem nested_of_append {closed kept : List Nat} (h : Nested (closed ++ kept)) : Nested kept := by
  rw [Nested, List.append_assoc] at h
  exact (List.pairwise_append.1 h).2.1

theorem Nested.cons {width : Nat} {indents : List Nat} (h : Nested indents)
    (deeper : indents.headD 0 < width) : Nested (width :: indents) := by
  refine List.pairwise_cons.2 ⟨?_, h⟩
  cases indents with
  | nil => simpa using deeper
  | cons w indents =>
    have hw : w < width := deeper
    intro v hv
    rcases List.mem_cons.1 hv with rfl | hv
    · exact hw
    · exact Nat.lt_trans ((List.pairwise_cons.1 h).1 v hv) hw

section Standing

variable {s t : LexState} {piece : List Char} {ts us : List Token}

theorem standing_start (text : List Char) : Standing [] (LexState.start text) :=
  ⟨fun _ => rfl, fun _ => .inl rfl, iff_of_true rfl (.inl rfl), by simp [Nested, LexState.start],
    rfl, eachAfter_nil _⟩

/-- Before the first token no block is open. -/
theorem Standing.indents_eq (h : Standing ts s) (hnone : lastKind ts = none) : s.indents = [] := by
  have hts : ts = [] := by simpa [lastKind] using hnone
  have hlevel := h.level
  rw [hts] at hlevel
  exact List.eq_nil_of_length_eq_zero (Nat.eq_zero_of_add_eq_zero_right hlevel)

/-- What the tokens so far say is kept up by each step. -/
theorem Standing.step (h : Standing ts s) (next : LexStep s piece us t) :
    Standing (ts ++ us) t := by
  cases next with
  | spacing | innerBreak | comment | continuation =>
    rw [List.append_nil]
    exact ⟨h.outside, h.fresh, h.ended, h.nested, h.level, h.turn⟩
  | bracketLine start bracketed => exact absurd (h.outside start) (by omega)
  | blankEnd =>
    rw [List.append_nil]
    exact ⟨by simp, by simp, h.ended, h.nested, h.level, h.turn⟩
  | blankLine start outside | commentLine start outside =>
    rw [List.append_nil]
    exact ⟨fun _ => outside, fun _ => h.fresh start, h.ended, h.nested, h.level, h.turn⟩
  | newline inside rest ends outside =>
    refine ⟨fun _ => outside, fun _ => .inr (by simp [LexState.newline]), ?_, h.nested, ?_, ?_⟩
    · simp [LineEnded, LexState.newline]
    · simpa [openings, closings, LexState.newline, LexState.past] using h.level
    · exact h.turn.append_singleton ⟨by simp [LexState.newline], by simp [LexState.newline]⟩
  | @token c cs kind n inside rest code whole found =>
    have htext := recognise_hasText found
    have hkind : kind ≠ .newline ∧ kind ≠ .indent ∧ kind ≠ .dedent := by
      refine ⟨?_, ?_, ?_⟩ <;> rintro rfl <;> cases htext
    refine ⟨by simp [LexState.past, inside], by simp [LexState.past, inside], ?_, h.nested, ?_, ?_⟩
    · simp [LineEnded, hkind]
    · simpa [openings, closings, hkind, LexState.past] using h.level
    · exact h.turn.append_singleton ⟨by simp [hkind], by simp [hkind]⟩
  | indent start outside rest blank code deeper =>
    refine ⟨by simp, by simp, by simp [LineEnded, LexState.bare], h.nested.cons deeper, ?_, ?_⟩
    · have hlevel := h.level
      simp [openings, closings, LexState.bare] at hlevel ⊢
      omega
    · exact h.turn.append_singleton ⟨fun _ => h.fresh start, by simp [LexState.bare]⟩
  | @dedent blanks cs closed kept start outside rest blank code indents deeper level =>
    have hkept : Nested kept := nested_of_append (indents ▸ h.nested)
    have hlevel := h.level
    rw [indents, List.length_append] at hlevel
    by_cases hnone : closed = []
    · subst hnone
      refine ⟨by simp, by simp, ?_, hkept, by simpa using hlevel, by simpa using h.turn⟩
      simpa using h.ended
    · have hlast : lastKind ts = some .newline :=
        (h.fresh start).resolve_left fun hlast =>
          hnone (List.append_eq_nil_iff.1 (indents.symm.trans (h.indents_eq hlast))).1
      refine ⟨by simp, by simp, ?_, hkept, ?_, h.turn.append_dedents rfl (.inl hlast) _⟩
      · exact iff_of_true (by simp [hnone]) (.inr (lastKind_dedents rfl (.inl hlast) _))
      · simp [openings, closings, LexState.bare, List.countP_replicate] at hlevel ⊢
        omega

/-- **What the tokens so far say holds all along a run.** -/
theorem LexRun.standing {text : List Char} (h : LexRun s text us t) (hs : Standing ts s) :
    Standing (ts ++ us) t := by
  induction h with
  | refl => rwa [List.append_nil]
  | step _ next ih =>
    rw [← List.append_assoc]
    exact ih.step next

/-- The same from the start of a text. -/
theorem LexRun.standing_of_start {source text : List Char}
    (h : LexRun (LexState.start source) text us t) : Standing us t :=
  h.standing (standing_start source)

/-- Steps yield no token that ends the text. -/
theorem LexRun.kind_ne_eof {text : List Char} (h : LexRun s text us t) :
    ∀ u ∈ us, u.kind ≠ .eof := by
  induction h with
  | refl => simp
  | step _ next ih => exact List.forall_mem_append.2 ⟨ih, next.kind_ne_eof⟩

end Standing

/-! ## The stack all along -/

/-- The stack of open blocks: the margin and then their widths from the outermost on. -/
def stackOf (indents : List Nat) : List Nat := 0 :: indents.reverse

/-- The token that the end of a text gives to its last line. -/
def LexState.lineEnd (s : LexState) : List Token := if s.lineOpen then [s.newline] else []

/-- A moment of the run from `s`: the tokens so far, and the stack of open blocks. Where several
blocks close, they are taken off the stack one by one, each with its token. -/
inductive LexState.Moment (s : LexState) : List Token → List Nat → Prop
  | between {text : List Char} {ts : List Token} {t : LexState} (run : LexRun s text ts t) :
      Moment s ts (stackOf t.indents)
  | closing {text piece : List Char} {ts us : List Token} {t u : LexState} {closed : List Nat}
      {n : Nat} (run : LexRun s text ts t) (next : LexStep t piece us u)
      (closes : t.indents = closed ++ u.indents) (part : n ≤ closed.length) :
      Moment s (ts ++ us.take n) (stackOf (t.indents.drop n))
  | ending {text : List Char} {ts : List Token} {t : LexState} {n : Nat} (run : LexRun s text ts t)
      (done : t.isDone = true) (part : n ≤ t.indents.length) :
      Moment s (ts ++ t.lineEnd ++ List.replicate n (t.bare .dedent)) (stackOf (t.indents.drop n))
  | ended {text : List Char} {ts : List Token} {t : LexState} (run : LexRun s text ts t)
      (done : t.isDone = true) : Moment s (ts ++ t.finish) (stackOf [])

/-- The stack of open blocks goes up from the margin, and it is as high as the tokens say. -/
structure Stacked (ts : List Token) (stack : List Nat) : Prop where
  bottom : stack.head? = some 0
  increasing : stack.Pairwise (· < ·)
  height : stack.length + closings ts = openings ts + 1

section Stack

variable {s t u : LexState} {text piece : List Char} {ts us : List Token} {n : Nat}

theorem Nested.drop {indents : List Nat} (h : Nested indents) (n : Nat) :
    Nested (indents.drop n) := by
  rw [← List.take_append_drop n indents] at h
  exact nested_of_append h

theorem Nested.stacked {indents : List Nat} (h : Nested indents)
    (level : indents.length + closings ts = openings ts) : Stacked ts (stackOf indents) := by
  have hreverse : stackOf indents = (indents ++ [0]).reverse := by simp [stackOf]
  refine ⟨rfl, ?_, ?_⟩
  · rw [hreverse, List.pairwise_reverse]
    exact h
  · simp only [stackOf, List.length_cons, List.length_reverse]
    omega

theorem openings_dedents (s : LexState) (n : Nat) :
    openings (List.replicate n (s.bare .dedent)) = 0 := by
  simp [openings, List.countP_replicate, LexState.bare]

theorem closings_dedents (s : LexState) (n : Nat) :
    closings (List.replicate n (s.bare .dedent)) = n := by
  simp [closings, List.countP_replicate, LexState.bare]

/-- The tokens of a step that closes blocks close one block each. -/
theorem LexStep.take_closing {closed : List Nat} (h : LexStep t piece us u)
    (closes : t.indents = closed ++ u.indents) (part : n ≤ closed.length) :
    openings (us.take n) = 0 ∧ closings (us.take n) = n := by
  have hsame : u.indents = t.indents → openings (us.take n) = 0 ∧ closings (us.take n) = n := by
    intro hindents
    rw [hindents, List.self_eq_append_left] at closes
    obtain rfl : n = 0 := by simpa [closes] using part
    exact ⟨rfl, rfl⟩
  cases h with
  | dedent _ _ _ _ _ indents =>
    obtain rfl := List.append_cancel_right (indents.symm.trans closes)
    rw [List.take_replicate, Nat.min_eq_left part]
    exact ⟨openings_dedents .., closings_dedents ..⟩
  | indent =>
    have hlength := congrArg List.length closes
    simp only [List.length_append, List.length_cons] at hlength
    omega
  | _ => exact hsame rfl

theorem openings_lineEnd (s : LexState) : openings s.lineEnd = 0 := by
  unfold LexState.lineEnd
  split <;> rfl

theorem closings_lineEnd (s : LexState) : closings s.lineEnd = 0 := by
  unfold LexState.lineEnd
  split <;> rfl

theorem LexState.finish_eq (s : LexState) :
    s.finish = s.lineEnd ++ List.replicate s.indents.length (s.bare .dedent) ++ [s.bare .eof] := by
  rw [finish, List.map_const', lineEnd]

/-- The stack goes up from the margin all along. -/
theorem LexState.Moment.stacked {source : List Char} {stack : List Nat}
    (h : (LexState.start source).Moment ts stack) : Stacked ts stack := by
  cases h with
  | between run => exact run.standing_of_start.nested.stacked run.standing_of_start.level
  | closing run next closes part =>
    have hstanding := run.standing_of_start
    obtain ⟨hopen, hclose⟩ := next.take_closing closes part
    refine (hstanding.nested.drop _).stacked ?_
    have hlevel := hstanding.level
    have hpart := congrArg List.length closes
    simp only [openings_append, closings_append, hopen, hclose, List.length_drop,
      List.length_append] at hlevel hpart ⊢
    omega
  | ending run done part =>
    have hstanding := run.standing_of_start
    refine (hstanding.nested.drop _).stacked ?_
    have hlevel := hstanding.level
    simp only [openings_append, closings_append, openings_lineEnd, closings_lineEnd,
      openings_dedents, closings_dedents, List.length_drop]
    omega
  | @ended _ _ t run done =>
    have hnested : Nested [] := by simp [Nested]
    refine hnested.stacked ?_
    have hlevel := run.standing_of_start.level
    have heof : openings [t.bare .eof] = 0 ∧ closings [t.bare .eof] = 0 := ⟨rfl, rfl⟩
    simp only [LexState.finish_eq, openings_append, closings_append, openings_lineEnd,
      closings_lineEnd, openings_dedents, closings_dedents, heof, List.length_nil]
    omega

/-- The tokens of a step come all at once, unless the step closes blocks. -/
theorem LexStep.split_tokens {vs : List Token} (h : LexStep t piece (us ++ vs) u) :
    us = [] ∨ vs = [] ∨ ∃ closed, t.indents = closed ++ u.indents ∧ us.length ≤ closed.length := by
  generalize hts : us ++ vs = ts at h
  have hnone : us ++ vs = [] → us = [] := fun hnil => (List.append_eq_nil_iff.1 hnil).1
  have hone : ∀ {v}, us ++ vs = [v] → us = [] ∨ vs = [] := fun hv => by
    rcases List.append_eq_singleton_iff.1 hv with ⟨rfl, -⟩ | ⟨-, rfl⟩
    · exact .inl rfl
    · exact .inr rfl
  cases h with
  | newline | token | indent => exact (hone hts).imp_right .inl
  | @dedent _ _ closed _ _ _ _ _ _ indents =>
    have hlength := congrArg List.length hts
    rw [List.length_append, List.length_replicate] at hlength
    exact .inr (.inr ⟨closed, indents, by omega⟩)
  | _ => exact .inl (hnone hts)

/-- Each beginning of the tokens of a run is there at some moment. -/
theorem LexRun.exists_moment (h : LexRun s text ts t) (hp : us <+: ts) :
    ∃ stack, s.Moment us stack := by
  induction h with
  | refl =>
    obtain rfl := List.prefix_nil.1 hp
    exact ⟨_, .between .refl⟩
  | @step text piece vs ws t u run next ih =>
    obtain ⟨more, hmore⟩ := hp
    obtain ⟨rest, rfl, -⟩ | ⟨first, rfl, rfl⟩ := List.append_eq_append_iff.1 hmore
    · exact ih (List.prefix_append ..)
    · obtain rfl | rfl | ⟨closed, closes, part⟩ := next.split_tokens
      · exact ⟨_, .between (by simpa using run)⟩
      · rw [List.append_nil] at next
        exact ⟨_, .between (.step run next)⟩
      · have hmoment := LexState.Moment.closing run next closes part
        rw [List.take_left] at hmoment
        exact ⟨_, hmoment⟩

theorem LexState.lineEnd_split {vs : List Token} (h : s.lineEnd = us ++ vs) :
    us = [] ∨ us = s.lineEnd := by
  unfold lineEnd at h
  split at h
  · next hopen =>
    obtain ⟨rfl, -⟩ | ⟨rfl, -⟩ := List.append_eq_singleton_iff.1 h.symm
    · exact .inl rfl
    · exact .inr (if_pos hopen).symm
  · exact .inl (List.append_eq_nil_iff.1 h.symm).1

/-- Each beginning of the tokens of a text is there at some moment. -/
theorem LexState.exists_moment (h : s.tokens = .ok ts) (hp : us <+: ts) :
    ∃ stack, s.Moment us stack := by
  obtain ⟨vs, t, run, done, rfl⟩ := s.exists_run h
  rw [finish_eq, ← List.append_assoc, List.prefix_concat_iff] at hp
  obtain rfl | ⟨more, hmore⟩ := hp
  · have hmoment := Moment.ended run done
    rw [finish_eq, ← List.append_assoc] at hmoment
    exact ⟨_, hmoment⟩
  · obtain ⟨rest, rfl, -⟩ | ⟨first, rfl, hfirst⟩ := List.append_eq_append_iff.1 hmore
    · exact run.exists_moment (List.prefix_append ..)
    · have hline : first = [] ∨ ∃ n, n ≤ t.indents.length ∧
          first = t.lineEnd ++ List.replicate n (t.bare .dedent) := by
        obtain ⟨rest, hrest, -⟩ | ⟨dedents, rfl, hdedents⟩ :=
          List.append_eq_append_iff.1 hfirst.symm
        · refine (lineEnd_split hrest).imp_right fun hfirst => ⟨0, Nat.zero_le _, ?_⟩
          rw [hfirst, List.replicate_zero, List.append_nil]
        · obtain ⟨hlength, hdedents, -⟩ := List.append_eq_replicate_iff.1 hdedents.symm
          exact .inr ⟨dedents.length, by omega, by rw [← hdedents]⟩
      obtain rfl | ⟨n, part, rfl⟩ := hline
      · exact ⟨_, .between (by simpa using run)⟩
      · have hmoment := Moment.ending run done part
        rw [List.append_assoc] at hmoment
        exact ⟨_, hmoment⟩

end Stack

/-! ## Balance -/

/-- Blocks are balanced: the end of the input comes last and only there, no beginning of the tokens
closes more blocks than it opens, and in the end all are closed. A block opens at the start of the
text or right after the end of a line, and it closes right after the end of a line or after another
block that closes. -/
structure BlocksBalanced (ts : List Token) : Prop where
  last : ∃ us e, ts = us ++ [e] ∧ e.kind = .eof ∧ ∀ u ∈ us, u.kind ≠ .eof
  level : ∀ us, us <+: ts → closings us ≤ openings us
  closed : closings ts = openings ts
  indent : ∀ us t vs, ts = us ++ t :: vs → t.kind = .indent →
    us = [] ∨ ∃ u, us.getLast? = some u ∧ u.kind = .newline
  dedent : ∀ us t vs, ts = us ++ t :: vs → t.kind = .dedent →
    ∃ u, us.getLast? = some u ∧ (u.kind = .newline ∨ u.kind = .dedent)

theorem exists_of_lastKind {ts : List Token} {k : TokenKind} (h : lastKind ts = some k) :
    ∃ u, ts.getLast? = some u ∧ u.kind = k := Option.map_eq_some_iff.1 h

theorem Standing.lineEnd {s : LexState} {ts : List Token} (h : Standing ts s) :
    EachAfter TokenKind.MayFollow (ts ++ s.lineEnd) ∧ (s.indents = [] ∨
      lastKind (ts ++ s.lineEnd) = some .newline ∨ lastKind (ts ++ s.lineEnd) = some .dedent) := by
  unfold LexState.lineEnd
  split
  · exact ⟨h.turn.append_singleton ⟨by simp [LexState.newline], by simp [LexState.newline]⟩,
      .inr (.inl lastKind_append_singleton)⟩
  · next hclosed =>
    rw [List.append_nil]
    refine ⟨h.turn, ?_⟩
    obtain hnone | hlast := h.ended.1 (by simpa using hclosed)
    · exact .inl (h.indents_eq hnone)
    · exact .inr hlast

theorem Standing.finish {s : LexState} {ts : List Token} (h : Standing ts s) :
    EachAfter TokenKind.MayFollow (ts ++ s.finish) := by
  obtain ⟨hturn, hlast⟩ := h.lineEnd
  rw [LexState.finish_eq, ← List.append_assoc, ← List.append_assoc]
  refine EachAfter.append_singleton ?_ ⟨by simp [LexState.bare], by simp [LexState.bare]⟩
  obtain hnone | hlast := hlast
  · simpa [hnone] using hturn
  · exact hturn.append_dedents rfl hlast _

/-- **Blocks are balanced**, and all along the stack of open blocks goes up from the margin and is
as high as the tokens so far say. Each beginning of the tokens is there at some moment. -/
theorem tokenize_balanced {text : String} {ts : List Token} (h : tokenize text = .ok ts) :
    BlocksBalanced ts ∧
      (∀ us stack, (LexState.start text.toList).Moment us stack → Stacked us stack) ∧
      ∀ us, us <+: ts → ∃ stack, (LexState.start text.toList).Moment us stack := by
  obtain ⟨vs, t, run, done, rfl⟩ := LexState.exists_run h
  have hturn := run.standing_of_start.finish
  have hwhole := (LexState.Moment.ended run done).stacked
  refine ⟨⟨?last, ?level, ?closed, ?indent, ?dedent⟩, fun us stack => LexState.Moment.stacked,
    fun us => LexState.exists_moment h⟩
  case last =>
    obtain ⟨us, e, hts, heof, hus, -⟩ := tokenize_laidOut h
    exact ⟨us, e, hts, heof, hus⟩
  case level =>
    intro us hp
    obtain ⟨stack, hmoment⟩ := LexState.exists_moment h hp
    have hstacked := hmoment.stacked
    have hpos : 0 < stack.length := by
      rw [List.length_pos_iff]
      rintro rfl
      cases hstacked.bottom
    have hheight := hstacked.height
    omega
  case closed =>
    have hheight := hwhole.height
    simp only [stackOf, List.reverse_nil, List.length_singleton] at hheight
    omega
  case indent =>
    intro us u ws hts hu
    refine ((hturn us u ws hts).1 hu).imp ?_ exists_of_lastKind
    simp [lastKind]
  case dedent =>
    intro us u ws hts hu
    rcases (hturn us u ws hts).2 hu with hlast | hlast
    · obtain ⟨v, hv, hkind⟩ := exists_of_lastKind hlast
      exact ⟨v, hv, .inl hkind⟩
    · obtain ⟨v, hv, hkind⟩ := exists_of_lastKind hlast
      exact ⟨v, hv, .inr hkind⟩

/-- A text with two blocks that close together, a line break in brackets and a comment. -/
def nestedBlocks : String := "if a:\n\tif b:\n\t  (c,\nd)\n# e\nf\n"

/-- Its tenth token opens the inner block. -/
theorem nestedBlocks_balanced : ∃ ts, tokenize nestedBlocks = .ok ts ∧ openings ts = 2 ∧
    BlocksBalanced ts ∧ ∃ stack, (LexState.start nestedBlocks.toList).Moment (ts.take 10) stack ∧
      Stacked (ts.take 10) stack ∧ stack.length = 3 := by
  have h : tokenize nestedBlocks = .ok ((tokenize nestedBlocks).toOption.getD []) := by
    decide +kernel
  obtain ⟨hbalanced, hstacked, hmoments⟩ := tokenize_balanced h
  obtain ⟨stack, hmoment⟩ := hmoments _ (List.take_prefix 10 _)
  refine ⟨_, h, by decide +kernel, hbalanced, stack, hmoment, hstacked _ _ hmoment, ?_⟩
  have hopen : openings (((tokenize nestedBlocks).toOption.getD []).take 10) = 2 := by
    decide +kernel
  have hclose : closings (((tokenize nestedBlocks).toOption.getD []).take 10) = 0 := by
    decide +kernel
  have hheight := (hstacked _ _ hmoment).height
  omega

end Gradual
