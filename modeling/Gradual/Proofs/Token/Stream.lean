import Gradual.Token.Stream

/-!
# Taking tokens from a stream

The operations on streams take tokens from the front, one after the other, and never the end of the
input.

* `Stream.Takes`, `Stream.Takes.append`: some tokens are taken from a stream;
* `Stream.takes_of_next?`, `Stream.takes_of_take?`: taking one token;
* `Stream.takes_skipWhile`, `Stream.skipToCloser_eq_ok`, `Stream.skipLevels_rest`: taking many;
* `ParseError.RaisedIn`: an error at a token that is still ahead, or at the end of the input;
* `Settles`: a result, or an error at one of the tokens;
* `Yields`, **`Yields.bind`**: what a parser gives, whether it ends well or not.
-/

namespace Gradual

namespace Stream

variable {c c₁ c₂ : Stream} {t : Token} {ts us : List Token} {k : TokenKind}

/-! ## Taking some tokens -/

/-- Taking the tokens `ts` from the stream `c` leaves `c'`. -/
def Takes (c : Stream) (ts : List Token) (c' : Stream) : Prop :=
  c.ahead = ts ++ c'.ahead ∧ c' = c.drop ts.length

theorem drop_drop (c : Stream) (m n : Nat) : (c.drop m).drop n = c.drop (m + n) := by
  have hlast : (c.ahead.take (m + n)).getLast? =
      ((c.ahead.drop m).take n).getLast?.or (c.ahead.take m).getLast? := by
    rw [List.take_add, List.getLast?_append]
  simp only [drop, List.drop_drop, hlast]
  cases ((c.ahead.drop m).take n).getLast? <;> rfl

theorem takes_nil (c : Stream) : c.Takes [] c := by
  refine ⟨rfl, ?_⟩
  simp [drop]

theorem Takes.eq_of_nil (h : c.Takes [] c₁) : c₁ = c := by
  rw [h.2]
  simp [drop]

theorem takes_drop (c : Stream) (n : Nat) : c.Takes (c.ahead.take n) (c.drop n) := by
  refine ⟨(List.take_append_drop n c.ahead).symm, ?_⟩
  by_cases hn : n ≤ c.ahead.length
  · rw [List.length_take_of_le hn]
  · have hlen : c.ahead.length ≤ n := by omega
    simp [drop, List.take_of_length_le hlen, List.drop_eq_nil_of_le hlen]

theorem takes_takeWhile (c : Stream) (p : Token → Bool) :
    c.Takes (c.ahead.takeWhile p) (c.drop (c.ahead.takeWhile p).length) := by
  have htake := List.prefix_iff_eq_take.1 (List.takeWhile_prefix (l := c.ahead) p)
  have htakes := c.takes_drop (c.ahead.takeWhile p).length
  rwa [← htake] at htakes

theorem Takes.append (h : c.Takes ts c₁) (h' : c₁.Takes us c₂) : c.Takes (ts ++ us) c₂ := by
  obtain ⟨hts, rfl⟩ := h
  obtain ⟨hus, rfl⟩ := h'
  refine ⟨?_, ?_⟩
  · rw [hts, hus, List.append_assoc]
  · rw [drop_drop, List.length_append]

theorem Takes.cons (h : c.Takes [t] c₁) (h' : c₁.Takes ts c₂) : c.Takes (t :: ts) c₂ := h.append h'

theorem Takes.size_eq (h : c.Takes ts c₁) : c.size = ts.length + c₁.size := by
  rw [size, size, h.1, List.length_append]

theorem ne_of_size_lt (h : c₁.size < c.size) : c₁ ≠ c := by
  rintro rfl
  exact Nat.lt_irrefl _ h

theorem Takes.stop_eq (h : c.Takes ts c₁) : c₁.stop = c.stop := by
  rw [h.2]
  rfl

theorem Takes.afterNewline_eq (h : c.Takes ts c₁) (ht : ts.getLast? = some t) :
    c₁.afterNewline = (t.kind == .newline) := by
  have htake : c.ahead.take ts.length = ts := by rw [h.1, List.take_left]
  rw [h.2]
  simp only [drop, htake, ht]

/-! ## Taking one token -/

theorem takes_of_next? {h : c₁.size < c.size} (hn : c.next? = some ⟨t, c₁, h⟩) :
    c.Takes [t] c₁ := by
  unfold next? at hn
  split at hn
  · cases hn
  · next u us hc =>
    cases hn
    refine ⟨hc, ?_⟩
    simp [drop, hc]

theorem next?_eq_none (hn : c.next? = none) : c.ahead = [] := by
  unfold next? at hn
  split at hn
  · next hc => exact hc
  · cases hn

theorem takes_of_take? {h : c₁.size < c.size} (ht : c.take? k = some ⟨t, c₁, h⟩) :
    c.Takes [t] c₁ ∧ t.kind = k := by
  unfold take? at ht
  split at ht
  · next r hr =>
    split at ht
    · next hk =>
      cases ht
      exact ⟨takes_of_next? hr, hk⟩
    · cases ht
  · cases ht

theorem take?_eq_none (ht : c.take? k = none) : c.ahead = [] ∨ c.kind ≠ k := by
  unfold take? at ht
  split at ht
  · next r hr =>
    split at ht
    · cases ht
    · next hk =>
      rw [kind, peek, (takes_of_next? hr).1]
      exact .inr hk
  · next hn => exact .inl (next?_eq_none hn)

theorem Takes.peek_eq (h : c.Takes (t :: ts) c₁) : c.peek = t := by
  rw [peek, h.1]
  rfl

theorem Takes.kind_eq (h : c.Takes (t :: ts) c₁) : c.kind = t.kind := by rw [kind, h.peek_eq]

/-! ## Taking many tokens -/

/-- **The loop over tokens of some kinds** takes all of them up to the first of another kind. -/
theorem takes_skipWhile (c : Stream) (p : TokenKind → Bool) :
    c.Takes (c.ahead.takeWhile (p ·.kind)) (c.skipWhile p).rest := by
  fun_induction skipWhile c p with
  | case1 c hnone =>
    rw [next?_eq_none hnone]
    exact c.takes_nil
  | case2 c r hnext hp s ih =>
    have ht := takes_of_next? hnext
    have hfirst : (r.value :: r.rest.ahead).takeWhile (p ·.kind) =
        r.value :: r.rest.ahead.takeWhile (p ·.kind) := List.takeWhile_cons_of_pos hp
    rw [ht.1, List.singleton_append, hfirst]
    exact ht.cons ih
  | case3 c r hnext hp =>
    have hfirst : (r.value :: r.rest.ahead).takeWhile (p ·.kind) = [] :=
      List.takeWhile_cons_of_neg hp
    rw [(takes_of_next? hnext).1, List.singleton_append, hfirst]
    exact c.takes_nil

/-- The number of brackets that are open after some tokens, when `d` are open before them; nothing
if the tokens close a bracket that is open around all of these. -/
def openBrackets : (d : Nat) → List Token → Option Nat
  | d, [] => some d
  | d, t :: ts =>
    match t.kind with
    | .mark m =>
      if m.opens then openBrackets (d + 1) ts
      else if m.closes then if d = 0 then none else openBrackets (d - 1) ts
      else openBrackets d ts
    | _ => openBrackets d ts

/-- The tokens close every bracket that they open, and no other one. -/
def Balanced (ts : List Token) : Prop := openBrackets 0 ts = some 0

theorem closerIndex_eq_some {d n : Nat} (h : closerIndex d ts = some n) :
    ∃ us t vs m, ts = us ++ t :: vs ∧ us.length = n ∧ openBrackets d us = some 0 ∧
      t.kind = .mark m ∧ m.closes = true := by
  fun_induction closerIndex d ts generalizing n with
  | case1 => cases h
  | case2 d t ts m hm hopens ih =>
    obtain ⟨n', hn', rfl⟩ := Option.map_eq_some_iff.1 h
    obtain ⟨us, u, vs, m', rfl, rfl, hopen, hu⟩ := ih hn'
    exact ⟨t :: us, u, vs, m', rfl, rfl, by simpa [openBrackets, hm, hopens] using hopen, hu⟩
  | case3 t ts m hm _ hcloses =>
    cases h
    exact ⟨[], t, ts, m, rfl, rfl, rfl, hm, hcloses⟩
  | case4 d t ts m hm hopens hcloses hd ih =>
    obtain ⟨n', hn', rfl⟩ := Option.map_eq_some_iff.1 h
    obtain ⟨us, u, vs, m', rfl, rfl, hopen, hu⟩ := ih hn'
    refine ⟨t :: us, u, vs, m', rfl, rfl, ?_, hu⟩
    simpa [openBrackets, hm, hopens, hcloses, hd] using hopen
  | case5 d t ts m hm hopens hcloses ih =>
    obtain ⟨n', hn', rfl⟩ := Option.map_eq_some_iff.1 h
    obtain ⟨us, u, vs, m', rfl, rfl, hopen, hu⟩ := ih hn'
    refine ⟨t :: us, u, vs, m', rfl, rfl, ?_, hu⟩
    simpa [openBrackets, hm, hopens, hcloses] using hopen
  | case6 d t ts hm ih =>
    obtain ⟨n', hn', rfl⟩ := Option.map_eq_some_iff.1 h
    obtain ⟨us, u, vs, m', rfl, rfl, hopen, hu⟩ := ih hn'
    refine ⟨t :: us, u, vs, m', rfl, rfl, ?_, hu⟩
    rw [openBrackets]
    split
    · next m hk => exact absurd hk (hm m)
    · exact hopen

theorem skipToCloser_eq_ok {r : Parsed (c.size + 1) Unit} (h : c.skipToCloser = .ok r) :
    ∃ ts m, c.Takes ts r.rest ∧ Balanced ts ∧ r.rest.kind = .mark m ∧ m.closes = true := by
  unfold skipToCloser at h
  split at h
  · next n hn =>
    cases h
    obtain ⟨us, t, vs, m, hc, hlen, hopen, ht, hm⟩ := closerIndex_eq_some hn
    have htakes := c.takes_drop n
    have hdrop : (c.drop n).ahead = t :: vs := by simp [drop, hc, ← hlen]
    rw [hc, ← hlen, List.take_left] at htakes
    refine ⟨us, m, hlen ▸ htakes, hopen, ?_, hm⟩
    rw [kind, peek, hdrop]
    exact ht
  · cases h

/-- The number of tokens up to the end of a block, the last `dedent` included, when `depth` blocks
are open; all tokens if the block does not end. -/
def blockLength : (depth : Nat) → List Token → Nat
  | _, [] => 0
  | depth, t :: ts =>
    match t.kind with
    | .indent => blockLength (depth + 1) ts + 1
    | .dedent => if depth ≤ 1 then 1 else blockLength (depth - 1) ts + 1
    | _ => blockLength depth ts + 1

theorem blockLength_eq (depth : Nat) (t : Token) (ts : List Token) :
    blockLength depth (t :: ts) =
      if t.kind = .dedent ∧ depthAfter depth t.kind = 0 then 1
      else blockLength (depthAfter depth t.kind) ts + 1 := by
  rw [blockLength]
  split
  next hk => simp [hk, depthAfter]
  next hk => simp [hk, depthAfter, Nat.sub_eq_zero_iff_le]
  next hindent hdedent =>
    have hdepth : depthAfter depth t.kind = depth := by
      unfold depthAfter
      split
      next hk => exact absurd hk hindent
      next hk => exact absurd hk hdedent
      next => rfl
    rw [if_neg fun h => hdedent h.1, hdepth]

/-- **The loop over a block** stops right after the `dedent` that closes it, or at the end. -/
theorem skipLevels_rest (c : Stream) (depth : Nat) :
    (c.skipLevels depth).rest = c.drop (blockLength depth c.ahead) := by
  fun_induction skipLevels c depth with
  | case1 c depth hnone =>
    rw [next?_eq_none hnone]
    exact c.takes_nil.2
  | case2 c depth r hnext after hlast =>
    have ht := takes_of_next? hnext
    rw [ht.1, List.singleton_append, blockLength_eq, if_pos hlast]
    exact ht.2
  | case3 c depth r hnext after hlast s ih =>
    have ht := takes_of_next? hnext
    have hlength : blockLength depth c.ahead = 1 + blockLength after r.rest.ahead := by
      rw [ht.1, List.singleton_append, blockLength_eq, if_neg hlast, Nat.add_comm]
    calc s.rest = r.rest.drop (blockLength after r.rest.ahead) := ih
      _ = (c.drop 1).drop (blockLength after r.rest.ahead) := congrArg (Stream.drop · _) ht.2
      _ = c.drop (blockLength depth c.ahead) := by rw [drop_drop, hlength]

theorem takes_skipBlock (c : Stream) :
    c.Takes (c.ahead.take (blockLength 0 c.ahead)) c.skipBlock.rest := by
  rw [skipBlock, skipLevels_rest]
  exact c.takes_drop _

/-! ## The stream of a sequence of tokens -/

theorem ahead_ofTokens {ts tail : List Token} (hts : ∀ t ∈ ts, t.kind ≠ .eof)
    (htail : ∀ t ∈ tail.head?, t.kind = .eof) : (ofTokens (ts ++ tail)).ahead = ts := by
  change (ts ++ tail).takeWhile (·.kind != .eof) = ts
  rw [List.takeWhile_append_of_pos (by simpa using hts)]
  cases tail with
  | nil => simp
  | cons t tail => simp [htail t rfl]

theorem stop_ofTokens (ts : List Token) : (ofTokens ts).stop.kind = .eof := by
  unfold ofTokens
  cases h : ts.find? (·.kind == .eof) with
  | some t => simpa using List.find?_some h
  | none =>
    simp only [Option.getD_none, impliedStop]
    split <;> rfl

end Stream

/-! ## What a parser gives -/

/-- An error is raised at a token of the stream, or at the end of the input. -/
def ParseError.RaisedIn (e : ParseError) (c : Stream) : Prop :=
  ∃ ts c', c.Takes ts c' ∧ e.place = c'.peek.start

/-- A result is a value that satisfies `P`, or an error at one of the tokens of `c`. -/
def Settles {α : Type} (c : Stream) (x : Except ParseError α) (P : α → Prop) : Prop :=
  match x with
  | .ok a => P a
  | .error e => e.RaisedIn c

theorem Settles.after {α : Type} {c c₁ : Stream} {ts : List Token} {x : Except ParseError α}
    {P : α → Prop} (hc : c.Takes ts c₁) (h : Settles c₁ x P) : Settles c x P := by
  cases x with
  | error e =>
    obtain ⟨us, c₂, hus, he⟩ := h
    exact ⟨ts ++ us, c₂, hc.append hus, he⟩
  | ok a => exact h

theorem Settles.mono {α : Type} {c : Stream} {x : Except ParseError α} {P Q : α → Prop}
    (hx : Settles c x P) (h : ∀ a, P a → Q a) : Settles c x Q := by
  cases x with
  | error e => exact hx
  | ok a => exact h a hx

/-- A parser that starts at `c`, a stream up to the end of the input, ends well at a stream that is
left after taking some tokens, with a value that satisfies `P` there, or it ends with an error at
one of the tokens. -/
def Yields {α : Type} {n : Nat} (c : Stream) (x : Except ParseError (Parsed n α))
    (P : α → Stream → Prop) : Prop :=
  c.stop.kind = .eof → Settles c x fun r => (∃ ts, c.Takes ts r.rest) ∧ P r.value r.rest

namespace Yields

variable {α β : Type} {m n : Nat} {c c₁ : Stream} {ts : List Token}
  {x : Except ParseError (Parsed n α)} {P : α → Stream → Prop} {Q : β → Stream → Prop}

theorem pure {a : α} {h : c.size < n} (ha : P a c) : Yields c (.ok ⟨a, c, h⟩) P :=
  fun _ => ⟨⟨[], c.takes_nil⟩, ha⟩

theorem fail (c : Stream) (fault : ParseFault) :
    Yields c (c.fail fault : Except _ (Parsed n α)) P :=
  fun _ => ⟨[], c, c.takes_nil, rfl⟩

theorem after (hc : c.Takes ts c₁) (h : Yields c₁ x P) : Yields c x P := by
  intro hstop
  refine .mono (.after hc (h (hc.stop_eq ▸ hstop))) ?_
  rintro r ⟨⟨us, hus⟩, hr⟩
  exact ⟨⟨ts ++ us, hc.append hus⟩, hr⟩

theorem bind {f : Parsed n α → Except ParseError (Parsed m β)} (hx : Yields c x P)
    (hf : ∀ a c₁ h, P a c₁ → Yields c₁ (f ⟨a, c₁, h⟩) Q) : Yields c (x >>= f) Q := by
  intro hstop
  specialize hx hstop
  cases x with
  | error e => exact hx
  | ok r =>
    obtain ⟨⟨ts, hts⟩, hr⟩ := hx
    exact after hts (hf r.value r.rest r.lt hr) hstop

/-- The same for what goes on to a value without a rest. -/
theorem settles {f : Parsed n α → Except ParseError β} {Q : β → Prop} (hx : Yields c x P)
    (hstop : c.stop.kind = .eof)
    (hf : ∀ a c₁ h, P a c₁ → c₁.stop.kind = .eof → Settles c₁ (f ⟨a, c₁, h⟩) Q) :
    Settles c (x >>= f) Q := by
  specialize hx hstop
  cases x with
  | error e => exact hx
  | ok r =>
    obtain ⟨⟨ts, hts⟩, hr⟩ := hx
    exact .after hts (hf r.value r.rest r.lt hr (hts.stop_eq ▸ hstop))

theorem mono {P' : α → Stream → Prop} (hx : Yields c x P) (h : ∀ a c₁, P a c₁ → P' a c₁) :
    Yields c x P' :=
  fun hstop => (hx hstop).mono fun _ hr => ⟨hr.1, h _ _ hr.2⟩

end Yields

namespace Stream

theorem yields_expect (c : Stream) (k : TokenKind) (fault : ParseFault) :
    Yields c (c.expect k fault) fun t c₁ => c.Takes [t] c₁ ∧ t.kind = k := by
  unfold expect
  split
  · next r hr =>
    have h := takes_of_take? hr
    exact fun _ => ⟨⟨_, h.1⟩, h⟩
  · exact .fail c fault

theorem yields_skipToCloser (c : Stream) :
    Yields c c.skipToCloser fun _ c₁ =>
      ∃ ts m, c.Takes ts c₁ ∧ Balanced ts ∧ c₁.kind = .mark m ∧ m.closes = true := by
  intro _
  cases h : c.skipToCloser with
  | ok r =>
    obtain ⟨ts, m, hts, hr⟩ := skipToCloser_eq_ok h
    exact ⟨⟨ts, hts⟩, ts, m, hts, hr⟩
  | error e =>
    unfold skipToCloser at h
    split at h
    · cases h
    · cases h
      refine ⟨_, _, c.takes_drop c.ahead.length, ?_⟩
      simp [drop, peek]

end Stream

end Gradual
