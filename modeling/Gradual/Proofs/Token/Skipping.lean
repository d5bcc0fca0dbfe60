import Gradual.Proofs.Token.Blocks
import Gradual.Proofs.Token.Words

/-!
# Skipping to the matching delimiter

Blocks and brackets are skipped by counting how many of them are open. What is skipped ends at the
token that matches the one before it, or at the first one that nothing matches.

* `Delimiters`, `Delimiters.level`: what opens and closes, and how many are open after some tokens;
* `Delimiters.Balanced`, `Delimiters.Pairs`: the token that closes what another one opens;
* `Delimiters.ClosesAt`: the first token that closes one more than is open;
* `Delimiters.Unmatched`, **`Delimiters.closesAt_iff`**: that token is the first one without a
  partner;
* **`skips_to_matching_closer`**: where the skipping of blocks and of brackets ends.
-/

namespace Gradual

theorem Mark.closes_eq_false {m : Mark} (h : m.opens = true) : m.closes = false := by
  cases m <;> simp_all [Mark.opens, Mark.closes]

/-- Kinds of tokens that open something, and kinds that close it. -/
structure Delimiters where
  opens : TokenKind → Bool
  closes : TokenKind → Bool
  apart : ∀ k, opens k = true → closes k = false

namespace Delimiters

/-- Indented blocks. -/
def blocks : Delimiters where
  opens k := k == .indent
  closes k := k == .dedent
  apart k h := by simp_all

/-- Brackets. The three forms of them count alike. -/
def brackets : Delimiters where
  opens
    | .mark m => m.opens
    | _ => false
  closes
    | .mark m => m.closes
    | _ => false
  apart k h := by
    cases k with
    | mark m => exact Mark.closes_eq_false h
    | _ => rfl

/-- The same tokens read backwards: what closes opens, and what opens closes. -/
def swap (D : Delimiters) : Delimiters where
  opens := D.closes
  closes := D.opens
  apart k h := by
    rw [← Bool.not_eq_true]
    intro hk
    rw [D.apart k hk] at h
    cases h

/-! ## Levels -/

/-- How many more delimiters some tokens open than they close. -/
def level (D : Delimiters) (ts : List Token) : Int :=
  ts.countP (D.opens ·.kind) - ts.countP (D.closes ·.kind)

section Level

variable {D : Delimiters} {t : Token} {ts us : List Token}

@[simp] theorem level_nil : D.level [] = 0 := rfl

@[simp] theorem level_append : D.level (ts ++ us) = D.level ts + D.level us := by
  simp only [level, List.countP_append]
  omega

theorem level_cons : D.level (t :: ts) = D.level [t] + D.level ts := by
  rw [← List.singleton_append, level_append]

theorem level_of_opens (h : D.opens t.kind = true) : D.level [t] = 1 := by
  simp [level, h, D.apart _ h]

theorem level_of_closes (h : D.closes t.kind = true) : D.level [t] = -1 := by
  have hopens : D.opens t.kind = false := D.swap.apart _ h
  simp [level, h, hopens]

theorem level_of_neither (ho : D.opens t.kind = false) (hc : D.closes t.kind = false) :
    D.level [t] = 0 := by
  simp [level, ho, hc]

theorem level_swap_reverse : D.swap.level ts.reverse = -D.level ts := by
  simp only [level, swap, List.countP_reverse]
  omega

end Level

/-! ## Matching tokens -/

/-- The tokens close `d` of the delimiters that are open around them, and all that they open. -/
structure Closing (D : Delimiters) (d : Nat) (ts : List Token) : Prop where
  level_eq : D.level ts = -d
  neg_le_level : ∀ us, us <+: ts → -d ≤ D.level us

/-- The tokens close all that they open, and nothing else. -/
def Balanced (D : Delimiters) (ts : List Token) : Prop := D.Closing 0 ts

/-- The token at the index `j` closes what the one at `i` opens. -/
structure Pairs (D : Delimiters) (ts : List Token) (i j : Nat) : Prop where
  lt : i < j
  opens : ∃ t, ts[i]? = some t ∧ D.opens t.kind = true
  closes : ∃ u, ts[j]? = some u ∧ D.closes u.kind = true
  between : D.Balanced ((ts.take j).drop (i + 1))

/-- The token at the index `j` closes something, but nothing that is opened at or after the index
`n`. -/
structure Unmatched (D : Delimiters) (ts : List Token) (n j : Nat) : Prop where
  le : n ≤ j
  closes : ∃ u, ts[j]? = some u ∧ D.closes u.kind = true
  alone : ∀ i, n ≤ i → ¬ D.Pairs ts i j

/-- The token at the index `j` is the first one at or after the index `n` that is unmatched. -/
def FirstUnmatched (D : Delimiters) (ts : List Token) (n j : Nat) : Prop :=
  D.Unmatched ts n j ∧ ∀ k, k < j → ¬ D.Unmatched ts n k

/-- The tokens before the index `n` close `d` of the delimiters that are open around them, and the
token there closes one more. -/
structure ClosesAt (D : Delimiters) (d : Nat) (ts : List Token) (n : Nat) : Prop where
  closes : ∃ u, ts[n]? = some u ∧ D.closes u.kind = true
  closing : D.Closing d (ts.take n)

section Matching

variable {D : Delimiters} {d e i j k n : Nat} {t : Token} {ts us : List Token}

theorem closing_nil : D.Closing d [] ↔ d = 0 := by
  constructor
  · intro h
    have := h.level_eq
    simp at this
    omega
  · rintro rfl
    exact ⟨rfl, fun us hus => by simp [List.prefix_nil.1 hus]⟩

/-- One token before others: `e` delimiters are open after it. -/
theorem closing_cons (h : d + D.level [t] = e) : D.Closing d (t :: ts) ↔ D.Closing e ts := by
  constructor
  · rintro ⟨hlevel, hle⟩
    refine ⟨?_, fun us hus => ?_⟩
    · rw [level_cons] at hlevel
      omega
    · have hus' := hle (t :: us) (List.cons_prefix_cons.2 ⟨rfl, hus⟩)
      rw [level_cons] at hus'
      omega
  · rintro ⟨hlevel, hle⟩
    refine ⟨?_, fun us hus => ?_⟩
    · rw [level_cons]
      omega
    · rcases List.prefix_cons_iff.1 hus with rfl | ⟨vs, rfl, hvs⟩
      · simp
      · have hvs' := hle vs hvs
        rw [level_cons]
        omega

theorem not_closesAt_nil : ¬ D.ClosesAt d [] n := by
  rintro ⟨⟨u, hu, -⟩, -⟩
  simp at hu

theorem closesAt_zero : D.ClosesAt d (t :: ts) 0 ↔ D.closes t.kind = true ∧ d = 0 := by
  constructor
  · rintro ⟨⟨u, hu, hcloses⟩, hclosing⟩
    cases hu
    exact ⟨hcloses, closing_nil.1 hclosing⟩
  · rintro ⟨hcloses, rfl⟩
    exact ⟨⟨t, rfl, hcloses⟩, closing_nil.2 rfl⟩

theorem closesAt_succ (h : d + D.level [t] = e) :
    D.ClosesAt d (t :: ts) (n + 1) ↔ D.ClosesAt e ts n := by
  constructor
  · rintro ⟨hcloses, hclosing⟩
    exact ⟨by simpa using hcloses, (closing_cons h).1 hclosing⟩
  · rintro ⟨hcloses, hclosing⟩
    exact ⟨by simpa using hcloses, (closing_cons h).2 hclosing⟩

/-- One token before others, by what it does. -/
theorem closesAt_cons : D.ClosesAt d (t :: ts) (n + 1) ↔
    (D.opens t.kind = true ∧ D.ClosesAt (d + 1) ts n) ∨
    (D.closes t.kind = true ∧ ∃ e, d = e + 1 ∧ D.ClosesAt e ts n) ∨
    (D.opens t.kind = false ∧ D.closes t.kind = false ∧ D.ClosesAt d ts n) := by
  cases hopens : D.opens t.kind with
  | true =>
    have hstep : d + D.level [t] = (d + 1 : Nat) := by
      rw [level_of_opens hopens]
      rfl
    simp [D.apart _ hopens, closesAt_succ hstep]
  | false =>
    cases hcloses : D.closes t.kind with
    | false =>
      have hstep : d + D.level [t] = d := by
        rw [level_of_neither hopens hcloses, Int.add_zero]
      simp [closesAt_succ hstep]
    | true =>
      have hlevel := level_of_closes hcloses
      cases d with
      | zero =>
        have hnone : ¬ D.ClosesAt 0 (t :: ts) (n + 1) := by
          rintro ⟨-, hclosing⟩
          have := hclosing.neg_le_level [t] (by simp)
          omega
        simp [hnone]
      | succ e =>
        have hstep : (e + 1 : Nat) + D.level [t] = e := by omega
        simp [closesAt_succ hstep]

/-- Where more is closed than is open, some token is the first to do so. -/
theorem exists_closesAt (h : D.level ts < -d) : ∃ n, D.ClosesAt d ts n := by
  induction ts generalizing d with
  | nil =>
    rw [level_nil] at h
    omega
  | cons t ts ih =>
    rw [level_cons] at h
    by_cases hfirst : D.closes t.kind = true ∧ d = 0
    · exact ⟨0, closesAt_zero.2 hfirst⟩
    · -- The level after `t` is not negative, so the search goes on with it.
      have hnonneg : 0 ≤ d + D.level [t] := by
        cases hopens : D.opens t.kind with
        | true =>
          rw [level_of_opens hopens]
          omega
        | false =>
          cases hcloses : D.closes t.kind with
          | true =>
            have hd : d ≠ 0 := fun hd => hfirst ⟨hcloses, hd⟩
            rw [level_of_closes hcloses]
            omega
          | false =>
            rw [level_of_neither hopens hcloses]
            omega
      obtain ⟨e, he⟩ := Int.eq_ofNat_of_zero_le hnonneg
      have hrest : D.level ts < -e := by omega
      obtain ⟨n, hn⟩ := ih hrest
      exact ⟨n + 1, (closesAt_succ he).2 hn⟩

theorem ClosesAt.split (h : D.ClosesAt d ts n) : ∃ body u vs, ts = body ++ u :: vs ∧
    body.length = n ∧ D.closes u.kind = true ∧ D.Closing d body := by
  obtain ⟨⟨u, hu, hcloses⟩, hclosing⟩ := h
  obtain ⟨hn, rfl⟩ := List.getElem?_eq_some_iff.1 hu
  refine ⟨ts.take n, ts[n], ts.drop (n + 1), ?_, List.length_take_of_le (Nat.le_of_lt hn), hcloses,
    hclosing⟩
  rw [List.getElem_cons_drop, List.take_append_drop]

theorem ClosesAt.of_prefix (h : D.ClosesAt d us n) (hp : us <+: ts) : D.ClosesAt d ts n := by
  obtain ⟨body, u, vs, rfl, rfl, hcloses, hclosing⟩ := h.split
  obtain ⟨ws, rfl⟩ := hp
  exact ⟨⟨u, by simp, hcloses⟩, by simpa using hclosing⟩

theorem balanced_reverse (h : D.swap.Balanced ts) : D.Balanced ts.reverse := by
  have hlevel : D.level ts.reverse = 0 := by
    have hswap : D.swap.swap.level ts.reverse = -D.swap.level ts := level_swap_reverse
    rw [h.level_eq] at hswap
    exact hswap
  refine ⟨hlevel, fun us ⟨vs, hvs⟩ => ?_⟩
  -- What follows a beginning of the reversed tokens is a beginning of the tokens.
  have hp : vs.reverse <+: ts := by
    rw [← List.reverse_reverse ts, ← hvs, List.reverse_append]
    exact List.prefix_append ..
  have hle := h.neg_le_level _ hp
  rw [level_swap_reverse] at hle
  rw [← hvs, level_append] at hlevel
  omega

/-- Where more is open than is closed, some token opened it. -/
theorem exists_opener (h : 0 < D.level ts) : ∃ us t body, ts = us ++ t :: body ∧
    D.opens t.kind = true ∧ D.Balanced body := by
  have hswap : D.swap.level ts.reverse < -(0 : Nat) := by
    rw [level_swap_reverse]
    omega
  obtain ⟨n, hn⟩ := exists_closesAt hswap
  obtain ⟨body, t, us, hts, -, hopens, hbody⟩ := hn.split
  refine ⟨us.reverse, t, body.reverse, ?_, hopens, balanced_reverse hbody⟩
  rw [← List.reverse_reverse ts, hts]
  simp

/-! ## Pairs -/

theorem level_take_succ (h : ts[j]? = some t) :
    D.level (ts.take (j + 1)) = D.level (ts.take j) + D.level [t] := by
  rw [List.take_add_one, h, Option.toList_some, level_append]

theorem pairs_iff : D.Pairs ts i j ↔ (∃ t, ts[i]? = some t ∧ D.opens t.kind = true) ∧
    ∃ k, j = i + 1 + k ∧ D.ClosesAt 0 (ts.drop (i + 1)) k := by
  constructor
  · rintro ⟨hlt, hopens, hcloses, hbetween⟩
    obtain ⟨k, rfl⟩ := Nat.exists_eq_add_of_le (Nat.succ_le_of_lt hlt)
    refine ⟨hopens, k, rfl, by simpa using hcloses, ?_⟩
    rwa [Balanced, List.drop_take, Nat.add_sub_cancel_left] at hbetween
  · rintro ⟨hopens, k, rfl, hcloses, hclosing⟩
    refine ⟨by omega, hopens, by simpa using hcloses, ?_⟩
    rwa [Balanced, List.drop_take, Nat.add_sub_cancel_left]

theorem pairs_drop : D.Pairs (ts.drop n) i j ↔ D.Pairs ts (n + i) (n + j) := by
  simp only [pairs_iff, List.getElem?_drop, List.drop_drop, Nat.add_assoc, Nat.add_right_inj]

theorem unmatched_drop : D.Unmatched (ts.drop n) 0 k ↔ D.Unmatched ts n (n + k) := by
  constructor
  · rintro ⟨-, hcloses, halone⟩
    refine ⟨Nat.le_add_right .., by simpa using hcloses, fun i hi hpairs => ?_⟩
    obtain ⟨m, rfl⟩ := Nat.exists_eq_add_of_le hi
    exact halone m (Nat.zero_le m) (pairs_drop.2 hpairs)
  · rintro ⟨-, hcloses, halone⟩
    exact ⟨Nat.zero_le k, by simpa using hcloses, fun i _ hpairs =>
      halone (n + i) (Nat.le_add_right ..) (pairs_drop.1 hpairs)⟩

/-- A token has no two partners. -/
theorem ClosesAt.unique (hj : D.ClosesAt d ts j) (hk : D.ClosesAt d ts k) : j = k := by
  -- The tokens up to and including the first of the two close more than those before the other.
  have key : ∀ {m n}, D.ClosesAt d ts m → D.ClosesAt d ts n → ¬ m < n := by
    rintro m n ⟨⟨u, hu, hcloses⟩, hm⟩ ⟨-, hn⟩ hlt
    have hle := hn.neg_le_level (ts.take (m + 1)) (List.take_prefix_take_left hlt)
    rw [level_take_succ hu, hm.level_eq, level_of_closes hcloses] at hle
    omega
  have hjk := key hj hk
  have hkj := key hk hj
  omega

theorem Pairs.unique (hj : D.Pairs ts i j) (hk : D.Pairs ts i k) : j = k := by
  obtain ⟨-, m, rfl, hm⟩ := pairs_iff.1 hj
  obtain ⟨-, n, rfl, hn⟩ := pairs_iff.1 hk
  rw [hm.unique hn]

theorem Pairs.of_prefix (h : D.Pairs us i j) (hp : us <+: ts) : D.Pairs ts i j := by
  obtain ⟨⟨t, ht, hopens⟩, k, rfl, hk⟩ := pairs_iff.1 h
  obtain ⟨vs, rfl⟩ := hp
  obtain ⟨hi, -⟩ := List.getElem?_eq_some_iff.1 ht
  refine pairs_iff.2 ⟨⟨t, by rwa [List.getElem?_append_left hi], hopens⟩, k, rfl, hk.of_prefix ?_⟩
  rw [List.drop_append]
  exact List.prefix_append ..

/-- Where no beginning of the tokens closes more than it opens, all that closes has a partner. -/
theorem exists_pairs (h : ∀ us, us <+: ts → 0 ≤ D.level us)
    (hj : ∃ u, ts[j]? = some u ∧ D.closes u.kind = true) : ∃ i, D.Pairs ts i j := by
  obtain ⟨u, hu, hcloses⟩ := hj
  have hle := h (ts.take (j + 1)) (List.take_prefix ..)
  rw [level_take_succ hu, level_of_closes hcloses] at hle
  have hpos : 0 < D.level (ts.take j) := by omega
  obtain ⟨us, t, body, htake, hopens, hbody⟩ := exists_opener hpos
  have hlt : us.length < j := by
    have hlength := congrArg List.length htake
    rw [List.length_append, List.length_cons, List.length_take] at hlength
    omega
  refine ⟨us.length, hlt, ⟨t, ?_, hopens⟩, ⟨u, hu, hcloses⟩, ?_⟩
  · rw [← List.getElem?_take_of_lt hlt, htake]
    simp
  · rw [htake]
    simpa using hbody

/-! ## The first token without a partner -/

theorem ClosesAt.unmatched (h : D.ClosesAt 0 ts n) : D.Unmatched ts 0 n := by
  refine ⟨Nat.zero_le n, h.closes, ?_⟩
  rintro i - ⟨hlt, ⟨t, ht, hopens⟩, -, hbetween⟩
  -- The tokens before the opening one would close more than they open.
  have hsplit := List.take_append_drop (i + 1) (ts.take n)
  rw [List.take_take, Nat.min_eq_left hlt] at hsplit
  have hlevel := h.closing.level_eq
  rw [← hsplit, level_append, level_take_succ ht, level_of_opens hopens, hbetween.level_eq]
    at hlevel
  have hle := h.closing.neg_le_level (ts.take i) (List.take_prefix_take_left (Nat.le_of_lt hlt))
  omega

theorem Unmatched.exists_closesAt (h : D.Unmatched ts 0 j) : ∃ n, n ≤ j ∧ D.ClosesAt 0 ts n := by
  have hneg : ¬ ∀ us, us <+: ts.take (j + 1) → 0 ≤ D.level us := by
    intro hle
    obtain ⟨u, hu, hcloses⟩ := h.closes
    obtain ⟨i, hi⟩ := exists_pairs hle ⟨u, by rwa [List.getElem?_take_of_lt (Nat.lt_succ_self j)],
      hcloses⟩
    exact h.alone i (Nat.zero_le i) (hi.of_prefix (List.take_prefix ..))
  obtain ⟨us, hus, hlevel⟩ : ∃ us, us <+: ts.take (j + 1) ∧ D.level us < -(0 : Nat) := by
    simpa using hneg
  obtain ⟨n, hn⟩ := Delimiters.exists_closesAt hlevel
  refine ⟨n, ?_, hn.of_prefix (hus.trans (List.take_prefix ..))⟩
  obtain ⟨u, hu, -⟩ := hn.closes
  obtain ⟨hlt, -⟩ := List.getElem?_eq_some_iff.1 hu
  have hlength := hus.length_le
  rw [List.length_take] at hlength
  omega

/-- **The first token that closes more than is open is the first one without a partner.** -/
theorem closesAt_iff : D.ClosesAt 0 ts k ↔ D.FirstUnmatched ts 0 k := by
  constructor
  · refine fun h => ⟨h.unmatched, fun j hj hun => ?_⟩
    obtain ⟨m, hm, hclosesAt⟩ := hun.exists_closesAt
    have := h.unique hclosesAt
    omega
  · rintro ⟨hun, hfirst⟩
    obtain ⟨m, hm, hclosesAt⟩ := hun.exists_closesAt
    obtain rfl : m = k := by
      have hle : ¬ m < k := fun hlt => hfirst m hlt hclosesAt.unmatched
      omega
    exact hclosesAt

/-- The same from the index `n` on. -/
theorem ClosesAt.firstUnmatched (h : D.ClosesAt 0 (ts.drop n) k) :
    D.FirstUnmatched ts n (n + k) := by
  obtain ⟨hun, hfirst⟩ := closesAt_iff.1 h
  refine ⟨unmatched_drop.1 hun, fun j hj hunj => ?_⟩
  obtain ⟨m, rfl⟩ := Nat.exists_eq_add_of_le hunj.le
  exact hfirst m (by omega) (unmatched_drop.2 hunj)

theorem exists_unmatched_iff :
    (∃ j, D.Unmatched ts n j) ↔ ∃ k, D.ClosesAt 0 (ts.drop n) k := by
  constructor
  · rintro ⟨j, hj⟩
    obtain ⟨k, rfl⟩ := Nat.exists_eq_add_of_le hj.le
    obtain ⟨m, -, hm⟩ := (unmatched_drop.2 hj).exists_closesAt
    exact ⟨m, hm⟩
  · rintro ⟨k, hk⟩
    exact ⟨n + k, hk.firstUnmatched.1⟩

end Matching

end Delimiters

/-! ## The loops -/

namespace Stream

open Delimiters

variable {c : Stream} {d n : Nat} {t : Token} {ts : List Token}

theorem closerIndex_cons : closerIndex d (t :: ts) =
    if brackets.opens t.kind then (closerIndex (d + 1) ts).map (· + 1)
    else if brackets.closes t.kind then
      if d = 0 then some 0 else (closerIndex (d - 1) ts).map (· + 1)
    else (closerIndex d ts).map (· + 1) := by
  rw [closerIndex]
  cases t.kind <;> rfl

/-- The loop over brackets stops at the token that closes more than is open. -/
theorem closerIndex_eq_some_iff : closerIndex d ts = some n ↔ brackets.ClosesAt d ts n := by
  induction ts generalizing d n with
  | nil => exact iff_of_false (by simp [closerIndex]) not_closesAt_nil
  | cons t ts ih =>
    rw [closerIndex_cons]
    cases n with
    | zero =>
      rw [closesAt_zero]
      cases hopens : brackets.opens t.kind with
      | true => simp [brackets.apart _ hopens]
      | false => cases hcloses : brackets.closes t.kind <;> simp
    | succ n =>
      rw [closesAt_cons]
      cases hopens : brackets.opens t.kind with
      | true => simp [brackets.apart _ hopens, ih]
      | false =>
        cases hcloses : brackets.closes t.kind with
        | true => cases d <;> simp [ih]
        | false => simp [ih]

theorem blockLength_cons : blockLength d (t :: ts) =
    if blocks.opens t.kind then blockLength (d + 1) ts + 1
    else if blocks.closes t.kind then if d ≤ 1 then 1 else blockLength (d - 1) ts + 1
    else blockLength d ts + 1 := by
  rw [blockLength]
  cases t.kind <;> rfl

/-- The loop over blocks stops after the token that closes the last open one. -/
theorem blockLength_of_closesAt (h : blocks.ClosesAt d ts n) :
    blockLength (d + 1) ts = n + 1 := by
  induction ts generalizing d n with
  | nil => exact absurd h not_closesAt_nil
  | cons t ts ih =>
    rw [blockLength_cons]
    cases n with
    | zero =>
      obtain ⟨hcloses, rfl⟩ := closesAt_zero.1 h
      have hopens : blocks.opens t.kind = false := blocks.swap.apart _ hcloses
      simp [hopens, hcloses]
    | succ n =>
      rcases closesAt_cons.1 h with ⟨hopens, hn⟩ | ⟨hcloses, e, rfl, hn⟩ | ⟨hopens, hcloses, hn⟩
      · rw [if_pos hopens, ih hn]
      · have hopens : blocks.opens t.kind = false := blocks.swap.apart _ hcloses
        simp [hopens, hcloses, ih hn]
      · simp [hopens, hcloses, ih hn]

theorem skipToCloser_eq_ok_iff {r : Parsed (c.size + 1) Unit} :
    c.skipToCloser = .ok r ↔ ∃ n, brackets.ClosesAt 0 c.ahead n ∧ r.rest = c.drop n := by
  unfold skipToCloser
  split
  next n hn =>
    have hclosesAt := closerIndex_eq_some_iff.1 hn
    constructor
    · intro h
      cases h
      exact ⟨n, hclosesAt, rfl⟩
    · rintro ⟨m, hm, hrest⟩
      obtain rfl := hclosesAt.unique hm
      obtain ⟨⟨⟩, rest, hlt⟩ := r
      subst hrest
      rfl
  next hnone =>
    refine iff_of_false nofun ?_
    rintro ⟨n, hn, -⟩
    rw [closerIndex_eq_some_iff.2 hn] at hnone
    cases hnone

theorem skipBlock_of_closesAt {rest : List Token} (hc : c.ahead = t :: rest)
    (ht : t.kind = .indent) (h : blocks.ClosesAt 0 rest n) : c.skipBlock.rest = c.drop (n + 2) := by
  have hopens : blocks.opens t.kind = true := by simp [blocks, ht]
  rw [skipBlock, skipLevels_rest, hc, blockLength_cons, if_pos hopens, blockLength_of_closesAt h]

end Stream

/-! ## The tokens of a text -/

section Text

open Delimiters

variable {text : String} {ts us : List Token}

theorem Stacked.level_eq {stack : List Nat} (h : Stacked ts stack) :
    blocks.level ts + 1 = stack.length := by
  have hheight := h.height
  change (openings ts : Int) - closings ts + 1 = _
  omega

theorem tokenize_level_nonneg (h : tokenize text = .ok ts) (hp : us <+: ts) :
    0 ≤ blocks.level us := by
  obtain ⟨stack, hmoment⟩ := LexState.exists_moment h hp
  have hpos : 0 < stack.length := List.length_pos_of_mem (List.mem_of_head? hmoment.stacked.bottom)
  have := hmoment.stacked.level_eq
  omega

theorem tokenize_level_eq_zero (h : tokenize text = .ok ts) : blocks.level ts = 0 := by
  obtain ⟨vs, t, run, done, rfl⟩ := LexState.exists_run h
  have := (LexState.Moment.ended run done).stacked.level_eq
  simp only [stackOf, List.reverse_nil, List.length_singleton] at this
  omega

/-- Every block of a text is closed before the end of the input. -/
theorem tokenize_block_closes {e t : Token} {i : Nat} (h : tokenize text = .ok (ts ++ [e]))
    (he : e.kind = .eof) (hi : ts[i]? = some t) (ht : t.kind = .indent) :
    ∃ n, blocks.ClosesAt 0 (ts.drop (i + 1)) n := by
  have hopens : blocks.opens t.kind = true := by simp [blocks, ht]
  have hend : blocks.level [e] = 0 := level_of_neither (by simp [blocks, he]) (by simp [blocks, he])
  have htotal := tokenize_level_eq_zero h
  have hbefore : 0 ≤ blocks.level (ts.take i) :=
    tokenize_level_nonneg h ((List.take_prefix i ts).trans (List.prefix_append ..))
  rw [level_append, hend, ← List.take_append_drop (i + 1) ts, level_append, level_take_succ hi,
    level_of_opens hopens] at htotal
  exact exists_closesAt (by omega)

/-- A block of a text is skipped up to the `dedent` that matches its `indent`. -/
theorem skipBlock_pairs {t : Token} {i : Nat} (h : tokenize text = .ok ts) (hi : ts[i]? = some t)
    (ht : t.kind = .indent) : ∃ j, blocks.Pairs ts i j ∧
      ((Stream.ofTokens ts).drop i).skipBlock.rest = (Stream.ofTokens ts).drop (j + 1) := by
  -- The end of the input comes last, so the block lies among the tokens of the stream.
  obtain ⟨us, e, rfl, he, hus, -⟩ := tokenize_laidOut h
  have hahead : (Stream.ofTokens (us ++ [e])).ahead = us := Stream.ahead_ofTokens hus (by simp [he])
  have hlt : i < us.length := by
    refine Nat.lt_of_not_le fun hle => ?_
    rw [List.getElem?_append_right hle] at hi
    rw [List.mem_singleton.1 (List.mem_of_getElem? hi), he] at ht
    cases ht
  rw [List.getElem?_append_left hlt] at hi
  obtain ⟨n, hn⟩ := tokenize_block_closes h he hi ht
  have hpairs : blocks.Pairs us i (i + 1 + n) :=
    pairs_iff.2 ⟨⟨t, hi, by simp [blocks, ht]⟩, n, rfl, hn⟩
  refine ⟨i + 1 + n, hpairs.of_prefix (List.prefix_append ..), ?_⟩
  have hdrop : ((Stream.ofTokens (us ++ [e])).drop i).ahead = t :: us.drop (i + 1) := by
    obtain ⟨-, rfl⟩ := List.getElem?_eq_some_iff.1 hi
    change (Stream.ofTokens (us ++ [e])).ahead.drop i = _
    rw [hahead, List.getElem_cons_drop]
  rw [Stream.skipBlock_of_closesAt hdrop ht hn, Stream.drop_drop]
  congr 1
  omega

/-- The tokens before the end of the input. -/
def beforeEnd (ts : List Token) : List Token := ts.takeWhile (·.kind != .eof)

/-- **Skipping stops at the matching closer**: a block is skipped up to the `dedent` that matches,
and brackets up to the first closing one that matches none inside. -/
theorem skips_to_matching_closer :
    (∀ (text : String) (ts : List Token) (i : Nat) (t : Token), tokenize text = .ok ts →
      ts[i]? = some t → t.kind = .indent →
      ∃ j, blocks.Pairs ts i j ∧ (∀ k, blocks.Pairs ts i k → k = j) ∧
        ((Stream.ofTokens ts).drop i).skipBlock.rest = (Stream.ofTokens ts).drop (j + 1)) ∧
    ∀ (ts : List Token) (n : Nat),
      ((∃ r, ((Stream.ofTokens ts).drop n).skipToCloser = .ok r) ↔
        ∃ j, brackets.Unmatched (beforeEnd ts) n j) ∧
      ∀ r, ((Stream.ofTokens ts).drop n).skipToCloser = .ok r →
        ∃ j, brackets.FirstUnmatched (beforeEnd ts) n j ∧ r.rest = (Stream.ofTokens ts).drop j ∧
          ((Stream.ofTokens ts).drop n).Takes (((beforeEnd ts).take j).drop n) r.rest := by
  refine ⟨fun text ts i t h hi ht => ?_, fun ts n => ⟨?_, fun r hr => ?_⟩⟩
  · obtain ⟨j, hpairs, hrest⟩ := skipBlock_pairs h hi ht
    exact ⟨j, hpairs, fun k hk => hk.unique hpairs, hrest⟩
  · rw [exists_unmatched_iff]
    constructor
    · rintro ⟨r, hr⟩
      obtain ⟨k, hk, -⟩ := Stream.skipToCloser_eq_ok_iff.1 hr
      exact ⟨k, hk⟩
    · rintro ⟨k, hk⟩
      exact ⟨⟨(), _, Stream.size_drop_lt _ k⟩, Stream.skipToCloser_eq_ok_iff.2 ⟨k, hk, rfl⟩⟩
  · obtain ⟨k, hk, hrest⟩ := Stream.skipToCloser_eq_ok_iff.1 hr
    refine ⟨n + k, ClosesAt.firstUnmatched hk, ?_, ?_⟩
    · rw [hrest, Stream.drop_drop]
    · rw [hrest, List.drop_take, Nat.add_sub_cancel_left]
      exact Stream.takes_drop _ k

/-- A subscript with a slice, in which brackets of all forms stand. -/
def slicedText : String := "a[:(b, \x7bc: d[0]\x7d)]\n"

/-- The outer block of a text is skipped up to the line after both blocks, and a slice up to the
bracket that closes the subscript. -/
theorem nested_delimiters_skipped :
    (tokenize nestedBlocks = .ok (tokensOf nestedBlocks) ∧
      ∃ j, blocks.Pairs (tokensOf nestedBlocks) 4 j ∧
        ((Stream.ofTokens (tokensOf nestedBlocks)).drop 4).skipBlock.rest =
          (Stream.ofTokens (tokensOf nestedBlocks)).drop (j + 1) ∧
        ((Stream.ofTokens (tokensOf nestedBlocks)).drop (j + 1)).peek.lexeme = "f") ∧
    ∃ r j, ((Stream.ofTokens (tokensOf slicedText)).drop 2).skipToCloser = .ok r ∧
      r.rest.size = 2 ∧ brackets.FirstUnmatched (beforeEnd (tokensOf slicedText)) 2 j ∧
      r.rest = (Stream.ofTokens (tokensOf slicedText)).drop j := by
  constructor
  · obtain ⟨hlex, hindent, hline⟩ : (tokenize nestedBlocks).toOption.isSome = true ∧
        ((tokensOf nestedBlocks)[4]?.map (·.kind)) = some .indent ∧
        ((Stream.ofTokens (tokensOf nestedBlocks)).drop 4).skipBlock.rest.peek.lexeme = "f" := by
      decide +kernel
    have htokens := Except.eq_ok_of_isSome [] hlex
    obtain ⟨t, ht, hkind⟩ := Option.map_eq_some_iff.1 hindent
    obtain ⟨j, hpairs, -, hrest⟩ := skips_to_matching_closer.1 _ _ 4 t htokens ht hkind
    exact ⟨htokens, j, hpairs, hrest, hrest ▸ hline⟩
  · have hsize : ((Stream.ofTokens (tokensOf slicedText)).drop 2).skipToCloser.toOption.map
        (·.rest.size) = some 2 := by decide +kernel
    cases hskip : ((Stream.ofTokens (tokensOf slicedText)).drop 2).skipToCloser with
    | error e =>
      rw [hskip] at hsize
      cases hsize
    | ok r =>
      rw [hskip] at hsize
      obtain ⟨j, hfirst, hrest, -⟩ := (skips_to_matching_closer.2 _ 2).2 r hskip
      exact ⟨r, j, rfl, Option.some.inj hsize, hfirst, hrest⟩

end Text

end Gradual
