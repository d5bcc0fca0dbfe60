/-!
# Code point ranges

A property of characters is stored as the ascending list of the closed ranges of code points that
have it.

* `Ranges`, `Ranges.contains`: the table and the test for membership;
* **`Ranges.contains_iff`**: the test finds exactly the code points that lie in one of the ranges,
  although it stops at the first range beyond the one asked for.
-/

namespace Gradual.Text

/-- Whether some ranges are not empty and lie apart in ascending order, from the code point `n` on.
-/
def ascendingFrom (n : Nat) : List (Nat × Nat) → Bool
  | [] => true
  | (lo, hi) :: rest => n ≤ lo && lo ≤ hi && ascendingFrom (hi + 1) rest

theorem le_of_ascendingFrom {n : Nat} {t : List (Nat × Nat)} (h : ascendingFrom n t = true) :
    ∀ r ∈ t, n ≤ r.1 := by
  induction t generalizing n with
  | nil => simp
  | cons r rest ih =>
    simp only [ascendingFrom, Bool.and_eq_true, decide_eq_true_iff] at h
    obtain ⟨⟨hn, hr⟩, hrest⟩ := h
    intro s hs
    rcases List.mem_cons.1 hs with rfl | hs
    · exact hn
    · have := ih hrest s hs
      omega

/-- Closed ranges of code points that lie apart, in ascending order. -/
structure Ranges where
  list : List (Nat × Nat)
  ascending : ascendingFrom 0 list = true

namespace Ranges

/-- Whether `n` lies in one of some ranges; the search ends at the first range that starts after
`n`. -/
def search : List (Nat × Nat) → Nat → Bool
  | [], _ => false
  | (lo, hi) :: rest, n => if n < lo then false else n ≤ hi || search rest n

/-- Whether `n` lies in one of the ranges. -/
def contains (t : Ranges) (n : Nat) : Bool := search t.list n

theorem search_iff {m : Nat} {t : List (Nat × Nat)} (h : ascendingFrom m t = true) (n : Nat) :
    search t n = true ↔ ∃ r ∈ t, r.1 ≤ n ∧ n ≤ r.2 := by
  induction t generalizing m with
  | nil => simp [search]
  | cons r rest ih =>
    have hrest : ascendingFrom (r.2 + 1) rest = true := (Bool.and_eq_true_iff.1 h).2
    have hr : r.1 ≤ r.2 := by
      simpa using (Bool.and_eq_true_iff.1 (Bool.and_eq_true_iff.1 h).1).2
    simp only [search, List.mem_cons, exists_eq_or_imp]
    split
    next hlt =>
      simp only [Bool.false_eq_true, false_iff, not_or, not_exists, not_and]
      refine ⟨fun hle => absurd hle (Nat.not_le.2 hlt), fun s hs hle => ?_⟩
      have := le_of_ascendingFrom hrest s hs
      omega
    next hle =>
      rw [Bool.or_eq_true, ih hrest, decide_eq_true_iff, and_iff_right (Nat.not_lt.1 hle)]

/-- **Membership in a table** is membership in one of its ranges. -/
theorem contains_iff (t : Ranges) (n : Nat) :
    t.contains n = true ↔ ∃ r ∈ t.list, r.1 ≤ n ∧ n ≤ r.2 := search_iff t.ascending n

end Ranges

end Gradual.Text
