import Mathlib.Data.List.DropRight
import Gradual.Source.Position

/-!
# Places by counting

The place behind a text is given by the number of its line breaks and by what stands after the last
of them.

* `CleanCut`, `Position.after_append`: a text may be gone over in parts, unless the cut divides a
  line break;
* `lineBreaks`, `lastLine`, **`Position.after_start`**: the place behind a text by counting;
* `Position.Before`, `Position.AtMost`, `Position.before_after`: places only move on.
-/

namespace Gradual.Source

/-! ## Cutting a text -/

/-- No line break lies across the cut between two texts. -/
def CleanCut (a b : List Char) : Prop := a.getLast? = some '\r' → b.head? ≠ some '\n'

theorem cleanCut_nil (b : List Char) : CleanCut [] b := by simp [CleanCut]

theorem cleanCut_of_ne {a b : List Char} (h : ∀ c ∈ a.getLast?, c ≠ '\r') : CleanCut a b :=
  fun hr => absurd rfl (h _ hr)

theorem CleanCut.append {a b c : List Char} (hab : CleanCut a (b ++ c)) (hbc : CleanCut b c) :
    CleanCut (a ++ b) c := by
  cases b with
  | nil => simpa using hab
  | cons d b =>
    intro h
    exact hbc (by simpa [List.getLast?_append, List.getLast?_cons] using h)

theorem CleanCut.of_append_right {a b c : List Char} (h : CleanCut a (b ++ c)) : CleanCut a b := by
  cases b with
  | nil => simp [CleanCut]
  | cons d b => simpa [CleanCut] using h

namespace Position

theorem after_append (p : Position) {a b : List Char} (h : CleanCut a b) :
    p.after (a ++ b) = (p.after a).after b := by
  fun_induction after p a with
  | case1 p => rfl
  | case2 p cs ih =>
    simp only [List.cons_append, after]
    refine ih fun hr => h ?_
    rw [List.getLast?_cons_cons]
    cases cs with
    | nil => simp at hr
    | cons d cs => rwa [List.getLast?_cons_cons]
  | case3 p c cs hne ih =>
    have hcut : ∀ tail, c = '\r' → cs ++ b ≠ '\n' :: tail := by
      intro tail hc heq
      cases cs with
      | nil => exact h (by simp [hc]) (by simp [List.nil_append] at heq; simp [heq])
      | cons d cs =>
        simp only [List.cons_append, List.cons.injEq] at heq
        exact hne cs hc (by rw [heq.1])
    rw [List.cons_append, after]
    · refine ih fun hr => h ?_
      cases cs with
      | nil => simp at hr
      | cons d cs => rwa [List.getLast?_cons_cons]
    · exact hcut

end Position

/-! ## Counting -/

/-- The number of line breaks of a text. -/
def lineBreaks : List Char → Nat
  | [] => 0
  | '\r' :: '\n' :: cs => lineBreaks cs + 1
  | c :: cs => lineBreaks cs + if isBreak c then 1 else 0

theorem lineBreaks_of_breakless {cs : List Char} (h : ∀ c ∈ cs, isBreak c = false) :
    lineBreaks cs = 0 := by
  fun_induction lineBreaks cs with
  | case1 => rfl
  | case2 => cases h '\n' (by simp)
  | case3 c cs _ ih => rw [ih fun d hd => h d (by simp [hd]), if_neg (by simp [h c (by simp)])]

theorem lineBreaks_pos {cs : List Char} (h : ∃ c ∈ cs, isBreak c = true) : 0 < lineBreaks cs := by
  fun_induction lineBreaks cs with
  | case1 => simp at h
  | case2 => exact Nat.succ_pos _
  | case3 c cs _ ih =>
    cases hc : isBreak c with
    | true => simp
    | false =>
      have hpos := ih (by simpa [hc] using h)
      omega

/-- The text after the last line break. -/
def lastLine (cs : List Char) : List Char := cs.rtakeWhile (!isBreak ·)

theorem lastLine_of_breakless {cs : List Char} (h : cs.any isBreak = false) : lastLine cs = cs :=
  List.rtakeWhile_eq_self_iff.2 (by simpa using h)

theorem lastLine_cons (c : Char) (cs : List Char) :
    lastLine (c :: cs) = if isBreak c || cs.any isBreak then lastLine cs else c :: cs := by
  by_cases hcs : cs.any isBreak = true
  · have hlen : (cs.reverse.takeWhile (!isBreak ·)).length ≠ cs.reverse.length := by
      intro hlen
      have hself := (List.takeWhile_prefix (!isBreak ·)).eq_of_length hlen
      rw [List.takeWhile_eq_self_iff] at hself
      obtain ⟨d, hd, hb⟩ := List.any_eq_true.1 hcs
      simpa [hb] using hself d (by simpa using hd)
    rw [if_pos (by simp [hcs]), lastLine, lastLine, List.rtakeWhile, List.rtakeWhile,
      List.reverse_cons, List.takeWhile_append, if_neg hlen]
  · have hnone : cs.any isBreak = false := by simpa using hcs
    cases hc : isBreak c with
    | true =>
      rw [if_pos (by simp), lastLine_of_breakless hnone, lastLine, List.rtakeWhile,
        List.reverse_cons, List.takeWhile_append_of_pos (by simpa using hnone)]
      simp [hc]
    | false =>
      rw [if_neg (by simp [hnone]), lastLine_of_breakless (by simp [hc, hnone])]

namespace Position

/-- The place behind a text: a line further for each line break, and the column by what stands after
the last of them. -/
theorem after_eq (p : Position) (cs : List Char) :
    p.after cs = ⟨p.line + lineBreaks cs,
      (if cs.any isBreak then 1 else p.column) + (lastLine cs).length⟩ := by
  fun_induction after p cs with
  | case1 p => simp [lineBreaks, lastLine]
  | case2 p cs ih =>
    have hr : isBreak '\r' = true := rfl
    have hn : isBreak '\n' = true := rfl
    rw [ih, lineBreaks, lastLine_cons, lastLine_cons]
    simp only [hr, hn, List.any_cons, Bool.true_or, if_true, ite_self]
    rw [Nat.add_assoc, Nat.add_comm 1]
  | case3 p c cs hne ih =>
    rw [ih, lineBreaks, lastLine_cons]
    · cases hc : isBreak c with
      | true =>
        simp only [next, hc, List.any_cons, Bool.true_or, if_true, ite_self]
        rw [Nat.add_assoc, Nat.add_comm 1]
      | false =>
        cases ha : cs.any isBreak with
        | true => simp [next, hc, ha]
        | false =>
          rw [lastLine_of_breakless ha]
          simp only [next, hc, ha, List.any_cons, List.length_cons, Bool.or_false, if_false,
            Bool.false_eq_true]
          rw [Nat.add_assoc, Nat.add_comm 1]
          rfl
    · exact hne

/-- **The place behind a text** counted from its start: one more than the number of line breaks, and
one more than the number of characters after the last of them. -/
theorem after_start (cs : List Char) :
    start.after cs = ⟨1 + lineBreaks cs, 1 + (lastLine cs).length⟩ := by
  rw [after_eq]
  simp [start]

/-- The place behind a text on one line. -/
theorem after_breakless (p : Position) {cs : List Char} (h : ∀ c ∈ cs, isBreak c = false) :
    p.after cs = ⟨p.line, p.column + cs.length⟩ := by
  have hany : cs.any isBreak = false := by simpa using h
  rw [after_eq, lineBreaks_of_breakless h, lastLine_of_breakless hany, hany]
  rfl

/-! ## Places move on -/

/-- Whether a place stands before another one in a text. -/
def Before (p q : Position) : Prop := p.line < q.line ∨ p.line = q.line ∧ p.column < q.column

theorem Before.trans {p q r : Position} (h : p.Before q) (h' : q.Before r) : p.Before r := by
  unfold Before at *
  omega

theorem Before.ne {p q : Position} (h : p.Before q) : p ≠ q := by
  rintro rfl
  unfold Before at h
  omega

theorem before_next (p : Position) (c : Char) : p.Before (p.next c) := by
  unfold next Before
  split <;> simp

theorem before_after (p : Position) {cs : List Char} (h : cs ≠ []) : p.Before (p.after cs) := by
  fun_induction after p cs with
  | case1 p => exact absurd rfl h
  | case2 p cs ih =>
    have hp : p.Before ⟨p.line + 1, 1⟩ := .inl (Nat.lt_succ_self _)
    by_cases hcs : cs = []
    · rwa [hcs]
    · exact hp.trans (ih hcs)
  | case3 p c cs hne ih =>
    by_cases hcs : cs = []
    · rw [hcs]
      exact p.before_next c
    · exact (p.before_next c).trans (ih hcs)

/-- The last character of a text, counted on the line where the text starts, stands before the place
behind the text. -/
theorem before_after_of_length (p : Position) {cs : List Char} (h : cs ≠ []) :
    Before ⟨p.line, p.column + (cs.length - 1)⟩ (p.after cs) := by
  have hlen : 0 < cs.length := List.length_pos_iff.2 h
  by_cases hbreak : ∃ c ∈ cs, isBreak c = true
  · -- a line break moves the place on to a later line
    have hlines := lineBreaks_pos hbreak
    rw [p.after_eq]
    refine .inl ?_
    dsimp only
    omega
  · rw [p.after_breakless (by simpa using hbreak)]
    refine .inr ⟨rfl, ?_⟩
    dsimp only
    omega

/-- Whether a place stands before another one or is the same. -/
def AtMost (p q : Position) : Prop := p.line < q.line ∨ p.line = q.line ∧ p.column ≤ q.column

theorem AtMost.refl (p : Position) : p.AtMost p := .inr ⟨rfl, Nat.le_refl _⟩

theorem AtMost.trans {p q r : Position} (h : p.AtMost q) (h' : q.AtMost r) : p.AtMost r := by
  unfold AtMost at *
  omega

theorem Before.trans_atMost {p q r : Position} (h : p.Before q) (h' : q.AtMost r) : p.Before r := by
  unfold Before AtMost at *
  omega

theorem Before.atMost {p q : Position} (h : p.Before q) : p.AtMost q := by
  unfold Before AtMost at *
  omega

theorem atMost_after (p : Position) (cs : List Char) : p.AtMost (p.after cs) := by
  by_cases hcs : cs = []
  · rw [hcs]
    exact .refl p
  · exact (p.before_after hcs).atMost

end Position

end Gradual.Source
