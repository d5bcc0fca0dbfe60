import Gradual.Proofs.Source.Position
import Gradual.Source.Span

/-!
# Spans in a text

How spans lie to each other, by the places of their first and their last characters.

* `Span.first`, `Span.last`, `Span.Proper`;
* `Span.Encloses`, `Span.Precedes`: one span holds another one, or ends before it starts;
* **`Span.union_of_precedes`**: the union of two spans reaches from the first to the second.
-/

namespace Gradual.Source.Span

variable {a b c : Span}

/-- The place of the first character. -/
def first (s : Span) : Position := ⟨s.line, s.column⟩

/-- The place of the last character. -/
def last (s : Span) : Position := ⟨s.endLine, s.endColumn⟩

/-- The span is a place of a text, and it starts no later than it ends. -/
structure Proper (s : Span) : Prop where
  counted : 0 < s.line
  forward : s.first.AtMost s.last

/-- The characters of `b` are among those of `a`. -/
structure Encloses (a b : Span) : Prop where
  start : a.first.AtMost b.first
  stop : b.last.AtMost a.last

/-- `a` ends before `b` starts. -/
def Precedes (a b : Span) : Prop := a.last.Before b.first

theorem Encloses.refl (a : Span) : a.Encloses a := ⟨.refl _, .refl _⟩

theorem Encloses.trans (h : a.Encloses b) (h' : b.Encloses c) : a.Encloses c :=
  ⟨h.start.trans h'.start, h'.stop.trans h.stop⟩

theorem Precedes.first_atMost (h : a.Precedes b) (ha : a.Proper) : a.first.AtMost b.first :=
  ha.forward.trans h.atMost

theorem Precedes.last_atMost (h : a.Precedes b) (hb : b.Proper) : a.last.AtMost b.last :=
  h.atMost.trans hb.forward

/-- **The union of two spans, one before the other**, starts with the first and ends with the
second. -/
theorem union_of_precedes (ha : a.Proper) (hb : b.Proper) (h : a.Precedes b) :
    (a.union b).first = a.first ∧ (a.union b).last = b.last := by
  obtain ⟨hline, hforward⟩ := ha
  obtain ⟨hline', hforward'⟩ := hb
  unfold Precedes Position.Before at h
  unfold Position.AtMost at hforward hforward'
  simp only [first, last] at h hforward hforward'
  have hstarts : a.startsBy b = true := by
    simp only [startsBy, Bool.or_eq_true, Bool.and_eq_true, decide_eq_true_eq, beq_iff_eq]
    omega
  have hends : a.endsFrom b = false := by
    simp only [endsFrom, Bool.or_eq_false_iff, Bool.and_eq_false_iff, decide_eq_false_iff_not,
      beq_eq_false_iff_ne]
    omega
  rw [union, if_neg (by omega), if_neg (by omega)]
  simp only [hstarts, hends, if_true, Bool.false_eq_true, if_false]
  exact ⟨rfl, rfl⟩

theorem Proper.union (ha : a.Proper) (hb : b.Proper) (h : a.Precedes b) : (a.union b).Proper := by
  obtain ⟨hfirst, hlast⟩ := union_of_precedes ha hb h
  refine ⟨?_, ?_⟩
  · have hline : (a.union b).line = a.line := congrArg Position.line hfirst
    rw [hline]
    exact ha.counted
  · rw [hfirst, hlast]
    exact (h.first_atMost ha).trans hb.forward

/-- The union of two spans encloses what starts no earlier than the first and ends no later than the
second. -/
theorem union_encloses (ha : a.Proper) (hc : c.Proper) (h : a.Precedes c)
    (hab : a.first.AtMost b.first) (hbc : b.last.AtMost c.last) : (a.union c).Encloses b := by
  obtain ⟨hfirst, hlast⟩ := union_of_precedes ha hc h
  exact ⟨hfirst ▸ hab, hlast ▸ hbc⟩

end Gradual.Source.Span
