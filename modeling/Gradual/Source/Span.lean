import Gradual.Source.Position

/-!
# Spans of a text

A span is given by its first and its last character, both included. A span on line `0` is no place
at all; it disappears in a union.

* `Span`, `Span.point`, `Span.none`;
* `Span.union`: the smallest span that holds two others;
* `Span.cmp`: spans in the order of their starts, then of their ends.
-/

namespace Gradual.Source

/-- The characters from one place up to another one, both included. -/
structure Span where
  line : Nat
  column : Nat
  endLine : Nat
  endColumn : Nat
  deriving DecidableEq, Repr

namespace Span

/-- No place. -/
def none : Span := ⟨0, 0, 0, 0⟩

instance : Inhabited Span := ⟨none⟩

/-- The span of one character. -/
def point (line column : Nat) : Span := ⟨line, column, line, column⟩

/-- Whether `a` starts no later than `b`. -/
def startsBy (a b : Span) : Bool := a.line < b.line || (a.line == b.line && a.column ≤ b.column)

/-- Whether `a` ends no earlier than `b`. -/
def endsFrom (a b : Span) : Bool :=
  b.endLine < a.endLine || (a.endLine == b.endLine && b.endColumn ≤ a.endColumn)

/-- The smallest span that holds both; a span on line `0` counts as absent. -/
def union (a b : Span) : Span :=
  if a.line = 0 then b
  else if b.line = 0 then a
  else
    let s := if a.startsBy b then a else b
    let e := if a.endsFrom b then a else b
    ⟨s.line, s.column, e.endLine, e.endColumn⟩

/-- Lexicographic order of first line, first column, last line and last column. -/
def cmp (a b : Span) : Ordering :=
  (compare a.line b.line).then <| (compare a.column b.column).then <|
    (compare a.endLine b.endLine).then (compare a.endColumn b.endColumn)

end Span

end Gradual.Source
