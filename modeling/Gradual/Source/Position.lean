/-!
# Positions in a text

Lines and columns are counted from one, columns in characters. A line ends at a line feed, at a
carriage return, or at the pair of both, which counts once.

* `isBreak`: the characters that end a line;
* `Position`, `Position.start`: a place in a text;
* `Position.after`: the place reached by going over a piece of text.
-/

namespace Gradual.Source

/-- Whether `c` ends a line. -/
def isBreak (c : Char) : Bool := c == '\n' || c == '\r'

/-- A line and a column, both counted from one. -/
structure Position where
  line : Nat
  column : Nat
  deriving DecidableEq, Repr

namespace Position

/-- The place of the first character. -/
def start : Position := ⟨1, 1⟩

/-- The place of the character after `c`. -/
def next (p : Position) (c : Char) : Position :=
  if isBreak c then ⟨p.line + 1, 1⟩ else ⟨p.line, p.column + 1⟩

/-- The place reached from `p` by going over a text. -/
def after : Position → List Char → Position
  | p, [] => p
  | p, '\r' :: '\n' :: cs => after ⟨p.line + 1, 1⟩ cs
  | p, c :: cs => after (p.next c) cs

end Position

end Gradual.Source
