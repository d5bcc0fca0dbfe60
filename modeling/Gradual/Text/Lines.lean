/-!
# Lines of a text

A line ends at a line feed, and one carriage return right before that line feed belongs to the
line's end. What follows the last line feed is a line of its own unless it is empty.

* `splitLines`, `lines`: the lines, without their ends;
* `line?`: the line with a given number, counted from one.
-/

namespace Gradual.Text

/-- The lines of a text, without their ends. -/
def splitLines : List Char → List (List Char)
  | [] => []
  | '\n' :: cs => [] :: splitLines cs
  | '\r' :: '\n' :: cs => [] :: splitLines cs
  | c :: cs =>
    match splitLines cs with
    | [] => [[c]]
    | l :: ls => (c :: l) :: ls

/-- The lines of a text, without their ends. -/
def lines (text : String) : List String := (splitLines text.toList).map String.ofList

/-- The line with number `n`, counted from one. -/
def line? (text : String) : Nat → Option String
  | 0 => none
  | n + 1 => (lines text)[n]?

end Gradual.Text
