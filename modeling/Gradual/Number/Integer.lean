/-!
# Whole numbers in a radix

Digits are read from the left, and the first character that cannot be taken decides the outcome: a
character that is no digit of the radix is refused before the size of the number is looked at.

* `digit?`: the value of a character as a digit;
* `Integer.read`: the number that a run of digits denotes, up to a limit;
* `Integer.largest`: the largest number a literal may denote.
-/

namespace Gradual.Number

/-- The value of an ASCII digit or letter as a digit of `radix`. -/
def digit? (radix : Nat) (c : Char) : Option Nat :=
  let n :=
    if c.isDigit then c.toNat - 48
    else if c.isLower then c.toNat - 87
    else if c.isUpper then c.toNat - 55
    else radix
  if n < radix then some n else none

namespace Integer

/-- Why a run of characters denotes no number. -/
inductive Fault where
  | empty
  | invalidDigit
  | tooLarge
  deriving DecidableEq, Repr

/-- The wording of a fault. -/
def Fault.message : Fault → String
  | .empty => "cannot parse integer from empty string"
  | .invalidDigit => "invalid digit found in string"
  | .tooLarge => "number too large to fit in target type"

/-- The largest number that a literal may denote. -/
def largest : Nat := Nat.pow 2 63 - 1

/-- Reads further digits after those that make up `value`. -/
def readFrom (radix : Nat) (value : Nat) : List Char → Except Fault Nat
  | [] => .ok value
  | c :: cs =>
    match digit? radix c with
    | none => .error .invalidDigit
    | some d =>
      if value * radix + d ≤ largest then readFrom radix (value * radix + d) cs
      else .error .tooLarge

/-- The number denoted by a non-empty run of digits. -/
def read (radix : Nat) : List Char → Except Fault Nat
  | [] => .error .empty
  | c :: cs => readFrom radix 0 (c :: cs)

end Integer

end Gradual.Number
