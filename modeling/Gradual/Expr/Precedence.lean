import Gradual.Expr.Basic
import Gradual.Token.Basic

/-!
# Precedence of operators

How tightly operators bind. An operator takes as its left operand what binds at least as tightly,
and as its right operand what binds more tightly; the power operator alone goes to the right.

* `Precedence`, `Precedence.rank`;
* `BinaryOp.precedence`;
* `BinaryOp.rightBound`: what the right operand has to exceed;
* `BinaryOp.ofKind?`: the operators that are one token.
-/

namespace Gradual

/-- The levels of binding, from the loosest to the tightest. -/
inductive Precedence where
  | lowest | or | and | not | comparison | bitOr | bitXor | bitAnd | shift | term | factor | unary
  | power
  deriving DecidableEq, Repr

/-- The place of a level, counted from the loosest. -/
def Precedence.rank : Precedence → Nat
  | .lowest => 0
  | .or => 1
  | .and => 2
  | .not => 3
  | .comparison => 4
  | .bitOr => 5
  | .bitXor => 6
  | .bitAnd => 7
  | .shift => 8
  | .term => 9
  | .factor => 10
  | .unary => 11
  | .power => 12

namespace BinaryOp

/-- The level of an operator. -/
def precedence : BinaryOp → Precedence
  | or => .or
  | and => .and
  | equal | notEqual | greater | greaterEqual | less | lessEqual | contained | notContained
  | identical | notIdentical => .comparison
  | bitOr => .bitOr
  | bitXor => .bitXor
  | bitAnd => .bitAnd
  | shiftLeft | shiftRight => .shift
  | add | subtract => .term
  | multiply | divide | floorDivide | modulo | matrixMultiply => .factor
  | power => .power

/-- The level that operators in the right operand have to exceed. -/
def rightBound : BinaryOp → Precedence
  | power => .unary
  | op => op.precedence

/-- The operator that a single token stands for. -/
def ofKind? : TokenKind → Option BinaryOp
  | .keyword .orKw => some or
  | .keyword .andKw => some and
  | .keyword .inKw => some contained
  | .mark .doubleEqual => some equal
  | .mark .bangEqual => some notEqual
  | .mark .greater => some greater
  | .mark .greaterEqual => some greaterEqual
  | .mark .less => some less
  | .mark .lessEqual => some lessEqual
  | .mark .pipe => some bitOr
  | .mark .caret => some bitXor
  | .mark .ampersand => some bitAnd
  | .mark .lessLess => some shiftLeft
  | .mark .greaterGreater => some shiftRight
  | .mark .plus => some add
  | .mark .minus => some subtract
  | .mark .star => some multiply
  | .mark .slash => some divide
  | .mark .doubleSlash => some floorDivide
  | .mark .percent => some modulo
  | .mark .atSign => some matrixMultiply
  | .mark .doubleStar => some power
  | _ => none

end BinaryOp

end Gradual
