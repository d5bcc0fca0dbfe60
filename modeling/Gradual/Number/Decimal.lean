import Gradual.Number.Integer
import Gradual.Number.Binary64

/-!
# Decimal fractions

A decimal fraction is written with digits, at most one point among them, and then at most one
exponent.

* `Decimal`: the number `digits * 10 ^ exponent`;
* `Decimal.read?`: the number that a text denotes;
* `Binary64.read?`: the binary64 number nearest to it.
-/

namespace Gradual.Number

/-- The number `digits * 10 ^ exponent`. -/
structure Decimal where
  digits : Nat
  exponent : Int
  deriving DecidableEq, Repr

/-- The number denoted by decimal digits. -/
def ofDigits (cs : List Char) : Nat := cs.foldl (fun n c => 10 * n + (c.toNat - 48)) 0

namespace Decimal

/-- Reads the exponent mark, a sign and digits up to the end; no text is the exponent `0`. -/
def readExponent? : List Char → Option Int
  | [] => some 0
  | mark :: cs =>
    let (negative, ds) : Bool × List Char :=
      match cs with
      | '-' :: ds => (true, ds)
      | '+' :: ds => (false, ds)
      | ds => (false, ds)
    if (mark == 'e' || mark == 'E') && !ds.isEmpty && ds.all Char.isDigit then
      some (if negative then -(ofDigits ds : Int) else ofDigits ds)
    else none

/-- The number denoted by a whole text, which has a digit before its exponent. -/
def read? (text : List Char) : Option Decimal :=
  let whole := text.takeWhile Char.isDigit
  let afterWhole := text.dropWhile Char.isDigit
  let (fraction, tail) : List Char × List Char :=
    match afterWhole with
    | '.' :: cs => (cs.takeWhile Char.isDigit, cs.dropWhile Char.isDigit)
    | cs => ([], cs)
  if whole.isEmpty && fraction.isEmpty then none
  else (readExponent? tail).map fun e =>
    ⟨ofDigits (whole ++ fraction), e - fraction.length⟩

end Decimal

/-- The binary64 number nearest to the one that a text denotes. -/
def Binary64.read? (text : List Char) : Option Binary64 :=
  (Decimal.read? text).map fun d => Binary64.ofDecimal d.digits d.exponent

end Gradual.Number
