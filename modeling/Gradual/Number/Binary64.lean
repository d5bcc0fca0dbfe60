/-!
# Numbers in binary64

The non-negative half of the IEEE 754 format with 64 bits. The value of a word is `m * 2 ^ q`, where
`m` has at most 53 bits and `q` is at least `-1074`.

* `Binary64`, `Binary64.infinity`;
* `Binary64.mantissa`, `Binary64.exponent`: the value of a finite word;
* `roundDiv`: a quotient rounded to nearest, a half to the even neighbour;
* `Binary64.ofRatio`: the word nearest to a fraction;
* `Binary64.ofDecimal`: the word nearest to `m * 10 ^ e`.
-/

namespace Gradual.Number

/-- A non-negative number of the format, given by its bits. -/
structure Binary64 where
  bits : Nat
  deriving DecidableEq, Repr

/-- The quotient rounded to nearest; a half goes to the even neighbour. -/
def roundDiv (num den : Nat) : Nat :=
  let q := num / den
  let r := num % den
  if 2 * r < den || (2 * r == den && q % 2 == 0) then q else q + 1

namespace Binary64

/-- The word that stands for infinity. -/
def infinity : Binary64 := ⟨2047 * Nat.pow 2 52⟩

/-- Whether a word stands for a number. -/
def isFinite (x : Binary64) : Bool := x.bits < infinity.bits

/-- The factor `m` of the value `m * 2 ^ q`. -/
def mantissa (x : Binary64) : Nat :=
  if x.bits < Nat.pow 2 52 then x.bits else Nat.pow 2 52 + x.bits % Nat.pow 2 52

/-- The exponent `q` of the value `m * 2 ^ q`. -/
def exponent (x : Binary64) : Int :=
  if x.bits < Nat.pow 2 52 then -1074 else (x.bits / Nat.pow 2 52 : Nat) - 1075

/-- The largest `e` with `2 ^ e ≤ num / den`, both being positive. -/
def log2Ratio (num den : Nat) : Int :=
  let e : Int := (num.log2 : Int) - (den.log2 : Int)
  if num * Nat.pow 2 (-e).toNat < den * Nat.pow 2 e.toNat then e - 1 else e

/-- The word nearest to `num / den`; a half goes to the even mantissa, and what lies beyond the
largest finite word by half a step or more is infinity. -/
def ofRatio (num den : Nat) : Binary64 :=
  if num = 0 then ⟨0⟩
  else
    let q := max (log2Ratio num den - 52) (-1074)
    let m := roundDiv (num * Nat.pow 2 (-q).toNat) (den * Nat.pow 2 q.toNat)
    ⟨min ((q + 1074).toNat * Nat.pow 2 52 + m) infinity.bits⟩

/-- The word nearest to `m * 10 ^ e`. A number with more than 310 places before the point is
infinite, and one whose first 330 places after the point are zeros is zero. -/
def ofDecimal (m : Nat) (e : Int) : Binary64 :=
  let places : Int := (Nat.toDigits 10 m).length + e
  if m = 0 then ⟨0⟩
  else if 310 < places then infinity
  else if places < -330 then ⟨0⟩
  else ofRatio (m * Nat.pow 10 e.toNat) (Nat.pow 10 (-e).toNat)

end Binary64

end Gradual.Number
