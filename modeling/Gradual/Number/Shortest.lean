import Gradual.Number.Decimal

/-!
# Shortest decimals

The text of a binary64 number has the fewest digits that still read back as that number, and among
those the nearest ones; of two equally near ones the larger is taken.

* `Binary64.reaches`: the decimals that read back as a number are those within half a step of it;
* `Binary64.shortest`: the digits;
* `Binary64.render`: their layout, positional for `10 ^ -4 ≤ x < 10 ^ 16` and with an exponent
  otherwise.
-/

namespace Gradual.Number

/-- The number of decimal digits of `n`. -/
def digitCount (n : Nat) : Nat := (Nat.toDigits 10 n).length

namespace Binary64

/-- The least `k` with `num / den < 10 ^ k`, both being positive. -/
def log10Ratio (num den : Nat) : Int :=
  if den ≤ num then digitCount (num / den) else 1 - (digitCount ((den - 1) / num) : Int)

/-- Whether `d` times the step of a decimal grid reads back as `x`. The grid is given by `p` and
`s`: a quarter of the last binary place of `x` is `p / s` of its steps. An end of the interval
belongs to it when the mantissa is even, and the lower half is narrower at a power of two. -/
def reaches (x : Binary64) (p s d : Nat) : Bool :=
  let m := x.mantissa
  let below := if m == Nat.pow 2 52 && Nat.pow 2 53 ≤ x.bits then 1 else 2
  let low := (4 * m - below) * p
  let high := (4 * m + 2) * p
  if m % 2 == 0 then low ≤ d * s && d * s ≤ high else low < d * s && d * s < high

/-- Looks for a decimal with `n` digits, then with more, up to `n + fuel` digits; `k` is the number
of places before the point. -/
def shortestFrom (x : Binary64) (k : Int) : (fuel n : Nat) → Decimal
  | 0, _ => ⟨0, 0⟩
  | fuel + 1, n =>
    let step : Int := k - n
    let q := x.exponent - 2
    let p := Nat.pow 2 q.toNat * Nat.pow 10 (-step).toNat
    let s := Nat.pow 10 step.toNat * Nat.pow 2 (-q).toNat
    let v := 4 * x.mantissa * p
    let d := v / s
    let lower := x.reaches p s d
    let upper := x.reaches p s (d + 1)
    if lower && (!upper || v - d * s < (d + 1) * s - v) then ⟨d, step⟩
    else if upper then ⟨d + 1, step⟩
    else shortestFrom x k fuel (n + 1)

/-- The shortest decimal that reads back as a finite number other than zero. -/
def shortest (x : Binary64) : Decimal :=
  let k := log10Ratio (x.mantissa * Nat.pow 2 x.exponent.toNat) (Nat.pow 2 (-x.exponent).toNat)
  shortestFrom x k 17 1

/-- The digits of a number without the zeros at their end, and how many places stand before the
point. -/
def significant (d : Decimal) : List Char × Int :=
  let cs := Nat.toDigits 10 d.digits
  ((cs.reverse.dropWhile (· == '0')).reverse, cs.length + d.exponent)

/-- Digits with a point after the first `places` of them. -/
def positional (cs : List Char) (places : Int) : List Char :=
  if places ≤ 0 then '0' :: '.' :: List.replicate (-places).toNat '0' ++ cs
  else
    let n := places.toNat
    if n < cs.length then cs.take n ++ '.' :: cs.drop n
    else cs ++ List.replicate (n - cs.length) '0' ++ ['.', '0']

/-- Digits with a point after the first of them, if there are more, and an exponent. -/
def scientific (cs : List Char) (e : Int) : List Char :=
  let tail := 'e' :: (toString e).toList
  match cs with
  | c :: d :: ds => c :: '.' :: d :: ds ++ tail
  | cs => cs ++ tail

/-- The text of a number. -/
def render (x : Binary64) : String :=
  if !x.isFinite then "inf"
  else if x.bits = 0 then "0.0"
  else
    let (cs, places) := significant x.shortest
    String.ofList <|
      if -4 < places && places ≤ 16 then positional cs places else scientific cs (places - 1)

end Binary64

end Gradual.Number
