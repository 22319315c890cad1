/-
**The shortest decimal digits that name a floating-point number.**

Every real number close enough to a `Binary64` rounds to it: the reals in question form an interval
whose ends lie half-way to the two neighbours of the number, and belong to it when the significand
is even.  The shortest digits are found by trying the decimal grids `10 ^ k` from the coarsest on;
on each grid only the two points next to the number can be the nearest point of the interval.

Main definitions:

* `Binary64.rounds` — whether a point of a decimal grid rounds to the number;
* `Binary64.shortestOn` — the point of a grid that names the number, the nearer of two and on a tie
  the even one;
* `Binary64.shortest` — **the shortest digits**, as an integer and a power of ten.
-/

import StoreSchema.Binary64.Basic

set_option relaxedAutoImplicit false
set_option autoImplicit false

namespace StoreSchema

/-- A decimal numeral `digits * 10 ^ scale`. -/
structure DecimalNumeral where
  /-- The digits, read as one integer. -/
  digits : Nat
  /-- The power of ten of the last digit. -/
  scale : Int
deriving DecidableEq, Repr

namespace DecimalNumeral

/-- Drops trailing zeros, at most `fuel` of them. -/
def stripZeros : Nat → DecimalNumeral → DecimalNumeral
  | 0, numeral => numeral
  | fuel + 1, numeral =>
      if numeral.digits ≠ 0 ∧ numeral.digits % 10 = 0 then
        stripZeros fuel ⟨numeral.digits / 10, numeral.scale + 1⟩
      else numeral

end DecimalNumeral

namespace Binary64

/-- The number of digits before the decimal point of `num / den`: the `p` with
`10 ^ (p - 1) ≤ num / den < 10 ^ p`, zero or negative below `1 / 10`. -/
def decimalMagnitude (num den : Nat) : Int :=
  if den ≤ num then (Nat.toDigits 10 (num / den)).length
  else
    let d := (Nat.toDigits 10 (den / num)).length
    if num * pow10 (d - 1) = den then 2 - (d : Int) else 1 - (d : Int)

/-- The magnitude of the number as a quotient, in quarters of a unit of its last bit. -/
def quarterUnits (x : Binary64) : Nat × Nat :=
  if 2 ≤ x.exponent then (pow2 (x.exponent - 2).toNat, 1)
  else (1, pow2 (2 - x.exponent).toNat)

/-- The lower end of the interval of the number, in quarters of a unit of its last bit.  Below a
power of two the neighbours lie twice as close. -/
def lowerEnd (x : Binary64) : Nat :=
  if x.significand = pow2 52 ∧ -1074 < x.exponent then 4 * x.significand - 1
  else 4 * x.significand - 2

/-- The upper end of the interval of the number, in quarters of a unit of its last bit. -/
def upperEnd (x : Binary64) : Nat := 4 * x.significand + 2

/-- The point `digits * 10 ^ scale` and the quarters of a unit, over a common denominator. -/
def commonScale (x : Binary64) (scale : Int) : Nat × Nat :=
  let quarter := x.quarterUnits
  if 0 ≤ scale then (pow10 scale.toNat * quarter.2, quarter.1)
  else (quarter.2, quarter.1 * pow10 (-scale).toNat)

/-- Whether the point `digits * 10 ^ scale` rounds to the number. -/
def rounds (x : Binary64) (digits : Nat) (scale : Int) : Bool :=
  let (step, quarter) := x.commonScale scale
  let point := digits * step
  let low := x.lowerEnd * quarter
  let high := x.upperEnd * quarter
  if x.significand % 2 = 0 then low ≤ point && point ≤ high else low < point && point < high

/-- The point of the grid `10 ^ scale` that names the number: of the two grid points next to it
those that round to it, the nearer one first, and on a tie the even one. -/
def shortestOn (x : Binary64) (scale : Int) : Option Nat :=
  let (step, quarter) := x.commonScale scale
  let value := 4 * x.significand * quarter
  let below := value / step
  let excess := 2 * (value % step)
  match x.rounds below scale, x.rounds (below + 1) scale with
  | true, true =>
      if excess < step then some below
      else if step < excess then some (below + 1)
      else some (below + below % 2)
  | true, false => some below
  | false, true => some (below + 1)
  | false, false => none

/-- **The shortest digits that round to the number**, for a number that is not zero. -/
def shortest (x : Binary64) : DecimalNumeral :=
  let quarter := x.quarterUnits
  let magnitude := decimalMagnitude (4 * x.significand * quarter.1) quarter.2
  let found := (List.range 17).findSome? fun (extra : Nat) =>
    let scale := magnitude - 1 - (extra : Int)
    (x.shortestOn scale).map fun digits => DecimalNumeral.mk digits scale
  (found.getD ⟨0, 0⟩).stripZeros 20

end Binary64

end StoreSchema
