/-
**Finite binary floating-point numbers of 64 bits.**

A finite number of the format is a sign, a significand below `2 ^ 53` and a binary exponent between
`-1074` and `971`; it stands for the significand times a power of two.  Nothing here is computed in
floating point: a natural, a product and a quotient are rounded to the format by exact arithmetic on
naturals, the nearest number winning and a tie going to the even significand.  A decimal is rounded
more than once on its way into the format: its digits first, then the product or quotient with a
power of ten.

Main definitions:

* `Binary64` — the finite numbers of the format;
* `Binary64.mul?`, `Binary64.div?` — the number nearest to a product and to a quotient, or nothing
  beyond the largest one;
* `Binary64.ofDecimal` — the number that decimal digits and a power of ten stand for;
* `Binary64.wholePart` — the magnitude cut to an integer, zero for a negative number.
-/

import StoreSchema.Powers

set_option relaxedAutoImplicit false
set_option autoImplicit false

namespace StoreSchema

/-- A finite number of the 64-bit binary format: a sign and `significand * 2 ^ exponent`. -/
structure Binary64 where
  /-- Whether the number carries a minus sign; zero may carry one. -/
  negative : Bool
  /-- The integer significand. -/
  significand : Nat
  /-- The power of two that scales the significand. -/
  exponent : Int
  /-- The significand has at most 53 bits. -/
  significand_lt : significand < pow2 53
  /-- The exponent lies in the range of the format. -/
  exponent_range : -1074 ≤ exponent ∧ exponent ≤ 971
deriving DecidableEq

/-- The quotient of two naturals rounded to the nearest integer, a tie going to the even one. -/
def nearestEven (num den : Nat) : Nat :=
  let quotient := num / den
  let excess := 2 * (num % den)
  if excess < den then quotient
  else if den < excess then quotient + 1
  else quotient + quotient % 2

/-- The quotient `num / (den * 2 ^ exponent)` as a pair of naturals. -/
def shiftedRatio (num den : Nat) (exponent : Int) : Nat × Nat :=
  if 0 ≤ exponent then (num, den * pow2 exponent.toNat) else (num * pow2 (-exponent).toNat, den)

/-- The largest `e` with `2 ^ e ≤ num / den`, for positive `num` and `den`. -/
def floorLog2 (num den : Nat) : Int :=
  let estimate : Int := (num.log2 : Int) - (den.log2 : Int)
  let shifted := shiftedRatio num den estimate
  if shifted.2 ≤ shifted.1 then estimate else estimate - 1

namespace Binary64

/-- Zero with the given sign. -/
def zero (negative : Bool) : Binary64 := ⟨negative, 0, -1074, pow2_pos 53, by decide⟩

/-- Whether the number is one of the two zeros. -/
def isZero (x : Binary64) : Bool := x.significand == 0

/-- The number with these parts, when they fit the format. -/
def ofParts? (negative : Bool) (significand : Nat) (exponent : Int) : Option Binary64 :=
  if h : significand < pow2 53 ∧ -1074 ≤ exponent ∧ exponent ≤ 971 then
    some ⟨negative, significand, exponent, h.1, h.2⟩
  else none

/-- The number nearest to `num / den`, for positive `num` and `den`; nothing when rounding leaves
the range of the format. -/
def ofRatio (negative : Bool) (num den : Nat) : Option Binary64 :=
  let exponent := max (floorLog2 num den - 52) (-1074)
  let shifted := shiftedRatio num den exponent
  let significand := nearestEven shifted.1 shifted.2
  if significand < pow2 53 then ofParts? negative significand exponent
  else ofParts? negative (significand / 2) (exponent + 1)

/-- The number nearest to `num / den * 2 ^ exponent`, for positive `den`; nothing when rounding
leaves the range of the format. -/
def ofScaled (negative : Bool) (num den : Nat) (exponent : Int) : Option Binary64 :=
  if num = 0 then some (zero negative)
  else
    let shifted := shiftedRatio num den (-exponent)
    ofRatio negative shifted.1 shifted.2

/-- The number nearest to a natural. -/
def ofNat? (n : Nat) : Option Binary64 := ofScaled false n 1 0

/-- The number nearest to a product. -/
def mul? (x y : Binary64) : Option Binary64 :=
  ofScaled (x.negative != y.negative) (x.significand * y.significand) 1 (x.exponent + y.exponent)

/-- The number nearest to a quotient, for a divisor that is not zero. -/
def div? (x y : Binary64) : Option Binary64 :=
  ofScaled (x.negative != y.negative) x.significand y.significand (x.exponent - y.exponent)

/-- The number nearest to a power of ten. -/
def powerOfTen? (n : Nat) : Option Binary64 := ofNat? (pow10 n)

/-- The exponent of the largest power of ten in the range of the format. -/
def largestPower : Nat := 308

/-- A number times `10 ^ scale`, rounded after every step: one product or quotient where the power
is in the range of the format, and quotients by the largest such power before it where the scale
lies below. -/
def shiftTen? (x : Binary64) (scale : Int) : Option Binary64 :=
  if scale.natAbs ≤ largestPower then
    (powerOfTen? scale.natAbs).bind fun power => if 0 ≤ scale then x.mul? power else x.div? power
  else if x.isZero then some x
  else if 0 ≤ scale then none
  else
    (powerOfTen? largestPower).bind fun power =>
      (x.div? power).bind fun smaller => smaller.shiftTen? (scale + largestPower)
termination_by scale.natAbs
decreasing_by simp only [largestPower] at *; omega

/-- The number that `digits * 10 ^ scale` stands for; nothing when the computation leaves the range
of the format.  The digits are rounded before they are moved to their place, so the result may be a
neighbour of the nearest number. -/
def ofDecimal (negative : Bool) (digits : Nat) (scale : Int) : Option Binary64 :=
  ((ofNat? digits).bind (·.shiftTen? scale)).map fun x => { x with negative }

/-- The magnitude of a number that is not negative, cut to an integer; zero for a negative one. -/
def wholePart (x : Binary64) : Nat :=
  if x.negative then 0
  else if 0 ≤ x.exponent then x.significand * pow2 x.exponent.toNat
  else x.significand / pow2 (-x.exponent).toNat

end Binary64

end StoreSchema
