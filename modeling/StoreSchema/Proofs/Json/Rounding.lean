/-
**Rounding to the nearest number, and the decimals that are read exactly.**

A quotient of naturals is rounded on the grid of its last bit, and no number of the format lies
closer to it than the result.  Products and quotients of numbers are rounded this way once.  A
decimal is read in several rounded steps: its digits, the power of ten, and the product or quotient
of both.  While the digits stay below `2 ^ 53` and the power within `10 ^ 22` only the last step is
not exact, so that the number read is a nearest one; beyond, it may be a neighbour.

Main definitions:

* `Binary64.magnitude` — the rational that a number stands for, without its sign;
* `Binary64.Nearest` — that no number of the format lies closer to a rational;
* `Numeral.digits`, `Numeral.scale` — the decimal that a numeral spells.

Main results:

* `Binary64.ofRatio_nearest`, `Binary64.mul?_nearest`, `Binary64.div?_nearest` — **rounding gives a
  nearest number**;
* `Binary64.Nearest.magnitude_eq` — what is a number of the format is not changed by rounding;
* `Binary64.ofDecimal_nearest` — **short decimals are read as a nearest number**;
* `Numeral.real?_nearest` — and so are the numerals that spell them.
-/

import Mathlib.Algebra.Order.Field.Power
import Mathlib.Data.Int.Log
import Mathlib.Data.Rat.Floor
import Mathlib.Tactic.Linarith
import Mathlib.Tactic.Positivity
import Mathlib.Tactic.Ring
import StoreSchema.Json.Numeral

set_option relaxedAutoImplicit false
set_option autoImplicit false

namespace StoreSchema

theorem pow2_cast (n : Nat) : (pow2 n : ℚ) = 2 ^ n := by simp [pow2]

theorem pow10_cast (n : Nat) : (pow10 n : ℚ) = 10 ^ n := by simp [pow10]

/-! ### Rounding to an integer -/

/-- Rounding goes down by at most half the divisor, or up by at most half of it. -/
theorem nearestEven_cases (num den : Nat) :
    (nearestEven num den = num / den ∧ 2 * (num % den) ≤ den) ∨
      (nearestEven num den = num / den + 1 ∧ den ≤ 2 * (num % den)) := by
  rw [nearestEven]
  split
  · exact .inl ⟨rfl, by omega⟩
  · split
    · exact .inr ⟨rfl, by omega⟩
    · rcases Nat.mod_two_eq_zero_or_one (num / den) with heven | hodd
      · exact .inl ⟨by rw [heven, Nat.add_zero], by omega⟩
      · exact .inr ⟨by rw [hodd], by omega⟩

/-- The rounded quotient is at most one half away. -/
theorem nearestEven_error {num den : Nat} (hden : 0 < den) :
    |(nearestEven num den : ℚ) - num / den| ≤ 1 / 2 := by
  have hpos : (0 : ℚ) < den := by exact_mod_cast hden
  have hsplit : (num : ℚ) = den * (num / den : Nat) + (num % den : Nat) := by
    exact_mod_cast (Nat.div_add_mod num den).symm
  have hquotient : (num : ℚ) / den = (num / den : Nat) + (num % den : Nat) / den := by
    rw [div_eq_iff hpos.ne', add_mul, div_mul_cancel₀ _ hpos.ne', mul_comm _ (den : ℚ)]
    exact hsplit
  have hlow : (0 : ℚ) ≤ (num % den : Nat) / den := by positivity
  have hhigh : ((num % den : Nat) : ℚ) / den ≤ 1 := by
    rw [div_le_one hpos]
    exact_mod_cast (Nat.mod_lt num hden).le
  rw [hquotient, abs_le]
  rcases nearestEven_cases num den with ⟨hvalue, hhalf⟩ | ⟨hvalue, hhalf⟩
  · have hle : ((num % den : Nat) : ℚ) / den ≤ 1 / 2 := by
      rw [div_le_div_iff₀ hpos two_pos, one_mul, mul_comm]
      exact_mod_cast hhalf
    rw [hvalue]
    constructor <;> linarith
  · have hge : 1 / 2 ≤ ((num % den : Nat) : ℚ) / den := by
      rw [div_le_div_iff₀ two_pos hpos, one_mul, mul_comm]
      exact_mod_cast hhalf
    rw [hvalue, Nat.cast_add, Nat.cast_one]
    constructor <;> linarith

/-- What is at most one half away from a rational is as near to it as any integer. -/
theorem abs_sub_le_of_half {n k : Int} {r : ℚ} (h : |(n : ℚ) - r| ≤ 1 / 2) :
    |(n : ℚ) - r| ≤ |(k : ℚ) - r| := by
  rcases eq_or_ne n k with rfl | hne
  · exact le_rfl
  · have hgap : (1 : ℚ) ≤ |(n : ℚ) - k| := by
      exact_mod_cast Int.one_le_abs (sub_ne_zero.2 hne)
    have htriangle := abs_sub_le (n : ℚ) r k
    rw [abs_sub_comm r] at htriangle
    linarith

/-- A multiple of the divisor is divided without rounding. -/
theorem nearestEven_mul_self {n den : Nat} (hden : 0 < den) : nearestEven (n * den) den = n := by
  rw [nearestEven, Nat.mul_mod_left, Nat.mul_div_cancel n hden]
  exact if_pos (by omega)

/-! ### The exponent of the last bit -/

/-- A shifted quotient is the quotient over a power of two. -/
theorem shiftedRatio_div (num den : Nat) (exponent : Int) :
    ((shiftedRatio num den exponent).1 : ℚ) / (shiftedRatio num den exponent).2 =
      num / den / 2 ^ exponent := by
  rw [shiftedRatio]
  split
  · next hle =>
      obtain ⟨n, rfl⟩ := Int.eq_ofNat_of_zero_le hle
      rw [Int.toNat_natCast, Nat.cast_mul, pow2_cast, zpow_natCast, div_div]
  · next hlt =>
      obtain ⟨n, hn⟩ := Int.eq_ofNat_of_zero_le (show 0 ≤ -exponent by omega)
      obtain rfl : exponent = -(n : Int) := by omega
      rw [neg_neg, Int.toNat_natCast, Nat.cast_mul, pow2_cast, zpow_neg, zpow_natCast,
        div_inv_eq_mul]
      ring

theorem shiftedRatio_fst_pos {num : Nat} (hnum : 0 < num) (den : Nat) (exponent : Int) :
    0 < (shiftedRatio num den exponent).1 := by
  rw [shiftedRatio]
  split
  · exact hnum
  · exact Nat.mul_pos hnum (pow2_pos _)

theorem shiftedRatio_snd_pos {den : Nat} (num : Nat) (hden : 0 < den) (exponent : Int) :
    0 < (shiftedRatio num den exponent).2 := by
  rw [shiftedRatio]
  split
  · exact Nat.mul_pos hden (pow2_pos _)
  · exact hden

/-- A shifted quotient reaches one when the quotient reaches the power of two. -/
theorem shiftedRatio_le_iff {num den : Nat} (hden : 0 < den) (exponent : Int) :
    (shiftedRatio num den exponent).2 ≤ (shiftedRatio num den exponent).1 ↔
      (2 : ℚ) ^ exponent ≤ num / den := by
  have hpos : (0 : ℚ) < (shiftedRatio num den exponent).2 := by
    exact_mod_cast shiftedRatio_snd_pos num hden exponent
  rw [← Nat.cast_le (α := ℚ), ← one_le_div hpos, shiftedRatio_div,
    one_le_div (zpow_pos two_pos exponent)]

theorem floorLog2_eq {num den : Nat} (hnum : 0 < num) (hden : 0 < den) :
    floorLog2 num den = Int.log 2 (num / den : ℚ) := by
  have hnumPos : (0 : ℚ) < num := by exact_mod_cast hnum
  have hdenPos : (0 : ℚ) < den := by exact_mod_cast hden
  have hquotient : (0 : ℚ) < num / den := div_pos hnumPos hdenPos
  have hnumLow : (2 : ℚ) ^ (num.log2 : Int) ≤ num := by
    exact_mod_cast Nat.log2_self_le hnum.ne'
  have hnumHigh : (num : ℚ) < 2 ^ ((num.log2 : Int) + 1) := by
    exact_mod_cast Nat.lt_log2_self (n := num)
  have hdenLow : (2 : ℚ) ^ (den.log2 : Int) ≤ den := by
    exact_mod_cast Nat.log2_self_le hden.ne'
  have hdenHigh : (den : ℚ) < 2 ^ ((den.log2 : Int) + 1) := by
    exact_mod_cast Nat.lt_log2_self (n := den)
  -- the difference of the logarithms is right or one too large
  have hlow : (num.log2 : Int) - den.log2 - 1 ≤ Int.log 2 (num / den : ℚ) := by
    rw [← Int.zpow_le_iff_le_log one_lt_two hquotient, Nat.cast_ofNat, le_div_iff₀ hdenPos]
    calc (2 : ℚ) ^ ((num.log2 : Int) - den.log2 - 1) * den
        ≤ 2 ^ ((num.log2 : Int) - den.log2 - 1) * 2 ^ ((den.log2 : Int) + 1) := by gcongr
      _ = 2 ^ (num.log2 : Int) := by rw [← zpow_add₀ two_ne_zero]; congr 1; omega
      _ ≤ num := hnumLow
  have hhigh : Int.log 2 (num / den : ℚ) < (num.log2 : Int) - den.log2 + 1 := by
    rw [← Int.lt_zpow_iff_log_lt one_lt_two hquotient, Nat.cast_ofNat, div_lt_iff₀ hdenPos]
    calc (num : ℚ) < 2 ^ ((num.log2 : Int) + 1) := hnumHigh
      _ = 2 ^ ((num.log2 : Int) - den.log2 + 1) * 2 ^ (den.log2 : Int) := by
          rw [← zpow_add₀ two_ne_zero]; congr 1; omega
      _ ≤ 2 ^ ((num.log2 : Int) - den.log2 + 1) * den := by gcongr
  have hreaches := (Int.zpow_le_iff_le_log (R := ℚ) one_lt_two hquotient
    (x := (num.log2 : Int) - den.log2)).symm
  rw [Nat.cast_ofNat, ← shiftedRatio_le_iff hden] at hreaches
  rw [floorLog2]
  split
  · next hle => have := hreaches.2 hle; omega
  · next hlt => have := mt hreaches.1 hlt; omega

/-- The exponent of the last bit that a positive rational keeps. -/
def unitExponent (r : ℚ) : Int := max (Int.log 2 r - 52) (-1074)

/-- Counted in units of its last bit a rational stays below `2 ^ 53`. -/
theorem div_unit_lt (r : ℚ) : r / 2 ^ unitExponent r < 2 ^ 53 := by
  have hunit : (0 : ℚ) < 2 ^ unitExponent r := zpow_pos two_pos _
  have hlog : r < 2 ^ (Int.log 2 r + 1) := by
    exact_mod_cast Int.lt_zpow_succ_log_self (R := ℚ) one_lt_two r
  rw [div_lt_iff₀ hunit]
  calc r < 2 ^ (Int.log 2 r + 1) := hlog
    _ ≤ 2 ^ (53 + unitExponent r) := by
        refine zpow_le_zpow_right₀ one_le_two ?_
        have := le_max_left (Int.log 2 r - 52) (-1074)
        rw [unitExponent]
        omega
    _ = 2 ^ 53 * 2 ^ unitExponent r := by rw [zpow_add₀ two_ne_zero]; rfl

/-- Above the smallest unit it reaches `2 ^ 52`. -/
theorem le_div_unit {r : ℚ} (hr : 0 < r) (h : -1074 < unitExponent r) :
    2 ^ 52 ≤ r / 2 ^ unitExponent r := by
  have hlog : unitExponent r = Int.log 2 r - 52 := by
    rw [unitExponent] at h ⊢
    omega
  rw [le_div_iff₀ (zpow_pos two_pos _), hlog]
  calc (2 : ℚ) ^ 52 * 2 ^ (Int.log 2 r - 52) = 2 ^ (Int.log 2 r) := by
        rw [← zpow_natCast, ← zpow_add₀ two_ne_zero]
        congr 1
        omega
    _ ≤ r := by exact_mod_cast Int.zpow_log_le_self (R := ℚ) one_lt_two hr

namespace Binary64

/-! ### Rounding to the format -/

/-- The rational that a number stands for, without its sign. -/
def magnitude (x : Binary64) : ℚ := x.significand * 2 ^ x.exponent

/-- That no number of the format lies closer to a rational, signs apart. -/
def Nearest (x : Binary64) (r : ℚ) : Prop :=
  ∀ y : Binary64, |x.magnitude - r| ≤ |y.magnitude - r|

theorem nearest_of_magnitude {x : Binary64} {r : ℚ} (h : x.magnitude = r) : x.Nearest r := by
  intro y
  rw [h, sub_self, abs_zero]
  exact abs_nonneg _

/-- A number whose exponent is no smaller than that of a unit is a whole number of units. -/
theorem magnitude_eq_mul_unit {x : Binary64} {unit : Int} (h : unit ≤ x.exponent) :
    x.magnitude = (x.significand * pow2 (x.exponent - unit).toNat : Nat) * 2 ^ unit := by
  have hshift : ((x.exponent - unit).toNat : Int) = x.exponent - unit :=
    Int.toNat_of_nonneg (by omega)
  rw [magnitude, Nat.cast_mul, pow2_cast, ← zpow_natCast, hshift, mul_assoc,
    ← zpow_add₀ two_ne_zero, sub_add_cancel]

/-- A number whose exponent is smaller than that of a unit stays below `2 ^ 52` units. -/
theorem magnitude_le_of_exponent_lt {x : Binary64} {unit : Int} (h : x.exponent < unit) :
    x.magnitude ≤ 2 ^ 52 * 2 ^ unit := by
  have hsignificand : (x.significand : ℚ) ≤ 2 ^ 53 := by
    rw [← pow2_cast]
    exact_mod_cast x.significand_lt.le
  calc x.magnitude ≤ 2 ^ 53 * 2 ^ (unit - 1) := by
        rw [magnitude]
        gcongr
        · exact one_le_two
        · omega
    _ = 2 ^ 52 * 2 ^ unit := by
        rw [zpow_sub_one₀ two_ne_zero]
        ring

/-- A whole number of units that is at most half a unit away is a nearest number. -/
theorem nearest_of_half {x : Binary64} {r : ℚ} {n : Nat} (hr : 0 < r)
    (hx : x.magnitude = n * 2 ^ unitExponent r)
    (hhalf : |(n : ℚ) - r / 2 ^ unitExponent r| ≤ 1 / 2) : x.Nearest r := by
  have hunit : (0 : ℚ) < 2 ^ unitExponent r := zpow_pos two_pos _
  have hscaled : ∀ q : ℚ, |q * 2 ^ unitExponent r - r| =
      |q - r / 2 ^ unitExponent r| * 2 ^ unitExponent r := by
    intro q
    rw [← abs_of_pos hunit, ← abs_mul, abs_of_pos hunit, sub_mul, div_mul_cancel₀ _ hunit.ne']
  intro y
  rcases le_or_gt (unitExponent r) y.exponent with hle | hlt
  · -- the other number lies on the same grid
    have hgrid := abs_sub_le_of_half (n := n)
      (k := (y.significand * pow2 (y.exponent - unitExponent r).toNat : Nat)) (mod_cast hhalf)
    rw [hx, magnitude_eq_mul_unit hle, hscaled, hscaled]
    exact mul_le_mul_of_nonneg_right (mod_cast hgrid) hunit.le
  · -- the other number stands below the grid, whose point `2 ^ 52` is between it and the rational
    have hbetween : y.magnitude ≤ 2 ^ 52 * 2 ^ unitExponent r := magnitude_le_of_exponent_lt hlt
    have hreach := le_div_unit hr (lt_of_le_of_lt y.exponent_range.1 hlt)
    have hgrid := abs_sub_le_of_half (n := n) (k := 2 ^ 52) (mod_cast hhalf)
    push_cast at hgrid
    calc |x.magnitude - r| ≤ |2 ^ 52 * 2 ^ unitExponent r - r| := by
          rw [hx, hscaled, hscaled]
          exact mul_le_mul_of_nonneg_right hgrid hunit.le
      _ = r - 2 ^ 52 * 2 ^ unitExponent r := by
          rw [le_div_iff₀ hunit] at hreach
          rw [abs_sub_comm, abs_of_nonneg (by linarith)]
      _ ≤ r - y.magnitude := by linarith
      _ ≤ |y.magnitude - r| := by rw [abs_sub_comm]; exact le_abs_self _

/-- A quotient in units of its last bit, rounded. -/
def units (num den : Nat) : Nat :=
  let shifted := shiftedRatio num den (unitExponent (num / den))
  nearestEven shifted.1 shifted.2

section

variable {negative : Bool} {num den : Nat}

theorem units_error (num : Nat) (hden : 0 < den) :
    |(units num den : ℚ) - num / den / 2 ^ unitExponent (num / den)| ≤ 1 / 2 := by
  rw [← shiftedRatio_div]
  exact nearestEven_error (shiftedRatio_snd_pos num hden _)

theorem units_le (num : Nat) (hden : 0 < den) : units num den ≤ pow2 53 := by
  have herror := (abs_le.1 (units_error num hden)).2
  have hlt := div_unit_lt (num / den : ℚ)
  have hbound : (units num den : ℚ) < (pow2 53 + 1 : Nat) := by
    rw [Nat.cast_add, pow2_cast, Nat.cast_one]
    linarith
  exact Nat.lt_succ_iff.1 (mod_cast hbound)

theorem ofParts?_eq_some {significand : Nat} {exponent : Int} {x : Binary64}
    (h : ofParts? negative significand exponent = some x) :
    x.negative = negative ∧ x.magnitude = significand * 2 ^ exponent := by
  rw [ofParts?] at h
  split at h
  · obtain rfl := Option.some.inj h
    exact ⟨rfl, rfl⟩
  · cases h

/-- Rounding yields the units of the last bit, carried over when there are `2 ^ 53` of them. -/
theorem ofRatio_eq (negative : Bool) (hnum : 0 < num) (hden : 0 < den) :
    ofRatio negative num den =
      if units num den < pow2 53 then
        ofParts? negative (units num den) (unitExponent (num / den))
      else ofParts? negative (units num den / 2) (unitExponent (num / den) + 1) := by
  rw [ofRatio, floorLog2_eq hnum hden]
  rfl

theorem ofRatio_magnitude {x : Binary64} (hnum : 0 < num) (hden : 0 < den)
    (h : ofRatio negative num den = some x) :
    x.negative = negative ∧ x.magnitude = units num den * 2 ^ unitExponent (num / den) := by
  rw [ofRatio_eq negative hnum hden] at h
  split at h
  · exact ofParts?_eq_some h
  · next hge =>
      have hcarry : units num den = pow2 53 := by
        have := units_le num hden
        omega
      obtain ⟨hsign, hvalue⟩ := ofParts?_eq_some h
      have hhalf : units num den / 2 = pow2 52 := by
        rw [hcarry]
        decide
      refine ⟨hsign, ?_⟩
      rw [hvalue, hhalf, hcarry, zpow_add_one₀ two_ne_zero, pow2_cast, pow2_cast]
      ring

/-- **A quotient is rounded to a nearest number.** -/
theorem ofRatio_nearest {x : Binary64} (hnum : 0 < num) (hden : 0 < den)
    (h : ofRatio negative num den = some x) : x.negative = negative ∧ x.Nearest (num / den) := by
  have hpos : (0 : ℚ) < num / den := div_pos (mod_cast hnum) (mod_cast hden)
  obtain ⟨hsign, hvalue⟩ := ofRatio_magnitude hnum hden h
  exact ⟨hsign, nearest_of_half hpos hvalue (units_error num hden)⟩

/-- A quotient below `2 ^ 1023` is in the range of the format. -/
theorem ofRatio_isSome (hnum : 0 < num) (hden : 0 < den) (h : (num / den : ℚ) < 2 ^ (1023 : Int)) :
    (ofRatio negative num den).isSome = true := by
  have hpos : (0 : ℚ) < num / den := div_pos (mod_cast hnum) (mod_cast hden)
  have hlog : Int.log 2 (num / den : ℚ) < 1023 :=
    (Int.lt_zpow_iff_log_lt one_lt_two hpos).1 (by rwa [Nat.cast_ofNat])
  have hunit : -1074 ≤ unitExponent (num / den) ∧ unitExponent (num / den) ≤ 970 := by
    rw [unitExponent]
    omega
  have hle := units_le num hden
  rw [ofRatio_eq negative hnum hden]
  have hhalf : pow2 53 / 2 < pow2 53 := by decide
  split
  · next hlt =>
      rw [ofParts?, dif_pos ⟨hlt, by omega, by omega⟩]
      rfl
  · next hge =>
      rw [ofParts?, dif_pos ⟨by omega, by omega, by omega⟩]
      rfl

/-- **A scaled quotient is rounded to a nearest number**, zero included. -/
theorem ofScaled_nearest {exponent : Int} {x : Binary64} (hden : 0 < den)
    (h : ofScaled negative num den exponent = some x) :
    x.negative = negative ∧ x.Nearest (num / den * 2 ^ exponent) := by
  rw [ofScaled] at h
  split at h
  · next hzero =>
      obtain rfl := Option.some.inj h
      refine ⟨rfl, nearest_of_magnitude ?_⟩
      rw [hzero, Nat.cast_zero, zero_div, zero_mul, magnitude]
      exact zero_mul _
  · next hne =>
      have hnum := shiftedRatio_fst_pos (Nat.pos_of_ne_zero hne) den (-exponent)
      have hnearest := ofRatio_nearest hnum (shiftedRatio_snd_pos num hden (-exponent)) h
      rwa [shiftedRatio_div, zpow_neg, div_inv_eq_mul] at hnearest

/-- A scaled quotient below `2 ^ 1023` is in the range of the format. -/
theorem exists_ofScaled {exponent : Int} (negative : Bool) (hden : 0 < den)
    (h : (num / den * 2 ^ exponent : ℚ) < 2 ^ (1023 : Int)) :
    ∃ x, ofScaled negative num den exponent = some x ∧ x.Nearest (num / den * 2 ^ exponent) := by
  have hsome : (ofScaled negative num den exponent).isSome = true := by
    rw [ofScaled]
    split
    · rfl
    · next hne =>
        refine ofRatio_isSome (shiftedRatio_fst_pos (Nat.pos_of_ne_zero hne) den _)
          (shiftedRatio_snd_pos num hden _) ?_
        rwa [shiftedRatio_div, zpow_neg, div_inv_eq_mul]
  obtain ⟨x, hx⟩ := Option.isSome_iff_exists.1 hsome
  exact ⟨x, hx, (ofScaled_nearest hden hx).2⟩

end

/-! ### Arithmetic -/

variable {x y z : Binary64} {n : Nat}

/-- What is a number of the format is rounded to itself. -/
theorem Nearest.magnitude_eq (h : x.Nearest y.magnitude) : x.magnitude = y.magnitude := by
  have hzero := h y
  rw [sub_self, abs_zero] at hzero
  exact sub_eq_zero.1 (abs_nonpos_iff.1 hzero)

theorem product_eq (x y : Binary64) :
    ((x.significand * y.significand : Nat) / (1 : Nat) * 2 ^ (x.exponent + y.exponent) : ℚ) =
      x.magnitude * y.magnitude := by
  rw [magnitude, magnitude, zpow_add₀ two_ne_zero]
  push_cast
  ring

theorem quotient_eq (x y : Binary64) :
    (x.significand / y.significand * 2 ^ (x.exponent - y.exponent) : ℚ) =
      x.magnitude / y.magnitude := by
  rw [magnitude, magnitude, zpow_sub₀ two_ne_zero]
  ring

/-- **A product is rounded to a nearest number.** -/
theorem mul?_nearest (h : x.mul? y = some z) :
    z.negative = (x.negative != y.negative) ∧ z.Nearest (x.magnitude * y.magnitude) := by
  rw [← product_eq]
  exact ofScaled_nearest Nat.one_pos h

/-- **A quotient of numbers is rounded to a nearest number.** -/
theorem div?_nearest (hy : y.significand ≠ 0) (h : x.div? y = some z) :
    z.negative = (x.negative != y.negative) ∧ z.Nearest (x.magnitude / y.magnitude) := by
  rw [← quotient_eq]
  exact ofScaled_nearest (Nat.pos_of_ne_zero hy) h

theorem exists_mul? (h : x.magnitude * y.magnitude < 2 ^ (1023 : Int)) :
    ∃ z, x.mul? y = some z ∧ z.Nearest (x.magnitude * y.magnitude) := by
  rw [← product_eq] at h ⊢
  exact exists_ofScaled _ Nat.one_pos h

theorem exists_div? (hy : y.significand ≠ 0) (h : x.magnitude / y.magnitude < 2 ^ (1023 : Int)) :
    ∃ z, x.div? y = some z ∧ z.Nearest (x.magnitude / y.magnitude) := by
  rw [← quotient_eq] at h ⊢
  exact exists_ofScaled _ (Nat.pos_of_ne_zero hy) h

/-- A natural that is a number of the format is not changed by rounding. -/
theorem ofNat?_exact (h : x.magnitude = n) (hn : (n : ℚ) < 2 ^ (1023 : Int)) :
    ∃ y, ofNat? n = some y ∧ y.magnitude = n := by
  have hvalue : (n / (1 : Nat) * 2 ^ (0 : Int) : ℚ) = n := by
    rw [Nat.cast_one, div_one, zpow_zero, mul_one]
  obtain ⟨y, hy, hnearest⟩ := exists_ofScaled false Nat.one_pos (hvalue.symm ▸ hn)
  rw [hvalue, ← h] at hnearest
  exact ⟨y, hy, hnearest.magnitude_eq.trans h⟩

/-! ### Short decimals -/

/-- Digits below `2 ^ 53` and powers of ten up to `10 ^ 22` stay far below the largest number. -/
theorem short_lt {r : ℚ} (h : r ≤ 2 ^ 53 * 10 ^ 22) : r < 2 ^ (1023 : Int) :=
  calc r ≤ 2 ^ 53 * 10 ^ 22 := h
    _ < 2 ^ (127 : Int) := by norm_num
    _ ≤ 2 ^ (1023 : Int) := zpow_le_zpow_right₀ one_le_two (by decide)

theorem ofNat?_of_lt (h : n < pow2 53) : ∃ x, ofNat? n = some x ∧ x.magnitude = n := by
  have hle : (n : ℚ) ≤ 2 ^ 53 := by
    rw [← pow2_cast]
    exact_mod_cast h.le
  have hpower : (1 : ℚ) ≤ 10 ^ 22 := by norm_num
  refine ofNat?_exact (x := ⟨false, n, 0, h, by decide⟩) ?_ (short_lt ?_)
  · rw [magnitude, zpow_zero, mul_one]
  · linarith

/-- Powers of ten up to `10 ^ 22` are numbers of the format: their odd part stays below
`2 ^ 53`. -/
theorem powerOfTen?_of_le (h : n ≤ 22) :
    ∃ x, powerOfTen? n = some x ∧ x.magnitude = 10 ^ n := by
  have hodd : 5 ^ n < pow2 53 :=
    lt_of_le_of_lt (Nat.pow_le_pow_right (by decide) h) (by decide)
  have hle : (10 : ℚ) ^ n ≤ 10 ^ 22 := pow_le_pow_right₀ (by norm_num) h
  rw [powerOfTen?, ← pow10_cast]
  refine ofNat?_exact (x := ⟨false, 5 ^ n, n, hodd, by omega, by omega⟩) ?_ (short_lt ?_)
  · rw [magnitude, pow10_cast, zpow_natCast, Nat.cast_pow, ← mul_pow]
    norm_num
  · rw [pow10_cast]
    linarith

/-- **Short decimals are read as a nearest number.** -/
theorem ofDecimal_nearest {digits : Nat} {scale : Int} (negative : Bool)
    (hdigits : digits < pow2 53) (hscale : scale.natAbs ≤ 22) :
    ∃ x, ofDecimal negative digits scale = some x ∧ x.negative = negative ∧
      x.Nearest (digits * 10 ^ scale) := by
  obtain ⟨whole, hwhole, hvalue⟩ := ofNat?_of_lt hdigits
  obtain ⟨power, hpower, htens⟩ := powerOfTen?_of_le hscale
  have hbound : (digits : ℚ) ≤ 2 ^ 53 := by
    rw [← pow2_cast]
    exact_mod_cast hdigits.le
  have hnonneg : (0 : ℚ) ≤ digits := Nat.cast_nonneg digits
  have hlarge : (1 : ℚ) ≤ 10 ^ scale.natAbs := one_le_pow₀ (by norm_num)
  have hsmall : (10 : ℚ) ^ scale.natAbs ≤ 10 ^ 22 := pow_le_pow_right₀ (by norm_num) hscale
  have hdecimal : ofDecimal negative digits scale =
      (if 0 ≤ scale then whole.mul? power else whole.div? power).map
        fun x => { x with negative } := by
    rw [ofDecimal, hwhole, Option.bind_some, shiftTen?, if_pos (hscale.trans (by decide)), hpower,
      Option.bind_some]
  rw [hdecimal]
  split
  · next hle =>
      have hten : (digits * 10 ^ scale : ℚ) = whole.magnitude * power.magnitude := by
        rw [hvalue, htens, ← zpow_natCast, Int.natAbs_of_nonneg hle]
      obtain ⟨x, hx, hnearest⟩ : ∃ x, whole.mul? power = some x ∧
          x.Nearest (whole.magnitude * power.magnitude) := by
        refine exists_mul? (short_lt ?_)
        rw [hvalue, htens]
        gcongr
      exact ⟨{ x with negative }, by rw [hx, Option.map_some], rfl, hten ▸ hnearest⟩
  · next hlt =>
      have hten : (digits * 10 ^ scale : ℚ) = whole.magnitude / power.magnitude := by
        rw [hvalue, htens, ← zpow_natCast, Int.ofNat_natAbs_of_nonpos (by omega), zpow_neg,
          div_inv_eq_mul]
      have hsignificand : power.significand ≠ 0 := by
        intro hzero
        rw [magnitude, hzero, Nat.cast_zero, zero_mul] at htens
        linarith
      obtain ⟨x, hx, hnearest⟩ : ∃ x, whole.div? power = some x ∧
          x.Nearest (whole.magnitude / power.magnitude) := by
        refine exists_div? hsignificand (short_lt ?_)
        rw [hvalue, htens]
        calc (digits : ℚ) / 10 ^ scale.natAbs ≤ digits := div_le_self hnonneg hlarge
          _ ≤ 2 ^ 53 * 10 ^ 22 := by linarith
      exact ⟨{ x with negative }, by rw [hx, Option.map_some], rfl, hten ▸ hnearest⟩

/-- With seventeen digits the number read may be a neighbour of the nearest one: these digits name
the number that is written with sixteen, and the largest number is out of range when it is written
with seventeen. -/
example : ofDecimal false 31245270191439438 (-15) = ofDecimal false 3124527019143944 (-14) ∧
    ofDecimal false 17976931348623158 292 = none := by decide +kernel

end Binary64

/-! ### Numerals -/

namespace Numeral

/-- The digits before and behind the point, as one integer. -/
def digits (numeral : Numeral) : Nat :=
  Nat.ofDigitChars 10 (numeral.whole ++ numeral.fraction.getD []) 0

/-- The power of ten of the last digit. -/
def scale (numeral : Numeral) : Int :=
  numeral.exponent.getD 0 - (numeral.fraction.getD []).length

theorem le_ofDigitChars (text : List Char) (word : Nat) : word ≤ Nat.ofDigitChars 10 text word := by
  rw [Nat.ofDigitChars_eq_ofDigitChars_zero]
  have := Nat.le_mul_of_pos_left word (Nat.pow_pos (n := text.length) (show 0 < 10 by decide))
  omega

/-- Digits that fit the word are all read. -/
theorem absorb_of_lt {text : List Char} {word : Nat}
    (h : Nat.ofDigitChars 10 text word < unsignedBound) :
    absorb word text = (Nat.ofDigitChars 10 text word, []) := by
  induction text generalizing word with
  | nil => rfl
  | cons digit rest ih =>
      rw [Nat.ofDigitChars_cons] at h ⊢
      rw [absorb]
      have hnext := lt_of_le_of_lt (le_ofDigitChars rest _) h
      exact (if_pos hnext).trans (ih h)

/-- A numeral whose digits fit a word is held as a whole. -/
theorem held_of_lt {numeral : Numeral} (h : numeral.digits < unsignedBound) :
    numeral.held = ⟨numeral.digits, numeral.scale⟩ := by
  rw [digits, Nat.ofDigitChars_append] at h
  have hwhole := absorb_of_lt (lt_of_le_of_lt (le_ofDigitChars _ _) h)
  rw [held, hwhole]
  dsimp only
  rw [absorb_of_lt h, digits, Nat.ofDigitChars_append, scale]
  simp only [List.length_nil, Nat.cast_zero, add_zero, sub_zero]

/-- **A numeral with few digits and a small power of ten names a nearest number.** -/
theorem real?_nearest (numeral : Numeral) (hdigits : numeral.digits < pow2 53)
    (hscale : numeral.scale.natAbs ≤ 22) :
    ∃ x : Binary64, numeral.real? = some (.real x) ∧ x.negative = numeral.negative ∧
      x.Nearest (numeral.digits * 10 ^ numeral.scale) := by
  obtain ⟨x, hx, hsign, hnearest⟩ :=
    Binary64.ofDecimal_nearest numeral.negative hdigits hscale
  refine ⟨x, ?_, hsign, hnearest⟩
  rw [real?, held_of_lt (hdigits.trans (by decide)), hx, Option.map_some]

end Numeral

end StoreSchema
