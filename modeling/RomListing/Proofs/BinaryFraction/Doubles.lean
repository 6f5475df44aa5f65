import Mathlib.Algebra.Order.Field.Power
import Mathlib.Data.Int.Log
import Mathlib.Data.Rat.Floor
import Mathlib.Tactic.Linarith
import Mathlib.Tactic.Positivity
import Mathlib.Tactic.Ring
import RomListing.Decimal.Nearest
import RomListing.Decimal.Shortest

/-! # Numbers that are doubles

A binary fraction of at most 53 digits in the normal range is a double. Its bits can be read back
without loss, and they are what rounding the number to the nearest double gives.
-/

namespace RomListing

namespace BinaryFraction

def toRat (x : BinaryFraction) : ℚ :=
  (if x.negative then -1 else 1) * (x.mantissa * 2 ^ x.exponent)

def leading (x : BinaryFraction) : Int := x.exponent + x.mantissa.log2

def significand (x : BinaryFraction) : Nat := x.mantissa * 2 ^ (52 - x.mantissa.log2)

/-- The number has no more digits than a double and is none of the small doubles that have fewer. -/
structure IsNormal (x : BinaryFraction) : Prop where
  pos : 0 < x.mantissa
  short : x.mantissa < 2 ^ 53
  low : -1022 ≤ x.leading
  high : x.leading ≤ 1023

variable {x : BinaryFraction}

theorem IsNormal.log2_le (h : x.IsNormal) : x.mantissa.log2 ≤ 52 :=
  Nat.le_of_lt_succ ((Nat.log2_lt h.pos.ne').2 h.short)

theorem IsNormal.le_significand (h : x.IsNormal) : 2 ^ 52 ≤ x.significand :=
  calc 2 ^ 52 = 2 ^ x.mantissa.log2 * 2 ^ (52 - x.mantissa.log2) := by
        rw [← Nat.pow_add, Nat.add_sub_of_le h.log2_le]
    _ ≤ x.significand := Nat.mul_le_mul_right _ (Nat.log2_self_le h.pos.ne')

theorem IsNormal.significand_lt (h : x.IsNormal) : x.significand < 2 ^ 53 :=
  calc x.significand < 2 ^ (x.mantissa.log2 + 1) * 2 ^ (52 - x.mantissa.log2) :=
        Nat.mul_lt_mul_of_pos_right Nat.lt_log2_self (by positivity)
    _ = 2 ^ 53 := by
        rw [← Nat.pow_add]
        have := h.log2_le
        congr 1
        omega

theorem IsNormal.significand_scaled (h : x.IsNormal) :
    (x.significand : ℚ) * 2 ^ (x.leading - 52) = x.mantissa * 2 ^ x.exponent := by
  have hexponent : x.exponent = ((52 - x.mantissa.log2 : Nat) : Int) + (x.leading - 52) := by
    have := h.log2_le
    unfold leading
    omega
  rw [hexponent, zpow_add₀ two_ne_zero, zpow_natCast, significand, Nat.cast_mul, Nat.cast_pow,
    Nat.cast_ofNat, mul_assoc]

/-- The bits are the sign, the exponent and the digits behind the first one. -/
theorem IsNormal.doubleBits_eq (h : x.IsNormal) :
    x.doubleBits = (if x.negative then 2 ^ 63 else 0) +
      ((x.leading + 1022).toNat * 2 ^ 52 + x.significand) := by
  have hbiased : (x.leading + 1023).toNat = (x.leading + 1022).toNat + 1 := by
    have := h.low
    omega
  have hle := h.le_significand
  have hbits : x.doubleBits = (if x.negative then 2 ^ 63 else 0) +
      (x.leading + 1023).toNat * 2 ^ 52 + (x.significand - 2 ^ 52) := by
    simp only [doubleBits, Nat.pow_eq, if_neg h.pos.ne']
    rfl
  rw [hbits, hbiased]
  omega

end BinaryFraction

namespace Double

open BinaryFraction

/-- The number of a double; infinities are none. -/
def number? (bits : Nat) : Option ℚ :=
  if bits < 2 ^ 64 ∧ bits / 2 ^ 52 % 2 ^ 11 ≠ 2047 then some (ofDouble bits.toUInt64).toRat
  else none

/-- The bits of the double nearest to a number. Zero is positive. -/
def nearest (x : ℚ) : Nat :=
  (if x < 0 then 2 ^ 63 else 0) + Decimal.nearestBits x.num.natAbs x.den

theorem number?_zero : number? 0 = some 0 := by
  have hzero : ofDouble (Nat.toUInt64 0) = ⟨false, 0, -1074⟩ := by decide
  unfold number?
  rw [if_pos (by decide), hzero]
  simp [toRat]

theorem nearest_zero : nearest 0 = 0 := rfl

/-- A normal number is read back from its bits. -/
theorem number?_doubleBits {x : BinaryFraction} (h : x.IsNormal) :
    number? x.doubleBits = some x.toRat := by
  have hle := h.le_significand
  have hlt := h.significand_lt
  have hlow := h.low
  have hhigh := h.high
  have hbits := h.doubleBits_eq
  have hfit : x.doubleBits < 2 ^ 64 ∧ x.doubleBits / 2 ^ 52 % 2 ^ 11 ≠ 2047 := by
    split at hbits <;> omega
  have hread : ofDouble x.doubleBits.toUInt64 =
      ⟨x.negative, x.significand, x.leading - 52⟩ := by
    have hword : x.doubleBits.toUInt64.toNat = x.doubleBits := Nat.mod_eq_of_lt hfit.1
    have hbiased : (x.doubleBits / 2 ^ 52 % 2 ^ 11 : Nat) = (x.leading + 1023 : Int) := by
      split at hbits <;> omega
    have hpart : x.doubleBits % 2 ^ 52 + 2 ^ 52 = x.significand := by
      split at hbits <;> omega
    have hsign : decide (2 ^ 63 ≤ x.doubleBits) = x.negative := by
      cases hneg : x.negative <;> rw [hneg] at hbits <;> simp at hbits ⊢ <;> omega
    have hnormal : x.doubleBits / 2 ^ 52 % 2 ^ 11 ≠ 0 := by omega
    simp only [ofDouble, Nat.pow_eq, hword]
    rw [if_neg hnormal, hsign, hpart, hbiased]
    congr 1
    omega
  rw [number?, if_pos hfit, hread]
  refine congrArg some ?_
  unfold toRat
  rw [h.significand_scaled]

end Double

/-! ## Rounding -/

theorem BinaryFraction.roundHalfEven_mul (n : Nat) {den : Nat} (h : 0 < den) :
    roundHalfEven (n * den) den = n := by
  simp [roundHalfEven, Nat.mul_div_cancel n h, h]

namespace Decimal

theorem two_zpow_eq (e : Int) : (2 : ℚ) ^ e = 2 ^ e.toNat / 2 ^ (-e).toNat := by
  have hparts : e = (e.toNat : Int) - ((-e).toNat : Int) := by omega
  conv_lhs => rw [hparts]
  rw [zpow_sub₀ two_ne_zero, zpow_natCast, zpow_natCast]

theorem two_pow_mul_zpow (n : Nat) (e : Int) : (2 : ℚ) ^ n * 2 ^ e = 2 ^ (n + e) := by
  rw [zpow_add₀ two_ne_zero, zpow_natCast]

/-- `2 ^ e` is at most a quotient, without fractions. -/
theorem two_zpow_le_div_iff (e : Int) (num : Nat) {den : Nat} (hd : 0 < den) :
    (2 : ℚ) ^ e ≤ num / den ↔ den * 2 ^ e.toNat ≤ num * 2 ^ (-e).toNat := by
  have hd : (0 : ℚ) < den := by exact_mod_cast hd
  rw [two_zpow_eq, div_le_div_iff₀ (by positivity) hd, mul_comm (2 ^ e.toNat) (den : ℚ)]
  exact_mod_cast Iff.rfl

theorem log_eq {r : ℚ} (hr : 0 < r) {e : Int} (hle : (2 : ℚ) ^ e ≤ r) (hlt : r < 2 ^ (e + 1)) :
    Int.log 2 r = e := by
  have hlow := (Int.zpow_le_iff_le_log (b := 2) (by decide) hr).1 (by exact_mod_cast hle)
  have hhigh := (Int.lt_zpow_iff_log_lt (b := 2) (by decide) hr).1 (by exact_mod_cast hlt)
  omega

theorem floorLog2_eq {num den : Nat} (hn : 0 < num) (hd : 0 < den) :
    floorLog2 num den = Int.log 2 ((num : ℚ) / den) := by
  have hn' : (0 : ℚ) < num := by exact_mod_cast hn
  have hd' : (0 : ℚ) < den := by exact_mod_cast hd
  have hnum : (2 : ℚ) ^ num.log2 ≤ num ∧ (num : ℚ) < 2 ^ (num.log2 + 1) := by
    exact_mod_cast And.intro (Nat.log2_self_le hn.ne') Nat.lt_log2_self
  have hden : (2 : ℚ) ^ den.log2 ≤ den ∧ (den : ℚ) < 2 ^ (den.log2 + 1) := by
    exact_mod_cast And.intro (Nat.log2_self_le hd.ne') Nat.lt_log2_self
  have hbelow : (2 : ℚ) ^ ((num.log2 : Int) - den.log2 - 1) ≤ num / den :=
    calc (2 : ℚ) ^ ((num.log2 : Int) - den.log2 - 1) = 2 ^ num.log2 / 2 ^ (den.log2 + 1) := by
          rw [sub_sub, zpow_sub₀ two_ne_zero, zpow_natCast]
          norm_cast
      _ ≤ num / den := div_le_div₀ hn'.le hnum.1 hd' hden.2.le
  have habove : (num : ℚ) / den < 2 ^ ((num.log2 : Int) - den.log2 + 1) :=
    calc (num : ℚ) / den < 2 ^ (num.log2 + 1) / 2 ^ den.log2 :=
          div_lt_div₀ hnum.2 hden.1 (by positivity) (by positivity)
      _ = 2 ^ ((num.log2 : Int) - den.log2 + 1) := by
          rw [sub_add_eq_add_sub, zpow_sub₀ two_ne_zero, zpow_natCast]
          norm_cast
  unfold floorLog2
  simp only [Nat.pow_eq]
  split
  · rename_i hle
    exact (log_eq (by positivity) ((two_zpow_le_div_iff _ num hd).2 hle) habove).symm
  · rename_i hle
    rw [← two_zpow_le_div_iff _ num hd, not_le] at hle
    exact (log_eq (by positivity) hbelow (by rwa [sub_add_cancel])).symm

open BinaryFraction

/-- The first digit of a double is where the logarithm finds it. -/
theorem floorLog2_of_isNormal {x : BinaryFraction} (h : x.IsNormal) {num den : Nat} (hn : 0 < num)
    (hd : 0 < den) (hvalue : (num : ℚ) / den = x.significand * 2 ^ (x.leading - 52)) :
    floorLog2 num den = x.leading := by
  have hn : (0 : ℚ) < num := by exact_mod_cast hn
  have hd' : (0 : ℚ) < den := by exact_mod_cast hd
  have hle : (2 : ℚ) ^ 52 ≤ x.significand := by exact_mod_cast h.le_significand
  have hlt : (x.significand : ℚ) < 2 ^ 53 := by exact_mod_cast h.significand_lt
  rw [floorLog2_eq (by exact_mod_cast hn) hd]
  refine log_eq (by positivity) ?_ ?_
  · calc (2 : ℚ) ^ x.leading = 2 ^ 52 * 2 ^ (x.leading - 52) := by
          rw [two_pow_mul_zpow, Nat.cast_ofNat, add_sub_cancel]
      _ ≤ num / den := by
          rw [hvalue]
          gcongr
  · calc (num : ℚ) / den < 2 ^ 53 * 2 ^ (x.leading - 52) := by
          rw [hvalue]
          gcongr
      _ = 2 ^ (x.leading + 1) := by
          rw [two_pow_mul_zpow]
          congr 1
          omega

/-- A quotient that is a whole number of powers of two, without fractions. -/
theorem mul_two_pow_eq_of_div_eq {num den n : Nat} {e : Int} (hd : 0 < den)
    (hvalue : (num : ℚ) / den = n * 2 ^ e) :
    num * 2 ^ (-e).toNat = n * (den * 2 ^ e.toNat) := by
  have hd : (0 : ℚ) < den := by exact_mod_cast hd
  rw [two_zpow_eq e, div_eq_iff hd.ne', mul_div_assoc', div_mul_eq_mul_div,
    eq_div_iff (by positivity)] at hvalue
  have hvalue : num * 2 ^ (-e).toNat = n * 2 ^ e.toNat * den := by exact_mod_cast hvalue
  rw [hvalue]
  ring

/-- A number that is a double is not rounded. -/
theorem nearestBits_eq {x : BinaryFraction} (h : x.IsNormal) {num den : Nat} (hd : 0 < den)
    (hvalue : (num : ℚ) / den = x.mantissa * 2 ^ x.exponent) :
    nearestBits num den = (x.leading + 1022).toNat * 2 ^ 52 + x.significand := by
  have hle := h.le_significand
  have hlt := h.significand_lt
  have hlow := h.low
  have hhigh := h.high
  rw [← h.significand_scaled] at hvalue
  have hscaled := mul_two_pow_eq_of_div_eq hd hvalue
  have hn : 0 < num := by
    refine Nat.pos_of_mul_pos_right (b := 2 ^ (-(x.leading - 52)).toNat) ?_
    rw [hscaled]
    exact Nat.mul_pos (by omega) (Nat.mul_pos hd (Nat.two_pow_pos _))
  have hlog : floorLog2 num den = x.leading := floorLog2_of_isNormal h hn hd hvalue
  have hplace : max (x.leading - 52) (-1074) = x.leading - 52 := by omega
  have hbiased : (x.leading - 52 + 1074).toNat = (x.leading + 1022).toNat := by
    congr 1
    omega
  have hbits : nearestBits num den =
      min (2047 * 2 ^ 52) ((x.leading + 1022).toNat * 2 ^ 52 + x.significand) := by
    simp only [nearestBits, infinityBits, Nat.pow_eq, if_neg hn.ne', hlog, hplace, hscaled, hbiased,
      roundHalfEven_mul x.significand (Nat.mul_pos hd (Nat.two_pow_pos _))]
  rw [hbits]
  refine Nat.min_eq_right ?_
  omega

end Decimal

namespace BinaryFraction

theorem IsNormal.magnitude_pos {x : BinaryFraction} (h : x.IsNormal) :
    (0 : ℚ) < x.mantissa * 2 ^ x.exponent := by
  have hm : (0 : ℚ) < x.mantissa := by exact_mod_cast h.pos
  positivity

theorem IsNormal.toRat_neg_iff {x : BinaryFraction} (h : x.IsNormal) :
    x.toRat < 0 ↔ x.negative = true := by
  have hpos := h.magnitude_pos
  unfold toRat
  cases x.negative with
  | true => simpa using hpos
  | false => simpa using hpos.le

theorem abs_toRat (x : BinaryFraction) : |x.toRat| = x.mantissa * 2 ^ x.exponent := by
  have hnonneg : (0 : ℚ) ≤ x.mantissa * 2 ^ x.exponent := by positivity
  unfold toRat
  split
  · rw [neg_one_mul, abs_neg, abs_of_nonneg hnonneg]
  · rw [one_mul, abs_of_nonneg hnonneg]

end BinaryFraction

theorem Double.nearest_toRat {x : BinaryFraction} (h : x.IsNormal) :
    nearest x.toRat = x.doubleBits := by
  have hvalue : (x.toRat.num.natAbs : ℚ) / x.toRat.den = x.mantissa * 2 ^ x.exponent := by
    rw [← x.abs_toRat, Nat.cast_natAbs, Int.cast_abs]
    conv_rhs => rw [← x.toRat.num_div_den]
    rw [abs_div, Nat.abs_cast]
  rw [h.doubleBits_eq, nearest, Decimal.nearestBits_eq h x.toRat.den_pos hvalue]
  simp only [h.toRat_neg_iff]

end RomListing
