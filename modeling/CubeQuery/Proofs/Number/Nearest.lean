import CubeQuery.Number.Shortest
import CubeQuery.Proofs.Number.Bits
import Mathlib.Data.Int.Log
import Mathlib.Data.Rat.Floor
import Mathlib.Tactic.Linarith
import Mathlib.Tactic.Ring

/-!
The number nearest to a quotient. It depends on the value of the quotient alone, it is the number
itself for the quotient that a number stands for, and far outside the range of finite numbers it is
infinity or zero.
-/

namespace CubeQuery.Number

variable {num den : Nat}

/-! ### Binary logarithms of quotients -/

theorem le_quotient_iff (hden : 0 < den) (k : Int) :
    den * Nat.pow 2 k.toNat ≤ num * Nat.pow 2 (-k).toNat ↔ (2 : ℚ) ^ k ≤ num / den := by
  have hpos : (0 : ℚ) < den := by exact_mod_cast hden
  rw [le_div_iff₀ hpos, Nat.pow_eq, Nat.pow_eq]
  rcases Int.le_total 0 k with hk | hk
  · obtain ⟨n, rfl⟩ := Int.eq_ofNat_of_zero_le hk
    have hneg : (-(n : Int)).toNat = 0 := by omega
    rw [hneg, pow_zero, mul_one, Int.toNat_natCast, zpow_natCast, mul_comm]
    norm_cast
  · obtain ⟨n, hn⟩ := Int.eq_ofNat_of_zero_le (Int.neg_nonneg_of_nonpos hk)
    obtain rfl : k = -(n : Int) := by omega
    have hneg : (-(n : Int)).toNat = 0 := by omega
    rw [hneg, pow_zero, mul_one, neg_neg, Int.toNat_natCast, zpow_neg, zpow_natCast,
      inv_mul_le_iff₀ (by positivity), mul_comm]
    norm_cast

theorem floorLog_eq (hnum : 0 < num) (hden : 0 < den) :
    floorLog num den = Int.log 2 (num / den : ℚ) := by
  have hn : (0 : ℚ) < num := by exact_mod_cast hnum
  have hd : (0 : ℚ) < den := by exact_mod_cast hden
  have hq : (0 : ℚ) < num / den := div_pos hn hd
  have hnlow : (2 : ℚ) ^ num.log2 ≤ num := by exact_mod_cast Nat.log2_self_le hnum.ne'
  have hnhigh : (num : ℚ) < 2 ^ (num.log2 + 1) := by exact_mod_cast Nat.lt_log2_self
  have hdlow : (2 : ℚ) ^ den.log2 ≤ den := by exact_mod_cast Nat.log2_self_le hden.ne'
  have hdhigh : (den : ℚ) < 2 ^ (den.log2 + 1) := by exact_mod_cast Nat.lt_log2_self
  have hhigh : (num / den : ℚ) < (2 : ℕ) ^ ((num.log2 : Int) - den.log2 + 1) := by
    have hpow : ((2 : ℕ) : ℚ) ^ ((num.log2 : Int) - den.log2 + 1) =
        2 ^ (num.log2 + 1) / 2 ^ den.log2 := by
      rw [← zpow_natCast, ← zpow_natCast, ← zpow_sub₀ (by norm_num)]
      congr 1
      omega
    rw [hpow, div_lt_div_iff₀ hd (by positivity)]
    calc (num : ℚ) * 2 ^ den.log2 < 2 ^ (num.log2 + 1) * 2 ^ den.log2 := by gcongr
      _ ≤ 2 ^ (num.log2 + 1) * den := by gcongr
  have hlow : ((2 : ℕ) : ℚ) ^ ((num.log2 : Int) - den.log2 - 1) ≤ num / den := by
    have hpow : ((2 : ℕ) : ℚ) ^ ((num.log2 : Int) - den.log2 - 1) =
        2 ^ num.log2 / 2 ^ (den.log2 + 1) := by
      rw [← zpow_natCast, ← zpow_natCast, ← zpow_sub₀ (by norm_num)]
      congr 1
      omega
    rw [hpow, div_le_div_iff₀ (by positivity) hd]
    calc (2 : ℚ) ^ num.log2 * den ≤ 2 ^ num.log2 * 2 ^ (den.log2 + 1) := by gcongr
      _ ≤ num * 2 ^ (den.log2 + 1) := by gcongr
  -- The two lengths tell the logarithm up to one, and one comparison tells which.
  have h₁ := (Int.lt_zpow_iff_log_lt (by decide) hq).1 hhigh
  have h₂ := (Int.zpow_le_iff_le_log (by decide) hq).1 hlow
  unfold floorLog
  dsimp only
  split
  · rename_i hle
    have h₃ := (Int.zpow_le_iff_le_log (b := 2) (by decide) hq).1 ((le_quotient_iff hden _).1 hle)
    omega
  · rename_i hlt
    have h₃ := fun hle => hlt ((le_quotient_iff hden _).2 hle)
    have h₄ := mt (Int.zpow_le_iff_le_log (b := 2) (by decide) hq).2 h₃
    omega

/-! ### Only the value counts -/

theorem nearestBits_zero : nearestBits 0 den = 0 :=
  if_pos rfl

theorem roundDiv_scale {c : Nat} (hc : 0 < c) :
    roundDiv (c * num) (c * den) = roundDiv num den := by
  unfold roundDiv
  dsimp only
  rw [Nat.mul_div_mul_left _ _ hc, Nat.mul_mod_mul_left]
  have hless : c * den < 2 * (c * (num % den)) ↔ den < 2 * (num % den) := by
    rw [Nat.mul_left_comm, Nat.mul_lt_mul_left hc]
  have hequal : 2 * (c * (num % den)) = c * den ↔ 2 * (num % den) = den := by
    rw [Nat.mul_left_comm, Nat.mul_right_inj hc.ne']
  simp only [hless, hequal]

theorem nearestBits_scale {c : Nat} (hc : 0 < c) (hden : 0 < den) :
    nearestBits (c * num) (c * den) = nearestBits num den := by
  unfold nearestBits
  by_cases hnum : num = 0
  · simp [hnum]
  · have hpos := Nat.pos_of_ne_zero hnum
    have hlog : floorLog (c * num) (c * den) = floorLog num den := by
      rw [floorLog_eq (Nat.mul_pos hc hpos) (Nat.mul_pos hc hden), floorLog_eq hpos hden]
      congr 1
      push_cast
      exact mul_div_mul_left _ _ (by exact_mod_cast hc.ne')
    rw [if_neg hnum, if_neg (Nat.mul_ne_zero hc.ne' hnum), hlog]
    dsimp only
    rw [Nat.mul_assoc, Nat.mul_assoc, roundDiv_scale hc]

theorem nearestBits_congr {num' den' : Nat} (hden : 0 < den) (hden' : 0 < den')
    (h : num * den' = num' * den) : nearestBits num den = nearestBits num' den' := by
  rw [← nearestBits_scale hden' hden, ← nearestBits_scale hden hden', Nat.mul_comm den' num, h,
    Nat.mul_comm num' den, Nat.mul_comm den' den]

/-! ### Out of range -/

theorem le_floorLog_iff (hnum : 0 < num) (hden : 0 < den) (k : Int) :
    k ≤ floorLog num den ↔ den * Nat.pow 2 k.toNat ≤ num * Nat.pow 2 (-k).toNat := by
  have hq : (0 : ℚ) < num / den := div_pos (by exact_mod_cast hnum) (by exact_mod_cast hden)
  rw [le_quotient_iff hden, floorLog_eq hnum hden]
  exact (Int.zpow_le_iff_le_log (b := 2) (by decide) hq).symm

theorem nearestBits_large (hden : 0 < den) (h : den * 2 ^ 1024 ≤ num) :
    nearestBits num den = infinityBits := by
  have hnum : 0 < num := Nat.lt_of_lt_of_le (by positivity) h
  have hlog : 1024 ≤ floorLog num den := by
    rw [le_floorLog_iff hnum hden]
    exact h.trans (Nat.le_mul_of_pos_right num (by decide))
  have hfits := (le_floorLog_iff hnum hden _).1 (le_refl (floorLog num den))
  obtain ⟨k, hk⟩ : ∃ k : Nat, floorLog num den = k + 52 := ⟨(floorLog num den - 52).toNat, by omega⟩
  unfold nearestBits
  rw [if_neg hnum.ne', hk]
  dsimp only
  have hmax : max ((k : Int) + 52 - 52) (-1074) = k := by omega
  have hneg : (-(k : Int)).toNat = 0 := by omega
  rw [hmax, hneg, Int.toNat_natCast]
  -- A number this large has a full significand, so that the bits are beyond the largest number.
  have hsignificand : 2 ^ 52 ≤ roundDiv (num * Nat.pow 2 0) (den * Nat.pow 2 k) := by
    refine le_trans ?_ (le_roundDiv _ _)
    have hpos : 0 < Nat.pow 2 k := Nat.pow_pos (by decide)
    rw [Nat.le_div_iff_mul_le (Nat.mul_pos hden hpos)]
    rw [hk, show ((k : Int) + 52).toNat = k + 52 from by omega,
      show (-((k : Int) + 52)).toNat = 0 from by omega] at hfits
    calc 2 ^ 52 * (den * Nat.pow 2 k) = den * Nat.pow 2 (k + 52) := by
          simp only [Nat.pow_eq, pow_add]
          ring
      _ ≤ num * Nat.pow 2 0 := hfits
  have hexponent : 2046 ≤ ((k : Int) + 1074).toNat := by omega
  have hscaled : 2046 * Nat.pow 2 52 ≤ ((k : Int) + 1074).toNat * Nat.pow 2 52 :=
    Nat.mul_le_mul_right _ hexponent
  refine min_eq_right ?_
  calc infinityBits = 2046 * Nat.pow 2 52 + 2 ^ 52 := by decide
    _ ≤ _ := Nat.add_le_add hscaled hsignificand

theorem nearestBits_small (hden : 0 < den) (h : num * 2 ^ 1076 ≤ den) :
    nearestBits num den = 0 := by
  unfold nearestBits
  split
  · rfl
  · rename_i hne
    have hnum := Nat.pos_of_ne_zero hne
    have hdouble : num * 2 ^ 1076 = 2 * (2 * (num * 2 ^ 1074)) := by
      rw [pow_succ _ 1075, pow_succ _ 1074]
      ring
    have hpos : 0 < num * 2 ^ 1074 := by positivity
    have hlog : floorLog num den < -1075 := by
      by_contra hge
      have hle := (le_floorLog_iff hnum hden (-1075)).1 (by omega)
      have hle : den * 1 ≤ num * 2 ^ (1074 + 1) := hle
      rw [pow_succ] at hle
      omega
    have hround : roundDiv (num * 2 ^ 1074) (den * 1) = 0 := by
      unfold roundDiv
      dsimp only
      rw [Nat.div_eq_of_lt (by omega), Nat.mod_eq_of_lt (by omega), if_neg (by omega)]
    have hneg : (-(-1074 : Int)).toNat = 1074 := rfl
    have hzero : (-1074 : Int).toNat = 0 := rfl
    have hsum : ((-1074 : Int) + 1074).toNat = 0 := rfl
    dsimp only
    rw [max_eq_right (by omega), hneg, hzero, hsum, show Nat.pow 2 1074 = 2 ^ 1074 from Nat.pow_eq,
      show Nat.pow 2 0 = 1 from rfl, hround, Nat.zero_mul]
    rfl

/-! ### Numbers read back -/

theorem roundDiv_mul (n : Nat) {c : Nat} (hc : 0 < c) : roundDiv (n * c) c = n := by
  rw [roundDiv_of_dvd hc (Nat.dvd_mul_left c n), Nat.mul_div_cancel n hc]

namespace Magnitude

theorem den_pos (x : Magnitude) : 0 < x.den :=
  Nat.pow_pos (by decide)

theorem quotient (x : Magnitude) : (x.num / x.den : ℚ) = x.significand * 2 ^ x.exponent := by
  unfold num den
  rw [Nat.pow_eq, Nat.pow_eq]
  rcases Int.le_total 0 x.exponent with hk | hk
  · obtain ⟨n, hn⟩ := Int.eq_ofNat_of_zero_le hk
    have hneg : (-(n : Int)).toNat = 0 := by omega
    rw [hn, hneg, Int.toNat_natCast, zpow_natCast]
    simp
  · obtain ⟨n, hn⟩ := Int.eq_ofNat_of_zero_le (Int.neg_nonneg_of_nonpos hk)
    have heq : x.exponent = -(n : Int) := by omega
    have hneg : (-(n : Int)).toNat = 0 := by omega
    rw [heq, hneg, neg_neg, Int.toNat_natCast, zpow_neg, zpow_natCast]
    simp [div_eq_mul_inv]

/-- A magnitude that fits its exponent is not rounded. -/
theorem bits_eq {x : Magnitude} (hhigh : x.significand < 2 ^ 53) (hleast : -1074 ≤ x.exponent)
    (hnormal : 2 ^ 52 ≤ x.significand ∨ x.exponent = -1074)
    (hfinite : (x.exponent + 1074).toNat * Nat.pow 2 52 + x.significand ≤ infinityBits) :
    x.bits = (x.exponent + 1074).toNat * Nat.pow 2 52 + x.significand := by
  have htwo : 0 < Nat.pow 2 x.exponent.toNat := Nat.pow_pos (by decide)
  unfold bits nearestBits
  split
  · rename_i hzero
    have hsignificand : x.significand = 0 := (Nat.mul_eq_zero.1 hzero).resolve_right htwo.ne'
    have hexponent : x.exponent = -1074 := hnormal.resolve_left (by omega)
    rw [hsignificand, hexponent]
    rfl
  · rename_i hne
    have hpos : 0 < x.significand :=
      Nat.pos_of_ne_zero fun h => hne (by rw [num, h, Nat.zero_mul])
    have hpow : (0 : ℚ) < 2 ^ x.exponent := zpow_pos (by norm_num) _
    have hq : (0 : ℚ) < x.significand * 2 ^ x.exponent := mul_pos (by exact_mod_cast hpos) hpow
    have hlog : floorLog x.num x.den = Int.log 2 (x.significand * 2 ^ x.exponent : ℚ) := by
      rw [floorLog_eq (Nat.pos_of_ne_zero hne) x.den_pos, quotient]
    have hbelow : floorLog x.num x.den < x.exponent + 53 := by
      rw [hlog, ← Int.lt_zpow_iff_log_lt (by decide) hq, add_comm, Nat.cast_ofNat,
        zpow_add₀ (by norm_num)]
      exact mul_lt_mul_of_pos_right (by exact_mod_cast hhigh) hpow
    -- The rounding takes the exponent that the magnitude has.
    have hexponent : max (floorLog x.num x.den - 52) (-1074) = x.exponent := by
      rcases hnormal with hlow | hleast
      · have habove : x.exponent + 52 ≤ floorLog x.num x.den := by
          rw [hlog, ← Int.zpow_le_iff_le_log (by decide) hq, add_comm, Nat.cast_ofNat,
            zpow_add₀ (by norm_num)]
          exact mul_le_mul_of_nonneg_right (by exact_mod_cast hlow) hpow.le
        omega
      · omega
    have hround : roundDiv (x.num * Nat.pow 2 (-x.exponent).toNat)
        (x.den * Nat.pow 2 x.exponent.toNat) = x.significand := by
      rw [num, den, Nat.mul_assoc, Nat.mul_comm (Nat.pow 2 (-x.exponent).toNat)]
      exact roundDiv_mul _ (Nat.mul_pos htwo (Nat.pow_pos (by decide)))
    dsimp only
    rw [hexponent, hround]
    exact min_eq_left hfinite

end Magnitude

/-- The magnitude that the bits of an unsigned number give. -/
def magnitudeOf (b : Nat) : Magnitude :=
  if b / 2 ^ 52 = 0 then ⟨b % 2 ^ 52, -1074⟩
  else ⟨2 ^ 52 + b % 2 ^ 52, (b / 2 ^ 52 : Nat) - 1075⟩

theorem readBits_eq {b : Nat} (hb : b < infinityBits) :
    readBits b = .finite false (magnitudeOf b) := by
  have hexponent := exponent_lt hb
  have hwidth : Nat.pow 2 52 = 2 ^ 52 := rfl
  have hfield : b / 2 ^ 52 % Nat.pow 2 11 = b / 2 ^ 52 :=
    Nat.mod_eq_of_lt (lt_trans hexponent (by decide))
  have hsign : (b / Nat.pow 2 63 % 2 == 1) = false := by
    rw [Nat.div_eq_of_lt (lt_trans hb (by decide))]
    rfl
  unfold readBits magnitudeOf
  dsimp only
  rw [hsign, hwidth, hfield, if_neg (by omega)]
  split <;> rfl

/-- The number nearest to what its bits give is the number itself. -/
theorem bits_magnitudeOf {b : Nat} (hb : b < infinityBits) : (magnitudeOf b).bits = b := by
  have hsplit := Nat.div_add_mod b (2 ^ 52)
  have hfraction := Nat.mod_lt b (show 0 < 2 ^ 52 by decide)
  unfold magnitudeOf
  split
  · rename_i hzero
    have hleast : ((-1074 : Int) + 1074).toNat * Nat.pow 2 52 + b % 2 ^ 52 = b := by
      have hnone : ((-1074 : Int) + 1074).toNat = 0 := rfl
      rw [hnone, Nat.zero_mul, Nat.zero_add]
      omega
    have hhigh : b % 2 ^ 52 < 2 ^ 53 := by omega
    let x : Magnitude := ⟨b % 2 ^ 52, -1074⟩
    have hbits := Magnitude.bits_eq (x := x) hhigh (le_refl _) (.inr rfl) (hleast.trans_le hb.le)
    exact hbits.trans hleast
  · rename_i hpos
    have hsum : ((b / 2 ^ 52 : Nat) - 1075 + 1074 : Int).toNat * Nat.pow 2 52 +
        (2 ^ 52 + b % 2 ^ 52) = b := by
      have hfield : ((b / 2 ^ 52 : Nat) - 1075 + 1074 : Int).toNat = b / 2 ^ 52 - 1 := by omega
      have hwidth : Nat.pow 2 52 = 2 ^ 52 := rfl
      rw [hfield, hwidth]
      omega
    have hhigh : 2 ^ 52 + b % 2 ^ 52 < 2 ^ 53 := by omega
    have hleast : (-1074 : Int) ≤ (b / 2 ^ 52 : Nat) - 1075 := by omega
    let x : Magnitude := ⟨2 ^ 52 + b % 2 ^ 52, (b / 2 ^ 52 : Nat) - 1075⟩
    have hbits := Magnitude.bits_eq (x := x) hhigh hleast (.inl (Nat.le_add_right _ _))
      (hsum.trans_le hb.le)
    exact hbits.trans hsum

end CubeQuery.Number
