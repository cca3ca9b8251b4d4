import CubeQuery.Number.Decimal
import Mathlib

/-!
Floating-point numbers and their bits. A number is stored as its bits, except that all bits which
stand for no number are stored as one and the same; bits of finite numbers are therefore kept.
-/

namespace CubeQuery.Number

open Float.Model Float.Model.UnpackedFloat

theorem toNat_unpackExponent (b : UInt64) :
    (@unpackExponent Format.binary64 b.toBitVec).toNat = b.toNat / 2 ^ 52 % 2 ^ 11 := by
  unfold unpackExponent
  rw [BitVec.toNat_cast, BitVec.extractLsb_toNat, Nat.shiftRight_eq_div_pow]
  rfl

theorem unpackExponent_ne {b : UInt64} (h : b.toNat / 2 ^ 52 % 2 ^ 11 ≠ 2047) :
    @unpackExponent Format.binary64 b.toBitVec ≠ -1#_ := by
  intro heq
  rw [← toNat_unpackExponent, heq] at h
  exact h (by decide)

theorem toBits_ofBits {b : UInt64} (h : b.toNat / 2 ^ 52 % 2 ^ 11 ≠ 2047) :
    (Float.ofBits b).toBits = b := by
  have hnumber : ¬@isNaNBits Format.binary64 b.toBitVec = true := by
    intro hbits
    exact unpackExponent_ne h (of_decide_eq_true hbits).1
  show UInt64.ofBitVec _ = b
  rw [pack_unpack, if_neg hnumber]

theorem isFinite_ofBits {b : UInt64} (h : b.toNat / 2 ^ 52 % 2 ^ 11 ≠ 2047) :
    (Float.ofBits b).isFinite = true := by
  have hbits : (Float.ofBits b).toModel.toBits = b := toBits_ofBits h
  show (UnpackedFloat.unpack Format.binary64
    (Float.ofBits b).toModel.toBits.toBitVec).isFinite = true
  rw [hbits]
  unfold UnpackedFloat.unpack
  dsimp only
  rw [if_neg (unpackExponent_ne h)]
  split
  · split <;> rfl
  · rfl

theorem isFinite_infinity : (Float.ofBits (UInt64.ofNat infinityBits)).isFinite = false := by
  decide

/-- The finite numbers without a sign, which are those that a query can write. -/
def Unsigned (x : Float) : Prop :=
  ∃ b < infinityBits, x = Float.ofBits (UInt64.ofNat b)

section Unsigned

variable {b : Nat}

theorem exponent_lt (hb : b < infinityBits) : b / 2 ^ 52 < 2047 := by
  rw [infinityBits] at hb
  exact (Nat.div_lt_iff_lt_mul (by decide)).2 (by simpa using hb)

theorem toNat_ofNat (hb : b ≤ infinityBits) : (UInt64.ofNat b).toNat = b := by
  have hsize : infinityBits < 2 ^ 64 := by decide
  rw [UInt64.toNat_ofNat', Nat.mod_eq_of_lt (by omega)]

theorem toBits_unsigned (hb : b < infinityBits) :
    (Float.ofBits (UInt64.ofNat b)).toBits.toNat = b := by
  have hexponent := exponent_lt hb
  rw [toBits_ofBits, toNat_ofNat (Nat.le_of_lt hb)]
  rw [toNat_ofNat (Nat.le_of_lt hb)]
  omega

theorem reading_unsigned (hb : b < infinityBits) :
    reading (Float.ofBits (UInt64.ofNat b)) = readBits b := by
  rw [reading, toBits_unsigned hb]

/-- Of the bits up to infinity, all others are finite. -/
theorem isFinite_iff (hb : b ≤ infinityBits) :
    (Float.ofBits (UInt64.ofNat b)).isFinite = true ↔ b < infinityBits := by
  constructor
  · intro hfinite
    rcases Nat.lt_or_eq_of_le hb with hlt | rfl
    · exact hlt
    · rw [isFinite_infinity] at hfinite
      cases hfinite
  · intro hlt
    have hexponent := exponent_lt hlt
    apply isFinite_ofBits
    rw [toNat_ofNat hb]
    omega

end Unsigned

end CubeQuery.Number
