import Mathlib.Data.UInt

/-!
This module contains the signed reading of 64-bit words and the magnitude of a signed difference.
-/

namespace Int64

def unsignedAbs (x : Int64) : UInt64 := if x < 0 then (-x).toUInt64 else x.toUInt64

theorem toInt_toInt64 {x : UInt64} (h : x.toNat < 2 ^ 63) : x.toInt64.toInt = x.toNat := by
  have hd : x.toInt64.toInt = x.toBitVec.toInt := rfl
  have hx : x.toBitVec.toNat = x.toNat := rfl
  rw [hd, BitVec.toInt_eq_toNat_cond, hx]
  split <;> omega

theorem toNat_toUInt64 {x : Int64} (h : 0 ≤ x.toInt) : (x.toUInt64.toNat : Int) = x.toInt := by
  have hd : x.toInt = x.toBitVec.toInt := rfl
  have hx : x.toUInt64.toNat = x.toBitVec.toNat := rfl
  rw [hd, BitVec.toInt_eq_toNat_cond] at h ⊢
  rw [hx]
  have := x.toBitVec.isLt
  split at h
  . next hlt => rw [if_pos hlt]
  . omega

theorem toNat_unsignedAbs {x : Int64} (h : - 2 ^ 63 < x.toInt)
    : x.unsignedAbs.toNat = x.toInt.natAbs := by
  have := x.toInt_lt
  unfold unsignedAbs
  split
  . next hneg =>
    rw [lt_iff_toInt_lt, toInt_zero] at hneg
    have hn : (-x).toInt = - x.toInt := by
      rw [toInt_neg]
      apply Int.bmod_eq_of_le <;> omega
    have := toNat_toUInt64 (x := -x) (by omega)
    omega
  . next hpos =>
    rw [lt_iff_toInt_lt, toInt_zero] at hpos
    have := toNat_toUInt64 (x := x) (by omega)
    omega

-- Below a quarter of the range, `a - 2 * b` does not overflow.
theorem toNat_unsignedAbs_sub_double {a b : UInt64} (ha : a.toNat < 2 ^ 62) (hb : b.toNat < 2 ^ 62)
    : (a.toInt64 - 2 * b.toInt64).unsignedAbs.toNat = ((a.toNat : Int) - 2 * b.toNat).natAbs := by
  have hmul : (2 * b.toInt64).toInt = 2 * b.toNat := by
    have htwo : (2 : Int64).toInt = 2 := rfl
    rw [toInt_mul, toInt_toInt64 (by omega), htwo]
    apply Int.bmod_eq_of_le <;> omega
  have hsub : (a.toInt64 - 2 * b.toInt64).toInt = (a.toNat : Int) - 2 * b.toNat := by
    rw [toInt_sub, hmul, toInt_toInt64 (by omega)]
    apply Int.bmod_eq_of_le <;> omega
  rw [toNat_unsignedAbs, hsub]
  omega

end Int64
