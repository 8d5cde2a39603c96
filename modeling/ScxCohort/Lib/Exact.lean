import ScxCohort.Lib.Signed

/-!
This module contains when the arithmetic of 64-bit words is the one of the integers: exactly when the
exact result is in range.
-/

namespace UInt64

variable {a b : UInt64}

theorem toNat_mul_eq_iff : (a * b).toNat = a.toNat * b.toNat ↔ a.toNat * b.toNat < 2 ^ 64 := by
  rw [UInt64.toNat_mul]
  constructor
  . intro h
    rw [← h]
    exact Nat.mod_lt _ (by decide)
  . exact Nat.mod_eq_of_lt

-- A product that wraps loses more than a percentage can hide.
theorem toNat_percent_eq_iff
    : (a * b / 100).toNat = a.toNat * b.toNat / 100 ↔ a.toNat * b.toNat < 2 ^ 64 := by
  have hhundred : (100 : UInt64).toNat = 100 := rfl
  rw [UInt64.toNat_div, UInt64.toNat_mul, hhundred]
  generalize a.toNat * b.toNat = x
  have hmod := Nat.div_add_mod x (2 ^ 64)
  have hlt := Nat.mod_lt x (show 0 < 2 ^ 64 by decide)
  constructor
  . intro h
    omega
  . intro h
    rw [Nat.mod_eq_of_lt h]

end UInt64

namespace Int64

variable {a b : UInt64}

theorem toInt_toInt64_bmod (a : UInt64) : a.toInt64.toInt = (a.toNat : Int).bmod (2 ^ 64) := by
  have hd : a.toInt64.toInt = a.toBitVec.toInt := rfl
  rw [hd, BitVec.toInt_eq_toNat_bmod]
  rfl

theorem toInt_sub_double_eq_iff
    : (a.toInt64 - 2 * b.toInt64).toInt = (a.toNat : Int) - 2 * b.toNat
        ↔
      - 2 ^ 63 ≤ (a.toNat : Int) - 2 * b.toNat ∧ (a.toNat : Int) - 2 * b.toNat < 2 ^ 63 := by
  have htwo : (2 : Int64).toInt = 2 := rfl
  have hbmod : (a.toInt64 - 2 * b.toInt64).toInt = ((a.toNat : Int) - 2 * b.toNat).bmod (2 ^ 64) := by
    rw [toInt_sub, toInt_mul, toInt_toInt64_bmod, toInt_toInt64_bmod, htwo, Int.mul_bmod_bmod,
      Int.sub_bmod_bmod,
      Int.bmod_sub_bmod]
  rw [hbmod]
  generalize (a.toNat : Int) - 2 * b.toNat = x
  constructor
  . intro h
    have hle := Int.le_bmod (x := x) (m := 2 ^ 64) (by decide)
    have hlt := Int.bmod_lt (x := x) (m := 2 ^ 64) (by decide)
    omega
  . intro h
    apply Int.bmod_eq_of_le
    . omega
    . omega

end Int64
