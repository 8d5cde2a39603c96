import Mathlib.Data.UInt

/-!
This module contains serial number arithmetic on 64-bit words: `a` is before `b` when the way from `a`
up to `b`, around the end of the range if need be, is at most half of the range.
-/

namespace Serial

def before (a b : UInt64) : Bool := (a - b).toInt64 < 0

theorem before_iff {a b : UInt64} : before a b = true ↔ 2 ^ 63 ≤ (a - b).toNat := by
  unfold before
  rw [decide_eq_true_eq, Int64.lt_iff_toInt_lt, ← UInt64.toNat_toBitVec]
  generalize a - b = d
  have hd : d.toInt64.toInt = d.toBitVec.toInt := rfl
  rw [hd, BitVec.toInt_eq_toNat_cond]
  have := d.toBitVec.isLt
  simp only [Int64.toInt_zero]
  split <;> omega

@[simp]
theorem before_irrefl (a : UInt64) : before a a = false := by
  rw [Bool.eq_false_iff, ne_eq, before_iff, UInt64.sub_self]
  decide

-- The order only looks at differences, so it is invariant under a common shift.
theorem before_congr {a b c d : UInt64} (h : a - b = c - d) : before a b = before c d := by
  unfold before
  rw [h]

-- Both directions hold of two points exactly half of the range apart, and of no others.
theorem before_swap {a b : UInt64} (h : before a b = true)
    : before b a = true ↔ (b - a).toNat = 2 ^ 63 := by
  rw [before_iff] at h ⊢
  rw [UInt64.toNat_sub] at h ⊢
  have := a.toNat_lt
  have := b.toNat_lt
  omega

-- Below half of the range the order is the order of the naturals.
theorem before_of_lt {a b : UInt64} (ha : a.toNat < 2 ^ 63) (hb : b.toNat < 2 ^ 63)
    : before a b = true ↔ a.toNat < b.toNat := by
  rw [before_iff, UInt64.toNat_sub]
  omega

-- `v` is within a quarter of the range of `f`, on either side.
def near (f v : UInt64) : Prop := (v - f).toNat < 2 ^ 62 ∨ (f - v).toNat ≤ 2 ^ 62

instance (f v : UInt64) : Decidable (near f v) :=
  inferInstanceAs (Decidable ((v - f).toNat < 2 ^ 62 ∨ (f - v).toNat ≤ 2 ^ 62))

-- `f` is at least `d` past `k`.
def past (k f : UInt64) (d : Nat) : Prop := before f k = false ∧ d ≤ (f - k).toNat

instance (k f : UInt64) (d : Nat) : Decidable (past k f d) :=
  inferInstanceAs (Decidable (before f k = false ∧ d ≤ (f - k).toNat))

theorem not_before_iff {a b : UInt64} : before a b = false ↔ (a - b).toNat < 2 ^ 63 := by
  rw [← Nat.not_le, ← before_iff, Bool.not_eq_true]

-- Among points that are near each other the order is asymmetric.
theorem before_asymm {f v : UInt64} (hnear : near f v) (h : before f v = true)
    : before v f = false := by
  unfold near at hnear
  rw [before_iff] at h
  rw [not_before_iff]
  simp only [UInt64.toNat_sub] at h hnear ⊢
  omega

-- What lies past `k` stays past it as long as `k` is near.
theorem past_of_before {k f f' : UInt64} {d : Nat} (h : past k f d) (hk : near f k)
    (hf : near f f') (hbefore : before f f' = true)
    : past k f' d := by
  unfold near at hk hf
  unfold past at h ⊢
  rw [before_iff] at hbefore
  rw [not_before_iff] at h ⊢
  simp only [UInt64.toNat_sub] at h hk hf hbefore ⊢
  have := f.toNat_lt
  have := f'.toNat_lt
  have := k.toNat_lt
  omega

-- Below half of the range, to be past `k` is not to be before the sum.
theorem past_iff {k f d : UInt64} (hd : d.toNat ≤ 2 ^ 62) (hk : near f k)
    : past k f d.toNat ↔ before f (k + d) = false := by
  unfold near at hk
  unfold past
  rw [not_before_iff, not_before_iff]
  simp only [UInt64.toNat_sub, UInt64.toNat_add] at hk ⊢
  have := f.toNat_lt
  have := k.toNat_lt
  omega

end Serial
