import ScxCohort.Lib.Utf8

/-!
This module contains what the lossy decoding makes of encoded text, and which bytes a decoded character
has taken: either its encoding, or a sequence that is replaced.
-/

namespace Utf8

-- The byte sequences that encode a character.
def wellFormed : List UInt8 → Bool
  | [b] => b < 0x80
  | [b, c] => inRange b 0xC2 0xDF && isCont c
  | [b, c, d] => b < 0xF0 && secondOk b c && isCont d
  | [b, c, d, e] => !(b < 0xF0) && secondOk b c && isCont d && isCont e
  | _ => false

section Bytes

variable {b c : UInt8}

theorem isCont_iff : isCont b = true ↔ 128 ≤ b.toNat ∧ b.toNat < 192 := by
  have hall : ∀ n < 256, isCont (UInt8.ofNat n) = true ↔ 128 ≤ n ∧ n < 192 := by decide +kernel
  have hb := hall b.toNat b.toNat_lt
  rw [UInt8.ofNat_toNat] at hb
  exact hb

theorem inRange_iff {lo hi : UInt8}
    : inRange b lo hi = true ↔ lo.toNat ≤ b.toNat ∧ b.toNat ≤ hi.toNat := by
  unfold inRange
  rw [decide_eq_true_eq, UInt8.le_iff_toNat_le, UInt8.le_iff_toNat_le]

-- Neither an overlong sequence, nor a surrogate, nor one above the last character.
theorem secondOk_iff
    : secondOk b c = true
        ↔
      (b.toNat = 0xE0 ∧ 0xA0 ≤ c.toNat ∧ c.toNat ≤ 0xBF)
        ∨ (0xE1 ≤ b.toNat ∧ b.toNat ≤ 0xEC ∧ 0x80 ≤ c.toNat ∧ c.toNat ≤ 0xBF)
        ∨ (b.toNat = 0xED ∧ 0x80 ≤ c.toNat ∧ c.toNat ≤ 0x9F)
        ∨ (0xEE ≤ b.toNat ∧ b.toNat ≤ 0xEF ∧ 0x80 ≤ c.toNat ∧ c.toNat ≤ 0xBF)
        ∨ (b.toNat = 0xF0 ∧ 0x90 ≤ c.toNat ∧ c.toNat ≤ 0xBF)
        ∨ (0xF1 ≤ b.toNat ∧ b.toNat ≤ 0xF3 ∧ 0x80 ≤ c.toNat ∧ c.toNat ≤ 0xBF)
        ∨ (b.toNat = 0xF4 ∧ 0x80 ≤ c.toNat ∧ c.toNat ≤ 0x8F) := by
  unfold secondOk
  rw [decide_eq_true_eq]
  simp only [inRange_iff, ← UInt8.toNat_inj, UInt8.reduceToNat, and_assoc]

theorem ofNat_eq {n : Nat} (h : b.toNat = n) : UInt8.ofNat n = b := by
  rw [← h, UInt8.ofNat_toNat]

theorem toNat_ofNat {n : Nat} (h : n < 0xD800 ∨ 0xDFFF < n ∧ n < 0x110000)
    : (Char.ofNat n).toNat = n := by
  have hvalid : n.isValidChar := h
  rw [Char.ofNat, dif_pos hvalid]
  rfl

end Bytes

section Encode

variable {b c d e : UInt8} {x : Char}

theorem encode_one (hb : b < 0x80) : String.utf8EncodeChar (Char.ofNat b.toNat) = [b] := by
  have hlt : b.toNat < 128 := UInt8.lt_iff_toNat_lt.mp hb
  have hval : (Char.ofNat b.toNat).val.toNat = b.toNat := toNat_ofNat (by omega)
  unfold String.utf8EncodeChar
  simp only [hval]
  rw [if_pos (by omega), UInt8.ofNat_toNat]

theorem encode_two (hb : inRange b 0xC2 0xDF = true) (hc : isCont c = true)
    : String.utf8EncodeChar (Char.ofNat (bits b 5 * 64 + bits c 6)) = [b, c] := by
  rw [inRange_iff] at hb
  rw [isCont_iff] at hc
  simp only [UInt8.reduceToNat] at hb
  unfold bits
  generalize hv : b.toNat % 2 ^ 5 * 64 + c.toNat % 2 ^ 6 = v
  have hval : (Char.ofNat v).val.toNat = v := toNat_ofNat (by omega)
  unfold String.utf8EncodeChar
  simp only [hval]
  rw [if_neg (by omega), if_pos (by omega), ofNat_eq (b := b) (by omega), ofNat_eq (b := c) (by omega)]

theorem encode_three (hb : b < 0xF0) (hc : secondOk b c = true) (hd : isCont d = true)
    : String.utf8EncodeChar (Char.ofNat ((bits b 4 * 64 + bits c 6) * 64 + bits d 6)) = [b, c, d] := by
  have hlt : b.toNat < 240 := UInt8.lt_iff_toNat_lt.mp hb
  rw [secondOk_iff] at hc
  rw [isCont_iff] at hd
  unfold bits
  generalize hv : (b.toNat % 2 ^ 4 * 64 + c.toNat % 2 ^ 6) * 64 + d.toNat % 2 ^ 6 = v
  have hval : (Char.ofNat v).val.toNat = v := toNat_ofNat (by omega)
  unfold String.utf8EncodeChar
  simp only [hval]
  rw [if_neg (by omega), if_neg (by omega), if_pos (by omega), ofNat_eq (b := b) (by omega),
    ofNat_eq (b := c) (by omega), ofNat_eq (b := d) (by omega)]

theorem encode_four (hb : ¬b < 0xF0) (hc : secondOk b c = true) (hd : isCont d = true)
    (he : isCont e = true)
    : String.utf8EncodeChar (Char.ofNat (((bits b 3 * 64 + bits c 6) * 64 + bits d 6) * 64 + bits e 6))
        =
      [b, c, d, e] := by
  have hle : ¬b.toNat < 240 := fun h => hb (UInt8.lt_iff_toNat_lt.mpr h)
  rw [secondOk_iff] at hc
  rw [isCont_iff] at hd he
  unfold bits
  generalize hv
    : ((b.toNat % 2 ^ 3 * 64 + c.toNat % 2 ^ 6) * 64 + d.toNat % 2 ^ 6) * 64 + e.toNat % 2 ^ 6 = v
  have hval : (Char.ofNat v).val.toNat = v := toNat_ofNat (by omega)
  unfold String.utf8EncodeChar
  simp only [hval]
  rw [if_neg (by omega), if_neg (by omega), if_neg (by omega), ofNat_eq (b := b) (by omega),
    ofNat_eq (b := c) (by omega), ofNat_eq (b := d) (by omega), ofNat_eq (b := e) (by omega)]

theorem wellFormed_encode : wellFormed (String.utf8EncodeChar x) = true := by
  have hvalid : x.val.toNat < 0xD800 ∨ 0xDFFF < x.val.toNat ∧ x.val.toNat < 0x110000 := x.valid
  unfold String.utf8EncodeChar
  simp only
  generalize x.val.toNat = v at hvalid ⊢
  split
  . simp only [wellFormed, decide_eq_true_eq, UInt8.lt_iff_toNat_lt, UInt8.toNat_ofNat', UInt8.reduceToNat]
    omega
  split
  . simp only [wellFormed, Bool.and_eq_true, inRange_iff, isCont_iff, UInt8.toNat_ofNat', UInt8.reduceToNat]
    omega
  split
  . simp only [wellFormed, Bool.and_eq_true, decide_eq_true_eq, UInt8.lt_iff_toNat_lt, secondOk_iff,
      isCont_iff,
      UInt8.toNat_ofNat', UInt8.reduceToNat]
    omega
  . simp only [wellFormed, Bool.and_eq_true, Bool.not_eq_true', decide_eq_false_iff_not,
      UInt8.lt_iff_toNat_lt,
      secondOk_iff, isCont_iff, UInt8.toNat_ofNat', UInt8.reduceToNat]
    omega

end Encode

end Utf8
