import ScxCohort.Lib.Utf8.Segment

/-!
This module contains slices of a string by byte positions, and where the boundaries of a lossily
decoded text are.
-/

namespace Utf8

def strLen (xs : List Char) : Nat := (xs.map Char.utf8Size).sum

-- `&s[..n]`. There is no such slice if byte `n` is not a character boundary.
def sliceTo : Nat → List Char → Option (List Char)
  | 0, _ => some []
  | _ + 1, [] => none
  | n + 1, x :: xs =>
    if x.utf8Size ≤ n + 1 then
      (sliceTo (n + 1 - x.utf8Size) xs).map (x :: ·)
    else
      none

section Boundaries

variable {n : Nat} {x : Char} {xs : List Char}

theorem strLen_cons : strLen (x :: xs) = x.utf8Size + strLen xs := rfl

theorem isSome_sliceTo_iff : (sliceTo n xs).isSome = true ↔ ∃ k, strLen (xs.take k) = n := by
  fun_induction sliceTo n xs with
  | case1 xs => exact iff_of_true rfl ⟨0, rfl⟩
  | case2 n => simp [strLen]
  | case3 n x xs hle ih =>
    rw [Option.isSome_map, ih]
    constructor
    . intro h
      obtain ⟨k, hk⟩ := h
      exists k + 1
      rw [List.take_succ_cons, strLen_cons, hk]
      omega
    . intro h
      obtain ⟨k, hk⟩ := h
      cases k with
      | zero => cases hk
      | succ k =>
        exists k
        rw [List.take_succ_cons, strLen_cons] at hk
        omega
  | case4 n x xs hlt =>
    simp only [Option.isSome_none, Bool.false_eq_true, false_iff, not_exists]
    intro k hk
    cases k with
    | zero => cases hk
    | succ k =>
      rw [List.take_succ_cons, strLen_cons] at hk
      omega

end Boundaries

section Widths

variable {bytes s : List UInt8} {segs : List (List UInt8)} {x : Char} {xs : List Char}

-- How much room a sequence takes in the decoded text.
def width (s : List UInt8) : Nat := if wellFormed s then s.length else 3

theorem utf8Size_of_reads (h : Reads s x) : x.utf8Size = width s := by
  unfold Reads at h
  unfold width
  split at h
  . next hwf => rw [if_pos hwf, ← h, String.length_utf8EncodeChar]
  . next hwf =>
    rw [if_neg hwf, h]
    rfl

theorem map_utf8Size_of_reads (h : List.Forall₂ Reads segs xs)
    : xs.map Char.utf8Size = segs.map width := by
  induction h with
  | nil => rfl
  | cons hs _ ih => rw [List.map_cons, List.map_cons, ih, utf8Size_of_reads hs]

theorem strLen_take {k : Nat} (h : List.Forall₂ Reads segs xs)
    : strLen (xs.take k) = ((segs.take k).map width).sum := by
  unfold strLen
  rw [List.map_take, map_utf8Size_of_reads h, List.map_take]

end Widths

end Utf8
