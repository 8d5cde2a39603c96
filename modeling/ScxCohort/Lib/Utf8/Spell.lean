import ScxCohort.Lib.Utf8.Segment

/-!
This module contains which texts lossy decoding can give: the shortest bytes that are decoded to a
text, and that every text without a NUL has such bytes without a zero.
-/

namespace Utf8

variable {bytes : List UInt8} {x : Char} {xs : List Char}

-- The fewest bytes that are decoded to a character: one that starts no character, for the replacement.
def spell (x : Char) : List UInt8 := if x = replacement then [0xFF] else String.utf8EncodeChar x

def spellLength (x : Char) : Nat := if x = replacement then 1 else x.utf8Size

theorem length_spell : (spell x).length = spellLength x := by
  unfold spell spellLength
  split
  . rfl
  . exact String.length_utf8EncodeChar x

theorem not_viable_spell {s : List UInt8} : ¬Viable (0xFF :: s) := by
  intro h
  have hcases := viable_cons h
  revert hcases
  decide

theorem sequence_spell {rest : List UInt8} : wellFormed (spell x) = true ∨ IllFormed (spell x) rest := by
  unfold spell
  split
  . right
    apply illFormed_of (s := []) (by decide) (Or.inl rfl)
    intro y _
    exact not_viable_spell
  . left
    exact wellFormed_encode

theorem reads_spell : Reads (spell x) x := by
  unfold Reads spell
  split
  . next heq =>
    rw [if_neg (by decide)]
    exact heq
  . rw [if_pos wellFormed_encode]

theorem segmented_spell : Segmented (xs.flatMap spell) (xs.map spell) := by
  induction xs with
  | nil => exact Segmented.nil
  | cons x xs ih =>
    rw [List.flatMap_cons, List.map_cons]
    exact Segmented.cons sequence_spell ih

theorem fromUtf8Lossy_spell : fromUtf8Lossy (xs.flatMap spell) = xs := by
  apply fromUtf8Lossy_eq segmented_spell
  rw [List.forall₂_map_left_iff, List.forall₂_same]
  intro x _
  exact reads_spell

theorem length_flatMap_spell : (xs.flatMap spell).length = (xs.map spellLength).sum := by
  rw [List.length_flatMap]
  congr 1
  apply List.map_congr_left
  intro x _
  exact length_spell

theorem spellLength_le {s : List UInt8} (hne : 0 < s.length) (h : Reads s x)
    : spellLength x ≤ s.length := by
  unfold Reads at h
  unfold spellLength
  split
  . exact hne
  . next hx =>
    split at h
    . rw [← h, String.length_utf8EncodeChar]
    . exact absurd h hx

-- However a text is spelled, it takes as many bytes.
theorem sum_spellLength_le {segs : List (List UInt8)} (hsegs : Segmented bytes segs)
    (hxs : List.Forall₂ Reads segs xs) : (xs.map spellLength).sum ≤ bytes.length := by
  induction hsegs generalizing xs with
  | nil =>
    cases hxs
    exact le_rfl
  | cons hs _ ih =>
    cases hxs with
    | cons hx hxs =>
      have hle := spellLength_le (length_pos_of_sequence hs) hx
      have hrest := ih hxs
      rw [List.map_cons, List.sum_cons, List.length_append]
      omega

theorem sum_spellLength_fromUtf8Lossy_le
    : ((fromUtf8Lossy bytes).map spellLength).sum ≤ bytes.length := by
  obtain ⟨segs, hsegs, hxs⟩ := segmented_fromUtf8Lossy bytes
  exact sum_spellLength_le hsegs hxs

def nul : Char := Char.ofNat 0

theorem zero_mem_of_reads_nul {s : List UInt8} (h : Reads s nul) : 0 ∈ s := by
  unfold Reads at h
  split at h
  . rw [← h]
    decide
  . exact absurd h (by decide)

theorem nul_not_mem_fromUtf8Lossy (h : 0 ∉ bytes) : nul ∉ fromUtf8Lossy bytes := by
  obtain ⟨segs, hsegs, hxs⟩ := segmented_fromUtf8Lossy bytes
  generalize fromUtf8Lossy bytes = xs at hxs
  induction hsegs generalizing xs with
  | nil =>
    cases hxs
    simp
  | cons _ _ ih =>
    rw [List.mem_append, not_or] at h
    cases hxs with
    | cons hx hxs =>
      rw [List.mem_cons, not_or]
      constructor
      . intro hnul
        rw [← hnul] at hx
        exact h.1 (zero_mem_of_reads_nul hx)
      . exact ih h.2 _ hxs

-- No byte of a longer sequence is ASCII.
theorem le_of_mem_of_wellFormed {b c y : UInt8} {s : List UInt8} (h : wellFormed (b :: c :: s) = true)
    (hy : y ∈ b :: c :: s) : 0x80 ≤ y.toNat := by
  match s, h, hy with
  | [], h, hy =>
    simp only [wellFormed, Bool.and_eq_true, inRange_iff, isCont_iff, UInt8.reduceToNat] at h
    simp only [List.mem_cons, List.not_mem_nil, or_false] at hy
    rcases hy with rfl | rfl
    . omega
    . omega
  | [d], h, hy =>
    simp only [wellFormed, Bool.and_eq_true, secondOk_iff, isCont_iff] at h
    simp only [List.mem_cons, List.not_mem_nil, or_false] at hy
    rcases hy with rfl | rfl | rfl
    . omega
    . omega
    . omega
  | [d, e], h, hy =>
    simp only [wellFormed, Bool.and_eq_true, secondOk_iff, isCont_iff] at h
    simp only [List.mem_cons, List.not_mem_nil, or_false] at hy
    rcases hy with rfl | rfl | rfl | rfl
    . omega
    . omega
    . omega
    . omega

theorem eq_zero_of_zero_mem {s : List UInt8} (h : wellFormed s = true) (hzero : 0 ∈ s) : s = [0] := by
  match s, h with
  | [b], _ => rw [List.mem_singleton.mp hzero]
  | b :: c :: s, h =>
    have hle := le_of_mem_of_wellFormed h hzero
    contradiction

theorem eq_nul_of_zero_mem_encode (h : 0 ∈ String.utf8EncodeChar x) : x = nul := by
  apply encode_injective
  rw [eq_zero_of_zero_mem wellFormed_encode h]
  rfl

theorem zero_not_mem_spell (h : nul ∉ xs) : 0 ∉ xs.flatMap spell := by
  intro hzero
  obtain ⟨x, hx, hzero⟩ := List.mem_flatMap.mp hzero
  unfold spell at hzero
  split at hzero
  . exact absurd hzero (by decide)
  . rw [eq_nul_of_zero_mem_encode hzero] at hx
    exact h hx

end Utf8
