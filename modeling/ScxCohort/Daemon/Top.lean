import ScxCohort.Daemon.Lemmas.Comm
import ScxCohort.Lib.Utf8.Slice

/-!
This module contains how the top view (`top.rs`) cuts the name of a process to its column, and which
names it panics on.
-/

namespace Daemon

open Utf8

-- In `render`. `none` is a panic.
def commColumn (comm : List Char) : Option (List Char) :=
  if strLen comm > 18 then
    sliceTo 18 comm
  else
    some comm

-- The bytes of the name, as they are decoded, fill the column exactly at some point or never go beyond
-- it.
def FillsColumn (comm : Comm) : Prop :=
  ∀ segs, Segmented (commBytes comm) segs
    → (segs.map width).sum ≤ 18 ∨ ∃ k, ((segs.take k).map width).sum = 18

theorem isSome_commColumn_iff {xs : List Char}
    : (commColumn xs).isSome = true ↔ strLen xs ≤ 18 ∨ ∃ k, strLen (xs.take k) = 18 := by
  unfold commColumn
  split
  . next hlt =>
    rw [isSome_sliceTo_iff]
    constructor
    . intro h
      exact Or.inr h
    . intro h
      cases h with
      | inl hle => omega
      | inr h => exact h
  . next hle => exact iff_of_true rfl (Or.inl (by omega))

theorem name_never_panics_iff (comm : Comm)
    : (commColumn (commOf comm)).isSome = true ↔ FillsColumn comm := by
  obtain ⟨segs, hsegs, hreads⟩ := segmented_fromUtf8Lossy (commBytes comm)
  have hlen : strLen (commOf comm) = (segs.map width).sum := by
    unfold strLen
    rw [commOf_eq, map_utf8Size_of_reads hreads]
  rw [isSome_commColumn_iff, hlen]
  simp only [commOf_eq, strLen_take hreads]
  constructor
  . intro h segs' hsegs'
    rw [segmented_unique hsegs' hsegs]
    exact h
  . intro h
    exact h segs hsegs

-- Five bytes that start no character, a letter, and one such byte more.
def garbled : Comm := ⟨#[0xFF, 0xFF, 0xFF, 0xFF, 0xFF, 97, 0xFF, 0, 0, 0, 0, 0, 0, 0, 0, 0], rfl⟩

theorem garbled_panics : 0 ∈ garbled.toList ∧ commColumn (commOf garbled) = none := by decide +kernel

end Daemon
