import Mathlib

/-!
This module contains what moving an amount from a larger bin to a smaller one does to a family of
bins: while the order of the two does not tip over, the sum of the squares decreases and the spread
does not grow.
-/

namespace Transfer

variable {ι : Type}

def sumSq (S : Finset ι) (f : ι → Nat) : Nat := ∑ x ∈ S, f x ^ 2

-- The largest difference of two bins.
def spread (S : Finset ι) (f : ι → Nat) : Nat := (S ×ˢ S).sup fun p => f p.1 - f p.2

-- `f'` is `f` with `d` moved from `i` to `j`.
structure Moved (f f' : ι → Nat) (i j : ι) (d : Nat) : Prop where
  src : f' i + d = f i
  dst : f' j = f j + d
  rest : ∀ x, x ≠ i → x ≠ j → f' x = f x

variable {S : Finset ι} {f f' : ι → Nat} {i j : ι} {d : Nat}

theorem Moved.ne (h : Moved f f' i j d) (hlt : f j + d < f i) : i ≠ j := by
  intro heq
  subst heq
  omega

theorem sub_le_spread {x y : ι} (hx : x ∈ S) (hy : y ∈ S) : f x - f y ≤ spread S f := by
  unfold spread
  exact Finset.le_sup (f := fun p : ι × ι => f p.1 - f p.2) (Finset.mk_mem_product hx hy)

variable [DecidableEq ι]

theorem Moved.sumSq_lt (h : Moved f f' i j d) (hi : i ∈ S) (hj : j ∈ S) (hd : 0 < d)
    (hlt : f j + d < f i)
    : sumSq S f' < sumSq S f := by
  have hne := h.ne hlt
  have hj' : j ∈ S.erase i := Finset.mem_erase.mpr ⟨Ne.symm hne, hj⟩
  have hsplit : ∀ k : ι → Nat,
      sumSq S k = k i ^ 2 + (k j ^ 2 + ∑ x ∈ (S.erase i).erase j, k x ^ 2) := by
    intro k
    unfold sumSq
    rw [Finset.add_sum_erase _ (fun x => k x ^ 2) hj', Finset.add_sum_erase _ (fun x => k x ^ 2) hi]
  have hrest : ∑ x ∈ (S.erase i).erase j, f' x ^ 2 = ∑ x ∈ (S.erase i).erase j, f x ^ 2 := by
    apply Finset.sum_congr rfl
    intro x hx
    rw [Finset.mem_erase, Finset.mem_erase] at hx
    rw [h.rest x hx.2.1 hx.1]
  rw [hsplit f', hsplit f, hrest, h.dst, ← h.src]
  have hsrc := h.src
  have : f j < f' i := by omega
  nlinarith

theorem Moved.between (h : Moved f f' i j d) (hlt : f j + d < f i) {x : ι}
    (hmax : f x ≤ f i) (hmin : f j ≤ f x)
    : f j ≤ f' x ∧ f' x ≤ f i := by
  have hsrc := h.src
  have hdst := h.dst
  by_cases hi : x = i
  . subst hi
    omega
  . by_cases hj : x = j
    . subst hj
      omega
    . rw [h.rest x hi hj]
      omega

theorem Moved.spread_le (h : Moved f f' i j d) (hi : i ∈ S) (hj : j ∈ S) (hlt : f j + d < f i)
    (hmax : ∀ x ∈ S, f x ≤ f i) (hmin : ∀ x ∈ S, f j ≤ f x)
    : spread S f' ≤ spread S f := by
  apply Finset.sup_le
  intro p hp
  rw [Finset.mem_product] at hp
  have h₁ := h.between hlt (hmax _ hp.1) (hmin _ hp.1)
  have h₂ := h.between hlt (hmax _ hp.2) (hmin _ hp.2)
  have := sub_le_spread (f := f) hi hj
  omega

-- With no other bins than the two, the spread shrinks.
theorem Moved.spread_lt (h : Moved f f' i j d) (hi : i ∈ S) (hj : j ∈ S) (hd : 0 < d)
    (hlt : f j + d < f i) (hcard : S.card = 2)
    : spread S f' < spread S f := by
  have hne := h.ne hlt
  have hS : S = {i, j} := by
    symm
    apply Finset.eq_of_subset_of_card_le
    . intro x hx
      rw [Finset.mem_insert, Finset.mem_singleton] at hx
      cases hx with
      | inl hx => rw [hx]; exact hi
      | inr hx => rw [hx]; exact hj
    . rw [hcard, Finset.card_pair hne]
  have hspread := sub_le_spread (f := f) hi hj
  have hpos : 0 < spread S f := by omega
  apply (Finset.sup_lt_iff (by simpa using hpos)).mpr
  intro p hp
  have hsrc := h.src
  have hdst := h.dst
  rw [Finset.mem_product, hS] at hp
  simp only [Finset.mem_insert, Finset.mem_singleton] at hp
  obtain ⟨h₁ | h₁, h₂ | h₂⟩ := hp <;> rw [h₁, h₂] <;> omega

end Transfer
