import Mathlib.Data.List.Basic

/-!
This module contains streaks: for how many of the last steps of a run a condition has held without a
break. The condition may look at the state a step is taken in.
-/

namespace Streak

universe u v

variable {σ : Type u} {ι : Type v} (step : σ → ι → σ) (P : σ → ι → Prop)

def Throughout : σ → List ι → Prop
  | _, [] => True
  | s, i :: is => P s i ∧ Throughout (step s i) is

def Sometime : σ → List ι → Prop
  | _, [] => False
  | s, i :: is => P s i ∨ Sometime (step s i) is

def Lasted (s : σ) (past : List ι) (n : Nat) : Prop :=
  ∃ earlier recent, past = earlier ++ recent ∧ recent.length = n
    ∧ Throughout step P (earlier.foldl step s) recent

variable {step P} {s : σ} {past : List ι} {n : Nat}

theorem throughout_append {is js : List ι}
    : Throughout step P s (is ++ js)
        ↔
      Throughout step P s is ∧ Throughout step P (is.foldl step s) js := by
  induction is generalizing s with
  | nil => simp [Throughout]
  | cons i is ih =>
    simp only [List.cons_append, Throughout, List.foldl_cons, ih]
    rw [and_assoc]

instance [∀ s i, Decidable (P s i)] : ∀ s is, Decidable (Throughout step P s is)
  | _, [] => isTrue trivial
  | s, i :: is =>
    have := instDecidableThroughout (step s i) is
    inferInstanceAs (Decidable (P s i ∧ Throughout step P (step s i) is))

theorem sometime_snoc {is : List ι} {i : ι}
    : Sometime step P s (is ++ [i]) ↔ Sometime step P s is ∨ P (is.foldl step s) i := by
  induction is generalizing s with
  | nil => simp [Sometime]
  | cons j is ih =>
    simp only [List.cons_append, Sometime, List.foldl_cons, ih]
    rw [or_assoc]

instance [∀ s i, Decidable (P s i)] : ∀ s is, Decidable (Sometime step P s is)
  | _, [] => isFalse id
  | s, i :: is =>
    have := instDecidableSometime (step s i) is
    inferInstanceAs (Decidable (P s i ∨ Sometime step P (step s i) is))

-- Two conditions that mean the same wherever an invariant holds, which one of them keeps.
theorem throughout_congr {I : σ → Prop} {R P Q : σ → ι → Prop} {is : List ι}
    (hiff : ∀ s i, I s → R s i → (P s i ↔ Q s i)) (hnext : ∀ s i, I s → R s i → P s i → I (step s i))
    (hs : I s) (hR : Throughout step R s is)
    : Throughout step P s is ↔ Throughout step Q s is := by
  induction is generalizing s with
  | nil => exact Iff.rfl
  | cons i is ih =>
    obtain ⟨hi, hR⟩ := hR
    unfold Throughout
    rw [← hiff s i hs hi]
    apply and_congr_right
    intro hP
    exact ih (hnext s i hs hi hP) hR

theorem throughout_of_invariant {I : σ → Prop} {R : σ → ι → Prop} {is : List ι}
    (hstep : ∀ s i, I s → R s i → I (step s i) ∧ P s i) (hs : I s) (hR : Throughout step R s is)
    : Throughout step P s is := by
  induction is generalizing s with
  | nil => trivial
  | cons i is ih =>
    have h := hstep s i hs hR.1
    exact ⟨h.2, ih h.1 hR.2⟩

theorem throughout_of_forall {is : List ι} (h : ∀ s i, P s i) : Throughout step P s is := by
  induction is generalizing s with
  | nil => trivial
  | cons i is ih => exact ⟨h s i, ih⟩

theorem throughout_and {Q : σ → ι → Prop} {is : List ι}
    : Streak.Throughout step (fun s i => P s i ∧ Q s i) s is
        ↔
      Throughout step P s is ∧ Throughout step Q s is := by
  induction is generalizing s with
  | nil => simp [Throughout]
  | cons i is ih =>
    unfold Throughout
    rw [ih]
    exact and_and_and_comm

theorem throughout_of_mem {is : List ι} {Q : ι → Prop} (h : ∀ i ∈ is, Q i)
    : Throughout step (fun _ i => Q i) s is := by
  induction is generalizing s with
  | nil => trivial
  | cons i is ih =>
    exact ⟨h i List.mem_cons_self, ih fun j hj => h j (List.mem_cons_of_mem _ hj)⟩

theorem lasted_zero : Lasted step P s past 0 :=
  ⟨past, [], by simp, rfl, trivial⟩

theorem Lasted.snoc {i : ι} (h : Lasted step P s past n) (hi : P (past.foldl step s) i)
    : Lasted step P s (past ++ [i]) (n + 1) := by
  obtain ⟨earlier, recent, rfl, hlen, hrecent⟩ := h
  refine ⟨earlier, recent ++ [i], by simp, by simp [hlen], ?_⟩
  rw [throughout_append]
  rw [List.foldl_append] at hi
  exact ⟨hrecent, hi, trivial⟩

theorem Lasted.le_length (h : Lasted step P s past n) : n ≤ past.length := by
  obtain ⟨earlier, recent, rfl, hlen, _⟩ := h
  rw [List.length_append]
  omega

theorem Lasted.of_le {m : Nat} (h : Lasted step P s past n) (hm : m ≤ n)
    : Lasted step P s past m := by
  obtain ⟨earlier, recent, rfl, hlen, hrecent⟩ := h
  refine ⟨earlier ++ recent.take (n - m), recent.drop (n - m), ?_, ?_, ?_⟩
  . rw [List.append_assoc, List.take_append_drop]
  . rw [List.length_drop]
    omega
  . rw [← List.take_append_drop (n - m) recent, throughout_append] at hrecent
    rw [List.foldl_append]
    exact hrecent.2

-- A step within the streak meets the condition.
theorem Lasted.of_recent {pre mid : List ι} {i : ι} (h : Lasted step P s (pre ++ i :: mid) n)
    (hn : mid.length < n)
    : P (pre.foldl step s) i := by
  obtain ⟨earlier, recent, heq, hlen, hrecent⟩ := h.of_le hn
  have hsplit : pre = earlier ∧ i :: mid = recent := by
    apply List.append_inj' heq
    rw [hlen, List.length_cons]
  rw [← hsplit.1, ← hsplit.2] at hrecent
  exact hrecent.1

end Streak
