import ScxCohort.Bpf.Lemmas.Steal
import ScxCohort.Lib.Streak

/-!
This module contains how long tasks that arrive later can overtake one that waits in the queue of an LLC:
until the frontier is one slice and the largest credit past the key of that task.
-/

namespace Bpf

variable (g : Globals)

-- The stored vtime that an event holds against the frontier of `l`.
def comparedOn (l : LlcId) (s : Maps) : Event → Option UInt64
  | .enqueue p _ => if chosenLlc g s p = l then vtimeOf s p.tid else none
  | .running p _ => if llcOfCpu g p.cpu = l then vtimeOf s p.tid else none
  | _ => none

def ComparesNear (l : LlcId) (s : Maps) (e : Event) : Prop :=
  ∀ v ∈ comparedOn g l s e, Serial.near (frontier s l) v

instance (l : LlcId) (s : Maps) (e : Event) : Decidable (ComparesNear g l s e) :=
  decidable_of_iff ((comparedOn g l s e).all fun v => Serial.near (frontier s l) v)
    (by simp [Option.all_eq_true, ComparesNear])

-- The frontier `f` has come to where the key `k` is safe.
def Reached (k f : UInt64) : Prop :=
  Serial.past k f (g.sliceNs.toNat + g.tunables.creditMaxNs.toNat)

instance (k f : UInt64) : Decidable (Reached g k f) :=
  inferInstanceAs (Decidable (Serial.past k f (g.sliceNs.toNat + g.tunables.creditMaxNs.toNat)))

theorem reached_iff {k f : UInt64} (h : g.sliceNs.toNat + g.tunables.creditMaxNs.toNat ≤ 2 ^ 62)
    (hk : Serial.near f k)
    : Reached g k f ↔ vtimeBefore f (k + (g.sliceNs + g.tunables.creditMaxNs)) = false := by
  have hsum : (g.sliceNs + g.tunables.creditMaxNs).toNat
      = g.sliceNs.toNat + g.tunables.creditMaxNs.toNat := by
    rw [UInt64.toNat_add]
    omega
  unfold Reached
  rw [← hsum] at h ⊢
  exact Serial.past_iff h hk

variable {g} {s : Maps} {l : LlcId}

section Step

-- The key with which an enqueue inserts its task.
def insertedKey (g : Globals) (s : Maps) (p : TaskStruct) : UInt64 :=
  match s.taskCtxs p.tid with
  | some c => clampVtime g (frontier s (chosenLlc g s p)) c.vtime - interactiveCredit g c
  | none => clampVtime g (frontier s (chosenLlc g s p)) (frontier s (chosenLlc g s p))

theorem dsqs_step_enqueue_inserted (hg : g.nrLlcs.toNat ≤ maxLlcs) (p : TaskStruct) (now : UInt64)
    : (step g s (.enqueue p now)).dsqs (chosenLlc g s p)
        =
      dsqInsertVtime ⟨p.tid, insertedKey g s p, now⟩ (s.dsqs (chosenLlc g s p)) := by
  unfold insertedKey chosenLlc
  cases hc : s.taskCtxs p.tid with
  | none =>
    have hl := llcOfCpu_lt g hg p.cpu
    simp [dsqs_step_enqueue_none hc hl]
  | some c =>
    have hl := effectiveLlc_lt g hg s p
    simp [dsqs_step_enqueue hc hl, enqueueKey_eq hc hl]

theorem frontier_step (hg : g.nrLlcs.toNat ≤ maxLlcs) (e : Event)
    : frontier (step g s e) l = frontier s l
      ∨ ∃ v ∈ comparedOn g l s e, vtimeBefore (frontier s l) v = true
          ∧ frontier (step g s e) l = v := by
  cases e with
  | initTask p fork parent alloc => exact .inl (sameVtimeBut_step_initTask.llc l)
  | running p now =>
    cases hc : s.taskCtxs p.tid with
    | none => exact .inl ((sameVtime_step_running_of_none hc).llc l)
    | some c =>
      rw [frontier_step_running hc (llcOfCpu_lt g hg p.cpu)]
      split
      . next h =>
        right
        refine ⟨c.vtime, ?_, h.2, rfl⟩
        simp [comparedOn, vtimeOf, hc, h.1]
      . left
        rfl
  | stopping p now =>
    left
    cases hc : s.taskCtxs p.tid with
    | none => exact (sameVtime_step_stopping_of_none hc).llc l
    | some c => exact frontier_step_stopping hc l
  | _ =>
    left
    apply (sameVtime_step _ _ _).llc l
    all_goals
      intros
      nofun

-- The frontier is raised to the vtime of a task, and only if it was before that.
theorem frontier_not_before (hg : g.nrLlcs.toNat ≤ maxLlcs) {e : Event} (h : ComparesNear g l s e)
    : vtimeBefore (frontier (step g s e) l) (frontier s l) = false := by
  cases frontier_step (s := s) (l := l) hg e with
  | inl heq =>
    rw [heq]
    apply Serial.before_irrefl
  | inr hraise =>
    obtain ⟨v, hv, hbefore, heq⟩ := hraise
    rw [heq]
    exact Serial.before_asymm (h v hv) hbefore

theorem reached_step (hg : g.nrLlcs.toNat ≤ maxLlcs) {e : Event} {k : UInt64}
    (h : Reached g k (frontier s l)) (hk : Serial.near (frontier s l) k)
    (hnear : ComparesNear g l s e)
    : Reached g k (frontier (step g s e) l) := by
  cases frontier_step (s := s) (l := l) hg e with
  | inl heq =>
    rw [heq]
    exact h
  | inr hraise =>
    obtain ⟨v, hv, hbefore, heq⟩ := hraise
    rw [heq]
    exact Serial.past_of_before h hk (hnear v hv) hbefore

theorem clampVtime_not_before {k f v credit : UInt64}
    (h : Serial.past k f (g.sliceNs.toNat + credit.toNat)) (hk : Serial.near f k)
    (hv : Serial.near f v)
    : vtimeBefore (clampVtime g f v - credit) k = false := by
  have hclamp : vtimeBefore v (f - g.sliceNs) = true ↔ 2 ^ 63 ≤ (v - (f - g.sliceNs)).toNat :=
    Serial.before_iff
  unfold Serial.past at h
  unfold Serial.near at hk hv
  rw [Serial.not_before_iff] at h
  have hnot : ((clampVtime g f v - credit) - k).toNat < 2 ^ 63 := by
    unfold clampVtime
    simp only [UInt64.toNat_sub] at h hk hv hclamp
    have := f.toNat_lt
    have := v.toNat_lt
    have := k.toNat_lt
    split
    . simp only [UInt64.toNat_sub]
      omega
    . next hnot =>
      rw [hclamp] at hnot
      simp only [UInt64.toNat_sub]
      omega
  exact Serial.not_before_iff.mpr hnot

theorem insertedKey_not_before {p : TaskStruct} {k : UInt64} (now : UInt64)
    (h : Reached g k (frontier s l))
    (hk : Serial.near (frontier s l) k) (hnear : ComparesNear g l s (.enqueue p now))
    (hl : chosenLlc g s p = l)
    : vtimeBefore (insertedKey g s p) k = false := by
  unfold insertedKey
  rw [hl]
  cases hc : s.taskCtxs p.tid with
  | none =>
    have hpast : Serial.past k (frontier s l) (g.sliceNs.toNat + (0 : UInt64).toNat) :=
      ⟨h.1, Nat.le_trans (Nat.add_le_add_left (Nat.zero_le _) _) h.2⟩
    have hself : Serial.near (frontier s l) (frontier s l) := by
      left
      rw [UInt64.sub_self]
      decide
    have hkey := clampVtime_not_before hpast hk hself
    rw [UInt64.sub_zero] at hkey
    exact hkey
  | some c =>
    have hpast : Serial.past k (frontier s l) (g.sliceNs.toNat + (interactiveCredit g c).toNat) :=
      ⟨h.1, Nat.le_trans (Nat.add_le_add_left (interactiveCredit_le c) _) h.2⟩
    apply clampVtime_not_before hpast hk
    apply hnear
    simp [comparedOn, vtimeOf, hc, hl]

end Step

section Run

theorem reached_run (hg : g.nrLlcs.toNat ≤ maxLlcs) {es : List Event} {k : UInt64}
    (h : Reached g k (frontier s l))
    (hk : Streak.Throughout (step g) (fun s _ => Serial.near (frontier s l) k) s es)
    (hnear : Streak.Throughout (step g) (ComparesNear g l) s es)
    : Reached g k (frontier (run g s es) l) := by
  induction es generalizing s with
  | nil => exact h
  | cons e es ih =>
    rw [run_cons]
    exact ih (reached_step hg h hk.1 hnear.1) hk.2 hnear.2

-- A task that waits with a key may only be overtaken while the frontier has not come to where that key
-- is safe. A key counts as long as it is near the frontier.
structure OvertakingBounded (g : Globals) (l : LlcId) (s : Maps) (es : List Event) : Prop where
  monotone : ∀ pre e post, es = pre ++ e :: post →
    vtimeBefore (frontier (run g s (pre ++ [e])) l) (frontier (run g s pre) l) = false
  bounded : ∀ pre mid p now post w, es = pre ++ mid ++ .enqueue p now :: post →
    w ∈ (run g s pre).dsqs l → Reached g w.vtime (frontier (run g s pre) l) →
    Streak.Throughout (step g) (fun s _ => Serial.near (frontier s l) w.vtime) (run g s pre)
      (mid ++ [.enqueue p now]) →
    chosenLlc g (run g s (pre ++ mid)) p = l →
    ∃ key, (run g s (pre ++ mid ++ [.enqueue p now])).dsqs l
        = dsqInsertVtime ⟨p.tid, key, now⟩ ((run g s (pre ++ mid)).dsqs l)
      ∧ vtimeBefore key w.vtime = false

theorem overtaking_bounded (hg : g.nrLlcs.toNat ≤ maxLlcs) (l : LlcId) (s : Maps) (es : List Event)
    (hnear : Streak.Throughout (step g) (ComparesNear g l) s es)
    : OvertakingBounded g l s es := by
  constructor
  . intro pre e post heq
    rw [heq, Streak.throughout_append] at hnear
    rw [run_append, run_cons, run_nil]
    exact frontier_not_before hg hnear.2.1
  . intro pre mid p now post w heq _ hreached hk hl
    rw [heq, Streak.throughout_append, Streak.throughout_append] at hnear
    rw [Streak.throughout_append] at hk
    have hmid := reached_run hg hreached hk.1 hnear.1.2
    rw [← run_append] at hmid
    refine ⟨insertedKey g (run g s (pre ++ mid)) p, ?_, ?_⟩
    . rw [run_append g s (pre ++ mid), run_cons, run_nil, ← hl]
      apply dsqs_step_enqueue_inserted hg
    . apply insertedKey_not_before now hmid
      . have hlast := hk.2.1
        rw [← run, ← run_append] at hlast
        exact hlast
      . have hlast := hnear.2.1
        rw [← run] at hlast
        exact hlast
      . exact hl

-- A task that was queued just before the frontier came around the end of the range.
def early : DsqEntry := ⟨1, 0 - 5000000, 0⟩

def leader : TaskStruct := { tid := 2, pid := 2, tgid := 2 }

def newcomer : TaskStruct := { tid := 3, pid := 3, tgid := 3 }

def justStarted : Maps :=
  { dsqs := fun _ => [early]
    taskCtxs := fun t =>
      if t = 2 then some { vtime := 20000000 }
      else if t = 3 then some { wakeFreq := 1000, avgRuntimeNs := 1 }
      else none }

theorem newcomer_not_before
    : ∃ key, (run {} justStarted [.running leader 0, .enqueue newcomer 1]).dsqs 0
        = dsqInsertVtime ⟨3, key, 1⟩ ((run {} justStarted [.running leader 0]).dsqs 0)
      ∧ vtimeBefore key early.vtime = false := by
  have hnear : Streak.Throughout (step {}) (ComparesNear {} 0) justStarted
      [.running leader 0, .enqueue newcomer 1] :=
    ⟨by decide +kernel, by decide +kernel, trivial⟩
  have h := overtaking_bounded (g := {}) (by decide) 0 justStarted _ hnear
  apply h.bounded [.running leader 0] [] newcomer 1 [] early rfl
  . decide +kernel
  . decide +kernel
  . exact ⟨by decide +kernel, trivial⟩
  . decide +kernel

end Run

end Bpf
