import ScxCohort.Bpf.Lemmas.Enqueue

/-!
This module contains what a sleeper's credit costs it. `cohort_enqueue` clamps the key of a task that
slept for long to one slice behind the frontier, but it does not store the clamped value: what the task
runs afterwards is charged to the vtime it had before its sleep.
-/

namespace Bpf

variable (g : Globals)

def Event.inits (t : Tid) : Event → Bool
  | .initTask p _ _ _ => p.tid = t
  | _ => false

def eventCharge (s : Maps) (t : Tid) : Event → UInt64
  | .stopping p now =>
    match s.taskCtxs t with
    | some c => if p.tid = t then vtimeCharge p (now - c.lastRunAt) else 0
    | none => 0
  | _ => 0

-- The vtime that `cohort_stopping` charges to a task over a run.
def charged (t : Tid) : Maps → List Event → UInt64
  | _, [] => 0
  | s, e :: es => eventCharge s t e + charged t (step g s e) es

variable {g}

theorem vtimeOf_step {s : Maps} {t : Tid} {e : Event} (he : e.inits t = false)
    : vtimeOf (step g s e) t = (vtimeOf s t).map (· + eventCharge s t e) := by
  have hsame : ∀ s', SameVtime s s' → vtimeOf s' t = (vtimeOf s t).map (· + 0) := by
    intro s' h
    rw [h.vtime]
    simp
  cases e with
  | initTask p fork parent alloc =>
    have hne : t ≠ p.tid := by
      intro heq
      simp [Event.inits, heq] at he
    rw [vtimeOf_eq, sameVtimeBut_step_initTask.task t hne, ← vtimeOf_eq]
    simp [eventCharge]
  | running p now =>
    cases hc : s.taskCtxs p.tid with
    | none => exact hsame _ (sameVtime_step_running_of_none hc)
    | some c =>
      rw [vtimeOf_eq, clockOf_step_running hc]
      split
      . next heq => simp [heq, vtimeOf, hc, eventCharge]
      . rw [← vtimeOf_eq]
        simp [eventCharge]
  | stopping p now =>
    cases hc : s.taskCtxs p.tid with
    | none =>
      rw [(sameVtime_step_stopping_of_none hc).vtime]
      by_cases heq : p.tid = t
      . subst heq
        simp [vtimeOf, hc]
      . cases ht : s.taskCtxs t <;> simp [vtimeOf, eventCharge, ht, heq]
    | some c =>
      rw [vtimeOf_eq, clockOf_step_stopping hc]
      split
      . next heq =>
        subst heq
        simp [vtimeOf, eventCharge, hc]
      . next hne =>
        rw [← vtimeOf_eq]
        cases ht : s.taskCtxs t <;> simp [vtimeOf, eventCharge, ht, Ne.symm hne]
  | _ =>
    apply hsame
    apply sameVtime_step <;> simp

theorem vtimeOf_run {t : Tid} (es : List Event) (s : Maps) (hes : ∀ e ∈ es, e.inits t = false)
    : vtimeOf (run g s es) t = (vtimeOf s t).map (· + charged g t s es) := by
  induction es generalizing s with
  | nil => simp [charged]
  | cons e es ih =>
    rw [run_cons, ih, vtimeOf_step, Option.map_map]
    . congr 1
      funext v
      simp only [Function.comp, charged]
      rw [UInt64.add_assoc]
    . apply hes
      exact List.mem_cons_self
    . intro e' he'
      apply hes
      exact List.mem_cons_of_mem _ he'

variable (g)

-- Two enqueues of a task with the events `mid` between them: the second key is not before the first
-- one plus what was charged in between.
def SpendsCredit (s : Maps) (p p' : TaskStruct) (now : UInt64) (mid : List Event) : Prop :=
  let s₁ := step g s (.enqueue p now)
  vtimeBefore (enqueueKey g (run g s₁ mid) p') (enqueueKey g s p + charged g p.tid s₁ mid) = false

-- A task that slept for long is more than one slice behind the frontier.
def lags (s : Maps) (l : LlcId) (vtime : UInt64) : Bool :=
  vtimeBefore vtime (frontier s l - g.sliceNs)

-- The frontier of a later state has followed all that the task was charged.
def FrontierFollows (s s' : Maps) (l : LlcId) (vtime charge : UInt64) : Prop :=
  lags g s' l (vtime + charge) = true ∧ vtimeBefore (frontier s' l) (frontier s l + charge) = false

-- Exactly half of the range away, "before" holds in both directions.
def HalfRangeAhead (s : Maps) (l : LlcId) (vtime : UInt64) : Prop :=
  ((frontier s l - g.sliceNs) - vtime).toNat = 2 ^ 63

variable {g}

theorem clampVtime_of_lags {s : Maps} {l : LlcId} {vtime : UInt64} (h : lags g s l vtime = true)
    : clampVtime g (frontier s l) vtime = frontier s l - g.sliceNs := by
  unfold lags at h
  unfold clampVtime
  rw [if_pos h]

theorem clampVtime_of_not_lags {s : Maps} {l : LlcId} {vtime : UInt64}
    (h : lags g s l vtime = false)
    : clampVtime g (frontier s l) vtime = vtime := by
  unfold lags at h
  unfold clampVtime
  rw [h]
  simp

-- The clamped key is a new origin: what is charged later does not start from it.
theorem clamp_after_lag {s s' : Maps} {l : LlcId} {v charge : UInt64} (hlag : lags g s l v = true)
    : vtimeBefore (clampVtime g (frontier s' l) (v + charge))
          (clampVtime g (frontier s l) v + charge) = false
        ↔
      FrontierFollows g s s' l v charge := by
  unfold FrontierFollows
  rw [clampVtime_of_lags hlag]
  cases hlag' : lags g s' l (v + charge) with
  | true =>
    have hshift : vtimeBefore (frontier s' l - g.sliceNs) (frontier s l - g.sliceNs + charge)
        =
        vtimeBefore (frontier s' l) (frontier s l + charge) := by
      apply Serial.before_congr
      grind
    rw [clampVtime_of_lags hlag', hshift]
    simp
  | false =>
    have hshift : vtimeBefore (v + charge) (frontier s l - g.sliceNs + charge)
        =
        lags g s l v := by
      apply Serial.before_congr
      grind
    rw [clampVtime_of_not_lags hlag', hshift, hlag]
    simp

theorem clamp_after_no_lag {s s' : Maps} {l : LlcId} {v charge : UInt64}
    (hlag : lags g s l v = false)
    : vtimeBefore (clampVtime g (frontier s' l) (v + charge))
          (clampVtime g (frontier s l) v + charge) = false
        ↔
      ¬ HalfRangeAhead g s' l (v + charge) := by
  rw [clampVtime_of_not_lags hlag]
  unfold HalfRangeAhead
  cases hlag' : lags g s' l (v + charge) with
  | true =>
    rw [clampVtime_of_lags hlag', ← Serial.before_swap hlag']
    rw [Bool.not_eq_true]
    rfl
  | false =>
    rw [clampVtime_of_not_lags hlag']
    have hirrefl : vtimeBefore (v + charge) (v + charge) = false := Serial.before_irrefl _
    have hfar : ¬ (2 ^ 63 ≤ ((v + charge) - (frontier s' l - g.sliceNs)).toNat) := by
      intro h
      have : lags g s' l (v + charge) = true := Serial.before_iff.mpr h
      rw [hlag'] at this
      contradiction
    rw [UInt64.toNat_sub] at hfar ⊢
    have := (v + charge).toNat_lt
    have := (frontier s' l - g.sliceNs).toNat_lt
    constructor
    . intro _
      omega
    . intro _
      exact hirrefl

variable (g)

def CreditCovered (s s' : Maps) (l : LlcId) (vtime charge : UInt64) : Prop :=
  if lags g s l vtime then
    FrontierFollows g s s' l vtime charge
  else
    ¬ HalfRangeAhead g s' l (vtime + charge)

variable {g}

theorem clamp_spends_iff {s s' : Maps} {l : LlcId} {v charge : UInt64}
    : vtimeBefore (clampVtime g (frontier s' l) (v + charge))
          (clampVtime g (frontier s l) v + charge) = false
        ↔
      CreditCovered g s s' l v charge := by
  unfold CreditCovered
  split
  . next hlag => apply clamp_after_lag hlag
  . next hlag =>
    rw [Bool.not_eq_true] at hlag
    apply clamp_after_no_lag hlag

theorem spendsCredit_iff {s : Maps} {p p' : TaskStruct} {now : UInt64} {mid : List Event}
    {c : TaskCtx} {l : LlcId} (hc : s.taskCtxs p.tid = some c) (hp : p'.tid = p.tid)
    (hmid : ∀ e ∈ mid, e.inits p.tid = false) (hl : l.toNat < maxLlcs)
    (h₁ : effectiveLlc g s p = l)
    (h₂ : effectiveLlc g (run g (step g s (.enqueue p now)) mid) p' = l)
    : SpendsCredit g s p p' now mid
        ↔
      CreditCovered g s (run g (step g s (.enqueue p now)) mid) l c.vtime
        (charged g p.tid (step g s (.enqueue p now)) mid) := by
  have henq : SameVtime s (step g s (.enqueue p now)) := by
    apply sameVtime_step <;> simp
  have hvtime : vtimeOf (run g (step g s (.enqueue p now)) mid) p.tid
      =
      some (c.vtime + charged g p.tid (step g s (.enqueue p now)) mid) := by
    rw [vtimeOf_run mid _ hmid, henq.vtime]
    simp [vtimeOf, hc]
  obtain ⟨c', hc', hv'⟩ : ∃ c', (run g (step g s (.enqueue p now)) mid).taskCtxs p'.tid = some c'
      ∧ c'.vtime = c.vtime + charged g p.tid (step g s (.enqueue p now)) mid := by
    rw [hp]
    simpa [vtimeOf, Option.map_eq_some_iff] using hvtime
  unfold SpendsCredit
  dsimp only
  rw [enqueueKey_eq hc (by rw [h₁]; exact hl), enqueueKey_eq hc' (by rw [h₂]; exact hl), h₁, h₂, hv']
  apply clamp_spends_iff

section Sleeper

def batchTask : TaskStruct := { tid := 1, pid := 1, tgid := 1, weight := 1 }

def sleeper : TaskStruct := { tid := 2, pid := 2, tgid := 2 }

-- One CPU. Two stints of a task of weight 1 take the frontier to 100 ms while the other task sleeps.
def sleeperPast : List Event :=
  [.initTask batchTask false none true, .initTask sleeper false none true,
    .enqueue batchTask 0, .running batchTask 0, .stopping batchTask 1000000,
    .enqueue batchTask 1000000, .running batchTask 1000000, .stopping batchTask 2000000]

theorem spendsCredit_of_awake
    : SpendsCredit {} (run {} (attached {}) sleeperPast) batchTask batchTask 2000000
        [.running batchTask 2000000, .stopping batchTask 3000000] := by
  apply (spendsCredit_iff (l := 0) rfl rfl (by decide) (by decide) (by decide +kernel)
    (by decide +kernel)).mpr
  unfold CreditCovered HalfRangeAhead FrontierFollows
  decide +kernel

-- The sleeper is queued with the key 95 ms, runs for 1 ms, and is queued with the key 95 ms again.
theorem sleeper_not_spendsCredit
    : effectiveLlc {} (run {} (attached {}) sleeperPast) sleeper = 0
      ∧ ¬ SpendsCredit {} (run {} (attached {}) sleeperPast) sleeper sleeper 2000000
          [.running sleeper 2000000, .stopping sleeper 3000000] := by
  unfold SpendsCredit
  decide +kernel

end Sleeper

end Bpf
