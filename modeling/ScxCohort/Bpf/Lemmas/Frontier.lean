import ScxCohort.Bpf.Lemmas.Admit
import ScxCohort.Bpf.Lemmas.Enqueue

/-!
This module contains how far ahead of an LLC's frontier a task can be queued. A task has one vtime and
every LLC has a frontier of its own, so the answer depends on the LLC whose frontier last followed the
task: the one it last ran on, or the one it was admitted to.
-/

namespace Bpf

variable (g : Globals)

-- Every key that an enqueue inserts is at most the charge of one slice ahead of the frontier.
def QueuesNear (s : Maps) (p : TaskStruct) (now : UInt64) : Prop :=
  ∀ l e, e ∈ (step g s (.enqueue p now)).dsqs l → e ∉ s.dsqs l
    → vtimeBefore (frontier s l + vtimeCharge p g.sliceNs) e.vtime = false

def AllQueuedNear : Maps → List Event → Prop
  | _, [] => True
  | s, e :: es =>
    (∀ p now, e = .enqueue p now → QueuesNear g s p now) ∧ AllQueuedNear (step g s e) es

-- Where a task stands: the LLC whose frontier follows it (none while its vtime is zero), the weight at
-- which it was charged since, and the start of the stint it is in.
structure Seat where
  llc : Option LlcId := none
  charged : Option UInt32 := none
  since : Option UInt64 := none

structure Ledger where
  seats : Tid → Seat := fun _ => {}
  spent : Nat := 0

namespace Ledger

def admitSeat (s s' : Maps) (p : TaskStruct) (seat : Seat) : Seat :=
  match s'.taskCtxs p.tid with
  | none => seat
  | some c =>
    match s'.cohortPolicy.lookup c.cohortId with
    | some policy => { llc := some (safeLlc g policy.homeLlc) }
    | none => if (s.taskCtxs p.tid).isSome then seat else {}

def stopCharge (k : Ledger) (p : TaskStruct) (now : UInt64) : UInt64 :=
  vtimeCharge p (now - (k.seats p.tid).since.getD 0)

def next (s : Maps) (k : Ledger) : Event → Ledger
  | .initTask p fork parent alloc =>
    { k with
      seats := Function.update k.seats p.tid
        (admitSeat g s (step g s (.initTask p fork parent alloc)) p (k.seats p.tid)) }
  | .running p now =>
    { k with
      seats := Function.update k.seats p.tid
        { llc := some (llcOfCpu g p.cpu), since := some now } }
  | .stopping p now =>
    { seats := Function.update k.seats p.tid
        { llc := (k.seats p.tid).llc, charged := some p.weight }
      spent := k.spent + (k.stopCharge p now).toNat }
  | _ => k

end Ledger

-- A task stops only after it ran, for a slice at most; weights are positive.
def stints (k : Ledger) : Event → Bool
  | .stopping p now =>
    1 ≤ p.weight && (k.seats p.tid).since.any fun t₀ => now - t₀ ≤ g.sliceNs
  | .enqueue p _ => 1 ≤ p.weight
  | _ => true

-- The frontier of the LLC that a task is queued on has come as far as the one that followed the task,
-- and the task did not gain weight since it was charged.
def seated (k : Ledger) (s : Maps) : Event → Bool
  | .enqueue p _ =>
    ((k.seats p.tid).llc.all fun l =>
      !vtimeBefore (frontier s (effectiveLlc g s p)) (frontier s l))
      && (k.seats p.tid).charged.all (p.weight ≤ ·)
  | _ => true

-- Virtual time has not come half way around.
def inRange (k : Ledger) : Bool :=
  k.spent + 101 * g.sliceNs.toNat + g.tunables.creditMaxNs.toNat < 2 ^ 63

def allSeated : Ledger → Maps → List Event → Bool
  | k, _, [] => inRange g k
  | k, s, e :: es =>
    inRange g k && stints g k e && seated g k s e && allSeated (k.next g s e) (step g s e) es

variable {g}

section Arithmetic

theorem near_of_le {f v x credit : UInt64} (hle : v.toNat ≤ f.toNat + x.toNat)
    (hrange : f.toNat + x.toNat + g.sliceNs.toNat + credit.toNat < 2 ^ 63)
    : vtimeBefore (f + x) (clampVtime g f v - credit) = false := by
  have hnot : ¬ (2 ^ 63 ≤ ((f + x) - (clampVtime g f v - credit)).toNat) := by
    unfold clampVtime
    split
    . simp only [UInt64.toNat_sub, UInt64.toNat_add]
      omega
    . simp only [UInt64.toNat_sub, UInt64.toNat_add]
      omega
  rw [← Serial.before_iff, Bool.not_eq_true] at hnot
  exact hnot

theorem toNat_vtimeCharge {p : TaskStruct} {d : UInt64} (hd : 100 * d.toNat < 2 ^ 63)
    : (vtimeCharge p d).toNat = d.toNat * 100 / p.weight.toNat := by
  unfold vtimeCharge
  rw [UInt64.toNat_div, UInt64.toNat_mul, UInt32.toNat_toUInt64]
  simp only [UInt64.reduceToNat]
  rw [Nat.mod_eq_of_lt (by omega)]

end Arithmetic

section Invariant

variable (g)

def Seat.slack (seat : Seat) : Nat :=
  match seat.charged with
  | some w => g.sliceNs.toNat * 100 / w.toNat
  | none => 0

-- A task with vtime `v` is at most its slack ahead of the frontier that follows it.
structure Seat.Follows (seat : Seat) (s : Maps) (spent : Nat) (v lastRunAt : UInt64) : Prop where
  spent : v.toNat ≤ spent
  ahead : ∀ l, seat.llc = some l → v.toNat ≤ (frontier s l).toNat + seat.slack g
  zero : seat.llc = none → v = 0
  since : ∀ t₀, seat.since = some t₀ → lastRunAt = t₀ ∧ seat.llc ≠ none ∧ seat.charged = none

structure Ledger.Follows (k : Ledger) (s : Maps) : Prop where
  frontier : ∀ l, (Bpf.frontier s l).toNat ≤ k.spent
  seats : ∀ t v lastRunAt, clockOf s t = some (v, lastRunAt)
    → (k.seats t).Follows g s k.spent v lastRunAt

variable {g}

theorem Seat.Follows.mono {seat : Seat} {s s' : Maps} {spent spent' : Nat} {v lastRunAt : UInt64}
    (h : seat.Follows g s spent v lastRunAt) (hspent : spent ≤ spent')
    (hfrontier : ∀ l, (frontier s l).toNat ≤ (frontier s' l).toNat)
    : seat.Follows g s' spent' v lastRunAt := by
  constructor
  . exact Nat.le_trans h.spent hspent
  . intro l hl
    have := h.ahead l hl
    have := hfrontier l
    omega
  . exact h.zero
  . exact h.since

variable {k : Ledger} {s : Maps} {p : TaskStruct} {now : UInt64}

theorem Ledger.Follows.of_sameVtime {s' : Maps} (h : k.Follows g s) (hsame : SameVtime s s')
    : k.Follows g s' := by
  have hfrontier : ∀ l, Bpf.frontier s' l = Bpf.frontier s l := hsame.llc
  constructor
  . intro l
    rw [hfrontier]
    exact h.frontier l
  . intro t v r hclock
    rw [hsame.task] at hclock
    apply (h.seats t v r hclock).mono (Nat.le_refl _)
    intro l
    rw [hfrontier]

theorem follows_initTask {fork : Bool} {parent : Option TaskStruct} {alloc : Bool}
    (hg : g.nrLlcs.toNat ≤ maxLlcs) (h : k.Follows g s)
    : (k.next g s (.initTask p fork parent alloc)).Follows g
        (step g s (.initTask p fork parent alloc)) := by
  have hsame : SameVtimeBut p.tid s (step g s (.initTask p fork parent alloc)) :=
    sameVtimeBut_step_initTask
  have hfrontier : ∀ l, frontier (step g s (.initTask p fork parent alloc)) l = frontier s l :=
    hsame.llc
  have hold : ∀ t v r, clockOf s t = some (v, r)
      → (k.seats t).Follows g (step g s (.initTask p fork parent alloc)) k.spent v r := by
    intro t v r hclock
    apply (h.seats t v r hclock).mono (Nat.le_refl _)
    intro l
    rw [hfrontier]
  constructor
  . intro l
    rw [hfrontier]
    exact h.frontier l
  . intro t v r hclock
    simp only [Ledger.next, Function.update_apply]
    split
    . next heq =>
      subst heq
      obtain ⟨c, hc, hvr⟩ := Option.map_eq_some_iff.mp hclock
      simp only [Prod.mk.injEq] at hvr
      obtain ⟨rfl, rfl⟩ := hvr
      have hstart := clockOf_step_initTask g hg hc
      simp only [Ledger.admitSeat, hc]
      cases hpolicy : (step g s (.initTask p fork parent alloc)).cohortPolicy.lookup c.cohortId with
      | some policy =>
        simp only [hpolicy] at hstart ⊢
        constructor
        . rw [hstart, hfrontier]
          apply h.frontier
        . intro l hl
          simp only [Option.some.injEq] at hl
          rw [hstart, hl]
          omega
        . intro hnone
          contradiction
        . intro t₀ hsince
          contradiction
      | none =>
        simp only [hpolicy] at hstart ⊢
        cases hstart with
        | inl hclock' =>
          have hsome : (s.taskCtxs p.tid).isSome = true := by
            unfold clockOf at hclock'
            cases hs : s.taskCtxs p.tid with
            | none => simp [hs] at hclock'
            | some c' => rfl
          rw [if_pos hsome]
          exact hold _ _ _ hclock'
        | inr hnew =>
          rw [if_neg (by simp [hnew.1]), hnew.2]
          constructor
          . apply Nat.zero_le
          . intro l hl
            contradiction
          . intro _
            rfl
          . intro t₀ hsince
            contradiction
    . next hne =>
      rw [hsame.task t hne] at hclock
      exact hold t v r hclock

theorem frontier_step_running_toNat {c : TaskCtx} (hg : g.nrLlcs.toNat ≤ maxLlcs)
    (hc : s.taskCtxs p.tid = some c) (hv : c.vtime.toNat < 2 ^ 63)
    (hf : ∀ l, (frontier s l).toNat < 2 ^ 63) (l : LlcId)
    : (frontier (step g s (.running p now)) l).toNat
        =
      if l = llcOfCpu g p.cpu then
        max (frontier s l).toNat c.vtime.toNat
      else
        (frontier s l).toNat := by
  rw [frontier_step_running hc (llcOfCpu_lt g hg _)]
  have hbefore : vtimeBefore (frontier s l) c.vtime = true
      ↔ (frontier s l).toNat < c.vtime.toNat := Serial.before_of_lt (hf l) hv
  by_cases hl : l = llcOfCpu g p.cpu
  . rw [if_pos hl]
    split
    . next h =>
      have := hbefore.mp h.2
      omega
    . next h =>
      have : ¬ ((frontier s l).toNat < c.vtime.toNat) := by
        intro hlt
        exact h ⟨hl, hbefore.mpr hlt⟩
      omega
  . rw [if_neg hl, if_neg]
    intro h
    exact hl h.1

theorem follows_running (hg : g.nrLlcs.toNat ≤ maxLlcs) (h : k.Follows g s)
    (hrange : inRange g k = true)
    : (k.next g s (.running p now)).Follows g (step g s (.running p now)) := by
  simp only [inRange, decide_eq_true_eq] at hrange
  cases hc : s.taskCtxs p.tid with
  | none =>
    have hsame : SameVtime s (step g s (.running p now)) := sameVtime_step_running_of_none hc
    have h' := h.of_sameVtime hsame
    refine ⟨h'.frontier, ?_⟩
    intro t v r hclock
    have hne : t ≠ p.tid := by
      intro heq
      rw [hsame.task, heq] at hclock
      simp [clockOf, hc] at hclock
    simp only [Ledger.next, Function.update_of_ne hne]
    exact h'.seats t v r hclock
  | some c =>
    have hclock : clockOf s p.tid = some (c.vtime, c.lastRunAt) := by
      simp [clockOf, hc]
    have hv := (h.seats _ _ _ hclock).spent
    have hf : ∀ l, (frontier s l).toNat < 2 ^ 63 := by
      intro l
      have := h.frontier l
      omega
    have hstep : ∀ l, (frontier (step g s (.running p now)) l).toNat
        = if l = llcOfCpu g p.cpu then max (frontier s l).toNat c.vtime.toNat
          else (frontier s l).toNat :=
      frontier_step_running_toNat hg hc (by omega) hf
    constructor
    . intro l
      rw [hstep]
      have := h.frontier l
      simp only [Ledger.next]
      split <;> omega
    . intro t v r hclock'
      rw [clockOf_step_running hc] at hclock'
      simp only [Ledger.next, Function.update_apply]
      split at hclock'
      . next heq =>
        simp only [Option.some.injEq, Prod.mk.injEq] at hclock'
        obtain ⟨rfl, rfl⟩ := hclock'
        rw [if_pos heq]
        constructor
        . exact hv
        . intro l hl
          simp only [Option.some.injEq] at hl
          rw [hstep, if_pos hl.symm]
          omega
        . intro hnone
          contradiction
        . intro t₀ hsince
          simp only [Option.some.injEq] at hsince
          simp [hsince]
      . next hne =>
        rw [if_neg hne]
        apply (h.seats t v r hclock').mono (Nat.le_refl _)
        intro l
        rw [hstep]
        split <;> omega

theorem follows_stopping (h : k.Follows g s) (hstint : stints g k (.stopping p now) = true)
    (hrange : inRange g (k.next g s (.stopping p now)) = true)
    : (k.next g s (.stopping p now)).Follows g (step g s (.stopping p now)) := by
  simp only [stints, Bool.and_eq_true, Option.any_eq_true, decide_eq_true_eq] at hstint
  obtain ⟨_, t₀, hsince, hdelta⟩ := hstint
  rw [inRange, decide_eq_true_eq] at hrange
  simp only [Ledger.next] at hrange
  have hspent : k.spent ≤ k.spent + (k.stopCharge p now).toNat := Nat.le_add_right _ _
  cases hc : s.taskCtxs p.tid with
  | none =>
    have hsame : SameVtime s (step g s (.stopping p now)) := sameVtime_step_stopping_of_none hc
    have h' := h.of_sameVtime hsame
    constructor
    . intro l
      exact Nat.le_trans (h'.frontier l) hspent
    . intro t v r hclock
      have hne : t ≠ p.tid := by
        intro heq
        rw [hsame.task, heq] at hclock
        simp [clockOf, hc] at hclock
      simp only [Ledger.next, Function.update_of_ne hne]
      exact (h'.seats t v r hclock).mono hspent (fun _ => Nat.le_refl _)
  | some c =>
    have hclock : clockOf s p.tid = some (c.vtime, c.lastRunAt) := by
      simp [clockOf, hc]
    have hseat := h.seats _ _ _ hclock
    obtain ⟨hlast, hllc, hcharged⟩ := hseat.since t₀ hsince
    have hfrontier : ∀ l, frontier (step g s (.stopping p now)) l = frontier s l :=
      frontier_step_stopping hc
    have hcharge : k.stopCharge p now = vtimeCharge p (now - c.lastRunAt) := by
      simp [Ledger.stopCharge, hsince, hlast]
    have hbound : (vtimeCharge p (now - c.lastRunAt)).toNat
        ≤ g.sliceNs.toNat * 100 / p.weight.toNat := by
      rw [UInt64.le_iff_toNat_le, ← hlast] at hdelta
      rw [toNat_vtimeCharge (by omega)]
      apply Nat.div_le_div_right
      omega
    have hadd : (c.vtime + vtimeCharge p (now - c.lastRunAt)).toNat
        = c.vtime.toNat + (vtimeCharge p (now - c.lastRunAt)).toNat := by
      have := hseat.spent
      rw [hcharge] at hrange
      rw [UInt64.toNat_add]
      apply Nat.mod_eq_of_lt
      omega
    constructor
    . intro l
      rw [hfrontier]
      exact Nat.le_trans (h.frontier l) hspent
    . intro t v r hclock'
      rw [clockOf_step_stopping hc] at hclock'
      simp only [Ledger.next, Function.update_apply]
      split at hclock'
      . next heq =>
        simp only [Option.some.injEq, Prod.mk.injEq] at hclock'
        obtain ⟨rfl, rfl⟩ := hclock'
        rw [if_pos heq]
        constructor
        . rw [hadd, hcharge]
          have := hseat.spent
          omega
        . intro l hl
          have hahead := hseat.ahead l hl
          simp only [Seat.slack, hcharged] at hahead
          rw [hadd, hfrontier]
          simp only [Seat.slack]
          omega
        . intro hnone
          exact absurd hnone hllc
        . intro t₀ hsince
          contradiction
      . next hne =>
        rw [if_neg hne]
        apply (h.seats t v r hclock').mono hspent
        intro l
        rw [hfrontier]

theorem follows_step {e : Event} (hg : g.nrLlcs.toNat ≤ maxLlcs) (h : k.Follows g s)
    (hstint : stints g k e = true) (hrange : inRange g k = true) (hrange' : inRange g (k.next g s e) = true)
    : (k.next g s e).Follows g (step g s e) := by
  cases e with
  | initTask p fork parent alloc => apply follows_initTask hg h
  | running p now => apply follows_running hg h hrange
  | stopping p now => apply follows_stopping h hstint hrange'
  | _ =>
    apply h.of_sameVtime
    apply sameVtime_step <;> simp

theorem slack_le (hweight : 1 ≤ p.weight) {seat : Seat}
    (hgain : ∀ w, seat.charged = some w → p.weight ≤ w)
    : seat.slack g ≤ g.sliceNs.toNat * 100 / p.weight.toNat := by
  unfold Seat.slack
  split
  . next w hw =>
    have hle := hgain w hw
    rw [UInt32.le_iff_toNat_le] at hle hweight
    simp only [UInt32.reduceToNat] at hweight
    apply Nat.div_le_div_left hle
    omega
  . apply Nat.zero_le

-- The stored vtime of a seated task is at most one charge ahead of the frontier it is queued behind.
theorem vtime_le_of_seated {c : TaskCtx} (h : k.Follows g s) (hrange : inRange g k = true)
    (hc : s.taskCtxs p.tid = some c) (hweight : 1 ≤ p.weight)
    (hseated : seated g k s (.enqueue p now) = true)
    : c.vtime.toNat
        ≤ (frontier s (effectiveLlc g s p)).toNat + g.sliceNs.toNat * 100 / p.weight.toNat := by
  simp only [inRange, decide_eq_true_eq] at hrange
  simp only [seated, Bool.and_eq_true, Option.all_eq_true, decide_eq_true_eq] at hseated
  have hclock : clockOf s p.tid = some (c.vtime, c.lastRunAt) := by
    simp [clockOf, hc]
  have hseat := h.seats _ _ _ hclock
  cases hllc : (k.seats p.tid).llc with
  | none =>
    rw [hseat.zero hllc]
    apply Nat.zero_le
  | some l =>
    have hahead := hseat.ahead l hllc
    have hslack := slack_le (g := g) hweight hseated.2
    have hcome : ¬ ((frontier s (effectiveLlc g s p)).toNat < (frontier s l).toNat) := by
      have := h.frontier l
      have := h.frontier (effectiveLlc g s p)
      intro hlt
      have hbefore := (Serial.before_of_lt (by omega) (by omega)).mpr hlt
      have hnot := hseated.1 l hllc
      rw [Bool.not_eq_true'] at hnot
      unfold vtimeBefore at hnot
      unfold Serial.before at hbefore
      rw [hnot] at hbefore
      contradiction
    omega

theorem interactiveCredit_le (c : TaskCtx)
    : (interactiveCredit g c).toNat ≤ g.tunables.creditMaxNs.toNat := by
  unfold interactiveCredit
  split
  . apply Nat.le_refl
  . apply Nat.zero_le

theorem queuesNear_of_seated (hg : g.nrLlcs.toNat ≤ maxLlcs) (h : k.Follows g s)
    (hrange : inRange g k = true) (hstint : stints g k (.enqueue p now) = true)
    (hseated : seated g k s (.enqueue p now) = true)
    : QueuesNear g s p now := by
  have hcharge : (vtimeCharge p g.sliceNs).toNat = g.sliceNs.toNat * 100 / p.weight.toNat := by
    apply toNat_vtimeCharge
    simp only [inRange, decide_eq_true_eq] at hrange
    omega
  have hcharge_le : g.sliceNs.toNat * 100 / p.weight.toNat ≤ g.sliceNs.toNat * 100 :=
    Nat.div_le_self _ _
  intro l e hmem hnew
  cases hc : s.taskCtxs p.tid with
  | none =>
    rw [dsqs_step_enqueue_none hc (llcOfCpu_lt g hg _), Function.update_apply] at hmem
    split at hmem
    . next heq =>
      subst heq
      rw [mem_dsqInsertVtime] at hmem
      cases hmem with
      | inl hentry =>
        have hf := h.frontier (llcOfCpu g p.cpu)
        simp only [inRange, decide_eq_true_eq] at hrange
        rw [hentry, ← UInt64.sub_zero (clampVtime _ _ _)]
        apply near_of_le
        . omega
        . rw [hcharge, UInt64.toNat_zero]
          omega
      | inr hold => exact absurd hold hnew
    . exact absurd hmem hnew
  | some c =>
    have hl := effectiveLlc_lt g hg s p
    rw [dsqs_step_enqueue hc hl, Function.update_apply] at hmem
    split at hmem
    . next heq =>
      subst heq
      rw [mem_dsqInsertVtime] at hmem
      cases hmem with
      | inl hentry =>
        have hf := h.frontier (effectiveLlc g s p)
        have hle := vtime_le_of_seated h hrange hc (by simpa [stints] using hstint) hseated
        have hcredit := interactiveCredit_le (g := g) c
        simp only [inRange, decide_eq_true_eq] at hrange
        rw [hentry, enqueueKey_eq hc hl]
        apply near_of_le
        . rw [hcharge]
          exact hle
        . rw [hcharge]
          omega
      | inr hold => exact absurd hold hnew
    . exact absurd hmem hnew

theorem inRange_of_allSeated {es : List Event} (h : allSeated g k s es = true)
    : inRange g k = true := by
  cases es with
  | nil => exact h
  | cons e es =>
    simp only [allSeated, Bool.and_eq_true] at h
    exact h.1.1.1

theorem allQueuedNear_of_follows (hg : g.nrLlcs.toNat ≤ maxLlcs) (es : List Event)
    (h : k.Follows g s) (hall : allSeated g k s es = true)
    : AllQueuedNear g s es := by
  induction es generalizing k s with
  | nil => trivial
  | cons e es ih =>
    simp only [allSeated, Bool.and_eq_true] at hall
    obtain ⟨⟨⟨hrange, hstint⟩, hseated⟩, hrest⟩ := hall
    constructor
    . intro p now heq
      subst heq
      apply queuesNear_of_seated hg h hrange hstint hseated
    . apply ih _ hrest
      apply follows_step hg h hstint hrange
      exact inRange_of_allSeated hrest

end Invariant

theorem follows_attached (g : Globals) : ({} : Ledger).Follows g (attached g) := by
  rw [attached_eq]
  constructor
  . intro l
    unfold frontier attachedUpTo
    dsimp only
    split <;> apply Nat.zero_le
  . intro t v r hclock
    contradiction

theorem allQueuedNear_of_allSeated {es : List Event} (hg : g.nrLlcs.toNat ≤ maxLlcs)
    (hall : allSeated g {} (attached g) es = true)
    : AllQueuedNear g (attached g) es :=
  allQueuedNear_of_follows hg es (follows_attached g) hall

section TwoLlcs

def twoLlcs : Globals :=
  { nrCpus := 2, nrLlcs := 2, cpuLlcId := fun cpu => if cpu = 1 then 1 else 0 }

def heavy : TaskStruct :=
  { tid := 1, pid := 1, tgid := 1, weight := 1, cpusPtr := {0, 1}, nrCpusAllowed := 2 }

def neighbour : TaskStruct :=
  { tid := 2, pid := 2, tgid := 2, weight := 1, cpu := 1, cpusPtr := {0, 1}, nrCpusAllowed := 2 }

-- The task of another cohort takes the frontier of LLC 1 to 500 ms, where that of LLC 0 stays at 0. Then
-- the task that has run for as long on LLC 0 is moved there, and runs on.
theorem allQueuedNear_after_move
    : let es : List Event :=
        [.initTask heavy false none true, .initTask neighbour false none true, .enqueue neighbour 0,
          .running neighbour 0, .stopping neighbour 5000000, .enqueue neighbour 5000000,
          .running neighbour 5000000, .stopping neighbour 10000000, .enqueue heavy 0, .running heavy 0,
          .stopping heavy 5000000, .setPolicy 1 { homeLlc := 1 } .exist, .enqueue heavy 10000000,
          .running { heavy with cpu := 1 } 10000000, .stopping { heavy with cpu := 1 } 15000000,
          .enqueue { heavy with cpu := 1 } 15000000]
      ((run twoLlcs (attached twoLlcs) es).dsqs 1).map (·.vtime) = [0, 500000000, 500000000, 1000000000]
        ∧ AllQueuedNear twoLlcs (attached twoLlcs) es := by
  refine ⟨by decide +kernel, ?_⟩
  apply allQueuedNear_of_allSeated
  . decide
  . decide +kernel

-- Two stints on LLC 0 take the task to 1 s. The daemon moves its cohort to LLC 1, where nothing has
-- run: the task is queued 1 s ahead of a frontier it may be ahead of by 500 ms.
theorem moved_not_allQueuedNear
    : ¬ AllQueuedNear twoLlcs (attached twoLlcs)
        [.initTask heavy false none true, .enqueue heavy 0, .running heavy 0,
          .stopping heavy 5000000, .enqueue heavy 5000000, .running heavy 5000000,
          .stopping heavy 10000000, .setPolicy 1 { homeLlc := 1 } .exist,
          .enqueue heavy 10000000] := by
  intro h
  have hnear := h.2.2.2.2.2.2.2.2.1 heavy 10000000 rfl 1 ⟨1, 1000000000, 10000000⟩
    (by decide +kernel) (by decide +kernel)
  revert hnear
  decide +kernel

end TwoLlcs

end Bpf
