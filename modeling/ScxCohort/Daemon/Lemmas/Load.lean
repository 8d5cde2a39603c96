import Mathlib
import ScxCohort.Bpf.Lemmas.Vtime
import ScxCohort.Daemon.Lemmas.Survey

/-!
This module contains how the load that the daemon reads relates to the capacity it compares it with.
Capacity is CPU time; a stint is charged in proportion to the weight of its task, so it is not charged
more than the time it took only up to the default weight.
-/

namespace Bpf

def loadSumOf (s : Maps) (id : CohortId) : Option UInt64 :=
  (s.cohortCounters.lookup id).map (·.loadSum)

structure SameLoad (s s' : Maps) : Prop where
  llc : s'.llcLoad = s.llcLoad
  cohort : ∀ id, loadSumOf s' id = loadSumOf s id

namespace SameLoad

theorem refl (s : Maps) : SameLoad s s := ⟨rfl, fun _ => rfl⟩

theorem trans (a b c : Maps) (h : SameLoad a b) (h' : SameLoad b c) : SameLoad a c := by
  constructor
  . rw [h'.llc, h.llc]
  . intro id
    rw [h'.cohort, h.cohort]

theorem keepsPlacement : KeepsPlacement SameLoad where
  refl := refl
  tctxErr := fun _ => ⟨rfl, fun _ => rfl⟩
  tctx := fun _ _ _ _ => ⟨rfl, fun _ => rfl⟩

end SameLoad

section Charge

variable {g : Globals} {p : TaskStruct} {now : UInt64} {s : Maps} {c : TaskCtx}

theorem sameLoad_step_running : SameLoad s (step g s (.running p now)) := by
  apply Proc.Keeps.run _ SameLoad.refl SameLoad.trans
  simp only [Event.prog]
  unfold cohortRunning
  apply Proc.keeps_bind SameLoad.keepsPlacement.lookupTaskCtx
  intro tctx
  apply Proc.keeps_bind (keeps_load SameLoad.refl)
  intro llcx
  split
  . trivial
  . apply Proc.keeps_bind (keeps_store fun _ => ⟨rfl, fun _ => rfl⟩)
    intro _
    apply Proc.keeps_bind (keeps_load SameLoad.refl)
    intro c
    unfold advanceFrontier
    split
    . dsimp only
      split
      . apply keeps_store
        intro s
        exact ⟨rfl, fun _ => rfl⟩
      . trivial
    . trivial

theorem sameLoad_step_stopping_of_none (hc : s.taskCtxs p.tid = none)
    : SameLoad s (step g s (.stopping p now)) := by
  have hlook := (SameLoad.keepsPlacement.lookupTaskCtx (p := p)).run SameLoad.refl SameLoad.trans s
  simp only [step, Event.prog, cohortStopping, Proc.run_bind]
  rw [run_lookupTaskCtx_none hc]
  exact hlook

theorem loadSumOf_modify (s : Maps) (id id' : CohortId) (x : UInt64)
    : loadSumOf
        { s with
          cohortCounters := s.cohortCounters.modify id fun c => { c with loadSum := c.loadSum + x } }
        id'
        =
      (loadSumOf s id').map fun load => if id' = id then load + x else load := by
  unfold loadSumOf
  dsimp only
  rw [BoundedMap.lookup_modify]
  cases s.cohortCounters.lookup id' with
  | none => simp
  | some c => by_cases heq : id' = id <;> simp [heq]

theorem run_chargeCohort {t : Tid} {x : UInt64} (hc : s.taskCtxs t = some c)
    : SameLoad
        { s with
          cohortCounters := s.cohortCounters.modify c.cohortId fun c =>
            { c with loadSum := c.loadSum + x } }
        ((chargeCohort t x).run s).2 := by
  unfold chargeCohort
  simp only [Proc.run_bind, run_readTctx, run_lookupCounters, hc, Option.getD_some]
  cases hlookup : s.cohortCounters.lookup c.cohortId with
  | some counters => exact SameLoad.refl _
  | none =>
    refine ⟨rfl, ?_⟩
    intro id
    rw [loadSumOf_modify]
    show loadSumOf s id = _
    by_cases heq : id = c.cohortId
    . have hnone : loadSumOf s id = none := by
        unfold loadSumOf
        rw [heq, hlookup]
        rfl
      rw [hnone]
      rfl
    . simp [heq]

theorem sameLoad_chargeTaskStat (p : TaskStruct) (t : Tid) (llc : LlcId) (delta : UInt64)
    (s : Maps)
    : SameLoad s ((chargeTaskStat p t llc delta).run s).2 := by
  apply Proc.Keeps.run _ SameLoad.refl SameLoad.trans
  unfold chargeTaskStat
  apply Proc.keeps_bind (keeps_load SameLoad.refl)
  intro ts
  split
  . trivial
  . apply Proc.keeps_bind (keeps_load SameLoad.refl)
    intro c
    apply keeps_store
    intro s
    exact ⟨rfl, fun _ => rfl⟩

-- What one stop adds to the load of LLC `l` and to the load of cohort `id`.
theorem load_step_stopping (hc : s.taskCtxs p.tid = some c)
    : (∀ l, (step g s (.stopping p now)).llcLoad l
        = s.llcLoad l
          + if l = llcOfCpu g p.cpu ∧ l.toNat < maxLlcs then scaledCharge p (now - c.lastRunAt) else 0)
      ∧ ∀ id, loadSumOf (step g s (.stopping p now)) id
          = (loadSumOf s id).map fun load =>
              if id = c.cohortId then load + scaledCharge p (now - c.lastRunAt) else load := by
  simp only [step, Event.prog]
  rw [run_cohortStopping hc]
  generalize hd : now - c.lastRunAt = delta
  let s₁ : Maps := { s with taskCtxs := Function.update s.taskCtxs p.tid (some (stops p delta c)) }
  have hc₁ : s₁.taskCtxs p.tid = some (stops p delta c) := Function.update_self _ _ _
  have hcohort := run_chargeCohort (x := scaledCharge p delta) hc₁
  simp only [accountStop, Proc.run_bind]
  generalize ((chargeCohort p.tid (scaledCharge p delta)).run s₁).2 = s₂ at hcohort
  have hstat := sameLoad_chargeTaskStat p p.tid (llcOfCpu g p.cpu) delta
    ((chargeLlc (llcOfCpu g p.cpu) (scaledCharge p delta)).run s₂).2
  constructor
  . intro l
    rw [hstat.llc]
    unfold chargeLlc
    simp only [run_store]
    split
    . next hlt =>
      simp only [Function.update_apply]
      split
      . next heq => rw [← heq, hcohort.llc, if_pos ⟨rfl, by rw [heq]; exact hlt⟩]
      . next hne => rw [hcohort.llc, if_neg (fun h => hne h.1), UInt64.add_zero]
    . next hge =>
      rw [hcohort.llc, if_neg, UInt64.add_zero]
      intro h
      rw [h.1] at h
      exact hge h.2
  . intro id
    rw [hstat.cohort]
    have hllc : loadSumOf ((chargeLlc (llcOfCpu g p.cpu) (scaledCharge p delta)).run s₂).2 id
        = loadSumOf s₂ id := by
      unfold chargeLlc
      simp only [run_store]
      split <;> rfl
    rw [hllc, hcohort.cohort, loadSumOf_modify]
    rfl

theorem scaledCharge_le {delta : UInt64} (hw : p.weight ≤ 100)
    : (scaledCharge p delta).toNat ≤ delta.toNat := by
  unfold scaledCharge
  rw [UInt64.toNat_div, UInt64.toNat_mul, UInt32.toNat_toUInt64]
  rw [UInt32.le_iff_toNat_le] at hw
  have hw' : p.weight.toNat ≤ 100 := hw
  have hmul : delta.toNat * p.weight.toNat ≤ delta.toNat * 100 := Nat.mul_le_mul_left _ hw'
  have hmod : delta.toNat * p.weight.toNat % 2 ^ 64 ≤ delta.toNat * p.weight.toNat :=
    Nat.mod_le _ _
  simp only [UInt64.reduceToNat]
  omega

end Charge

section Occupancy

-- Who runs on each CPU since when, and up to when the CPU's stints have been accounted for.
structure Occupancy where
  task : Nat → Option (Tid × UInt64) := fun _ => none
  upTo : Nat → UInt64

def Occupancy.next (o : Occupancy) : Event → Occupancy
  | .running p now => { o with task := Function.update o.task p.cpu.toNat (some (p.tid, now)) }
  | .stopping p now =>
    { task := Function.update o.task p.cpu.toNat none
      upTo := Function.update o.upTo p.cpu.toNat now }
  | _ => o

structure Interval where
  start : UInt64
  tickNs : UInt64

def Interval.contains (iv : Interval) (now : UInt64) : Bool :=
  iv.start ≤ now ∧ now.toNat ≤ iv.start.toNat + iv.tickNs.toNat

variable (g : Globals) (llc : LlcId) (iv : Interval)

def onLlc (p : TaskStruct) : Bool := 0 ≤ p.cpu ∧ p.cpu.toNat ∈ llcMask g llc

-- A CPU runs one task at a time, a task runs on one CPU at a time, and a stint is in the interval.
def allowed (o : Occupancy) : Event → Bool
  | .running p now =>
    onLlc g llc p && iv.contains now && (o.task p.cpu.toNat).isNone && o.upTo p.cpu.toNat ≤ now
      && decide (∀ cpu ∈ llcMask g llc, (o.task cpu).all fun q => q.1 ≠ p.tid)
  | .stopping p now =>
    onLlc g llc p && iv.contains now && 1 ≤ p.weight && p.weight ≤ 10000
      && (o.task p.cpu.toNat).any fun q => q.1 = p.tid && q.2 ≤ now
  | _ => false

def allAllowed : Occupancy → List Event → Bool
  | _, [] => true
  | o, e :: es => allowed g llc iv o e && allAllowed (o.next e) es

def defaultWeight : Event → Bool
  | .stopping p _ => p.weight ≤ 100
  | _ => true

-- `total` nanoseconds were charged since `s₀`, and `charged id` of them to cohort `id`.
structure Metered (s₀ : Maps) (o : Occupancy) (s : Maps) (total : Nat) (charged : CohortId → Nat)
    : Prop where
  total_le : total ≤ ∑ cpu ∈ llcMask g llc, ((o.upTo cpu).toNat - iv.start.toNat)
  upTo : ∀ cpu ∈ llcMask g llc, iv.contains (o.upTo cpu) = true
  task : ∀ cpu ∈ llcMask g llc, ∀ t since, o.task cpu = some (t, since)
    → o.upTo cpu ≤ since ∧ ∀ v r, clockOf s t = some (v, r) → r = since
  llc : ∃ n ≤ total, s.llcLoad llc = s₀.llcLoad llc + UInt64.ofNat n
  cohort : ∀ id, loadSumOf s id = (loadSumOf s₀ id).map (· + UInt64.ofNat (charged id))
  charged_le : ∀ ids : Finset CohortId, ∑ id ∈ ids, charged id ≤ total

variable {g llc iv} {s₀ s : Maps} {o : Occupancy} {total : Nat} {charged : CohortId → Nat}

theorem metered_start (s₀ : Maps)
    : Metered g llc iv s₀ { upTo := fun _ => iv.start } s₀ 0 fun _ => 0 := by
  constructor
  . apply Nat.zero_le
  . intro cpu _
    simp [Interval.contains]
  . intro cpu _ t since h
    contradiction
  . exact ⟨0, Nat.le_refl 0, by simp⟩
  . intro id
    cases loadSumOf s₀ id <;> simp
  . intro ids
    simp

theorem Metered.le_capacity (h : Metered g llc iv s₀ o s total charged)
    : total ≤ (llcMask g llc).card * iv.tickNs.toNat := by
  apply Nat.le_trans h.total_le
  rw [← smul_eq_mul]
  apply Finset.sum_le_card_nsmul
  intro cpu hcpu
  have := h.upTo cpu hcpu
  simp only [Interval.contains, Bool.decide_and, Bool.and_eq_true, decide_eq_true_eq] at this
  omega

variable {p : TaskStruct} {now : UInt64}

theorem metered_running (h : Metered g llc iv s₀ o s total charged)
    (hallowed : allowed g llc iv o (.running p now) = true)
    : Metered g llc iv s₀ (o.next (.running p now)) (step g s (.running p now)) total charged := by
  simp only [allowed, Bool.and_eq_true, decide_eq_true_eq] at hallowed
  obtain ⟨⟨⟨⟨hon, hnow⟩, hfree⟩, hupTo⟩, helsewhere⟩ := hallowed
  have hsame : SameLoad s (step g s (.running p now)) := sameLoad_step_running
  have hclock : ∀ t v r, clockOf (step g s (.running p now)) t = some (v, r)
      → if t = p.tid then r = now else clockOf s t = some (v, r) := by
    intro t v r hv
    cases hc : s.taskCtxs p.tid with
    | none =>
      have hsame : SameVtime s (step g s (.running p now)) := sameVtime_step_running_of_none hc
      rw [hsame.task] at hv
      split
      . next heq =>
        rw [heq] at hv
        simp [clockOf, hc] at hv
      . exact hv
    | some c =>
      rw [clockOf_step_running hc] at hv
      split at hv
      . next heq =>
        rw [if_pos heq]
        simp only [Option.some.injEq, Prod.mk.injEq] at hv
        exact hv.2.symm
      . next hne =>
        rw [if_neg hne]
        exact hv
  constructor
  . exact h.total_le
  . exact h.upTo
  . intro cpu hcpu t since htask
    simp only [Occupancy.next, Function.update_apply] at htask ⊢
    split at htask
    . next heq =>
      simp only [Option.some.injEq, Prod.mk.injEq] at htask
      obtain ⟨rfl, rfl⟩ := htask
      rw [heq]
      refine ⟨hupTo, ?_⟩
      intro v r hv
      simpa using hclock _ v r hv
    . have hne : t ≠ p.tid := by
        have := helsewhere cpu hcpu
        rw [htask] at this
        simpa using this
      obtain ⟨hle, hr⟩ := h.task cpu hcpu t since htask
      refine ⟨hle, ?_⟩
      intro v r hv
      have := hclock t v r hv
      rw [if_neg hne] at this
      exact hr v r this
  . rw [hsame.llc]
    exact h.llc
  . intro id
    rw [hsame.cohort]
    exact h.cohort id
  . exact h.charged_le

theorem sum_upTo_stopping {cpu : Nat} (hcpu : cpu ∈ llcMask g llc) (hstart : iv.start ≤ o.upTo cpu)
    (hle : o.upTo cpu ≤ now)
    : ∑ c ∈ llcMask g llc, ((Function.update o.upTo cpu now c).toNat - iv.start.toNat)
        =
      (∑ c ∈ llcMask g llc, ((o.upTo c).toNat - iv.start.toNat))
        + (now.toNat - (o.upTo cpu).toNat) := by
  rw [← Finset.add_sum_erase _ _ hcpu, ← Finset.add_sum_erase _ _ hcpu, Function.update_self]
  have hrest : ∑ c ∈ (llcMask g llc).erase cpu,
        ((Function.update o.upTo cpu now c).toNat - iv.start.toNat)
      = ∑ c ∈ (llcMask g llc).erase cpu, ((o.upTo c).toNat - iv.start.toNat) := by
    apply Finset.sum_congr rfl
    intro c hc
    rw [Function.update_of_ne (Finset.ne_of_mem_erase hc)]
  rw [hrest]
  rw [UInt64.le_iff_toNat_le] at hstart hle
  omega

-- Stopping charges nothing to a task without a context, and at most the stint to any other.
theorem stop_cases {since : UInt64} (hw : p.weight ≤ 100) (hsince : since ≤ now)
    (hr : ∀ v r, clockOf s p.tid = some (v, r) → r = since)
    : SameLoad s (step g s (.stopping p now))
      ∨ ∃ (id₀ : CohortId) (x : UInt64), x.toNat ≤ now.toNat - since.toNat
        ∧ (∀ l, (step g s (.stopping p now)).llcLoad l
            = s.llcLoad l + if l = llcOfCpu g p.cpu ∧ l.toNat < maxLlcs then x else 0)
        ∧ ∀ id, loadSumOf (step g s (.stopping p now)) id
            = (loadSumOf s id).map fun load => if id = id₀ then load + x else load := by
  cases hc : s.taskCtxs p.tid with
  | none => exact .inl (sameLoad_step_stopping_of_none hc)
  | some c =>
    right
    have hlast : c.lastRunAt = since := by
      apply hr c.vtime
      simp [clockOf, hc]
    refine ⟨c.cohortId, scaledCharge p (now - c.lastRunAt), ?_, load_step_stopping hc⟩
    apply Nat.le_trans (scaledCharge_le hw)
    rw [hlast, UInt64.toNat_sub_of_le _ _ hsince]

theorem clockOf_stopping {t : Tid} {v r : UInt64}
    (h : clockOf (step g s (.stopping p now)) t = some (v, r))
    : ∃ v', clockOf s t = some (v', r) := by
  cases hc : s.taskCtxs p.tid with
  | none =>
    have hsame : SameVtime s (step g s (.stopping p now)) := sameVtime_step_stopping_of_none hc
    rw [hsame.task] at h
    exact ⟨v, h⟩
  | some c =>
    rw [clockOf_step_stopping hc] at h
    split at h
    . next heq =>
      simp only [Option.some.injEq, Prod.mk.injEq] at h
      refine ⟨c.vtime, ?_⟩
      simp [clockOf, heq, hc, h.2]
    . exact ⟨v, h⟩

theorem sum_update_le {ids : Finset CohortId} {id₀ : CohortId} {x : Nat}
    (h : ∀ ids : Finset CohortId, ∑ id ∈ ids, charged id ≤ total)
    : ∑ id ∈ ids, (if id = id₀ then charged id + x else charged id) ≤ total + x := by
  have hsplit : ∀ id, (if id = id₀ then charged id + x else charged id)
      = charged id + if id = id₀ then x else 0 := by
    intro id
    split <;> omega
  simp only [hsplit, Finset.sum_add_distrib, Finset.sum_ite_eq']
  have := h ids
  split <;> omega

theorem metered_stopping (h : Metered g llc iv s₀ o s total charged)
    (hallowed : allowed g llc iv o (.stopping p now) = true) (hw : p.weight ≤ 100)
    : ∃ total' charged', Metered g llc iv s₀ (o.next (.stopping p now))
        (step g s (.stopping p now)) total' charged' := by
  simp only [allowed, onLlc, Bool.and_eq_true, Option.any_eq_true, decide_eq_true_eq] at hallowed
  obtain ⟨⟨⟨⟨⟨_, hcpu⟩, hnow⟩, _⟩, _⟩, ⟨t, since⟩, htask, heq, hsince⟩ := hallowed
  dsimp only at heq hsince
  subst heq
  obtain ⟨hupTo, hr⟩ := h.task _ hcpu _ _ htask
  have hstart : iv.start ≤ o.upTo p.cpu.toNat := by
    have := h.upTo _ hcpu
    simp only [Interval.contains, Bool.decide_and, Bool.and_eq_true, decide_eq_true_eq] at this
    exact this.1
  have hsum := sum_upTo_stopping hcpu hstart (UInt64.le_trans hupTo hsince)
  have htotal := h.total_le
  have hupTo' : ∀ cpu ∈ llcMask g llc,
      iv.contains (Function.update o.upTo p.cpu.toNat now cpu) = true := by
    intro cpu hcpu
    rw [Function.update_apply]
    split
    . exact hnow
    . exact h.upTo cpu hcpu
  have htask' : ∀ cpu ∈ llcMask g llc, ∀ t since,
      Function.update o.task p.cpu.toNat none cpu = some (t, since)
        → Function.update o.upTo p.cpu.toNat now cpu ≤ since
          ∧ ∀ v r, clockOf (step g s (.stopping p now)) t = some (v, r) → r = since := by
    intro cpu hcpu t since htask
    rw [Function.update_apply] at htask ⊢
    split at htask
    . contradiction
    . next hne =>
      rw [if_neg hne]
      obtain ⟨hle, hr⟩ := h.task cpu hcpu t since htask
      refine ⟨hle, ?_⟩
      intro v r hv
      obtain ⟨v', hv'⟩ := clockOf_stopping hv
      exact hr v' r hv'
  rw [UInt64.le_iff_toNat_le] at hupTo
  cases stop_cases (g := g) hw hsince hr with
  | inl hsame =>
    refine ⟨total, charged, ?_, hupTo', htask', ?_, ?_, h.charged_le⟩
    . simp only [Occupancy.next]
      omega
    . rw [hsame.llc]
      exact h.llc
    . intro id
      rw [hsame.cohort]
      exact h.cohort id
  | inr hcharge =>
    obtain ⟨id₀, x, hx, hllc, hcohort⟩ := hcharge
    refine ⟨total + x.toNat, fun id => if id = id₀ then charged id + x.toNat else charged id, ?_,
      hupTo', htask', ?_, ?_, fun ids => sum_update_le h.charged_le⟩
    . simp only [Occupancy.next]
      omega
    . obtain ⟨n, hn, hload⟩ := h.llc
      rw [hllc, hload]
      split
      . refine ⟨n + x.toNat, by omega, ?_⟩
        simp [UInt64.add_assoc]
      . exact ⟨n, by omega, by simp⟩
    . intro id
      rw [hcohort, h.cohort]
      cases loadSumOf s₀ id with
      | none => rfl
      | some load =>
        by_cases hid : id = id₀ <;> simp [hid, UInt64.add_assoc]

theorem metered_run (es : List Event) (h : Metered g llc iv s₀ o s total charged)
    (hallowed : allAllowed g llc iv o es = true) (hweight : es.all defaultWeight = true)
    : ∃ o' total' charged', Metered g llc iv s₀ o' (run g s es) total' charged' := by
  induction es generalizing o s total charged with
  | nil => exact ⟨o, total, charged, h⟩
  | cons e es ih =>
    rw [allAllowed, Bool.and_eq_true] at hallowed
    rw [List.all_cons, Bool.and_eq_true] at hweight
    rw [run_cons]
    cases e with
    | running p now => exact ih (metered_running h hallowed.1) hallowed.2 hweight.2
    | stopping p now =>
      obtain ⟨_, _, h'⟩ := metered_stopping h hallowed.1 (by simpa [defaultWeight] using hweight.1)
      exact ih h' hallowed.2 hweight.2
    | _ => simp [allowed] at hallowed

end Occupancy

end Bpf

namespace Daemon

section Read

-- An entry is the growth of the LLC's load since the daemon's last look at it, if there was one.
structure Reports (d : Scheduler) (s : Maps) (tickNs : UInt64) (cpus : List (LlcId × UInt64))
    (e : LlcLoad) : Prop where
  capacity : ∃ n, (e.llc, n) ∈ cpus ∧ e.capacityNs = n * tickNs
  load : ∃ prev, (prev = readLoad s e.llc ∨ d.prevLlcLoad.lookup e.llc = some prev)
    ∧ e.loadNs = (readLoad s e.llc).saturatingSub prev

theorem llcs_llcReports (s : Maps) (tickNs : UInt64) (prev : HashTable LlcId UInt64)
    (cpus : List (LlcId × UInt64))
    : (llcReports s tickNs prev cpus).map (·.llc) = cpus.map (·.1) := by
  induction cpus generalizing prev with
  | nil => rfl
  | cons cpu cpus ih =>
    unfold llcReports
    rw [List.map_cons, List.map_cons, ih]

theorem reports_of_mem {tickNs : UInt64} {cpus : List (LlcId × UInt64)} {d : Scheduler} {s : Maps}
    {e : LlcLoad} (he : e ∈ llcReports s tickNs d.prevLlcLoad cpus)
    : Reports d s tickNs cpus e := by
  induction cpus generalizing d with
  | nil => contradiction
  | cons cpu cpus ih =>
    obtain ⟨llc, n⟩ := cpu
    cases List.mem_cons.mp he with
    | inl heq =>
      rw [heq]
      refine ⟨⟨n, List.mem_cons_self, rfl⟩, _, ?_, rfl⟩
      cases d.prevLlcLoad.lookup llc with
      | none => exact .inl rfl
      | some prev => exact .inr rfl
    | inr hmem =>
      obtain ⟨⟨m, hm, hcap⟩, prev, hprev, hload⟩ :=
        @ih { d with prevLlcLoad := d.prevLlcLoad.insert llc (readLoad s llc) } hmem
      refine ⟨⟨m, List.mem_cons_of_mem _ hm, hcap⟩, prev, ?_, hload⟩
      cases hprev with
      | inl heq => exact .inl heq
      | inr hlookup =>
        simp only [HashTable.lookup_insert_eq] at hlookup
        split at hlookup
        . next heq =>
          simp only [Option.some.injEq] at hlookup
          rw [heq, hlookup]
          exact .inl rfl
        . exact .inr hlookup

def growth (d : Scheduler) (e : CohortId × CohortCounters) : UInt64 :=
  e.2.loadSum.saturatingSub ((d.prevLoadSum.lookup e.1).getD e.2.loadSum)

theorem sum_snapshotCohorts_le {env : TickEnv} {tasks : List TaskSnapshot}
    {tgidCohort : HashTable Tgid CohortId} {d d' : Scheduler} {s s' : Maps}
    {cohorts : List CohortSnapshot}
    (h : exec (snapshotCohorts env tasks tgidCohort) d s = (.ok (cohorts, d'), s'))
    : (cohorts.map (·.loadNs.toNat)).sum
        ≤ (s.cohortCounters.table.items.map fun e => (growth d e).toNat).sum := by
  obtain ⟨rfl, _, _⟩ := exec_inj h (exec_snapshotCohorts ..)
  unfold scanIn
  rw [scanCohorts_out, List.map_map, ← ((env.order.perm s.cohortCounters.table.items).map _).sum_eq]
  apply List.Sublist.sum_le_sum (List.filter_sublist.map _)
  intro n _
  apply Nat.zero_le

end Read

section Capacity

variable {g : Globals} {llc : LlcId} {iv : Bpf.Interval}

-- What the daemon has taken over from its last tick, which ended when the interval began.
structure TickStart (g : Globals) (llc : LlcId) (iv : Bpf.Interval) (d : Scheduler) (s : Maps)
    : Prop where
  interval : d.intervalNs = iv.tickNs
  cpus : ∀ n, (llc, n) ∈ d.llcCpus → n.toNat = (Bpf.llcMask g llc).card
  llcLoad : ∀ prev, d.prevLlcLoad.lookup llc = some prev → prev = readLoad s llc
  loadSum : ∀ id prev load, d.prevLoadSum.lookup id = some prev
    → Bpf.loadSumOf s id = some load → prev = load

-- What `llc_loads` reports for `llc` and what `snapshot_cohorts` reports for all cohorts is at most
-- the capacity.
def LoadFits (g : Globals) (llc : LlcId) (iv : Bpf.Interval) (env : TickEnv)
    (tasks : List TaskSnapshot) (tgidCohort : HashTable Tgid CohortId) (d : Scheduler) (s : Maps)
    : Prop :=
  (∃ llcs d' s', exec llcLoads d s = (.ok (llcs, d'), s')
    ∧ llcs.map (·.llc) = d.llcCpus.map (·.1)
    ∧ ∀ e ∈ llcs, e.llc = llc → e.loadNs ≤ e.capacityNs)
  ∧ ∃ cohorts d' s', exec (snapshotCohorts env tasks tgidCohort) d s = (.ok (cohorts, d'), s')
    ∧ (cohorts.map (·.loadNs.toNat)).sum ≤ (Bpf.llcMask g llc).card * iv.tickNs.toNat

theorem saturatingSub_le (prev : UInt64) (n : Nat)
    : ((prev + UInt64.ofNat n).saturatingSub prev).toNat ≤ n := by
  rw [UInt64.toNat_saturatingSub, UInt64.toNat_add, UInt64.toNat_ofNat']
  have := prev.toNat_lt
  have := Nat.mod_le n (2 ^ 64)
  have := Nat.mod_le (prev.toNat + n % 2 ^ 64) (2 ^ 64)
  omega

theorem saturatingSub_self (x : UInt64) : x.saturatingSub x = 0 := by
  rw [← UInt64.toNat_inj, UInt64.toNat_saturatingSub, Nat.sub_self]
  rfl

variable {s₀ s : Maps} {o : Bpf.Occupancy} {total : Nat} {charged : CohortId → Nat} {d : Scheduler}

theorem load_le_of_metered (h : Bpf.Metered g llc iv s₀ o s total charged)
    (hstart : TickStart g llc iv d s₀) (hfits : (Bpf.llcMask g llc).card * iv.tickNs.toNat < 2 ^ 64)
    {e : LlcLoad} (he : Reports d s d.intervalNs d.llcCpus e) (hllc : e.llc = llc)
    : e.loadNs ≤ e.capacityNs := by
  obtain ⟨⟨n, hn, hcap⟩, prev, hprev, hload⟩ := he
  rw [hllc] at hn hprev hload
  have hcapacity : e.capacityNs.toNat = (Bpf.llcMask g llc).card * iv.tickNs.toNat := by
    rw [hcap, hstart.interval, UInt64.toNat_mul, hstart.cpus n hn, Nat.mod_eq_of_lt hfits]
  have hle := h.le_capacity
  rw [UInt64.le_iff_toNat_le, hcapacity, hload]
  cases hprev with
  | inl heq =>
    rw [heq, saturatingSub_self]
    apply Nat.zero_le
  | inr hlookup =>
    rw [hstart.llcLoad prev hlookup]
    obtain ⟨a, ha, heq⟩ := h.llc
    unfold readLoad
    split
    . rw [heq]
      have := saturatingSub_le (s₀.llcLoad llc) a
      omega
    . apply Nat.zero_le

theorem growth_le_of_metered (h : Bpf.Metered g llc iv s₀ o s total charged)
    (hstart : TickStart g llc iv d s₀) {e : CohortId × CohortCounters}
    (he : e ∈ s.cohortCounters.table.items)
    : (growth d e).toNat ≤ charged e.1 := by
  have hsum : Bpf.loadSumOf s e.1 = some e.2.loadSum := by
    have hlookup : s.cohortCounters.lookup e.1 = some e.2 := HashTable.mem_items.mp he
    unfold Bpf.loadSumOf
    rw [hlookup]
    rfl
  rw [h.cohort, Option.map_eq_some_iff] at hsum
  obtain ⟨load, hload, heq⟩ := hsum
  unfold growth
  cases hprev : d.prevLoadSum.lookup e.1 with
  | none =>
    rw [Option.getD_none, saturatingSub_self]
    apply Nat.zero_le
  | some prev =>
    rw [Option.getD_some, ← heq, hstart.loadSum _ prev load hprev hload]
    apply saturatingSub_le

theorem sum_growth_le (h : Bpf.Metered g llc iv s₀ o s total charged)
    (hstart : TickStart g llc iv d s₀)
    : (s.cohortCounters.table.items.map fun e => (growth d e).toNat).sum ≤ total := by
  have hnodup : (s.cohortCounters.table.items.map (·.1)).Nodup := by
    unfold HashTable.items
    rw [List.map_map]
    exact s.cohortCounters.table.nodupKeys
  calc
    (s.cohortCounters.table.items.map fun e => (growth d e).toNat).sum
        ≤ (s.cohortCounters.table.items.map fun e => charged e.1).sum := by
      apply List.sum_le_sum
      intro e he
      exact growth_le_of_metered h hstart he
    _ = ∑ id ∈ (s.cohortCounters.table.items.map (·.1)).toFinset, charged id := by
      rw [List.sum_toFinset _ hnodup, List.map_map]
      rfl
    _ ≤ total := h.charged_le _

theorem loadFits_of_defaultWeight {es : List Bpf.Event} (env : TickEnv) (tasks : List TaskSnapshot)
    (tgidCohort : HashTable Tgid CohortId) (hstart : TickStart g llc iv d s)
    (hallowed : Bpf.allAllowed g llc iv { upTo := fun _ => iv.start } es = true)
    (hweight : es.all Bpf.defaultWeight = true)
    (hfits : (Bpf.llcMask g llc).card * iv.tickNs.toNat < 2 ^ 64)
    : LoadFits g llc iv env tasks tgidCohort d (Bpf.run g s es) := by
  obtain ⟨o, total, charged, h⟩ := Bpf.metered_run es (Bpf.metered_start s) hallowed hweight
  constructor
  . refine ⟨_, _, _, exec_llcLoads d (Bpf.run g s es), llcs_llcReports .., ?_⟩
    intro e he hllc
    exact load_le_of_metered h hstart hfits (reports_of_mem he) hllc
  . have hexec := exec_snapshotCohorts env tasks tgidCohort d (Bpf.run g s es)
    refine ⟨_, _, _, hexec, ?_⟩
    apply Nat.le_trans (sum_snapshotCohorts_le hexec)
    exact Nat.le_trans (sum_growth_le h hstart) h.le_capacity

section OneCpu

def busyTask (weight : UInt32) : TaskStruct := { tid := 1, pid := 1, tgid := 1, weight := weight }

def oneTask : Maps := Bpf.step {} (Bpf.attached {}) (.initTask (busyTask 100) false none true)

def oneTick : Bpf.Interval := ⟨0, 200000000⟩

def oneCpu : Scheduler :=
  { llcCpus := [(0, 1)]
    prevLlcLoad := HashTable.ofList [(0, 0)]
    prevLoadSum := HashTable.ofList [(1, 0)] }

-- One task that keeps the CPU busy for the whole tick.
def busyTick (weight : UInt32) : List Bpf.Event :=
  [.running (busyTask weight) 0, .stopping (busyTask weight) 200000000]

theorem tickStart_oneCpu : TickStart {} 0 oneTick oneCpu oneTask := by
  constructor
  . rfl
  . intro n hn
    simp only [oneCpu, List.mem_singleton, Prod.mk.injEq] at hn
    rw [hn.2]
    decide
  . intro prev hprev
    have hzero : oneCpu.prevLlcLoad.lookup 0 = some (readLoad oneTask 0) := by decide +kernel
    rw [hzero, Option.some.injEq] at hprev
    exact hprev.symm
  . intro id prev load hprev hload
    have hmem : (id, prev) ∈ [((1 : CohortId), (0 : UInt64))] :=
      HashTable.mem_of_lookup_ofList hprev
    simp only [List.mem_singleton, Prod.mk.injEq] at hmem
    have hzero : Bpf.loadSumOf oneTask 1 = some 0 := by decide +kernel
    rw [hmem.1, hzero, Option.some.injEq] at hload
    rw [hmem.2, hload]

theorem loadFits_busy_tick
    : LoadFits {} 0 oneTick {} [] (HashTable.ofList [(1, 1)]) oneCpu
        (Bpf.run {} oneTask (busyTick 100)) := by
  apply loadFits_of_defaultWeight {} [] _ tickStart_oneCpu
  . decide +kernel
  . decide
  . decide

def reported {α : Type} (r : Except MapErr (α × Scheduler) × Maps) : Option α :=
  match r.1 with
  | .ok (a, _) => some a
  | .error _ => none

theorem heavy_tick_not_loadFits
    : TickStart {} 0 oneTick oneCpu oneTask
      ∧ Bpf.allAllowed {} 0 oneTick { upTo := fun _ => oneTick.start } (busyTick 10000) = true
      ∧ ¬ LoadFits {} 0 oneTick {} [] (HashTable.ofList [(1, 1)]) oneCpu
          (Bpf.run {} oneTask (busyTick 10000)) := by
  refine ⟨tickStart_oneCpu, by decide +kernel, ?_⟩
  intro h
  obtain ⟨⟨llcs, d', s', hexec, _, hle⟩, _⟩ := h
  have hreported : reported (exec llcLoads oneCpu (Bpf.run {} oneTask (busyTick 10000)))
      = some [⟨0, 20000000000, 200000000⟩] := by
    decide +kernel
  rw [hexec] at hreported
  simp only [reported, Option.some.injEq] at hreported
  have := hle ⟨0, 20000000000, 200000000⟩ (by rw [hreported]; exact List.mem_cons_self) rfl
  revert this
  decide

end OneCpu

end Capacity

end Daemon
