import ScxCohort.Bpf.Lemmas.Vtime

/-!
This module contains the specification of `cohort_init_task`: the cohort that `assign_cohort` finds or
makes for a task, and the maps after the task has been admitted to it.
-/

namespace Bpf

def inheritedId (s : Maps) (fork : Bool) (parent : Option TaskStruct) : CohortId :=
  match fork, parent with
  | true, some parent =>
    match s.taskCtxs parent.tid with
    | some c => c.cohortId
    | none => cohortInvalid
  | _, _ => cohortInvalid

theorem run_inheritedCohort (s : Maps) (fork : Bool) (parent : Option TaskStruct)
    : (inheritedCohort fork parent).run s = (inheritedId s fork parent, s) := by
  cases fork with
  | false => rfl
  | true =>
    cases parent with
    | none => rfl
    | some parent =>
      simp only [inheritedCohort, inheritedId, taskStorageGet, Proc.run_bind, run_load]
      cases hc : s.taskCtxs parent.tid <;> simp [hc]

section

variable (g : Globals)

def withFreshCohort (s : Maps) : Maps :=
  { s with
    rrCtr := s.rrCtr + 1
    cohortSeq := s.cohortSeq + 1
    cohortPolicy :=
      s.cohortPolicy.updateD (s.cohortSeq + 1) { homeLlc := s.rrCtr % g.nrLlcs } .noExist
    cohortCounters := s.cohortCounters.updateD (s.cohortSeq + 1) {} .noExist }

theorem run_freshCohort (s : Maps)
    : (freshCohort g).run s = (s.cohortSeq + 1, withFreshCohort g s) := by
  unfold freshCohort withFreshCohort
  simp [run_updatePolicy, run_updateCounters]

-- The cohort of an admission and the maps after `assign_cohort`.
def assigned (s : Maps) (p : TaskStruct) (fork : Bool) (parent : Option TaskStruct)
    : CohortId × Maps :=
  match s.tgidCohort.lookup p.tgid with
  | some id => (id, s)
  | none =>
    if inheritedId s fork parent = cohortInvalid then
      (s.cohortSeq + 1,
        { withFreshCohort g s with
          tgidCohort := s.tgidCohort.updateD p.tgid (s.cohortSeq + 1) .any })
    else
      (inheritedId s fork parent,
        { s with tgidCohort := s.tgidCohort.updateD p.tgid (inheritedId s fork parent) .any })

theorem run_assignCohort (s : Maps) (p : TaskStruct) (fork : Bool) (parent : Option TaskStruct)
    : (assignCohort g p fork parent).run s = assigned g s p fork parent := by
  unfold assignCohort assigned
  rw [Proc.run_bind, run_lookupTgidCohort]
  dsimp only
  cases s.tgidCohort.lookup p.tgid with
  | some id => rfl
  | none =>
    simp only [Proc.run_bind, run_inheritedCohort, orFreshCohort, Proc.run_pure]
    split
    . rw [run_freshCohort, run_updateTgidCohort]
      rfl
    . rw [Proc.run_pure, run_updateTgidCohort]

def startAt (s : Maps) (id : CohortId) (c : TaskCtx) : TaskCtx :=
  match s.cohortPolicy.lookup id with
  | some policy =>
    { c with
      vtime :=
        if (safeLlc g policy.homeLlc).toNat < maxLlcs then
          frontier s (safeLlc g policy.homeLlc)
        else
          0 }
  | none => c

theorem startAt_cohortId (s : Maps) (id : CohortId) (c : TaskCtx)
    : (startAt g s id c).cohortId = c.cohortId := by
  unfold startAt
  split <;> rfl

-- Admission to the cohort `id`, for a task whose storage exists.
def enroll (s : Maps) (p : TaskStruct) (id : CohortId) : Maps :=
  { s with
    taskCtxs := Function.update s.taskCtxs p.tid
      ((s.taskCtxs p.tid).map fun c => startAt g s id { c with cohortId := id })
    cohortCounters := s.cohortCounters.modify id fun c => { c with nrTasks := c.nrTasks + 1 }
    taskStats := s.taskStats.updateD p.pid { tgid := p.tgid, cohortId := id, comm := p.comm } .any }

theorem run_countTask (s : Maps) (id : CohortId) (f : UInt64 → UInt64)
    : ((countTask id f).run s).2
        =
      { s with
        cohortCounters := s.cohortCounters.modify id fun c => { c with nrTasks := f c.nrTasks } } := by
  unfold countTask
  rw [Proc.run_bind, run_lookupCounters]
  split
  . rfl
  . next hnone =>
    simp only at hnone
    simp [BoundedMap.modify, hnone]

theorem run_startVtime (s : Maps) (t : Tid) (id : CohortId)
    : ((startVtime g t id).run s).2
        =
      { s with
        taskCtxs := Function.update s.taskCtxs t ((s.taskCtxs t).map (startAt g s id)) } := by
  unfold startVtime lookupLlcCtx
  rw [Proc.run_bind, run_lookupPolicy]
  dsimp only
  have hstart : startAt g s id = fun c => startAt g s id c := rfl
  rw [hstart]
  unfold startAt frontier
  cases hpolicy : s.cohortPolicy.lookup id with
  | none => simp
  | some policy =>
    simp only [Proc.run_bind, run_load, run_modifyTctx]
    by_cases hl : (safeLlc g policy.homeLlc).toNat < maxLlcs <;> simp [hl]

theorem run_admitTask (s : Maps) (p : TaskStruct) (fork : Bool) (parent : Option TaskStruct)
    : ((admitTask g p fork parent).run s).2
        =
      enroll g (assigned g s p fork parent).2 p (assigned g s p fork parent).1 := by
  unfold admitTask
  simp only [Proc.run_bind, run_assignCohort, run_modifyTctx, run_countTask, run_startVtime,
    run_updateTaskStat, Proc.run_pure, Function.update_self, Function.update_idem, Option.map_map]
  generalize assigned g s p fork parent = r
  rfl

def withStorage (s : Maps) (t : Tid) : Maps :=
  match s.taskCtxs t with
  | some _ => s
  | none => { s with taskCtxs := Function.update s.taskCtxs t (some {}) }

@[simp]
theorem withStorage_tgidCohort (s : Maps) (t : Tid) : (withStorage s t).tgidCohort = s.tgidCohort := by
  unfold withStorage
  split <;> rfl

theorem withStorage_isSome (s : Maps) (t : Tid) : ((withStorage s t).taskCtxs t).isSome = true := by
  unfold withStorage
  split
  . next h => simp [h]
  . simp

-- The admission of a task whose storage could be allocated.
def admitted (s : Maps) (p : TaskStruct) (fork : Bool) (parent : Option TaskStruct)
    : CohortId × Maps :=
  let r := assigned g (withStorage s p.tid) p fork parent
  (r.1, enroll g r.2 p r.1)

theorem run_cohortInitTask (s : Maps) (p : TaskStruct) (fork : Bool) (parent : Option TaskStruct)
    (alloc : Bool)
    : (cohortInitTask g p fork parent alloc).run s
        =
      if alloc = true ∨ (s.taskCtxs p.tid).isSome = true then
        (true, (admitted g s p fork parent).2)
      else
        (false, s) := by
  unfold cohortInitTask taskStorageCreate
  rw [Proc.run_bind, Proc.run_atomic]
  cases hc : s.taskCtxs p.tid with
  | some c => simp [admitted, withStorage, hc, run_admitTask]
  | none =>
    cases alloc with
    | true => simp [admitted, withStorage, hc, run_admitTask]
    | false => simp

theorem step_initTask (s : Maps) (p : TaskStruct) (fork : Bool) (parent : Option TaskStruct)
    (alloc : Bool)
    : step g s (.initTask p fork parent alloc)
        =
      if alloc = true ∨ (s.taskCtxs p.tid).isSome = true then
        (admitted g s p fork parent).2
      else
        s := by
  simp only [step, Event.prog, ignore, Proc.run_bind, Proc.run_pure]
  rw [run_cohortInitTask]
  split <;> rfl

theorem step_initTask_of_returnsZero {g : Globals} {s : Maps} {p : TaskStruct} {fork : Bool}
    {parent : Option TaskStruct} {alloc : Bool}
    (h : ((cohortInitTask g p fork parent alloc).run s).1 = true)
    : step g s (.initTask p fork parent alloc) = (admitted g s p fork parent).2 := by
  rw [run_cohortInitTask] at h
  rw [step_initTask]
  split at h
  . next hyes => rw [if_pos hyes]
  . contradiction

@[simp]
theorem assigned_taskCtxs (s : Maps) (p : TaskStruct) (fork : Bool) (parent : Option TaskStruct)
    : (assigned g s p fork parent).2.taskCtxs = s.taskCtxs := by
  unfold assigned
  split
  . rfl
  . split <;> rfl

theorem clockOf_withStorage {s : Maps} {t : Tid} {c : TaskCtx}
    (hc : (withStorage s t).taskCtxs t = some c)
    : clockOf s t = some (c.vtime, c.lastRunAt) ∨ s.taskCtxs t = none ∧ c.vtime = 0 := by
  unfold withStorage at hc
  split at hc
  . next c' hc' =>
    left
    simp [clockOf, hc]
  . next hnone =>
    right
    simp only [Function.update_self, Option.some.injEq] at hc
    rw [← hc]
    exact ⟨hnone, rfl⟩

-- An admission starts the task at the frontier of its cohort's home, if the cohort has one.
theorem clockOf_step_initTask {s : Maps} {p : TaskStruct} {fork : Bool}
    {parent : Option TaskStruct} {alloc : Bool} {c : TaskCtx} (hg : g.nrLlcs.toNat ≤ maxLlcs)
    (hc : (step g s (.initTask p fork parent alloc)).taskCtxs p.tid = some c)
    : match (step g s (.initTask p fork parent alloc)).cohortPolicy.lookup c.cohortId with
      | some policy =>
        c.vtime = frontier (step g s (.initTask p fork parent alloc)) (safeLlc g policy.homeLlc)
      | none =>
        clockOf s p.tid = some (c.vtime, c.lastRunAt) ∨ s.taskCtxs p.tid = none ∧ c.vtime = 0 := by
  rw [step_initTask] at hc ⊢
  split at hc
  . next hyes =>
    rw [if_pos hyes]
    simp only [admitted, enroll, Function.update_self, assigned_taskCtxs] at hc ⊢
    obtain ⟨c₀, hc₀, rfl⟩ := Option.map_eq_some_iff.mp hc
    have hclock := clockOf_withStorage hc₀
    rw [startAt_cohortId]
    unfold startAt
    generalize assigned g (withStorage s p.tid) p fork parent = r
    cases r.2.cohortPolicy.lookup r.1 with
    | some policy =>
      dsimp only
      rw [if_pos (safeLlc_lt g hg _)]
      rfl
    | none => exact hclock
  . next hno =>
    rw [hc] at hno
    simp at hno

-- The maps after the LLCs below `k` have been set up.
def attachedUpTo (k : Nat) : Maps :=
  { llcs := fun l => if l.toNat < k then { cpumask := some (llcMask g l) } else {}
    createdDsqs := ((List.range k).map UInt32.ofNat).reverse }

theorem attachedUpTo_succ {k : Nat} (hk : k < maxLlcs)
    : { attachedUpTo g k with
        llcs := Function.update (attachedUpTo g k).llcs (UInt32.ofNat k)
          { (attachedUpTo g k).llcs (UInt32.ofNat k) with
            cpumask := some (llcMask g (UInt32.ofNat k)) }
        createdDsqs := UInt32.ofNat k :: (attachedUpTo g k).createdDsqs }
        =
      attachedUpTo g (k + 1) := by
  have hnat : (UInt32.ofNat k).toNat = k := by
    rw [UInt32.toNat_ofNat', Nat.mod_eq_of_lt]
    unfold maxLlcs at hk
    omega
  unfold attachedUpTo
  simp only [Maps.mk.injEq, true_and, and_true]
  constructor
  . funext l
    rw [Function.update_apply]
    split
    . next heq =>
      rw [heq, hnat, if_neg (by omega), if_pos (by omega)]
    . next hne =>
      have hl : l.toNat ≠ k := by
        intro heq
        apply hne
        rw [← heq, UInt32.ofNat_toNat]
      by_cases hlt : l.toNat < k
      . rw [if_pos hlt, if_pos (by omega)]
      . rw [if_neg hlt, if_neg (by omega)]
  . rw [List.range_succ, List.map_append, List.reverse_append]
    rfl

theorem run_initLlcs (m k : Nat) (hk : k ≤ maxLlcs)
    : (initLlcs g (List.range' k m)).run (attachedUpTo g k)
        =
      (decide (k + m ≤ maxLlcs), attachedUpTo g (min (k + m) maxLlcs)) := by
  induction m generalizing k with
  | zero =>
    rw [List.range'_zero, Nat.add_zero, Nat.min_eq_left hk, decide_eq_true hk]
    rfl
  | succ m ih =>
    have hnat : (UInt32.ofNat k).toNat = k := by
      rw [UInt32.toNat_ofNat', Nat.mod_eq_of_lt]
      unfold maxLlcs at hk
      omega
    rw [List.range'_succ, initLlcs]
    by_cases hlt : k < maxLlcs
    . have hnew : UInt32.ofNat k ∉ (attachedUpTo g k).createdDsqs := by
        unfold attachedUpTo
        rw [List.mem_reverse, List.mem_map]
        rintro ⟨j, hj, heq⟩
        rw [List.mem_range] at hj
        have := UInt32.toNat_inj.mpr heq
        unfold maxLlcs at hk
        rw [hnat, UInt32.toNat_ofNat', Nat.mod_eq_of_lt (by omega)] at this
        omega
      simp only [lookupLlcCtx, Proc.run_bind, run_load, hnat, if_pos hlt, createDsq, Proc.run_atomic,
        if_neg hnew, if_true, run_modifyLlc]
      rw [attachedUpTo_succ g hlt, ih (k + 1) hlt, Nat.add_right_comm, Nat.add_assoc]
    . simp only [lookupLlcCtx, Proc.run_bind, run_load, hnat, if_neg hlt, Proc.run_pure]
      rw [Nat.min_eq_right (by omega), decide_eq_false (by omega), show k = maxLlcs by omega]

-- Attaching creates the queues and builds the CPU masks, of as many LLCs as there is room for.
theorem attached_eq : attached g = attachedUpTo g (min g.nrLlcs.toNat maxLlcs) := by
  have hrun := run_initLlcs g g.nrLlcs.toNat 0 (Nat.zero_le _)
  rw [Nat.zero_add, ← List.range_eq_range'] at hrun
  have hstart : attachedUpTo g 0 = {} := by
    unfold attachedUpTo
    simp
  rw [hstart] at hrun
  unfold attached cohortInit
  rw [hrun]

end

end Bpf
