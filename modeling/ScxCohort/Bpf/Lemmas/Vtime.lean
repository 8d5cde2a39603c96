import ScxCohort.Bpf.Lemmas.Frame
import ScxCohort.Lib.Serial

/-!
This module contains what each callback does to virtual time: the vtime a task has stored and the
frontier of an LLC. Only `cohort_init_task`, `cohort_running` and `cohort_stopping` write either.
-/

namespace Bpf

-- The stored vtime of a task and the start of its last stint.
def clockOf (s : Maps) (t : Tid) : Option (UInt64 × UInt64) :=
  (s.taskCtxs t).map fun c => (c.vtime, c.lastRunAt)

def vtimeOf (s : Maps) (t : Tid) : Option UInt64 := (s.taskCtxs t).map (·.vtime)

theorem vtimeOf_eq (s : Maps) (t : Tid) : vtimeOf s t = (clockOf s t).map (·.1) := by
  unfold vtimeOf clockOf
  rw [Option.map_map]
  rfl

structure SameVtime (s s' : Maps) : Prop where
  task : ∀ t, clockOf s' t = clockOf s t
  llc : ∀ l, (s'.llcs l).vtimeNow = (s.llcs l).vtimeNow

namespace SameVtime

theorem refl (s : Maps) : SameVtime s s := ⟨fun _ => rfl, fun _ => rfl⟩

theorem trans (a b c : Maps) (h : SameVtime a b) (h' : SameVtime b c) : SameVtime a c := by
  constructor
  . intro t
    rw [h'.task, h.task]
  . intro l
    rw [h'.llc, h.llc]

theorem vtime {s s' : Maps} (h : SameVtime s s') (t : Tid) : vtimeOf s' t = vtimeOf s t := by
  rw [vtimeOf_eq, vtimeOf_eq, h.task]

theorem of_tctx {s : Maps} {t : Tid} {f : TaskCtx → TaskCtx}
    (hf : ∀ c, ((f c).vtime, (f c).lastRunAt) = (c.vtime, c.lastRunAt))
    : SameVtime s { s with taskCtxs := Function.update s.taskCtxs t ((s.taskCtxs t).map f) } := by
  constructor
  . intro t'
    simp only [clockOf, Function.update_apply]
    split
    . next heq =>
      subst heq
      rw [Option.map_map]
      congr 1
      funext c
      exact hf c
    . rfl
  . intro l
    rfl

theorem of_llc {s : Maps} {llc : LlcId} {f : LlcCtx → LlcCtx}
    (hf : ∀ l, (f l).vtimeNow = l.vtimeNow)
    : SameVtime s { s with llcs := Function.update s.llcs llc (f (s.llcs llc)) } := by
  constructor
  . intro t
    rfl
  . intro l
    simp only [Function.update_apply]
    split
    . next heq =>
      subst heq
      apply hf
    . rfl

theorem keepsFast : KeepsFast SameVtime where
  refl := refl
  stat := fun _ _ => ⟨fun _ => rfl, fun _ => rfl⟩
  tctx := by
    intro s t f hf
    apply of_tctx
    intro c
    obtain ⟨_, _, _, _, heq⟩ := hf c
    rw [heq]
  headEnqTs := by
    intro s llc now
    apply of_llc (f := fun l => { l with headEnqTs := now })
    intro l
    rfl
  queues := fun _ _ _ => ⟨fun _ => rfl, fun _ => rfl⟩
  idle := fun _ _ => ⟨fun _ => rfl, fun _ => rfl⟩
  sample := fun _ _ => ⟨fun _ => rfl, fun _ => rfl⟩
  edges := fun _ _ => ⟨fun _ => rfl, fun _ => rfl⟩
  wake := by
    intro s t f hf
    apply of_tctx
    intro c
    obtain ⟨_, _, heq⟩ := hf c
    rw [heq]
  nrTasks := fun _ _ _ => ⟨fun _ => rfl, fun _ => rfl⟩
  dropTaskStat := fun _ _ => ⟨fun _ => rfl, fun _ => rfl⟩
  dropSpill := fun _ _ => ⟨fun _ => rfl, fun _ => rfl⟩

theorem keepsMapWrites : KeepsMapWrites SameVtime where
  toKeepsFast := keepsFast
  seq := fun _ _ _ => ⟨fun _ => rfl, fun _ => rfl⟩
  policy := fun _ _ _ _ _ _ => ⟨fun _ => rfl, fun _ => rfl⟩
  counters := fun _ _ _ _ _ _ => ⟨fun _ => rfl, fun _ => rfl⟩
  tgid := fun _ _ _ _ _ _ => ⟨fun _ => rfl, fun _ => rfl⟩
  taskStat := fun _ _ _ _ _ => ⟨fun _ => rfl, fun _ => rfl⟩
  spill := fun _ _ _ _ _ => ⟨fun _ => rfl, fun _ => rfl⟩

end SameVtime

theorem run_lookupTaskCtx {p : TaskStruct} {s : Maps} {c : TaskCtx}
    (hc : s.taskCtxs p.tid = some c)
    : (lookupTaskCtx p).run s = (some p.tid, s) := by
  unfold lookupTaskCtx taskStorageGet
  simp [hc]

theorem run_lookupTaskCtx_none {p : TaskStruct} {s : Maps} (hc : s.taskCtxs p.tid = none)
    : ((lookupTaskCtx p).run s).1 = none := by
  unfold lookupTaskCtx taskStorageGet
  simp [hc]

def frontier (s : Maps) (l : LlcId) : UInt64 := (s.llcs l).vtimeNow

section

variable (g : Globals)

theorem safeLlc_lt (hg : g.nrLlcs.toNat ≤ maxLlcs) (llc : LlcId)
    : (safeLlc g llc).toNat < maxLlcs := by
  unfold safeLlc
  split
  . next h =>
    rw [UInt32.lt_iff_toNat_lt] at h
    omega
  . decide

theorem llcOfCpu_lt (hg : g.nrLlcs.toNat ≤ maxLlcs) (cpu : Int)
    : (llcOfCpu g cpu).toNat < maxLlcs := by
  unfold llcOfCpu
  split
  . apply safeLlc_lt g hg
  . decide

end

section

variable {g : Globals} {p : TaskStruct} {now : UInt64} {s : Maps} {c : TaskCtx}

theorem sameVtime_step_running_of_none (hc : s.taskCtxs p.tid = none)
    : SameVtime s (step g s (.running p now)) := by
  have hlook := (SameVtime.keepsFast.lookupTaskCtx (p := p)).run SameVtime.refl SameVtime.trans s
  simp only [step, Event.prog, cohortRunning, lookupLlcCtx, Proc.run_bind, run_load]
  rw [run_lookupTaskCtx_none hc]
  exact hlook

theorem sameVtime_step_stopping_of_none (hc : s.taskCtxs p.tid = none)
    : SameVtime s (step g s (.stopping p now)) := by
  have hlook := (SameVtime.keepsFast.lookupTaskCtx (p := p)).run SameVtime.refl SameVtime.trans s
  simp only [step, Event.prog, cohortStopping, Proc.run_bind]
  rw [run_lookupTaskCtx_none hc]
  exact hlook

def runs (now : UInt64) (c : TaskCtx) : TaskCtx := { c with lastRunAt := now }

theorem run_cohortRunning (hc : s.taskCtxs p.tid = some c)
    : ((cohortRunning g p now).run s).2
        =
      ((advanceFrontier (llcOfCpu g p.cpu) ((lookupLlcCtx (llcOfCpu g p.cpu)).run s).1 c.vtime).run
        { s with taskCtxs := Function.update s.taskCtxs p.tid (some (runs now c)) }).2 := by
  simp [cohortRunning, lookupLlcCtx, run_lookupTaskCtx hc, hc, runs]

theorem clockOf_step_running (hc : s.taskCtxs p.tid = some c) (t : Tid)
    : clockOf (step g s (.running p now)) t
        =
      if t = p.tid then some (c.vtime, now) else clockOf s t := by
  have hupdate : clockOf
      { s with taskCtxs := Function.update s.taskCtxs p.tid (some (runs now c)) } t
        =
      if t = p.tid then some (c.vtime, now) else clockOf s t := by
    simp only [clockOf, Function.update_apply]
    split <;> simp [runs]
  simp only [step, Event.prog]
  rw [run_cohortRunning hc, ← hupdate]
  unfold advanceFrontier
  split
  . split <;> rfl
  . rfl

theorem frontier_step_running (hc : s.taskCtxs p.tid = some c)
    (hl : (llcOfCpu g p.cpu).toNat < maxLlcs) (l : LlcId)
    : frontier (step g s (.running p now)) l
        =
      if l = llcOfCpu g p.cpu ∧ vtimeBefore (frontier s l) c.vtime then
        c.vtime
      else
        frontier s l := by
  simp only [step, Event.prog]
  rw [run_cohortRunning hc]
  have hlook : ((lookupLlcCtx (llcOfCpu g p.cpu)).run s).1 = some (s.llcs (llcOfCpu g p.cpu)) := by
    simp [lookupLlcCtx, hl]
  rw [hlook]
  simp only [advanceFrontier]
  split
  . next hbefore =>
    simp only [run_modifyLlc, frontier, Function.update_apply]
    split
    . next heq =>
      subst heq
      simp [hbefore]
    . next hne => simp [hne]
  . next hbefore =>
    rw [if_neg]
    . rfl
    . intro ⟨heq, hbefore'⟩
      rw [heq] at hbefore'
      exact hbefore hbefore'

def stops (p : TaskStruct) (delta : UInt64) (c : TaskCtx) : TaskCtx :=
  { c with
    vtime := c.vtime + vtimeCharge p delta
    avgRuntimeNs := (c.avgRuntimeNs * 3 + delta) / 4 }

-- What `cohort_stopping` writes after the charge to the task's own context.
def accountStop (g : Globals) (p : TaskStruct) (delta : UInt64) : BpfM PUnit := do
  chargeCohort p.tid (scaledCharge p delta)
  chargeLlc (llcOfCpu g p.cpu) (scaledCharge p delta)
  chargeTaskStat p p.tid (llcOfCpu g p.cpu) delta

theorem run_cohortStopping (hc : s.taskCtxs p.tid = some c)
    : ((cohortStopping g p now).run s).2
        =
      ((accountStop g p (now - c.lastRunAt)).run
        { s with
          taskCtxs := Function.update s.taskCtxs p.tid (some (stops p (now - c.lastRunAt) c)) }).2 := by
  simp [cohortStopping, accountStop, chargeVtime, run_lookupTaskCtx hc, hc, stops]

theorem keeps_accountStop {delta : UInt64} {G : Maps → Maps → Prop}
    (h : ∀ s counters load stats,
      G s { s with cohortCounters := counters, llcLoad := load, taskStats := stats })
    : (accountStop g p delta).Keeps G := by
  have hrefl : ∀ s, G s s := fun s => h s _ _ _
  unfold accountStop
  apply Proc.keeps_bind
  . unfold chargeCohort
    apply Proc.keeps_bind (keeps_load hrefl)
    intro c
    apply Proc.keeps_bind (keeps_load hrefl)
    intro counters
    split
    . apply keeps_store
      intro s
      apply h
    . trivial
  . intro _
    apply Proc.keeps_bind
    . apply keeps_store
      intro s
      split
      . apply h
      . apply hrefl
    . intro _
      unfold chargeTaskStat
      apply Proc.keeps_bind (keeps_load hrefl)
      intro ts
      split
      . trivial
      . apply Proc.keeps_bind (keeps_load hrefl)
        intro c
        apply keeps_store
        intro s
        apply h

theorem sameVtime_accountStop {delta : UInt64} (s : Maps)
    : SameVtime s ((accountStop g p delta).run s).2 := by
  apply Proc.Keeps.run (keeps_accountStop _) SameVtime.refl SameVtime.trans
  intro s _ _ _
  exact ⟨fun _ => rfl, fun _ => rfl⟩

theorem clockOf_step_stopping (hc : s.taskCtxs p.tid = some c) (t : Tid)
    : clockOf (step g s (.stopping p now)) t
        =
      if t = p.tid then
        some (c.vtime + vtimeCharge p (now - c.lastRunAt), c.lastRunAt)
      else
        clockOf s t := by
  simp only [step, Event.prog]
  rw [run_cohortStopping hc, (sameVtime_accountStop _).task]
  simp only [clockOf, Function.update_apply]
  split <;> simp [stops]

theorem frontier_step_stopping (hc : s.taskCtxs p.tid = some c) (l : LlcId)
    : frontier (step g s (.stopping p now)) l = frontier s l := by
  simp only [step, Event.prog]
  rw [run_cohortStopping hc, frontier, (sameVtime_accountStop _).llc]
  rfl

-- An admission only touches the vtime of the task it admits.
structure SameVtimeBut (t₀ : Tid) (s s' : Maps) : Prop where
  task : ∀ t, t ≠ t₀ → clockOf s' t = clockOf s t
  llc : ∀ l, (s'.llcs l).vtimeNow = (s.llcs l).vtimeNow

namespace SameVtimeBut

theorem of_same {t₀ : Tid} {s s' : Maps} (h : SameVtime s s') : SameVtimeBut t₀ s s' :=
  ⟨fun t _ => h.task t, h.llc⟩

theorem refl (t₀ : Tid) (s : Maps) : SameVtimeBut t₀ s s := of_same (SameVtime.refl s)

theorem trans (t₀ : Tid) (a b c : Maps) (h : SameVtimeBut t₀ a b) (h' : SameVtimeBut t₀ b c)
    : SameVtimeBut t₀ a c := by
  constructor
  . intro t ht
    rw [h'.task t ht, h.task t ht]
  . intro l
    rw [h'.llc, h.llc]

theorem of_tctx (t₀ : Tid) (s : Maps) (c : Option TaskCtx)
    : SameVtimeBut t₀ s { s with taskCtxs := Function.update s.taskCtxs t₀ c } := by
  constructor
  . intro t ht
    simp only [clockOf, Function.update_of_ne ht]
  . intro l
    rfl

theorem keeps_startVtime {t : Tid} {id : CohortId}
    : (startVtime g t id).Keeps (SameVtimeBut t) := by
  unfold startVtime
  apply Proc.keeps_bind (keeps_load (refl t))
  intro policy
  split
  . apply Proc.keeps_bind (keeps_load (refl t))
    intro llcx
    apply keeps_store
    intro s
    apply of_tctx
  . trivial

theorem keeps_cohortInitTask {fork : Bool} {parent : Option TaskStruct} {alloc : Bool}
    : (cohortInitTask g p fork parent alloc).Keeps (SameVtimeBut p.tid) := by
  have hmono : ∀ (s s' : Maps), SameVtime s s' → SameVtimeBut p.tid s s' := fun _ _ => of_same
  unfold cohortInitTask
  apply Proc.keeps_atomic_bind
  . intro s
    split
    . apply refl
    . split
      . apply of_tctx
      . apply refl
  . have hadmit : (admitTask g p fork parent).Keeps (SameVtimeBut p.tid) := by
      unfold admitTask
      apply Proc.keeps_bind (SameVtime.keepsMapWrites.assign.assignCohort.mono hmono)
      intro id
      apply Proc.keeps_bind
      . apply keeps_store
        intro s
        apply of_tctx
      . intro _
        apply Proc.keeps_bind (SameVtime.keepsFast.exits.countTask.mono hmono)
        intro _
        apply Proc.keeps_bind keeps_startVtime
        intro _
        apply Proc.keeps_bind (SameVtime.keepsMapWrites.updateTaskStat.mono hmono)
        intro _
        trivial
    intro s
    split
    . trivial
    . apply Proc.keeps_bind hadmit
      intro _
      trivial

end SameVtimeBut

theorem sameVtimeBut_step_initTask {fork : Bool} {parent : Option TaskStruct} {alloc : Bool}
    : SameVtimeBut p.tid s (step g s (.initTask p fork parent alloc)) :=
  (keeps_ignore SameVtimeBut.keeps_cohortInitTask).run (SameVtimeBut.refl _)
    (SameVtimeBut.trans _) s

theorem sameVtime_step {e : Event}
    (hinit : ∀ p fork parent alloc, e ≠ .initTask p fork parent alloc)
    (hrunning : ∀ p now, e ≠ .running p now)
    (hstopping : ∀ p now, e ≠ .stopping p now)
    : SameVtime s (step g s e) := by
  apply Proc.Keeps.run _ SameVtime.refl SameVtime.trans
  cases e with
  | initTask p fork parent alloc => exact absurd rfl (hinit p fork parent alloc)
  | running p now => exact absurd rfl (hrunning p now)
  | stopping p now => exact absurd rfl (hstopping p now)
  | exitTask p => exact SameVtime.keepsFast.cohortExitTask
  | selectCpu p prevCpu env => exact keeps_ignore SameVtime.keepsFast.calls.cohortSelectCpu
  | enqueue p now => exact SameVtime.keepsFast.calls.cohortEnqueue
  | dispatch cpu now => exact keeps_ignore SameVtime.keepsFast.cohortDispatch
  | runnable p now => exact SameVtime.keepsFast.cohortRunnable
  | setPolicy id policy flag => exact keeps_ignore SameVtime.keepsMapWrites.assign.updatePolicy
  | setCounters id counters flag => exact keeps_ignore SameVtime.keepsMapWrites.assign.updateCounters
  | setTgid tgid id flag => exact keeps_ignore SameVtime.keepsMapWrites.assign.updateTgidCohort
  | setSpill pid llc => exact keeps_ignore SameVtime.keepsMapWrites.updateSpill
  | dropPolicy id =>
    apply Proc.keeps_atomic
    intro s
    exact ⟨fun _ => rfl, fun _ => rfl⟩
  | dropCounters id =>
    apply Proc.keeps_atomic
    intro s
    exact ⟨fun _ => rfl, fun _ => rfl⟩
  | dropTgid tgid =>
    apply Proc.keeps_atomic
    intro s
    exact ⟨fun _ => rfl, fun _ => rfl⟩
  | dropSpill pid =>
    apply Proc.keeps_atomic
    intro s
    exact ⟨fun _ => rfl, fun _ => rfl⟩

end

end Bpf
