import ScxCohort.Bpf.Run

/-!
This module contains what the callbacks share: a relation between states that holds of every write of
a certain kind is kept by every callback that makes no other writes.
-/

namespace Bpf

-- An update that fails leaves the maps as they are, so the result of an update is that of `updateD`.
theorem run_tryUpdate_snd {cap : Nat} {κ ν : Type} [DecidableEq κ] {m : MapName}
    (get : Maps → BoundedMap cap κ ν) (set : Maps → BoundedMap cap κ ν → Maps) (s : Maps)
    (hset : set s (get s) = s) (k : κ) (v : ν) (flag : UpdateFlag)
    : ((tryUpdate m fun s => return set s (← (get s).update k v flag)).run s).2
        =
      set s ((get s).updateD k v flag) := by
  unfold tryUpdate BoundedMap.updateD
  rw [Proc.run_atomic]
  dsimp only
  cases (get s).update k v flag with
  | ok m' => rfl
  | error e => exact hset.symm

section Update

variable (s : Maps) (id : CohortId) (flag : UpdateFlag)

theorem run_updatePolicy (policy : CohortPolicy)
    : ((updatePolicy id policy flag).run s).2
        =
      { s with cohortPolicy := s.cohortPolicy.updateD id policy flag } :=
  run_tryUpdate_snd (·.cohortPolicy) (fun s m => { s with cohortPolicy := m }) s rfl id policy flag

theorem run_updateCounters (counters : CohortCounters)
    : ((updateCounters id counters flag).run s).2
        =
      { s with cohortCounters := s.cohortCounters.updateD id counters flag } :=
  run_tryUpdate_snd (·.cohortCounters) (fun s m => { s with cohortCounters := m }) s rfl id counters
    flag

theorem run_updateTgidCohort (tgid : Tgid)
    : ((updateTgidCohort tgid id flag).run s).2
        =
      { s with tgidCohort := s.tgidCohort.updateD tgid id flag } :=
  run_tryUpdate_snd (·.tgidCohort) (fun s m => { s with tgidCohort := m }) s rfl tgid id flag

theorem run_updateTaskStat (pid : Pid) (ts : TaskStat)
    : ((updateTaskStat pid ts).run s).2
        =
      { s with taskStats := s.taskStats.updateD pid ts .any } :=
  run_tryUpdate_snd (·.taskStats) (fun s m => { s with taskStats := m }) s rfl pid ts .any

theorem run_updateSpill (pid : Pid) (llc : LlcId)
    : ((updateSpill pid llc).run s).2
        =
      { s with spillTasks := s.spillTasks.updateD pid llc .any } :=
  run_tryUpdate_snd (·.spillTasks) (fun s m => { s with spillTasks := m }) s rfl pid llc .any

theorem run_updateSpill_ok {s s' : Maps} {pid : Pid} {llc : LlcId}
    (h : (updateSpill pid llc).run s = (.ok ⟨⟩, s'))
    : ∃ m, s.spillTasks.update pid llc .any = .ok m ∧ s' = { s with spillTasks := m } := by
  cases hupdate : s.spillTasks.update pid llc .any with
  | ok m =>
    have hrun : (updateSpill pid llc).run s = (.ok ⟨⟩, { s with spillTasks := m }) := by
      apply run_tryUpdate_ok
      rw [hupdate]
      rfl
    rw [hrun, Prod.mk.injEq] at h
    exact ⟨m, rfl, h.2.symm⟩
  | error e =>
    have hrun : (updateSpill pid llc).run s = (.error e, s) := by
      apply run_tryUpdate_error
      rw [hupdate]
      rfl
    rw [hrun, Prod.mk.injEq] at h
    exact absurd h.1 (by simp)

end Update

variable {G : Maps → Maps → Prop}

theorem keeps_load {β : Type} {m : MapName} {f : Maps → β} {access : Access} (hrefl : ∀ s, G s s)
    : (load m f access).Keeps G := by
  apply Proc.keeps_atomic
  intro s
  apply hrefl

theorem keeps_store {m : MapName} {f : Maps → Maps} (h : ∀ s, G s (f s)) : (store m f).Keeps G := by
  apply Proc.keeps_atomic
  intro s
  apply h

theorem keeps_tryUpdate {m : MapName} {upd : Maps → Except MapErr Maps} (hrefl : ∀ s, G s s)
    (h : ∀ s s', upd s = .ok s' → G s s')
    : (tryUpdate m upd).Keeps G := by
  apply Proc.keeps_atomic
  intro s
  split
  . next heq => exact h _ _ heq
  . apply hrefl

theorem keeps_ignore {α : Type} {p : BpfM α} (hp : p.Keeps G) : (ignore p).Keeps G := by
  unfold ignore
  apply Proc.keeps_bind hp
  intro _
  trivial

-- The handoff is decided by reading alone.
theorem keeps_syncHandoff {p : TaskStruct} {tctx : Option Tid} {homeMask : Finset Nat} {env : WakeEnv}
    (hrefl : ∀ s, G s s)
    : (syncHandoff p tctx homeMask env).Keeps G := by
  unfold syncHandoff
  split
  . apply Proc.keeps_bind (keeps_load hrefl)
    intro w
    split
    . trivial
    . apply Proc.keeps_bind (keeps_load hrefl)
      intro c
      apply Proc.keeps_bind (keeps_load hrefl)
      intro c'
      split <;> trivial
  . trivial

-- The one counter that any callback may come to.
structure KeepsErr (G : Maps → Maps → Prop) : Prop where
  refl : ∀ s, G s s
  tctxErr : ∀ s, G s { s with stats := Function.update s.stats .tctxErr (s.stats .tctxErr + 1) }

namespace KeepsErr

variable {p : TaskStruct} {tctx : Option Tid}

theorem load {β : Type} {m : MapName} {f : Maps → β} {access : Access} (h : KeepsErr G)
    : (Bpf.load m f access).Keeps G := by
  apply keeps_load
  exact h.refl

theorem lookupTaskCtx (h : KeepsErr G) : (Bpf.lookupTaskCtx p).Keeps G := by
  unfold Bpf.lookupTaskCtx
  apply Proc.keeps_bind h.load
  intro tctx
  dsimp only
  split
  . apply Proc.keeps_bind
    . apply keeps_store
      intro s
      apply h.tctxErr
    . intro _
      trivial
  . trivial

theorem readTctx? (h : KeepsErr G) : (Bpf.readTctx? tctx).Keeps G := by
  unfold Bpf.readTctx?
  split
  . apply Proc.keeps_bind h.load
    intro _
    trivial
  . trivial

end KeepsErr

structure KeepsStat (G : Maps → Maps → Prop) : Prop extends KeepsErr G where
  stat : ∀ s idx, G s { s with stats := Function.update s.stats idx (s.stats idx + 1) }
  tctxErr := fun s => stat s .tctxErr

theorem KeepsStat.statInc {idx : Stat} (h : KeepsStat G) : (Bpf.statInc idx).Keeps G := by
  apply keeps_store
  intro s
  apply h.stat

structure KeepsResolve (G : Maps → Maps → Prop) : Prop extends KeepsErr G where
  resolve : ∀ s t id, G s
    { s with
      taskCtxs := Function.update s.taskCtxs t ((s.taskCtxs t).map fun c => { c with cohortId := id }) }

theorem KeepsResolve.resolveCohort {p : TaskStruct} {tctx : Option Tid} (h : KeepsResolve G)
    : (Bpf.resolveCohort p tctx).Keeps G := by
  unfold Bpf.resolveCohort
  apply Proc.keeps_bind h.load
  intro idp
  split
  . apply Proc.keeps_bind
    . apply keeps_store
      intro s
      apply h.resolve
    . intro _
      trivial
  . trivial
  . apply Proc.keeps_bind h.load
    intro _
    trivial
  . trivial

-- Writes of `task_home_llc` and `resolve_cohort`: they leave the accounting fields alone.
def PlacementWrite (f : TaskCtx → TaskCtx) : Prop :=
  ∀ c, ∃ id spilled spill home,
    f c = { c with cohortId := id, isSpilled := spilled, spillLlc := spill, homeLlc := home }

structure KeepsPlacement (G : Maps → Maps → Prop) : Prop extends KeepsErr G where
  tctx : ∀ s t f, PlacementWrite f
    → G s { s with taskCtxs := Function.update s.taskCtxs t ((s.taskCtxs t).map f) }

namespace KeepsPlacement

variable {g : Globals} {p : TaskStruct} {tctx : Option Tid}

theorem modifyTctx {t : Tid} {f : TaskCtx → TaskCtx} (h : KeepsPlacement G) (hf : PlacementWrite f)
    : (Bpf.modifyTctx t f).Keeps G := by
  apply keeps_store
  intro s
  apply h.tctx
  exact hf

theorem resolves (h : KeepsPlacement G) : KeepsResolve G where
  toKeepsErr := h.toKeepsErr
  resolve := fun s t _ => h.tctx s t _ fun _ => ⟨_, _, _, _, rfl⟩

theorem taskHomeLlc (h : KeepsPlacement G) : (Bpf.taskHomeLlc g p tctx).Keeps G := by
  unfold Bpf.taskHomeLlc
  split
  . trivial
  . apply Proc.keeps_bind h.load
    intro spill
    split
    . apply Proc.keeps_bind
      . apply h.modifyTctx
        intro c
        exact ⟨_, _, _, _, rfl⟩
      . intro _
        trivial
    . apply Proc.keeps_bind
      . apply h.modifyTctx
        intro c
        exact ⟨_, _, _, _, rfl⟩
      . intro _
        apply Proc.keeps_bind h.resolves.resolveCohort
        intro id
        apply Proc.keeps_bind h.load
        intro policy
        apply Proc.keeps_bind
        . apply h.modifyTctx
          intro c
          exact ⟨_, _, _, _, rfl⟩
        . intro _
          trivial

theorem taskEffectiveLlc (h : KeepsPlacement G) : (Bpf.taskEffectiveLlc g p tctx).Keeps G := by
  unfold Bpf.taskEffectiveLlc
  apply Proc.keeps_bind h.taskHomeLlc
  intro home
  apply Proc.keeps_bind h.load
  intro llcx
  split
  . trivial
  . split <;> trivial

theorem enqueueBase (h : KeepsPlacement G) : (Bpf.enqueueBase g p tctx).Keeps G := by
  unfold Bpf.enqueueBase
  apply Proc.keeps_bind h.taskEffectiveLlc
  intro llc
  apply Proc.keeps_bind h.load
  intro llcx
  apply Proc.keeps_bind h.readTctx?
  intro _
  trivial

end KeepsPlacement

structure KeepsEdges (G : Maps → Maps → Prop) : Prop extends KeepsErr G where
  sample : ∀ s ctr, G s { s with sampleCtr := ctr }
  edges : ∀ s edges, G s { s with wakeEdges := edges }

theorem KeepsEdges.recordWakeEdge {g : Globals} {p : TaskStruct} {waker : Option TaskStruct} {cpu : Nat}
    (h : KeepsEdges G)
    : (Bpf.recordWakeEdge g p waker cpu).Keeps G := by
  unfold Bpf.recordWakeEdge
  split
  . trivial
  . split
    . trivial
    . apply Proc.keeps_bind
      . apply Proc.keeps_atomic
        intro s
        apply h.sample
      . intro sampleCtr
        split
        . trivial
        . apply Proc.keeps_bind h.load
          intro cnt
          split
          . apply keeps_store
            intro s
            apply h.edges
          . apply keeps_store
            intro s
            apply h.edges

-- Writes to the queues, with the counter of `cohort_dispatch`.
structure KeepsDispatch (G : Maps → Maps → Prop) : Prop extends KeepsErr G where
  steal : ∀ s, G s { s with stats := Function.update s.stats .steal (s.stats .steal + 1) }
  headEnqTs : ∀ s llc now,
    G s { s with llcs := Function.update s.llcs llc { s.llcs llc with headEnqTs := now } }
  queues : ∀ s dsqs localDsq, G s { s with dsqs := dsqs, localDsq := localDsq }

namespace KeepsDispatch

variable {g : Globals} {p : TaskStruct} {now : UInt64}

theorem refreshHead {llc : LlcId} {llcx : Option LlcCtx} (h : KeepsDispatch G)
    : (Bpf.refreshHead llc llcx now).Keeps G := by
  unfold Bpf.refreshHead
  apply Proc.keeps_bind h.load
  intro queued
  split
  . apply keeps_store
    intro s
    apply h.headEnqTs
  . trivial

theorem dsqInsertLocal {cpu : Int} (h : KeepsDispatch G) : (Bpf.dsqInsertLocal p cpu).Keeps G := by
  apply keeps_store
  intro s
  apply h.queues

variable {move : MoveToLocal}

theorem dsqMoveToLocal {llc : LlcId} {cpu : Int} (h : KeepsDispatch G)
    : (Bpf.dsqMoveToLocal move llc cpu).Keeps G := by
  apply Proc.keeps_atomic
  intro s
  split
  . apply h.refl
  . apply h.queues

theorem stealFrom {cpu : Int} {myLlc : LlcId} (h : KeepsDispatch G) (is : List Nat)
    : (Bpf.stealFrom g move cpu myLlc now is).Keeps G := by
  induction is with
  | nil => trivial
  | cons i is ih =>
    unfold Bpf.stealFrom
    dsimp only
    split
    . exact ih
    . apply Proc.keeps_bind h.load
      intro fx
      split
      . exact ih
      . apply Proc.keeps_bind h.load
        intro queued
        split
        . apply Proc.keeps_bind h.dsqMoveToLocal
          intro moved
          split
          . apply Proc.keeps_bind
            . apply keeps_store
              intro s
              apply h.headEnqTs
            . intro _
              apply Proc.keeps_bind
              . apply keeps_store
                intro s
                apply h.steal
              . intro _
                trivial
          . exact ih
        . exact ih

theorem cohortDispatch {cpu : Int} (h : KeepsDispatch G)
    : (Bpf.cohortDispatch g move cpu now).Keeps G := by
  unfold Bpf.cohortDispatch
  apply Proc.keeps_bind h.load
  intro llcx
  apply Proc.keeps_bind h.dsqMoveToLocal
  intro moved
  split
  . split
    . apply Proc.keeps_bind
      . apply keeps_store
        intro s
        apply h.headEnqTs
      . intro _
        trivial
    . trivial
  . apply h.stealFrom

end KeepsDispatch

-- These and what surrounds them: none of these is to a task context or a cohort.
structure KeepsQueues (G : Maps → Maps → Prop) : Prop
    extends KeepsStat G, KeepsEdges G, KeepsDispatch G where
  idle : ∀ s claims, G s { s with idleClaims := claims }
  steal := fun s => stat s .steal

namespace KeepsQueues

variable {p : TaskStruct} {tctx : Option Tid}

theorem place {idx : Stat} {cpu : Int} (h : KeepsQueues G)
    : (do
        Bpf.claimIdle cpu
        Bpf.statInc idx
        Bpf.dsqInsertLocal p cpu
        return cpu : BpfM Int).Keeps G := by
  apply Proc.keeps_bind
  . apply keeps_store
    intro s
    apply h.idle
  . intro _
    apply Proc.keeps_bind h.statInc
    intro _
    apply Proc.keeps_bind h.dsqInsertLocal
    intro _
    trivial

theorem idleLadder {prevCpu : Int} {homeMask : Finset Nat} {env : WakeEnv} (h : KeepsQueues G)
    : (Bpf.idleLadder p prevCpu homeMask env).Keeps G := by
  unfold Bpf.idleLadder
  dsimp only
  split
  . apply h.place
  . split
    . trivial
    . split
      . apply h.place
      . split
        . apply h.place
        . split
          . apply h.place
          . apply Proc.keeps_bind h.statInc
            intro _
            trivial

theorem syncHandoff {homeMask : Finset Nat} {env : WakeEnv} (h : KeepsQueues G)
    : (Bpf.syncHandoff p tctx homeMask env).Keeps G :=
  keeps_syncHandoff h.refl

end KeepsQueues

structure KeepsWake (G : Maps → Maps → Prop) : Prop extends KeepsErr G where
  wake : ∀ s t f, (∀ c, ∃ freq now, f c = { c with wakeFreq := freq, lastWakeAt := now })
    → G s { s with taskCtxs := Function.update s.taskCtxs t ((s.taskCtxs t).map f) }

theorem KeepsWake.cohortRunnable {p : TaskStruct} {now : UInt64} (h : KeepsWake G)
    : (Bpf.cohortRunnable p now).Keeps G := by
  have hwake : ∀ (t : Tid),
      (Bpf.modifyTctx t fun c => { c with lastWakeAt := now }).Keeps G := by
    intro t
    apply keeps_store
    intro s
    apply h.wake
    intro c
    exact ⟨_, _, rfl⟩
  unfold Bpf.cohortRunnable
  apply Proc.keeps_bind h.lookupTaskCtx
  intro tctx
  split
  . trivial
  . apply Proc.keeps_bind h.load
    intro c
    dsimp only
    split
    . apply Proc.keeps_bind
      . apply keeps_store
        intro s
        apply h.wake
        intro c
        exact ⟨_, _, rfl⟩
      . intro _
        apply hwake
    . apply hwake

-- The writes of the callbacks that place a task.
structure KeepsCalls (G : Maps → Maps → Prop) : Prop extends KeepsPlacement G, KeepsQueues G

namespace KeepsCalls

variable {g : Globals} {p : TaskStruct} {now : UInt64}

theorem cohortEnqueue (h : KeepsCalls G) : (Bpf.cohortEnqueue g p now).Keeps G := by
  unfold Bpf.cohortEnqueue
  apply Proc.keeps_bind h.lookupTaskCtx
  intro tctx
  apply Proc.keeps_bind h.enqueueBase
  intro ⟨llc, llcx, base⟩
  apply Proc.keeps_bind h.readTctx?
  intro c
  apply Proc.keeps_bind h.refreshHead
  intro _
  apply Proc.keeps_bind h.statInc
  intro _
  apply keeps_store
  intro s
  apply h.queues

theorem cohortSelectCpu {prevCpu : Int} {env : WakeEnv} (h : KeepsCalls G)
    : (Bpf.cohortSelectCpu g p prevCpu env).Keeps G := by
  unfold Bpf.cohortSelectCpu
  apply Proc.keeps_bind h.recordWakeEdge
  intro _
  split
  . trivial
  . apply Proc.keeps_bind h.lookupTaskCtx
    intro tctx
    apply Proc.keeps_bind h.taskHomeLlc
    intro home
    apply Proc.keeps_bind h.load
    intro llcx
    split
    . trivial
    . split
      . trivial
      . split
        . trivial
        . apply Proc.keeps_bind h.syncHandoff
          intro handoff
          split
          . apply Proc.keeps_bind h.statInc
            intro _
            apply Proc.keeps_bind h.dsqInsertLocal
            intro _
            trivial
          . apply h.idleLadder

end KeepsCalls

-- The writes of the callbacks that account for a task's runtime.
def AccountWrite (f : TaskCtx → TaskCtx) : Prop :=
  ∀ c, ∃ last vtime avg, f c = { c with lastRunAt := last, vtime := vtime, avgRuntimeNs := avg }

def RuntimeWrite (f : TaskStat → TaskStat) : Prop :=
  ∀ ts, ∃ sum home id,
    f ts = { ts with runtimeSum := sum, runtimeHomeSum := home, cohortId := id }

structure KeepsAccount (G : Maps → Maps → Prop) : Prop extends KeepsErr G where
  account : ∀ s t f, AccountWrite f
    → G s { s with taskCtxs := Function.update s.taskCtxs t ((s.taskCtxs t).map f) }
  vtimeNow : ∀ s llc vtime,
    G s { s with llcs := Function.update s.llcs llc { s.llcs llc with vtimeNow := vtime } }
  loadSum : ∀ s id (f : UInt64 → UInt64), G s
    { s with cohortCounters := s.cohortCounters.modify id fun c => { c with loadSum := f c.loadSum } }
  llcLoad : ∀ s load, G s { s with llcLoad := load }
  runtime : ∀ s pid f, RuntimeWrite f → G s { s with taskStats := s.taskStats.modify pid f }

namespace KeepsAccount

variable {g : Globals} {p : TaskStruct} {now : UInt64} {t : Tid}

theorem modifyTctx {f : TaskCtx → TaskCtx} (h : KeepsAccount G) (hf : AccountWrite f)
    : (Bpf.modifyTctx t f).Keeps G := by
  apply keeps_store
  intro s
  apply h.account
  exact hf

theorem cohortRunning (h : KeepsAccount G) : (Bpf.cohortRunning g p now).Keeps G := by
  unfold Bpf.cohortRunning
  apply Proc.keeps_bind h.lookupTaskCtx
  intro tctx
  apply Proc.keeps_bind h.load
  intro llcx
  split
  . trivial
  . apply Proc.keeps_bind
    . apply h.modifyTctx
      intro c
      exact ⟨_, _, _, rfl⟩
    . intro _
      apply Proc.keeps_bind h.load
      intro c
      unfold advanceFrontier
      split
      . dsimp only
        split
        . apply keeps_store
          intro s
          apply h.vtimeNow
        . trivial
      . trivial

theorem chargeVtime {delta : UInt64} (h : KeepsAccount G) : (Bpf.chargeVtime p t delta).Keeps G := by
  unfold Bpf.chargeVtime
  apply Proc.keeps_bind
  . apply h.modifyTctx
    intro c
    exact ⟨_, _, _, rfl⟩
  . intro _
    apply h.modifyTctx
    intro c
    exact ⟨_, _, _, rfl⟩

theorem chargeCohort {scaled : UInt64} (h : KeepsAccount G) : (Bpf.chargeCohort t scaled).Keeps G := by
  unfold Bpf.chargeCohort
  apply Proc.keeps_bind h.load
  intro c
  apply Proc.keeps_bind h.load
  intro counters
  split
  . apply keeps_store
    intro s
    exact h.loadSum s _ (· + scaled)
  . trivial

theorem chargeLlc {llc : LlcId} {scaled : UInt64} (h : KeepsAccount G)
    : (Bpf.chargeLlc llc scaled).Keeps G := by
  apply keeps_store
  intro s
  split
  . apply h.llcLoad
  . apply h.refl

theorem chargeTaskStat {llc : LlcId} {delta : UInt64} (h : KeepsAccount G)
    : (Bpf.chargeTaskStat p t llc delta).Keeps G := by
  unfold Bpf.chargeTaskStat
  apply Proc.keeps_bind h.load
  intro ts
  split
  . trivial
  . apply Proc.keeps_bind h.load
    intro c
    apply keeps_store
    intro s
    apply h.runtime
    intro ts
    exact ⟨_, _, _, rfl⟩

theorem cohortStopping (h : KeepsAccount G) : (Bpf.cohortStopping g p now).Keeps G := by
  unfold Bpf.cohortStopping
  apply Proc.keeps_bind h.lookupTaskCtx
  intro tctx
  split
  . trivial
  . apply Proc.keeps_bind h.load
    intro c
    apply Proc.keeps_bind h.chargeVtime
    intro _
    apply Proc.keeps_bind h.chargeCohort
    intro _
    apply Proc.keeps_bind h.chargeLlc
    intro _
    exact h.chargeTaskStat

end KeepsAccount

-- The writes of an exit.
structure KeepsExit (G : Maps → Maps → Prop) : Prop extends KeepsResolve G where
  nrTasks : ∀ s id (f : UInt64 → UInt64), G s
    { s with cohortCounters := s.cohortCounters.modify id fun c => { c with nrTasks := f c.nrTasks } }
  dropTaskStat : ∀ s pid, G s { s with taskStats := s.taskStats.delete pid }
  dropSpill : ∀ s pid, G s { s with spillTasks := s.spillTasks.delete pid }

namespace KeepsExit

variable {p : TaskStruct}

theorem countTask {id : CohortId} {f : UInt64 → UInt64} (h : KeepsExit G)
    : (Bpf.countTask id f).Keeps G := by
  unfold Bpf.countTask
  apply Proc.keeps_bind h.load
  intro counters
  split
  . apply keeps_store
    intro s
    apply h.nrTasks
  . trivial

theorem cohortExitTask (h : KeepsExit G) : (Bpf.cohortExitTask p).Keeps G := by
  unfold Bpf.cohortExitTask
  apply Proc.keeps_bind h.load
  intro tctx
  split
  . trivial
  . apply Proc.keeps_bind h.resolveCohort
    intro id
    apply Proc.keeps_bind h.countTask
    intro _
    apply Proc.keeps_bind
    . apply Proc.keeps_atomic
      intro s
      apply h.dropTaskStat
    . intro _
      apply Proc.keeps_atomic
      intro s
      apply h.dropSpill

end KeepsExit

-- All writes of the callbacks that neither admit a task nor account for its runtime.
structure KeepsFast (G : Maps → Maps → Prop) : Prop
    extends KeepsPlacement G, KeepsQueues G, KeepsWake G where
  nrTasks : ∀ s id (f : UInt64 → UInt64), G s
    { s with cohortCounters := s.cohortCounters.modify id fun c => { c with nrTasks := f c.nrTasks } }
  dropTaskStat : ∀ s pid, G s { s with taskStats := s.taskStats.delete pid }
  dropSpill : ∀ s pid, G s { s with spillTasks := s.spillTasks.delete pid }

namespace KeepsFast

variable {g : Globals} {p : TaskStruct} {tctx : Option Tid} {now : UInt64}

theorem calls (h : KeepsFast G) : KeepsCalls G := { h with }

theorem exits (h : KeepsFast G) : KeepsExit G where
  toKeepsResolve := h.resolves
  nrTasks := h.nrTasks
  dropTaskStat := h.dropTaskStat
  dropSpill := h.dropSpill

theorem cohortExitTask (h : KeepsFast G) : (Bpf.cohortExitTask p).Keeps G := h.exits.cohortExitTask

end KeepsFast

-- The writes that give a thread group its cohort.
structure KeepsAssign (G : Maps → Maps → Prop) : Prop extends KeepsErr G where
  seq : ∀ s seq rr, G s { s with cohortSeq := seq, rrCtr := rr }
  policy : ∀ s id policy flag m, s.cohortPolicy.update id policy flag = .ok m
    → G s { s with cohortPolicy := m }
  counters : ∀ s id counters flag m, s.cohortCounters.update id counters flag = .ok m
    → G s { s with cohortCounters := m }
  tgid : ∀ s tgid id flag m, s.tgidCohort.update tgid id flag = .ok m
    → G s { s with tgidCohort := m }

-- An update of one map, as `update` of that map allows it.
theorem keeps_update {cap : Nat} {κ ν : Type} [DecidableEq κ] {m : MapName}
    {get : Maps → BoundedMap cap κ ν} {set : Maps → BoundedMap cap κ ν → Maps} {k : κ} {v : ν}
    {flag : UpdateFlag} (hrefl : ∀ s, G s s)
    (h : ∀ s m, (get s).update k v flag = .ok m → G s (set s m))
    : (tryUpdate m fun s => return set s (← (get s).update k v flag)).Keeps G := by
  apply keeps_tryUpdate hrefl
  intro s s' hs
  cases hupd : (get s).update k v flag with
  | error e => simp [hupd] at hs
  | ok m =>
    simp only [hupd] at hs
    cases hs
    exact h s m hupd

namespace KeepsAssign

variable {g : Globals} {p : TaskStruct} {id : CohortId} {flag : UpdateFlag}

theorem updatePolicy {policy : CohortPolicy} (h : KeepsAssign G)
    : (Bpf.updatePolicy id policy flag).Keeps G :=
  keeps_update h.refl fun s m => h.policy s _ _ _ m

theorem updateCounters {counters : CohortCounters} (h : KeepsAssign G)
    : (Bpf.updateCounters id counters flag).Keeps G :=
  keeps_update h.refl fun s m => h.counters s _ _ _ m

theorem updateTgidCohort {tgid : Tgid} (h : KeepsAssign G)
    : (Bpf.updateTgidCohort tgid id flag).Keeps G :=
  keeps_update h.refl fun s m => h.tgid s _ _ _ m

theorem inheritedCohort {fork : Bool} {parent : Option TaskStruct} (h : KeepsAssign G)
    : (Bpf.inheritedCohort fork parent).Keeps G := by
  unfold Bpf.inheritedCohort
  split
  . apply Proc.keeps_bind h.load
    intro ptctx
    split
    . apply Proc.keeps_bind h.load
      intro _
      trivial
    . trivial
  . trivial

theorem freshCohort (h : KeepsAssign G) : (Bpf.freshCohort g).Keeps G := by
  unfold Bpf.freshCohort
  apply Proc.keeps_bind
  . apply Proc.keeps_atomic
    intro s
    apply h.seq
  . intro rr
    apply Proc.keeps_bind
    . apply Proc.keeps_atomic
      intro s
      apply h.seq
    . intro seq
      apply Proc.keeps_bind h.updatePolicy
      intro _
      apply Proc.keeps_bind h.updateCounters
      intro _
      trivial

theorem assignCohort {fork : Bool} {parent : Option TaskStruct} (h : KeepsAssign G)
    : (Bpf.assignCohort g p fork parent).Keeps G := by
  unfold Bpf.assignCohort
  apply Proc.keeps_bind h.load
  intro idp
  split
  . trivial
  . apply Proc.keeps_bind h.inheritedCohort
    intro inherited
    apply Proc.keeps_bind
    . unfold orFreshCohort
      split
      . exact h.freshCohort
      . trivial
    . intro id
      apply Proc.keeps_bind h.updateTgidCohort
      intro _
      trivial

end KeepsAssign

-- The writes of an admission.
structure KeepsAdmit (G : Maps → Maps → Prop) : Prop extends KeepsAssign G where
  nrTasks : ∀ s id (f : UInt64 → UInt64), G s
    { s with cohortCounters := s.cohortCounters.modify id fun c => { c with nrTasks := f c.nrTasks } }
  storage : ∀ s t, s.taskCtxs t = none
    → G s { s with taskCtxs := Function.update s.taskCtxs t (some {}) }
  start : ∀ s t f, (∀ c, ∃ id vtime, f c = { c with cohortId := id, vtime := vtime })
    → G s { s with taskCtxs := Function.update s.taskCtxs t ((s.taskCtxs t).map f) }
  taskStat : ∀ s pid ts m, s.taskStats.update pid ts .any = .ok m
    → G s { s with taskStats := m }

namespace KeepsAdmit

variable {g : Globals} {p : TaskStruct}

theorem updateTaskStat {pid : Pid} {ts : TaskStat} (h : KeepsAdmit G)
    : (Bpf.updateTaskStat pid ts).Keeps G :=
  keeps_update h.refl fun s m => h.taskStat s _ _ m

theorem countTask {id : CohortId} {f : UInt64 → UInt64} (h : KeepsAdmit G)
    : (Bpf.countTask id f).Keeps G := by
  unfold Bpf.countTask
  apply Proc.keeps_bind h.load
  intro counters
  split
  . apply keeps_store
    intro s
    apply h.nrTasks
  . trivial

theorem modifyTctx {t : Tid} {f : TaskCtx → TaskCtx} (h : KeepsAdmit G)
    (hf : ∀ c, ∃ id vtime, f c = { c with cohortId := id, vtime := vtime })
    : (Bpf.modifyTctx t f).Keeps G := by
  apply keeps_store
  intro s
  apply h.start
  exact hf

theorem startVtime {t : Tid} {id : CohortId} (h : KeepsAdmit G)
    : (Bpf.startVtime g t id).Keeps G := by
  unfold Bpf.startVtime
  apply Proc.keeps_bind h.load
  intro policy
  split
  . apply Proc.keeps_bind h.load
    intro llcx
    apply h.modifyTctx
    intro c
    exact ⟨_, _, rfl⟩
  . trivial

theorem cohortInitTask {fork : Bool} {parent : Option TaskStruct} {alloc : Bool} (h : KeepsAdmit G)
    : (Bpf.cohortInitTask g p fork parent alloc).Keeps G := by
  unfold Bpf.cohortInitTask
  apply Proc.keeps_bind
  . apply Proc.keeps_atomic
    intro s
    split
    . apply h.refl
    . next hnone =>
      split
      . exact h.storage s p.tid hnone
      . apply h.refl
  . intro t
    split
    . trivial
    . apply Proc.keeps_bind
      . unfold admitTask
        apply Proc.keeps_bind h.assignCohort
        intro id
        apply Proc.keeps_bind
        . apply h.modifyTctx
          intro c
          exact ⟨_, _, rfl⟩
        . intro _
          apply Proc.keeps_bind h.countTask
          intro _
          apply Proc.keeps_bind h.startVtime
          intro _
          apply Proc.keeps_bind h.updateTaskStat
          intro _
          trivial
      . intro _
        trivial

end KeepsAdmit

-- On top of these, the map updates: those of an admission and those the daemon makes.
structure KeepsMapWrites (G : Maps → Maps → Prop) : Prop extends KeepsFast G where
  seq : ∀ s seq rr, G s { s with cohortSeq := seq, rrCtr := rr }
  policy : ∀ s id policy flag m, s.cohortPolicy.update id policy flag = .ok m
    → G s { s with cohortPolicy := m }
  counters : ∀ s id counters flag m, s.cohortCounters.update id counters flag = .ok m
    → G s { s with cohortCounters := m }
  tgid : ∀ s tgid id flag m, s.tgidCohort.update tgid id flag = .ok m
    → G s { s with tgidCohort := m }
  taskStat : ∀ s pid ts m, s.taskStats.update pid ts .any = .ok m
    → G s { s with taskStats := m }
  spill : ∀ s pid llc m, s.spillTasks.update pid llc .any = .ok m
    → G s { s with spillTasks := m }

namespace KeepsMapWrites

theorem assign (h : KeepsMapWrites G) : KeepsAssign G := { h with }

theorem updateTaskStat {pid : Pid} {ts : TaskStat} (h : KeepsMapWrites G)
    : (Bpf.updateTaskStat pid ts).Keeps G :=
  keeps_update h.refl fun s m => h.taskStat s _ _ m

theorem updateSpill {pid : Pid} {llc : LlcId} (h : KeepsMapWrites G)
    : (Bpf.updateSpill pid llc).Keeps G :=
  keeps_update h.refl fun s m => h.spill s _ _ m

end KeepsMapWrites

-- The same callbacks, whatever the fields they write.
structure KeepsRuntime (G : Maps → Maps → Prop) : Prop extends KeepsFast G where
  anyTctx : ∀ s t f, G s { s with taskCtxs := Function.update s.taskCtxs t ((s.taskCtxs t).map f) }
  vtimeNow : ∀ s llc vtime,
    G s { s with llcs := Function.update s.llcs llc { s.llcs llc with vtimeNow := vtime } }
  anyCounters : ∀ s id f, G s { s with cohortCounters := s.cohortCounters.modify id f }
  llcLoad : ∀ s load, G s { s with llcLoad := load }
  anyTaskStat : ∀ s pid f, G s { s with taskStats := s.taskStats.modify pid f }

namespace KeepsRuntime

variable {g : Globals} {p : TaskStruct} {now : UInt64} {t : Tid}

theorem modifyTctx {f : TaskCtx → TaskCtx} (h : KeepsRuntime G) : (Bpf.modifyTctx t f).Keeps G := by
  apply keeps_store
  intro s
  apply h.anyTctx

theorem account (h : KeepsRuntime G) : KeepsAccount G where
  toKeepsErr := h.toKeepsErr
  account := fun s t f _ => h.anyTctx s t f
  vtimeNow := h.vtimeNow
  loadSum := fun s id _ => h.anyCounters s id _
  llcLoad := h.llcLoad
  runtime := fun s pid f _ => h.anyTaskStat s pid f

theorem startVtime {id : CohortId} (h : KeepsRuntime G) : (Bpf.startVtime g t id).Keeps G := by
  unfold Bpf.startVtime
  apply Proc.keeps_bind h.load
  intro policy
  split
  . apply Proc.keeps_bind h.load
    intro llcx
    exact h.modifyTctx
  . trivial

end KeepsRuntime

-- All writes there are, once the scheduler is attached.
structure KeepsAll (G : Maps → Maps → Prop) : Prop extends KeepsMapWrites G, KeepsRuntime G where
  storage : ∀ s t, G s { s with taskCtxs := Function.update s.taskCtxs t (some {}) }
  dropPolicy : ∀ s id, G s { s with cohortPolicy := s.cohortPolicy.delete id }
  dropCounters : ∀ s id, G s { s with cohortCounters := s.cohortCounters.delete id }
  dropTgid : ∀ s tgid, G s { s with tgidCohort := s.tgidCohort.delete tgid }

namespace KeepsAll

variable {g : Globals}

theorem admission (h : KeepsAll G) : KeepsAdmit G where
  toKeepsAssign := h.assign
  nrTasks := h.nrTasks
  storage := fun s t _ => h.storage s t
  start := fun s t f _ => h.anyTctx s t f
  taskStat := h.taskStat

theorem prog (h : KeepsAll G) (e : Event) : (e.prog g).Keeps G := by
  cases e with
  | initTask p fork parent alloc => exact keeps_ignore h.admission.cohortInitTask
  | exitTask p => exact h.cohortExitTask
  | selectCpu p prevCpu env => exact keeps_ignore h.calls.cohortSelectCpu
  | enqueue p now => exact h.calls.cohortEnqueue
  | dispatch cpu now => exact keeps_ignore h.cohortDispatch
  | runnable p now => exact h.cohortRunnable
  | running p now => exact h.account.cohortRunning
  | stopping p now => exact h.account.cohortStopping
  | setPolicy id policy flag => exact keeps_ignore h.assign.updatePolicy
  | dropPolicy id => exact Proc.keeps_atomic fun s => h.dropPolicy s id
  | setCounters id counters flag => exact keeps_ignore h.assign.updateCounters
  | dropCounters id => exact Proc.keeps_atomic fun s => h.dropCounters s id
  | setTgid tgid id flag => exact keeps_ignore h.assign.updateTgidCohort
  | dropTgid tgid => exact Proc.keeps_atomic fun s => h.dropTgid s tgid
  | setSpill pid llc => exact keeps_ignore h.updateSpill
  | dropSpill pid => exact Proc.keeps_atomic fun s => h.dropSpill s pid

theorem run (h : KeepsAll G) (htrans : ∀ a b c, G a b → G b c → G a c) (s : Maps) (es : List Event)
    : G s (Bpf.run g s es) := by
  induction es generalizing s with
  | nil => exact h.refl s
  | cons e es ih =>
    apply htrans
    . exact (h.prog (g := g) e).run h.refl htrans s
    . exact ih (step g s e)

end KeepsAll

end Bpf
