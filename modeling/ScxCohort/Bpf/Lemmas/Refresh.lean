import ScxCohort.Bpf.Lemmas.Frontier

/-!
This module contains when a wakeup brings the cohort id that a task context caches up to date with
`tgid_cohort`. `task_home_llc` looks at the spill map first, and a spilled task never comes to
`resolve_cohort`.
-/

namespace Bpf

variable (g : Globals)

def Refreshed (s : Maps) (p : TaskStruct) : Prop :=
  ∀ c ∈ s.taskCtxs p.tid, ∀ id ∈ s.tgidCohort.lookup p.tgid, c.cohortId = id

instance (s : Maps) (p : TaskStruct) : Decidable (Refreshed s p) :=
  decidable_of_iff
    ((s.taskCtxs p.tid).all fun c => (s.tgidCohort.lookup p.tgid).all fun id => c.cohortId = id)
    (by simp [Option.all_eq_true, Refreshed])

def dispatchesDirectly (s : Maps) (p : TaskStruct) (prevCpu : Int) (env : WakeEnv) : Bool :=
  (step g s (.selectCpu p prevCpu env)).localDsq ≠ s.localDsq

-- A wakeup ends with the `select_cpu` that dispatches the task directly, or with its next `enqueue`.
inductive EndsWakeup (s : Maps) (pre : List Event) (p : TaskStruct) : Event → Prop where
  | direct (prevCpu : Int) (env : WakeEnv)
      (h : dispatchesDirectly g (run g s pre) p prevCpu env = true)
      : EndsWakeup s pre p (.selectCpu p prevCpu env)
  | queued (now : UInt64) (pre₁ mid : List Event) (p₁ : TaskStruct) (prevCpu : Int) (env : WakeEnv)
      (hpre : pre = pre₁ ++ .selectCpu p₁ prevCpu env :: mid) (htid : p₁.tid = p.tid)
      (h : dispatchesDirectly g (run g s pre₁) p₁ prevCpu env = false)
      (hmid : ∀ p' now', .enqueue p' now' ∈ mid → p'.tid ≠ p.tid)
      : EndsWakeup s pre p (.enqueue p now)

def WakeupsRefresh (s : Maps) (es : List Event) : Prop :=
  ∀ pre e post p, es = pre ++ e :: post → EndsWakeup g s pre p e
    → Refreshed (run g s (pre ++ [e])) p

-- The task is not spilled when its wakeup ends, or there is nothing to bring up to date.
def WakeupsUnspilled (s : Maps) (es : List Event) : Prop :=
  ∀ pre e post p, es = pre ++ e :: post → EndsWakeup g s pre p e
    → (run g s pre).spillTasks.lookup p.pid = none ∨ Refreshed (run g s pre) p

variable {g} {s s' : Maps} {p : TaskStruct}

structure SameMembership (s s' : Maps) : Prop where
  tctx : s'.taskCtxs = s.taskCtxs
  tgid : s'.tgidCohort = s.tgidCohort
  spill : s'.spillTasks = s.spillTasks
  stats : s'.taskStats = s.taskStats

namespace SameMembership

theorem refl (s : Maps) : SameMembership s s := ⟨rfl, rfl, rfl, rfl⟩

theorem trans (a b c : Maps) (h : SameMembership a b) (h' : SameMembership b c)
    : SameMembership a c :=
  ⟨h'.tctx.trans h.tctx, h'.tgid.trans h.tgid, h'.spill.trans h.spill,
    h'.stats.trans h.stats⟩

theorem keepsQueues : KeepsQueues SameMembership where
  refl := refl
  stat := fun _ _ => ⟨rfl, rfl, rfl, rfl⟩
  headEnqTs := fun _ _ _ => ⟨rfl, rfl, rfl, rfl⟩
  queues := fun _ _ _ => ⟨rfl, rfl, rfl, rfl⟩
  idle := fun _ _ => ⟨rfl, rfl, rfl, rfl⟩
  sample := fun _ _ => ⟨rfl, rfl, rfl, rfl⟩
  edges := fun _ _ => ⟨rfl, rfl, rfl, rfl⟩

theorem refreshed_iff (h : SameMembership s s') : Refreshed s' p ↔ Refreshed s p := by
  unfold Refreshed
  rw [h.tctx, h.tgid]

theorem run {α : Type} {q : BpfM α} (h : q.Keeps SameMembership) (s : Maps)
    : SameMembership s (q.run s).2 :=
  h.run refl trans s

theorem bind {α β : Type} {q : BpfM α} {f : α → BpfM β} (h : ∀ a, (f a).Keeps SameMembership)
    : SameMembership (q.run s).2 ((q >>= f).run s).2 := by
  rw [Proc.run_bind]
  apply run
  apply h

end SameMembership

theorem tgidCohort_taskHomeLlc (tctx : Option Tid)
    : ((taskHomeLlc g p tctx).run s).2.tgidCohort = s.tgidCohort := by
  have hkeeps : KeepsPlacement fun s s' => s'.tgidCohort = s.tgidCohort :=
    { refl := fun _ => rfl, tctxErr := fun _ => rfl, tctx := fun _ _ _ _ => rfl }
  apply hkeeps.taskHomeLlc.run
  . intro s
    rfl
  . intro a b c h h'
    exact h'.trans h

theorem cohortId_taskHomeLlc {c : TaskCtx} (hc : s.taskCtxs p.tid = some c)
    : ∃ c', ((taskHomeLlc g p (some p.tid)).run s).2.taskCtxs p.tid = some c'
        ∧ c'.cohortId
            =
          if s.spillTasks.lookup p.pid = none then
            (s.tgidCohort.lookup p.tgid).getD c.cohortId
          else
            c.cohortId := by
  unfold taskHomeLlc
  cases hspill : s.spillTasks.lookup p.pid with
  | some spill => simp [hspill, hc]
  | none =>
    cases htgid : s.tgidCohort.lookup p.tgid with
    | some id => simp [hspill, resolveCohort, htgid, hc]
    | none => simp [hspill, resolveCohort, htgid, hc]

-- The home lookup of a task, once the callback has looked up its context.
theorem refreshed_taskHomeLlc
    : Refreshed ((taskHomeLlc g p ((s.taskCtxs p.tid).map fun _ => p.tid)).run s).2 p
        ↔
      s.spillTasks.lookup p.pid = none ∨ Refreshed s p := by
  unfold Refreshed
  rw [tgidCohort_taskHomeLlc]
  cases hc : s.taskCtxs p.tid with
  | none => simp [taskHomeLlc, hc]
  | some c =>
    obtain ⟨c', hc', heq⟩ := cohortId_taskHomeLlc (g := g) hc
    rw [Option.map_some, hc']
    simp only [Option.mem_def, Option.some.injEq, forall_eq', heq]
    cases htgid : s.tgidCohort.lookup p.tgid with
    | none => simp
    | some id =>
      by_cases hspill : s.spillTasks.lookup p.pid = none
      . simp [hspill]
      . simp [hspill]

theorem run_lookupTaskCtx_fst : ((lookupTaskCtx p).run s).1 = (s.taskCtxs p.tid).map fun _ => p.tid := by
  cases hc : s.taskCtxs p.tid with
  | none => rw [run_lookupTaskCtx_none hc, Option.map_none]
  | some c => rw [run_lookupTaskCtx hc, Option.map_some]

theorem sameMembership_lookupTaskCtx : SameMembership s ((lookupTaskCtx p).run s).2 :=
  SameMembership.run SameMembership.keepsQueues.lookupTaskCtx s

-- Looking up the context and then the home comes before any other write to a context.
def homeLooked (g : Globals) (s : Maps) (p : TaskStruct) : Maps :=
  ((taskHomeLlc g p ((lookupTaskCtx p).run s).1).run ((lookupTaskCtx p).run s).2).2

theorem refreshed_homeLooked
    : Refreshed (homeLooked g s p) p ↔ s.spillTasks.lookup p.pid = none ∨ Refreshed s p := by
  have hlook : SameMembership s ((lookupTaskCtx p).run s).2 := sameMembership_lookupTaskCtx
  unfold homeLooked
  rw [run_lookupTaskCtx_fst, ← hlook.tctx, refreshed_taskHomeLlc, hlook.spill, hlook.refreshed_iff]

theorem sameMembership_enqueueBase {tctx : Option Tid}
    : SameMembership ((taskHomeLlc g p tctx).run s).2 ((enqueueBase g p tctx).run s).2 := by
  have hquiet := SameMembership.keepsQueues
  have heffective
      : SameMembership ((taskHomeLlc g p tctx).run s).2 ((taskEffectiveLlc g p tctx).run s).2 := by
    unfold taskEffectiveLlc
    apply SameMembership.bind
    intro home
    apply Proc.keeps_bind hquiet.load
    intro llcx
    split
    . trivial
    . split <;> trivial
  apply SameMembership.trans _ _ _ heffective
  unfold enqueueBase
  apply SameMembership.bind
  intro llc
  apply Proc.keeps_bind hquiet.load
  intro llcx
  apply Proc.keeps_bind hquiet.readTctx?
  intro _
  trivial

theorem sameMembership_step_enqueue {now : UInt64}
    : SameMembership (homeLooked g s p) (step g s (.enqueue p now)) := by
  have hquiet := SameMembership.keepsQueues
  unfold homeLooked step Event.prog cohortEnqueue
  dsimp only
  rw [Proc.run_bind]
  apply SameMembership.trans _ _ _ sameMembership_enqueueBase
  apply SameMembership.bind
  intro base
  apply Proc.keeps_bind hquiet.readTctx?
  intro c
  apply Proc.keeps_bind hquiet.refreshHead
  intro _
  apply Proc.keeps_bind hquiet.statInc
  intro _
  apply keeps_store
  intro s
  apply hquiet.queues

theorem refreshed_step_enqueue {now : UInt64}
    : Refreshed (step g s (.enqueue p now)) p
        ↔
      s.spillTasks.lookup p.pid = none ∨ Refreshed s p := by
  rw [sameMembership_step_enqueue.refreshed_iff, refreshed_homeLooked]

theorem localDsq_recordWakeEdge {waker : Option TaskStruct} {cpu : Nat}
    : ((recordWakeEdge g p waker cpu).run s).2.localDsq = s.localDsq := by
  have hkeeps : KeepsEdges fun s s' => s'.localDsq = s.localDsq :=
    { refl := fun _ => rfl, tctxErr := fun _ => rfl, sample := fun _ _ => rfl, edges := fun _ _ => rfl }
  apply hkeeps.recordWakeEdge.run
  . intro s
    rfl
  . intro a b c h h'
    exact h'.trans h

theorem run_selectCpu_pinned {prevCpu : Int} {env : WakeEnv} (h : p.nrCpusAllowed = 1)
    : (cohortSelectCpu g p prevCpu env).run s
        =
      (prevCpu, ((recordWakeEdge g p env.waker env.smpProcessorId).run s).2) := by
  unfold cohortSelectCpu
  simp [h]

theorem dispatchesDirectly_of_pinned {prevCpu : Int} {env : WakeEnv} (h : p.nrCpusAllowed = 1)
    : dispatchesDirectly g s p prevCpu env = false := by
  simp [dispatchesDirectly, step, Event.prog, ignore, run_selectCpu_pinned h, localDsq_recordWakeEdge]

theorem sameMembership_step_selectCpu {prevCpu : Int} {env : WakeEnv} (h : p.nrCpusAllowed ≠ 1)
    : SameMembership
        (homeLooked g ((recordWakeEdge g p env.waker env.smpProcessorId).run s).2 p)
        (step g s (.selectCpu p prevCpu env)) := by
  have hquiet := SameMembership.keepsQueues
  unfold homeLooked step Event.prog ignore cohortSelectCpu
  dsimp only
  rw [Proc.run_bind, Proc.run_pure, Proc.run_bind]
  simp only [if_neg h]
  rw [Proc.run_bind]
  apply SameMembership.bind
  intro home
  apply Proc.keeps_bind hquiet.load
  intro llcx
  split
  . trivial
  . split
    . trivial
    . split
      . trivial
      . apply Proc.keeps_bind hquiet.syncHandoff
        intro handoff
        split
        . apply Proc.keeps_bind hquiet.statInc
          intro _
          apply Proc.keeps_bind hquiet.dsqInsertLocal
          intro _
          trivial
        . apply hquiet.idleLadder

theorem sameMembership_recordWakeEdge {waker : Option TaskStruct} {cpu : Nat}
    : SameMembership s ((recordWakeEdge g p waker cpu).run s).2 :=
  SameMembership.run SameMembership.keepsQueues.recordWakeEdge s

theorem refreshed_step_selectCpu {prevCpu : Int} {env : WakeEnv} (h : p.nrCpusAllowed ≠ 1)
    : Refreshed (step g s (.selectCpu p prevCpu env)) p
        ↔
      s.spillTasks.lookup p.pid = none ∨ Refreshed s p := by
  have hedge : SameMembership s ((recordWakeEdge g p env.waker env.smpProcessorId).run s).2 :=
    sameMembership_recordWakeEdge
  rw [(sameMembership_step_selectCpu h).refreshed_iff, refreshed_homeLooked, hedge.spill,
    hedge.refreshed_iff]

theorem wakeupsRefresh_iff (g : Globals) (s : Maps) (es : List Event)
    : WakeupsRefresh g s es ↔ WakeupsUnspilled g s es := by
  unfold WakeupsRefresh WakeupsUnspilled
  apply forall₄_congr
  intro pre e post p
  apply forall₂_congr
  intro _ hends
  rw [run_append, run_cons, run_nil]
  cases hends with
  | direct prevCpu env h =>
    apply refreshed_step_selectCpu
    intro hpinned
    rw [dispatchesDirectly_of_pinned hpinned] at h
    contradiction
  | queued now pre₁ mid p₁ prevCpu env hpre htid h hmid => apply refreshed_step_enqueue

section Spilled

def editor : TaskStruct := { tid := 1, pid := 10, tgid := 10, cpusPtr := {0, 1}, nrCpusAllowed := 2 }

def indexer : TaskStruct := { tid := 2, pid := 20, tgid := 20, cpusPtr := {0, 1}, nrCpusAllowed := 2 }

def mergedWhileSpilled : List Event :=
  [.initTask editor false none true, .initTask indexer false none true, .setSpill 20 0,
    .setTgid 20 1 .exist, .dropCounters 2, .dropPolicy 2]

-- The daemon merges the cohort of a spilled task into another; the task still names the old one after
-- its next wakeup, which ends in the queue of its spill target.
theorem spilled_not_wakeupsRefresh
    : ¬ WakeupsRefresh twoLlcs (attached twoLlcs)
        (mergedWhileSpilled ++ [.selectCpu indexer 1 {}, .enqueue indexer 1]) := by
  intro h
  have hends : EndsWakeup twoLlcs (attached twoLlcs) (mergedWhileSpilled ++ [.selectCpu indexer 1 {}])
      indexer (.enqueue indexer 1) :=
    .queued 1 mergedWhileSpilled [] indexer 1 {} rfl rfl (by decide +kernel) (by nofun)
  have hrefreshed := h _ _ [] indexer rfl hends
  revert hrefreshed
  decide +kernel

end Spilled

end Bpf
