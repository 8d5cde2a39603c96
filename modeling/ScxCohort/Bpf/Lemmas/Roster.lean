import ScxCohort.Bpf.Lemmas.Refresh

/-!
This module contains what the daemon can know of a task's cohort. Three maps name it: `tgid_cohort`,
the task's own context and its entry in `task_stats`. The second follows the first when the task is
woken, and the third follows the second when the task stops.
-/

namespace Bpf

def cachedAt (s : Maps) (t : Tid) : Option CohortId := (s.taskCtxs t).map (·.cohortId)

def countedIn (s : Maps) (pid : Pid) : Option CohortId := (s.taskStats.lookup pid).map (·.cohortId)

def cohortOf (s : Maps) (tgid : Tgid) : Option CohortId := s.tgidCohort.lookup tgid

-- A live task, and whether its context and its entry have followed its thread group since that last
-- changed its cohort.
structure Member where
  task : TaskStruct
  fresh : Bool
  counted : Bool

-- A callback, or whatever the daemon writes: it has no access to contexts and leaves `task_stats` alone.
inductive Turn where
  | event (e : Event)
  | daemon (s' : Maps)

namespace Turn

variable (g : Globals)

def step (s : Maps) : Turn → Maps
  | .event e => Bpf.step g s e
  | .daemon s' => { s' with taskCtxs := s.taskCtxs, taskStats := s.taskStats }

end Turn

section Marks

variable (s s' : Maps) (p : TaskStruct)

def Member.unsettle (m : Member) : Member :=
  if cohortOf s' m.task.tgid = cohortOf s m.task.tgid then
    m
  else
    { m with fresh := false, counted := false }

-- A home lookup that comes to `resolve_cohort`.
def Member.lookup (m : Member) : Member :=
  if m.task.tid = p.tid then
    { m with
      fresh := m.fresh || (s.spillTasks.lookup p.pid = none && (cohortOf s p.tgid).isSome) }
  else
    m

def Member.stop (m : Member) : Member :=
  if m.task.tid = p.tid then { m with counted := m.fresh && p.pid ∈ s.taskStats } else m

def Member.join : Member :=
  let mapped := p.tgid ∈ s.tgidCohort || s.tgidCohort.size < 65536
  let listed := p.pid ∈ s.taskStats || s.taskStats.size < 65536
  { task := p, fresh := mapped, counted := mapped && listed }

end Marks

namespace Roster

variable (g : Globals)

def note (s : Maps) (r : List Member) : Event → List Member
  | .initTask p fork parent alloc =>
    if ((cohortInitTask g p fork parent alloc).run s).1 then Member.join s p :: r else r
  | .exitTask p => r.filter (·.task.tid ≠ p.tid)
  | .selectCpu p _ _ => if p.nrCpusAllowed = 1 then r else r.map (Member.lookup s p)
  | .enqueue p _ => r.map (Member.lookup s p)
  | .stopping p _ => r.map (Member.stop s p)
  | _ => r

def next (s : Maps) (r : List Member) (t : Turn) : List Member :=
  let r' := r.map (Member.unsettle s (t.step g s))
  match t with
  | .event e => note g s r' e
  | .daemon _ => r'

-- What the kernel promises: no two live tasks share a storage or a pid, and a task keeps its ids.
def names (r : List Member) (p : TaskStruct) : Bool :=
  r.all fun m =>
    (m.task.tid ≠ p.tid && m.task.pid ≠ p.pid)
      || (m.task.tid = p.tid && m.task.pid = p.pid && m.task.tgid = p.tgid)

def proper (r : List Member) : Turn → Bool
  | .event (.initTask p _ _ _) => r.all fun m => m.task.tid ≠ p.tid && m.task.pid ≠ p.pid
  | .event (.exitTask p) => names r p
  | .event (.selectCpu p _ _) => names r p
  | .event (.enqueue p _) => names r p
  | .event (.stopping p _) => names r p
  | _ => true

end Roster

section Effects

variable {g : Globals} {s s' : Maps} {p : TaskStruct} {now : UInt64}

structure SameCopies (s s' : Maps) : Prop where
  cached : ∀ t, cachedAt s' t = cachedAt s t
  stats : s'.taskStats = s.taskStats

namespace SameCopies

theorem refl (s : Maps) : SameCopies s s := ⟨fun _ => rfl, rfl⟩

theorem trans (a b c : Maps) (h : SameCopies a b) (h' : SameCopies b c) : SameCopies a c := by
  constructor
  . intro t
    rw [h'.cached, h.cached]
  . rw [h'.stats, h.stats]

theorem of_tctx {t : Tid} {f : TaskCtx → TaskCtx} (hf : ∀ c, (f c).cohortId = c.cohortId)
    : SameCopies s { s with taskCtxs := Function.update s.taskCtxs t ((s.taskCtxs t).map f) } := by
  refine ⟨?_, rfl⟩
  intro t'
  simp only [cachedAt, Function.update_apply]
  split
  . next heq =>
    rw [heq, Option.map_map]
    congr 1
    funext c
    exact hf c
  . rfl

theorem keepsQueues : KeepsQueues SameCopies where
  refl := refl
  stat := fun _ _ => ⟨fun _ => rfl, rfl⟩
  headEnqTs := fun _ _ _ => ⟨fun _ => rfl, rfl⟩
  queues := fun _ _ _ => ⟨fun _ => rfl, rfl⟩
  idle := fun _ _ => ⟨fun _ => rfl, rfl⟩
  sample := fun _ _ => ⟨fun _ => rfl, rfl⟩
  edges := fun _ _ => ⟨fun _ => rfl, rfl⟩

theorem keepsWake : KeepsWake SameCopies where
  refl := refl
  tctxErr := fun _ => ⟨fun _ => rfl, rfl⟩
  wake := by
    intro s t f hf
    apply of_tctx
    intro c
    obtain ⟨_, _, heq⟩ := hf c
    rw [heq]

end SameCopies

theorem sameCopies_step_running : SameCopies s (step g s (.running p now)) := by
  cases hc : s.taskCtxs p.tid with
  | none =>
    simp only [step, Event.prog, cohortRunning, lookupLlcCtx, Proc.run_bind, run_load]
    rw [run_lookupTaskCtx_none hc]
    exact SameCopies.keepsWake.lookupTaskCtx.run SameCopies.refl SameCopies.trans s
  | some c =>
    have hwrite : SameCopies s
        { s with taskCtxs := Function.update s.taskCtxs p.tid (some (runs now c)) } := by
      have h := SameCopies.of_tctx (s := s) (t := p.tid) (f := runs now) fun _ => rfl
      rw [hc, Option.map_some] at h
      exact h
    simp only [step, Event.prog]
    rw [run_cohortRunning hc]
    apply SameCopies.trans _ _ _ hwrite
    unfold advanceFrontier
    split
    . split
      . exact ⟨fun _ => rfl, rfl⟩
      . apply SameCopies.refl
    . apply SameCopies.refl

-- All that a home lookup of `p` does to the copies.
structure Looks (s s' : Maps) (p : TaskStruct) : Prop where
  others : ∀ t, t ≠ p.tid → cachedAt s' t = cachedAt s t
  context : (cachedAt s' p.tid).isSome = (cachedAt s p.tid).isSome
  tgid : s'.tgidCohort = s.tgidCohort
  stats : s'.taskStats = s.taskStats
  refreshed : Refreshed s' p ↔ s.spillTasks.lookup p.pid = none ∨ Refreshed s p

theorem Looks.of_same {s₀ s₁ : Maps} (h : Looks s₀ s₁ p) (hs : SameMembership s s₀)
    (hs' : SameMembership s₁ s')
    : Looks s s' p := by
  have hcached : ∀ t, cachedAt s₀ t = cachedAt s t := by
    intro t
    unfold cachedAt
    rw [hs.tctx]
  have hcached' : ∀ t, cachedAt s' t = cachedAt s₁ t := by
    intro t
    unfold cachedAt
    rw [hs'.tctx]
  constructor
  . intro t ht
    rw [hcached', h.others t ht, hcached]
  . rw [hcached', h.context, hcached]
  . rw [hs'.tgid, h.tgid, hs.tgid]
  . rw [hs'.stats, h.stats, hs.stats]
  . rw [hs'.refreshed_iff, h.refreshed, hs.spill, hs.refreshed_iff]

theorem stats_taskHomeLlc {tctx : Option Tid}
    : ((taskHomeLlc g p tctx).run s).2.taskStats = s.taskStats := by
  have hkeeps : KeepsPlacement fun s s' => s'.taskStats = s.taskStats :=
    { refl := fun _ => rfl, tctxErr := fun _ => rfl, tctx := fun _ _ _ _ => rfl }
  apply hkeeps.taskHomeLlc.run
  . intro s
    rfl
  . intro a b c h h'
    exact h'.trans h

theorem taskCtxs_taskHomeLlc_ne {t : Tid} (ht : t ≠ p.tid)
    : ((taskHomeLlc g p ((s.taskCtxs p.tid).map fun _ => p.tid)).run s).2.taskCtxs t
        =
      s.taskCtxs t := by
  unfold taskHomeLlc
  cases hc : s.taskCtxs p.tid with
  | none => rfl
  | some c =>
    cases hspill : s.spillTasks.lookup p.pid with
    | some spill => simp [hspill, Function.update_of_ne ht]
    | none =>
      cases htgid : s.tgidCohort.lookup p.tgid with
      | some id => simp [hspill, resolveCohort, htgid, Function.update_of_ne ht]
      | none => simp [hspill, resolveCohort, htgid, Function.update_of_ne ht]

theorem looks_taskHomeLlc
    : Looks s ((taskHomeLlc g p ((s.taskCtxs p.tid).map fun _ => p.tid)).run s).2 p := by
  constructor
  . intro t ht
    unfold cachedAt
    rw [taskCtxs_taskHomeLlc_ne ht]
  . cases hc : s.taskCtxs p.tid with
    | none => rfl
    | some c =>
      obtain ⟨c', hc', _⟩ := cohortId_taskHomeLlc (g := g) hc
      simp [cachedAt, hc, hc']
  . apply tgidCohort_taskHomeLlc
  . apply stats_taskHomeLlc
  . apply refreshed_taskHomeLlc

theorem looks_homeLooked : Looks s (homeLooked g s p) p := by
  have hlook : SameMembership s ((lookupTaskCtx p).run s).2 := sameMembership_lookupTaskCtx
  unfold homeLooked
  rw [run_lookupTaskCtx_fst, ← hlook.tctx]
  exact looks_taskHomeLlc.of_same hlook (SameMembership.refl _)

theorem looks_step_enqueue : Looks s (step g s (.enqueue p now)) p :=
  looks_homeLooked.of_same (SameMembership.refl s) sameMembership_step_enqueue

theorem looks_step_selectCpu {prevCpu : Int} {env : WakeEnv} (h : p.nrCpusAllowed ≠ 1)
    : Looks s (step g s (.selectCpu p prevCpu env)) p :=
  looks_homeLooked.of_same sameMembership_recordWakeEdge (sameMembership_step_selectCpu h)

theorem sameMembership_step_selectCpu_pinned {prevCpu : Int} {env : WakeEnv}
    (h : p.nrCpusAllowed = 1)
    : SameMembership s (step g s (.selectCpu p prevCpu env)) := by
  simp only [step, Event.prog, ignore, Proc.run_bind, Proc.run_pure, run_selectCpu_pinned h]
  exact sameMembership_recordWakeEdge

-- All that a stop of `p` does to the copies, if it has a context that names `id`.
structure Stops (s s' : Maps) (p : TaskStruct) (id : CohortId) : Prop where
  cached : ∀ t, cachedAt s' t = cachedAt s t
  tgid : s'.tgidCohort = s.tgidCohort
  counted : ∀ pid, countedIn s' pid
    = if pid = p.pid then (countedIn s pid).map fun _ => id else countedIn s pid

theorem countedIn_modify {pid pid' : Pid} {f : TaskStat → TaskStat} {id : CohortId}
    (hf : ∀ ts, (f ts).cohortId = id)
    : countedIn { s with taskStats := s.taskStats.modify pid f } pid'
        =
      if pid' = pid then (countedIn s pid').map fun _ => id else countedIn s pid' := by
  unfold countedIn
  rw [BoundedMap.lookup_modify]
  split
  . rw [Option.map_map, Option.map_map]
    congr 1
    funext ts
    exact hf ts
  . rfl

theorem stops_chargeTaskStat {c : TaskCtx} {llc : LlcId} {delta : UInt64}
    (hc : s.taskCtxs p.tid = some c)
    : Stops s ((chargeTaskStat p p.tid llc delta).run s).2 p c.cohortId := by
  unfold chargeTaskStat
  rw [Proc.run_bind, run_load]
  dsimp only
  cases hts : s.taskStats.lookup p.pid with
  | none =>
    refine ⟨fun _ => rfl, rfl, ?_⟩
    intro pid
    dsimp only [Proc.run_pure]
    split
    . next heq => simp [countedIn, heq, hts]
    . rfl
  | some ts =>
    simp only [Proc.run_bind, run_readTctx, run_modifyTaskStat, hc, Option.getD_some]
    refine ⟨fun _ => rfl, rfl, ?_⟩
    intro pid
    apply countedIn_modify
    intro ts
    rfl

theorem sameMembership_chargeCohort (t : Tid) (scaled : UInt64)
    : (chargeCohort t scaled).Keeps SameMembership := by
  have hquiet := SameMembership.keepsQueues
  unfold chargeCohort
  apply Proc.keeps_bind hquiet.load
  intro c
  apply Proc.keeps_bind hquiet.load
  intro counters
  split
  . apply keeps_store
    intro s
    exact ⟨rfl, rfl, rfl, rfl⟩
  . trivial

theorem sameMembership_chargeLlc (llc : LlcId) (scaled : UInt64)
    : (chargeLlc llc scaled).Keeps SameMembership := by
  apply keeps_store
  intro s
  split
  . exact ⟨rfl, rfl, rfl, rfl⟩
  . apply SameMembership.refl

theorem Stops.of_sameMembership {s₀ : Maps} {id : CohortId} (h : Stops s₀ s' p id)
    (hs : SameMembership s s₀)
    : Stops s s' p id := by
  constructor
  . intro t
    rw [h.cached]
    unfold cachedAt
    rw [hs.tctx]
  . rw [h.tgid, hs.tgid]
  . intro pid
    rw [h.counted]
    unfold countedIn
    rw [hs.stats]

theorem stops_accountStop {c : TaskCtx} {delta : UInt64} (hc : s.taskCtxs p.tid = some c)
    : Stops s ((accountStop g p delta).run s).2 p c.cohortId := by
  unfold accountStop
  rw [Proc.run_bind, Proc.run_bind]
  have hcohort := SameMembership.run (sameMembership_chargeCohort p.tid (scaledCharge p delta)) s
  have hllc := SameMembership.run
    (sameMembership_chargeLlc (llcOfCpu g p.cpu) (scaledCharge p delta))
    ((chargeCohort p.tid (scaledCharge p delta)).run s).2
  have hsame := SameMembership.trans _ _ _ hcohort hllc
  apply Stops.of_sameMembership _ hsame
  apply stops_chargeTaskStat
  rw [hsame.tctx, hc]

theorem stops_step_stopping {c : TaskCtx} (hc : s.taskCtxs p.tid = some c)
    : Stops s (step g s (.stopping p now)) p c.cohortId := by
  have hcopies : SameCopies s
      { s with
        taskCtxs := Function.update s.taskCtxs p.tid (some (stops p (now - c.lastRunAt) c)) } := by
    have h := SameCopies.of_tctx (s := s) (t := p.tid) (f := stops p (now - c.lastRunAt)) fun _ => rfl
    rw [hc, Option.map_some] at h
    exact h
  simp only [step, Event.prog]
  rw [run_cohortStopping hc]
  have hstops : Stops
      { s with taskCtxs := Function.update s.taskCtxs p.tid (some (stops p (now - c.lastRunAt) c)) }
      ((accountStop g p (now - c.lastRunAt)).run
        { s with
          taskCtxs := Function.update s.taskCtxs p.tid (some (stops p (now - c.lastRunAt) c)) }).2
      p c.cohortId := by
    apply stops_accountStop (c := stops p (now - c.lastRunAt) c)
    simp
  constructor
  . intro t
    rw [hstops.cached, hcopies.cached]
  . exact hstops.tgid
  . exact hstops.counted

theorem sameMembership_step_stopping_of_none (hc : s.taskCtxs p.tid = none) (now : UInt64)
    : SameMembership s (step g s (.stopping p now)) := by
  simp only [step, Event.prog, cohortStopping, Proc.run_bind]
  rw [run_lookupTaskCtx_none hc]
  exact sameMembership_lookupTaskCtx

-- An exit removes the entry of the task.
structure Exits (s s' : Maps) (p : TaskStruct) : Prop where
  others : ∀ t, t ≠ p.tid → cachedAt s' t = cachedAt s t
  tgid : s'.tgidCohort = s.tgidCohort
  stats : s'.taskStats = s.taskStats.delete p.pid

theorem exits_step_exitTask {c : TaskCtx} (hc : s.taskCtxs p.tid = some c)
    : Exits s (step g s (.exitTask p)) p := by
  have hget : (taskStorageGet p).run s = (some p.tid, s) := by
    simp [taskStorageGet, hc]
  simp only [step, Event.prog, cohortExitTask, Proc.run_bind, hget, Proc.run_atomic, run_countTask]
  unfold resolveCohort
  cases htgid : s.tgidCohort.lookup p.tgid with
  | some id =>
    simp only [Proc.run_bind, run_lookupTgidCohort, htgid, run_modifyTctx, Proc.run_pure]
    refine ⟨?_, rfl, rfl⟩
    intro t ht
    simp [cachedAt, Function.update_of_ne ht]
  | none =>
    simp only [Proc.run_bind, run_lookupTgidCohort, htgid, run_readTctx, Proc.run_pure]
    exact ⟨fun _ _ => rfl, rfl, rfl⟩

theorem step_exitTask_of_none (hc : s.taskCtxs p.tid = none) : step g s (.exitTask p) = s := by
  simp [step, Event.prog, cohortExitTask, taskStorageGet, hc]

-- An admission to the cohort `id`, as far as there is room for it in the maps.
structure Joins (s s' : Maps) (p : TaskStruct) (id : CohortId) : Prop where
  others : ∀ t, t ≠ p.tid → cachedAt s' t = cachedAt s t
  own : cachedAt s' p.tid = some id
  mapped : p.tgid ∈ s.tgidCohort ∨ s.tgidCohort.size < 65536 → cohortOf s' p.tgid = some id
  counted : ∀ pid, pid ≠ p.pid → countedIn s' pid = countedIn s pid
  listed : p.pid ∈ s.taskStats ∨ s.taskStats.size < 65536 → countedIn s' p.pid = some id

theorem cohortOf_assigned {fork : Bool} {parent : Option TaskStruct}
    (h : p.tgid ∈ s.tgidCohort ∨ s.tgidCohort.size < 65536)
    : cohortOf (assigned g s p fork parent).2 p.tgid = some (assigned g s p fork parent).1 := by
  unfold cohortOf assigned
  cases hlookup : s.tgidCohort.lookup p.tgid with
  | some id => exact hlookup
  | none =>
    have hnew := BoundedMap.lookup_eq_none.mp hlookup
    have hroom : s.tgidCohort.size < 65536 := by tauto
    dsimp only
    split
    . rw [BoundedMap.lookup_updateD_new hnew, if_pos hroom]
    . rw [BoundedMap.lookup_updateD_new hnew, if_pos hroom]

theorem assigned_taskStats {fork : Bool} {parent : Option TaskStruct}
    : (assigned g s p fork parent).2.taskStats = s.taskStats := by
  unfold assigned
  split
  . rfl
  . split <;> rfl

theorem withStorage_taskCtxs_ne {t t' : Tid} (h : t' ≠ t)
    : (withStorage s t).taskCtxs t' = s.taskCtxs t' := by
  unfold withStorage
  split
  . rfl
  . apply Function.update_of_ne h

theorem withStorage_taskStats {t : Tid} : (withStorage s t).taskStats = s.taskStats := by
  unfold withStorage
  split <;> rfl

theorem joins_admitted (g : Globals) (s : Maps) (p : TaskStruct) (fork : Bool)
    (parent : Option TaskStruct)
    : Joins s (admitted g s p fork parent).2 p (admitted g s p fork parent).1 := by
  constructor
  . intro t ht
    simp only [admitted, enroll, cachedAt, Function.update_of_ne ht, assigned_taskCtxs,
      withStorage_taskCtxs_ne ht]
  . obtain ⟨c, hc⟩ := Option.isSome_iff_exists.mp (withStorage_isSome s p.tid)
    simp only [admitted, enroll, cachedAt, Function.update_self, assigned_taskCtxs, hc, Option.map_some,
      startAt_cohortId]
  . intro h
    apply cohortOf_assigned
    rw [withStorage_tgidCohort]
    exact h
  . intro pid hpid
    simp only [admitted, enroll, countedIn, assigned_taskStats, withStorage_taskStats]
    rw [BoundedMap.lookup_updateD_ne _ _ _ hpid]
  . intro h
    simp only [admitted, enroll, countedIn, assigned_taskStats, withStorage_taskStats]
    rw [BoundedMap.lookup_updateD_any h, Option.map_some]

end Effects

section Invariant

-- The marks of a member are true.
structure Member.Sound (m : Member) (s : Maps) : Prop where
  context : (cachedAt s m.task.tid).isSome = true
  fresh : m.fresh = true → (cohortOf s m.task.tgid).isSome = true
    ∧ cachedAt s m.task.tid = cohortOf s m.task.tgid
  counted : m.counted = true → (cohortOf s m.task.tgid).isSome = true
    ∧ countedIn s m.task.pid = cohortOf s m.task.tgid

structure Roster.Follows (r : List Member) (s : Maps) : Prop where
  members : ∀ m ∈ r, m.Sound s
  pids : (r.map (·.task.pid)).Nodup
  stats : ∀ pid, (countedIn s pid).isSome = true → ∃ m ∈ r, m.task.pid = pid

variable {g : Globals} {s s' : Maps} {p : TaskStruct} {r : List Member} {m : Member}

theorem Member.unsettle_task : (m.unsettle s s').task = m.task := by
  unfold unsettle
  split <;> rfl

theorem Member.lookup_task : (m.lookup s p).task = m.task := by
  unfold lookup
  split <;> rfl

theorem Member.stop_task : (m.stop s p).task = m.task := by
  unfold stop
  split <;> rfl

theorem Member.unsettle_of_same (h : s'.tgidCohort = s.tgidCohort) : m.unsettle s s' = m := by
  unfold unsettle cohortOf
  rw [h, if_pos rfl]

theorem map_unsettle_of_same (h : s'.tgidCohort = s.tgidCohort)
    : r.map (Member.unsettle s s') = r := by
  apply List.map_id''
  intro m
  exact Member.unsettle_of_same h

theorem Member.Sound.unsettle (h : m.Sound s)
    (hcached : cachedAt s' m.task.tid = cachedAt s m.task.tid)
    (hcounted : countedIn s' m.task.pid = countedIn s m.task.pid)
    : (m.unsettle s s').Sound s' := by
  unfold Member.unsettle
  split
  . next heq =>
    constructor
    . rw [hcached]
      exact h.context
    . rw [hcached, heq]
      exact h.fresh
    . rw [hcounted, heq]
      exact h.counted
  . refine ⟨?_, nofun, nofun⟩
    rw [hcached]
    exact h.context

theorem Member.Sound.same (h : m.Sound s) (htgid : s'.tgidCohort = s.tgidCohort)
    (hcached : cachedAt s' m.task.tid = cachedAt s m.task.tid)
    (hcounted : countedIn s' m.task.pid = countedIn s m.task.pid)
    : m.Sound s' := by
  have hm := h.unsettle hcached hcounted
  rw [Member.unsettle_of_same htgid] at hm
  exact hm

theorem pids_map {f : Member → Member} (hf : ∀ m, (f m).task = m.task)
    : (r.map f).map (·.task.pid) = r.map (·.task.pid) := by
  rw [List.map_map]
  apply List.map_congr_left
  intro m _
  rw [Function.comp, hf]

theorem exists_pid_map {f : Member → Member} (hf : ∀ m, (f m).task = m.task) {pid : Pid}
    (h : ∃ m ∈ r, m.task.pid = pid)
    : ∃ m ∈ r.map f, m.task.pid = pid := by
  obtain ⟨m, hm, heq⟩ := h
  refine ⟨f m, List.mem_map_of_mem hm, ?_⟩
  rw [hf, heq]

namespace Roster

-- Nothing but `tgid_cohort` changes.
theorem Follows.quiet (h : Follows r s) (hsame : SameCopies s s')
    : Follows (r.map (Member.unsettle s s')) s' := by
  have hcounted : ∀ pid, countedIn s' pid = countedIn s pid := by
    intro pid
    unfold countedIn
    rw [hsame.stats]
  constructor
  . intro m' hm'
    obtain ⟨m, hm, rfl⟩ := List.mem_map.mp hm'
    exact (h.members m hm).unsettle (hsame.cached _) (hcounted _)
  . rw [pids_map fun _ => Member.unsettle_task]
    exact h.pids
  . intro pid hpid
    rw [hcounted] at hpid
    exact exists_pid_map (fun _ => Member.unsettle_task) (h.stats pid hpid)

theorem names_cases (hnames : names r p = true) (hm : m ∈ r)
    : m.task.tid ≠ p.tid ∧ m.task.pid ≠ p.pid
      ∨ m.task.tid = p.tid ∧ m.task.pid = p.pid ∧ m.task.tgid = p.tgid := by
  unfold names at hnames
  have := List.all_eq_true.mp hnames m hm
  simp only [Bool.or_eq_true, Bool.and_eq_true, decide_eq_true_eq, and_assoc] at this
  exact this

theorem refreshed_iff_cached (hctx : (cachedAt s p.tid).isSome = true)
    (htgid : (cohortOf s p.tgid).isSome = true)
    : Refreshed s p ↔ cachedAt s p.tid = cohortOf s p.tgid := by
  unfold Refreshed cohortOf
  unfold cachedAt at hctx ⊢
  unfold cohortOf at htgid
  obtain ⟨id, hid⟩ := Option.isSome_iff_exists.mp htgid
  cases hc : s.taskCtxs p.tid with
  | none => simp [hc] at hctx
  | some c => simp [hid]

theorem Sound.lookup (h : m.Sound s) (hlooks : Looks s s' p) (htid : m.task.tid = p.tid)
    (htgid : m.task.tgid = p.tgid)
    : (m.lookup s p).Sound s' := by
  have hcohort : cohortOf s' p.tgid = cohortOf s p.tgid := by
    unfold cohortOf
    rw [hlooks.tgid]
  have hcounted : countedIn s' m.task.pid = countedIn s m.task.pid := by
    unfold countedIn
    rw [hlooks.stats]
  have hcontext : (cachedAt s' p.tid).isSome = true := by
    rw [hlooks.context, ← htid]
    exact h.context
  unfold Member.lookup
  rw [if_pos htid]
  constructor
  . rw [htid]
    exact hcontext
  . dsimp only
    intro hfresh
    rw [htid, htgid, hcohort]
    rw [Bool.or_eq_true, Bool.and_eq_true, decide_eq_true_eq] at hfresh
    have hsome : (cohortOf s p.tgid).isSome = true := by
      cases hfresh with
      | inl hfresh =>
        rw [← htgid]
        exact (h.fresh hfresh).1
      | inr hfresh => exact hfresh.2
    refine ⟨hsome, ?_⟩
    rw [← hcohort, ← refreshed_iff_cached hcontext (by rw [hcohort]; exact hsome), hlooks.refreshed]
    cases hfresh with
    | inl hfresh =>
      right
      have hold := h.fresh hfresh
      have hctx := h.context
      rw [htid] at hctx
      rw [htid, htgid] at hold
      rw [refreshed_iff_cached hctx hold.1]
      exact hold.2
    | inr hfresh => exact .inl hfresh.1
  . dsimp only
    intro hc
    rw [hcounted, htgid, hcohort, ← htgid]
    exact h.counted hc

theorem Follows.lookup (h : Follows r s) (hnames : names r p = true) (hlooks : Looks s s' p)
    : Follows ((r.map (Member.unsettle s s')).map (Member.lookup s p)) s' := by
  have hcounted : ∀ pid, countedIn s' pid = countedIn s pid := by
    intro pid
    unfold countedIn
    rw [hlooks.stats]
  rw [map_unsettle_of_same hlooks.tgid]
  constructor
  . intro m' hm'
    obtain ⟨m, hm, rfl⟩ := List.mem_map.mp hm'
    cases names_cases hnames hm with
    | inl hne =>
      unfold Member.lookup
      rw [if_neg hne.1]
      exact (h.members m hm).same hlooks.tgid (hlooks.others _ hne.1) (hcounted _)
    | inr heq => exact Sound.lookup (h.members m hm) hlooks heq.1 heq.2.2
  . rw [pids_map fun _ => Member.lookup_task]
    exact h.pids
  . intro pid hpid
    rw [hcounted] at hpid
    exact exists_pid_map (fun _ => Member.lookup_task) (h.stats pid hpid)

theorem Sound.stop {id : CohortId} (h : m.Sound s) (hstops : Stops s s' p id)
    (hid : cachedAt s p.tid = some id) (htid : m.task.tid = p.tid) (hpid : m.task.pid = p.pid)
    : (m.stop s p).Sound s' := by
  have hcohort : ∀ tgid, cohortOf s' tgid = cohortOf s tgid := by
    intro tgid
    unfold cohortOf
    rw [hstops.tgid]
  unfold Member.stop
  rw [if_pos htid]
  constructor
  . rw [hstops.cached]
    exact h.context
  . rw [hstops.cached, hcohort]
    exact h.fresh
  . dsimp only
    intro hcounted
    rw [Bool.and_eq_true, decide_eq_true_eq] at hcounted
    have hfresh := h.fresh hcounted.1
    rw [htid, hid] at hfresh
    refine ⟨?_, ?_⟩
    . rw [hcohort]
      exact hfresh.1
    . obtain ⟨ts, hts⟩ := BoundedMap.mem_iff_lookup.mp hcounted.2
      rw [hstops.counted, if_pos hpid, hpid, hcohort, ← hfresh.2]
      simp [countedIn, hts]

theorem Follows.stop {id : CohortId} (h : Follows r s) (hnames : names r p = true)
    (hstops : Stops s s' p id) (hid : cachedAt s p.tid = some id)
    : Follows ((r.map (Member.unsettle s s')).map (Member.stop s p)) s' := by
  rw [map_unsettle_of_same hstops.tgid]
  constructor
  . intro m' hm'
    obtain ⟨m, hm, rfl⟩ := List.mem_map.mp hm'
    cases names_cases hnames hm with
    | inl hne =>
      unfold Member.stop
      rw [if_neg hne.1]
      apply (h.members m hm).same hstops.tgid (hstops.cached _)
      rw [hstops.counted, if_neg hne.2]
    | inr heq => exact Sound.stop (h.members m hm) hstops hid heq.1 heq.2.1
  . rw [pids_map fun _ => Member.stop_task]
    exact h.pids
  . intro pid hpid
    have hold : (countedIn s pid).isSome = true := by
      rw [hstops.counted] at hpid
      split at hpid
      . rw [Option.isSome_map] at hpid
        exact hpid
      . exact hpid
    exact exists_pid_map (fun _ => Member.stop_task) (h.stats pid hold)

theorem Follows.exit (h : Follows r s) (hnames : names r p = true) (hexits : Exits s s' p)
    : Follows ((r.map (Member.unsettle s s')).filter (·.task.tid ≠ p.tid)) s' := by
  have hcounted : ∀ pid, countedIn s' pid = if pid = p.pid then none else countedIn s pid := by
    intro pid
    unfold countedIn
    rw [hexits.stats, BoundedMap.lookup_delete]
    split <;> rfl
  rw [map_unsettle_of_same hexits.tgid]
  constructor
  . intro m hm
    rw [List.mem_filter, decide_eq_true_eq] at hm
    cases names_cases hnames hm.1 with
    | inl hne =>
      apply (h.members m hm.1).same hexits.tgid (hexits.others _ hne.1)
      rw [hcounted, if_neg hne.2]
    | inr heq => exact absurd heq.1 hm.2
  . apply List.Nodup.sublist _ h.pids
    exact List.filter_sublist.map _
  . intro pid hpid
    rw [hcounted] at hpid
    split at hpid
    . contradiction
    . next hne =>
      obtain ⟨m, hm, heq⟩ := h.stats pid hpid
      refine ⟨m, ?_, heq⟩
      rw [List.mem_filter, decide_eq_true_eq]
      refine ⟨hm, ?_⟩
      intro htid
      cases names_cases hnames hm with
      | inl hne => exact hne.1 htid
      | inr hsame =>
        apply hne
        rw [← heq, hsame.2.1]

theorem Sound.join {id : CohortId} (hjoins : Joins s s' p id) : (Member.join s p).Sound s' := by
  unfold Member.join
  constructor
  . dsimp only
    rw [hjoins.own]
    rfl
  . dsimp only
    intro hmapped
    simp only [Bool.or_eq_true, decide_eq_true_eq] at hmapped
    rw [hjoins.own, hjoins.mapped hmapped]
    exact ⟨rfl, rfl⟩
  . dsimp only
    intro hcounted
    simp only [Bool.and_eq_true, Bool.or_eq_true, decide_eq_true_eq] at hcounted
    rw [hjoins.mapped hcounted.1, hjoins.listed hcounted.2]
    exact ⟨rfl, rfl⟩

theorem Follows.join {id : CohortId} (h : Follows r s)
    (hnew : ∀ m ∈ r, m.task.tid ≠ p.tid ∧ m.task.pid ≠ p.pid) (hjoins : Joins s s' p id)
    : Follows (Member.join s p :: r.map (Member.unsettle s s')) s' := by
  constructor
  . intro m' hm'
    cases List.mem_cons.mp hm' with
    | inl heq =>
      rw [heq]
      exact Sound.join hjoins
    | inr hm' =>
      obtain ⟨m, hm, rfl⟩ := List.mem_map.mp hm'
      have hne := hnew m hm
      exact (h.members m hm).unsettle (hjoins.others _ hne.1) (hjoins.counted _ hne.2)
  . rw [List.map_cons, pids_map fun _ => Member.unsettle_task, List.nodup_cons]
    refine ⟨?_, h.pids⟩
    intro hmem
    obtain ⟨m, hm, heq⟩ := List.mem_map.mp hmem
    exact (hnew m hm).2 heq
  . intro pid hpid
    by_cases heq : pid = p.pid
    . exact ⟨Member.join s p, List.mem_cons_self, heq.symm⟩
    . rw [hjoins.counted pid heq] at hpid
      obtain ⟨m, hm, hpid⟩ := exists_pid_map (fun _ => Member.unsettle_task) (h.stats pid hpid)
      exact ⟨m, List.mem_cons_of_mem _ hm, hpid⟩

theorem Follows.tid_ne (h : Follows r s) (hc : s.taskCtxs p.tid = none) (hm : m ∈ r)
    : m.task.tid ≠ p.tid := by
  intro heq
  have hcontext := (h.members m hm).context
  rw [heq] at hcontext
  simp [cachedAt, hc] at hcontext

theorem sameCopies_of_sameMembership (h : SameMembership s s') : SameCopies s s' := by
  refine ⟨?_, h.stats⟩
  intro t
  unfold cachedAt
  rw [h.tctx]

theorem follows_selectCpu {prevCpu : Int} {env : WakeEnv} (h : Follows r s)
    (hnames : names r p = true)
    : Follows (next g s r (.event (.selectCpu p prevCpu env))) (step g s (.selectCpu p prevCpu env)) := by
  unfold next note
  dsimp only [Turn.step]
  split
  . next hpinned =>
    exact h.quiet (sameCopies_of_sameMembership (sameMembership_step_selectCpu_pinned hpinned))
  . next hfree => exact h.lookup hnames (looks_step_selectCpu hfree)

theorem follows_stopping {now : UInt64} (h : Follows r s) (hnames : names r p = true)
    : Follows (next g s r (.event (.stopping p now))) (step g s (.stopping p now)) := by
  unfold next note
  dsimp only [Turn.step]
  cases hc : s.taskCtxs p.tid with
  | some c =>
    apply h.stop hnames (stops_step_stopping hc)
    simp [cachedAt, hc]
  | none =>
    have hsame := sameMembership_step_stopping_of_none (g := g) hc now
    have hstop : r.map (Member.stop s p) = r := by
      rw [List.map_congr_left, List.map_id]
      intro m hm
      unfold Member.stop
      rw [if_neg (h.tid_ne hc hm)]
      rfl
    rw [map_unsettle_of_same hsame.tgid, hstop]
    have hquiet := h.quiet (sameCopies_of_sameMembership hsame)
    rw [map_unsettle_of_same hsame.tgid] at hquiet
    exact hquiet

theorem follows_exitTask (h : Follows r s) (hnames : names r p = true)
    : Follows (next g s r (.event (.exitTask p))) (step g s (.exitTask p)) := by
  unfold next note
  dsimp only [Turn.step]
  cases hc : s.taskCtxs p.tid with
  | some c => exact h.exit hnames (exits_step_exitTask hc)
  | none =>
    rw [step_exitTask_of_none hc, map_unsettle_of_same rfl, List.filter_eq_self.mpr]
    . exact h
    . intro m hm
      rw [decide_eq_true_eq]
      exact h.tid_ne hc hm

theorem follows_initTask {fork : Bool} {parent : Option TaskStruct} {alloc : Bool} (h : Follows r s)
    (hnew : ∀ m ∈ r, m.task.tid ≠ p.tid ∧ m.task.pid ≠ p.pid)
    : Follows (next g s r (.event (.initTask p fork parent alloc)))
        (step g s (.initTask p fork parent alloc)) := by
  unfold next note
  dsimp only [Turn.step]
  split
  . next hzero =>
    rw [step_initTask_of_returnsZero hzero]
    exact h.join hnew (joins_admitted g s p fork parent)
  . next hfail =>
    have hstep : step g s (.initTask p fork parent alloc) = s := by
      rw [step_initTask]
      rw [run_cohortInitTask] at hfail
      split at hfail
      . simp at hfail
      . next hno => rw [if_neg hno]
    rw [hstep, map_unsettle_of_same rfl]
    exact h

theorem Follows.event {e : Event} (h : Follows r s) (hsame : SameCopies s (step g s e))
    (hnote : note g s (r.map (Member.unsettle s (step g s e))) e
      = r.map (Member.unsettle s (step g s e)))
    : Follows (next g s r (.event e)) (step g s e) := by
  unfold next
  dsimp only [Turn.step]
  rw [hnote]
  exact h.quiet hsame

theorem follows_next {t : Turn} (h : Follows r s) (hproper : proper r t = true)
    : Follows (next g s r t) (t.step g s) := by
  cases t with
  | daemon s' => exact h.quiet ⟨fun _ => rfl, rfl⟩
  | event e =>
    cases e with
    | initTask p fork parent alloc =>
      apply follows_initTask h
      intro m hm
      have := List.all_eq_true.mp hproper m hm
      simp only [Bool.and_eq_true, decide_eq_true_eq] at this
      exact this
    | exitTask p => exact follows_exitTask h hproper
    | selectCpu p prevCpu env => exact follows_selectCpu h hproper
    | enqueue p now => exact h.lookup hproper looks_step_enqueue
    | stopping p now => exact follows_stopping h hproper
    | dispatch cpu now =>
      apply h.event _ rfl
      exact (keeps_ignore SameCopies.keepsQueues.cohortDispatch).run SameCopies.refl SameCopies.trans s
    | runnable p now =>
      apply h.event _ rfl
      exact SameCopies.keepsWake.cohortRunnable.run SameCopies.refl SameCopies.trans s
    | running p now => exact h.event sameCopies_step_running rfl
    | setPolicy id policy flag =>
      apply h.event _ rfl
      simp only [step, Event.prog, ignore, Proc.run_bind, Proc.run_pure, run_updatePolicy]
      exact ⟨fun _ => rfl, rfl⟩
    | setCounters id counters flag =>
      apply h.event _ rfl
      simp only [step, Event.prog, ignore, Proc.run_bind, Proc.run_pure, run_updateCounters]
      exact ⟨fun _ => rfl, rfl⟩
    | setTgid tgid id flag =>
      apply h.event _ rfl
      simp only [step, Event.prog, ignore, Proc.run_bind, Proc.run_pure, run_updateTgidCohort]
      exact ⟨fun _ => rfl, rfl⟩
    | setSpill pid llc =>
      apply h.event _ rfl
      simp only [step, Event.prog, ignore, Proc.run_bind, Proc.run_pure, run_updateSpill]
      exact ⟨fun _ => rfl, rfl⟩
    | dropPolicy id => exact h.event ⟨fun _ => rfl, rfl⟩ rfl
    | dropCounters id => exact h.event ⟨fun _ => rfl, rfl⟩ rfl
    | dropTgid tgid => exact h.event ⟨fun _ => rfl, rfl⟩ rfl
    | dropSpill pid => exact h.event ⟨fun _ => rfl, rfl⟩ rfl

variable (g)

-- The live tasks after a run, and whether the kernel kept its promise in it.
def run : Maps → List Member → List Turn → Maps × List Member
  | s, r, [] => (s, r)
  | s, r, t :: ts => run (t.step g s) (next g s r t) ts

def allProper : Maps → List Member → List Turn → Bool
  | _, _, [] => true
  | s, r, t :: ts => proper r t && allProper (t.step g s) (next g s r t) ts

theorem follows_run (ts : List Turn) (h : Follows r s) (hproper : allProper g s r ts = true)
    : Follows (run g s r ts).2 (run g s r ts).1 := by
  induction ts generalizing s r with
  | nil => exact h
  | cons t ts ih =>
    unfold allProper at hproper
    rw [Bool.and_eq_true] at hproper
    exact ih (follows_next h hproper.1) hproper.2

theorem follows_attached : Follows [] (attached g) := by
  rw [attached_eq]
  refine ⟨nofun, List.nodup_nil, ?_⟩
  intro pid hpid
  simp [countedIn, attachedUpTo] at hpid

end Roster

end Invariant

end Bpf
