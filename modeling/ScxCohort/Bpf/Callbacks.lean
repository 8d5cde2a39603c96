import ScxCohort.Bpf.State

/-!
This module contains the callbacks of `main.bpf.c`. Readings of the clock (`scx_bpf_now`), the current
task and the answers of the kernel's helpers for idle CPUs and queues are arguments of a callback.
-/

namespace Bpf

def vtimeBefore (a b : UInt64) : Bool := (a - b).toInt64 < 0

def statInc (idx : Stat) : BpfM PUnit :=
  store .stats fun s => { s with stats := Function.update s.stats idx (s.stats idx + 1) }

-- A pointer into task storage is the identity of the task that owns it.
def taskStorageGet (p : TaskStruct) : BpfM (Option Tid) :=
  load .taskCtxs fun s => (s.taskCtxs p.tid).map fun _ => p.tid

def lookupTaskCtx (p : TaskStruct) : BpfM (Option Tid) := do
  let tctx ← taskStorageGet p
  if tctx.isNone then
    statInc .tctxErr
  return tctx

def readTctx? (tctx : Option Tid) : BpfM (Option TaskCtx) :=
  match tctx with
  | some t => return some (← readTctx t)
  | none => return none

def lookupLlcCtx (llc : LlcId) : BpfM (Option LlcCtx) :=
  load .llcs fun s => if llc.toNat < maxLlcs then some (s.llcs llc) else none

section

variable (g : Globals)

def safeLlc (llc : LlcId) : LlcId := if llc < g.nrLlcs then llc else 0

def llcOfCpu (cpu : Int) : LlcId :=
  if 0 ≤ cpu ∧ cpu < maxCpus then safeLlc g (g.cpuLlcId cpu.toNat) else 0

def resolveCohort (p : TaskStruct) (tctx : Option Tid) : BpfM CohortId := do
  match ← lookupTgidCohort p.tgid, tctx with
  | some id, some t =>
    modifyTctx t fun c => { c with cohortId := id }
    return id
  | some id, none => return id
  | none, some t => return (← readTctx t).cohortId
  | none, none => return cohortInvalid

def taskHomeLlc (p : TaskStruct) (tctx : Option Tid) : BpfM LlcId := do
  match tctx with
  | none => return llcOfCpu g p.cpu
  | some t =>
    match ← load .spillTasks (·.spillTasks.lookup p.pid) with
    | some spill =>
      modifyTctx t fun c =>
        { c with isSpilled := 1, spillLlc := safeLlc g spill, homeLlc := safeLlc g spill }
      return safeLlc g spill
    | none =>
      modifyTctx t fun c => { c with isSpilled := 0 }
      let id ← resolveCohort p tctx
      let home :=
        match ← lookupPolicy id with
        | none => llcOfCpu g p.cpu
        | some policy => safeLlc g policy.homeLlc
      modifyTctx t fun c => { c with homeLlc := home }
      return home

def recordWakeEdge (p : TaskStruct) (waker : Option TaskStruct) (cpu : Nat) : BpfM PUnit := do
  match waker with
  | none => return
  | some waker =>
    if waker.tgid = p.tgid then
      return
    let sampleCtr ← .atomic (.scratchStor, .write) fun s =>
      (s.sampleCtr cpu + 1,
        { s with sampleCtr := Function.update s.sampleCtr cpu (s.sampleCtr cpu + 1) })
    if sampleCtr &&& ((1 <<< (g.tunables.sampleShift &&& 15)) - 1) ≠ 0 then
      return
    let key : WakeEdgeKey := ⟨waker.tgid, p.tgid⟩
    match ← load .wakeEdges (·.wakeEdges.lookup key) with
    | some _ =>
      store .wakeEdges fun s =>
        { s with wakeEdges := s.wakeEdges.insert key ((s.wakeEdges.lookup key).getD 0 + 1) }
    | none => store .wakeEdges fun s => { s with wakeEdges := s.wakeEdges.insert key 1 }

def taskEffectiveLlc (p : TaskStruct) (tctx : Option Tid) : BpfM LlcId := do
  let home ← taskHomeLlc g p tctx
  match ← lookupLlcCtx home with
  | none => return home
  | some llcx =>
    match llcx.cpumask with
    | some mask => return if mask ∩ p.cpusPtr = ∅ then llcOfCpu g p.cpu else home
    | none => return home

end

-- What the kernel answers during one wakeup, on the CPU that the waker runs on.
structure WakeEnv where
  wakeSync : Bool := false
  waker : Option TaskStruct := none
  smpProcessorId : Nat := 0
  localQueued : Nat → Nat := fun _ => 0
  idleSmtmask : Finset Nat := ∅
  prevCoreIdle : Bool := false
  prevIdle : Bool := false
  pickIdleCore : Finset Nat → Int := fun _ => -1
  pickIdleCpu : Finset Nat → Int := fun _ => -1
  cpumaskFirst : Finset Nat → Int := fun _ => 0
  cpumaskAnyDistribute : Finset Nat → Int := fun _ => 0
  hasScratch : Bool := true

def inMask (cpu : Int) (mask : Finset Nat) : Bool := 0 ≤ cpu ∧ cpu.toNat ∈ mask

def dsqInsertLocal (p : TaskStruct) (cpu : Int) : BpfM PUnit :=
  store .dsqs fun s => { s with localDsq := (p.tid, cpu) :: s.localDsq }

def claimIdle (cpu : Int) : BpfM PUnit :=
  store .idle fun s => { s with idleClaims := cpu :: s.idleClaims }

section

variable (g : Globals)

def syncHandoff (p : TaskStruct) (tctx : Option Tid) (homeMask : Finset Nat) (env : WakeEnv)
    : BpfM Bool := do
  match env.wakeSync, env.waker, tctx with
  | true, some waker, some t =>
    match ← taskStorageGet waker with
    | none => return false
    | some w =>
      if (← readTctx t).cohortId ≠ (← readTctx w).cohortId then
        return false
      let cpu := env.smpProcessorId
      return cpu ∈ homeMask ∧ cpu ∈ p.cpusPtr ∧ env.localQueued cpu = 0
  | _, _, _ => return false

def idleLadder (p : TaskStruct) (prevCpu : Int) (homeMask : Finset Nat) (env : WakeEnv)
    : BpfM Int := do
  let prevInHome := inMask prevCpu homeMask
  if prevInHome ∧ inMask prevCpu env.idleSmtmask ∧ env.prevCoreIdle then
    claimIdle prevCpu
    statInc .prevIdle
    dsqInsertLocal p prevCpu
    return prevCpu
  if ¬ env.hasScratch then
    return if prevInHome then prevCpu else env.cpumaskFirst homeMask
  let scratch := homeMask ∩ p.cpusPtr
  let core := env.pickIdleCore scratch
  if 0 ≤ core then
    claimIdle core
    statInc .idleCore
    dsqInsertLocal p core
    return core
  if prevInHome ∧ env.prevIdle then
    claimIdle prevCpu
    statInc .idleSmt
    dsqInsertLocal p prevCpu
    return prevCpu
  let cpu := env.pickIdleCpu scratch
  if 0 ≤ cpu then
    claimIdle cpu
    statInc .idleSmt
    dsqInsertLocal p cpu
    return cpu
  statInc .homeMissClamp
  return if prevInHome then prevCpu else env.cpumaskAnyDistribute scratch

def cohortSelectCpu (p : TaskStruct) (prevCpu : Int) (env : WakeEnv) : BpfM Int := do
  recordWakeEdge g p env.waker env.smpProcessorId
  if p.nrCpusAllowed = 1 then
    return prevCpu
  let tctx ← lookupTaskCtx p
  let home ← taskHomeLlc g p tctx
  match ← lookupLlcCtx home with
  | none => return prevCpu
  | some llcx =>
    match llcx.cpumask with
    | none => return prevCpu
    | some homeMask =>
      if homeMask ∩ p.cpusPtr = ∅ then
        return prevCpu
      if ← syncHandoff p tctx homeMask env then
        statInc .syncLocal
        dsqInsertLocal p env.smpProcessorId
        return env.smpProcessorId
      idleLadder p prevCpu homeMask env

def clampVtime (vtimeNow vtime : UInt64) : UInt64 :=
  if vtimeBefore vtime (vtimeNow - g.sliceNs) then vtimeNow - g.sliceNs else vtime

-- The queue of an enqueue and its key before the interactive credit.
def enqueueBase (p : TaskStruct) (tctx : Option Tid) : BpfM (LlcId × Option LlcCtx × UInt64) := do
  let llc ← taskEffectiveLlc g p tctx
  let llcx ← lookupLlcCtx llc
  let vtimeNow := match llcx with
    | some llcx => llcx.vtimeNow
    | none => 0
  let vtime := match ← readTctx? tctx with
    | some c => c.vtime
    | none => vtimeNow
  return (llc, llcx, clampVtime g vtimeNow vtime)

def interactiveCredit (tctx : TaskCtx) : UInt64 :=
  if tctx.wakeFreq ≥ g.tunables.creditWakeFreqMin
      ∧ tctx.avgRuntimeNs > 0
      ∧ tctx.avgRuntimeNs ≤ g.tunables.creditRuntimeMaxNs then
    g.tunables.creditMaxNs
  else
    0

def dsqInsertVtime (e : DsqEntry) : List DsqEntry → List DsqEntry
  | [] => [e]
  | e' :: es => if vtimeBefore e.vtime e'.vtime then e :: e' :: es else e' :: dsqInsertVtime e es

def refreshHead (llc : LlcId) (llcx : Option LlcCtx) (now : UInt64) : BpfM PUnit := do
  let queued ← load .dsqs (·.dsqs llc)
  if llcx.isSome ∧ queued.isEmpty then
    modifyLlc llc fun l => { l with headEnqTs := now }

def cohortEnqueue (p : TaskStruct) (now : UInt64) : BpfM PUnit := do
  let tctx ← lookupTaskCtx p
  let (llc, llcx, base) ← enqueueBase g p tctx
  let c ← readTctx? tctx
  let vtime := match c with
    | some c => base - interactiveCredit g c
    | none => base
  refreshHead llc llcx now
  statInc (if c.any (·.isSpilled ≠ 0) then .enqSpill else .enqHome)
  store .dsqs fun s =>
    { s with dsqs := Function.update s.dsqs llc (dsqInsertVtime ⟨p.tid, vtime, now⟩ (s.dsqs llc)) }

-- Which entry of the queue of an LLC `scx_bpf_dsq_move_to_local` moves, if it moves any. It passes over
-- tasks that may not run on the CPU.
abbrev MoveToLocal := LlcId → (q : List DsqEntry) → Option (Fin q.length)

def dsqMoveToLocal (move : MoveToLocal) (llc : LlcId) (cpu : Int) : BpfM Bool :=
  .atomic (.dsqs, .write) fun s =>
    match move llc (s.dsqs llc) with
    | none => (false, s)
    | some i =>
      (true,
        { s with
          dsqs := Function.update s.dsqs llc ((s.dsqs llc).eraseIdx i)
          localDsq := ((s.dsqs llc)[i].tid, cpu) :: s.localDsq })

-- The steal loop, over the LLCs it has yet to look at; true when it took a task.
def stealFrom (move : MoveToLocal) (cpu : Int) (myLlc : LlcId) (now : UInt64) : List Nat → BpfM Bool
  | [] => return false
  | i :: is => do
    let llc := UInt32.ofNat i
    if llc = myLlc then
      stealFrom move cpu myLlc now is
    else
      match ← lookupLlcCtx llc with
      | none => stealFrom move cpu myLlc now is
      | some fx =>
        let queued := (← load .dsqs (·.dsqs llc)).length
        if 0 < queued ∧ (g.tunables.stealMin.toNat < queued
            ∨ now - fx.headEnqTs > g.tunables.stealDelayNs) then
          if ← dsqMoveToLocal move llc cpu then
            modifyLlc llc fun l => { l with headEnqTs := now }
            statInc .steal
            return true
          else
            stealFrom move cpu myLlc now is
        else
          stealFrom move cpu myLlc now is

def cohortDispatch (move : MoveToLocal) (cpu : Int) (now : UInt64) : BpfM Bool := do
  let myLlc := llcOfCpu g cpu
  let llcx ← lookupLlcCtx myLlc
  if ← dsqMoveToLocal move myLlc cpu then
    if llcx.isSome then
      modifyLlc myLlc fun l => { l with headEnqTs := now }
    return true
  stealFrom g move cpu myLlc now (List.range g.nrLlcs.toNat)

def cohortRunnable (p : TaskStruct) (now : UInt64) : BpfM PUnit := do
  match ← lookupTaskCtx p with
  | none => return
  | some t =>
    let lastWakeAt := (← readTctx t).lastWakeAt
    if lastWakeAt ≠ 0 ∧ now - lastWakeAt > 0 then
      modifyTctx t fun c =>
        { c with wakeFreq := (c.wakeFreq * 3 + 1000000000 / (now - lastWakeAt)) / 4 }
    modifyTctx t fun c => { c with lastWakeAt := now }

def advanceFrontier (llc : LlcId) (llcx : Option LlcCtx) (vtime : UInt64) : BpfM PUnit :=
  match llcx with
  | some llcx =>
    if vtimeBefore llcx.vtimeNow vtime then
      modifyLlc llc fun l => { l with vtimeNow := vtime }
    else
      return
  | none => return

def cohortRunning (p : TaskStruct) (now : UInt64) : BpfM PUnit := do
  let tctx ← lookupTaskCtx p
  let llc := llcOfCpu g p.cpu
  let llcx ← lookupLlcCtx llc
  match tctx with
  | none => return
  | some t =>
    modifyTctx t fun c => { c with lastRunAt := now }
    let vtime := (← readTctx t).vtime
    advanceFrontier llc llcx vtime

def vtimeCharge (p : TaskStruct) (delta : UInt64) : UInt64 := delta * 100 / p.weight.toUInt64

def scaledCharge (p : TaskStruct) (delta : UInt64) : UInt64 := delta * p.weight.toUInt64 / 100

def chargeVtime (p : TaskStruct) (t : Tid) (delta : UInt64) : BpfM PUnit := do
  modifyTctx t fun c => { c with vtime := c.vtime + vtimeCharge p delta }
  modifyTctx t fun c => { c with avgRuntimeNs := (c.avgRuntimeNs * 3 + delta) / 4 }

def chargeCohort (t : Tid) (scaled : UInt64) : BpfM PUnit := do
  let cohortId := (← readTctx t).cohortId
  match ← lookupCounters cohortId with
  | some _ => modifyCounters cohortId fun c => { c with loadSum := c.loadSum + scaled }
  | none => return

def chargeLlc (runLlc : LlcId) (scaled : UInt64) : BpfM PUnit :=
  store .llcLoad fun s =>
    if runLlc.toNat < maxLlcs then
      { s with llcLoad := Function.update s.llcLoad runLlc (s.llcLoad runLlc + scaled) }
    else
      s

def chargeTaskStat (p : TaskStruct) (t : Tid) (runLlc : LlcId) (delta : UInt64)
    : BpfM PUnit := do
  match ← load .taskStats (·.taskStats.lookup p.pid) with
  | none => return
  | some _ =>
    let tctx ← readTctx t
    modifyTaskStat p.pid fun ts =>
      { ts with
        runtimeSum := ts.runtimeSum + delta
        runtimeHomeSum :=
          if runLlc = tctx.homeLlc then ts.runtimeHomeSum + delta else ts.runtimeHomeSum
        cohortId := tctx.cohortId }

def cohortStopping (p : TaskStruct) (now : UInt64) : BpfM PUnit := do
  match ← lookupTaskCtx p with
  | none => return
  | some t =>
    let delta := now - (← readTctx t).lastRunAt
    let scaled := scaledCharge p delta
    chargeVtime p t delta
    chargeCohort t scaled
    let runLlc := llcOfCpu g p.cpu
    chargeLlc runLlc scaled
    chargeTaskStat p t runLlc delta

def inheritedCohort (fork : Bool) (parent : Option TaskStruct) : BpfM CohortId := do
  match fork, parent with
  | true, some parent =>
    match ← taskStorageGet parent with
    | some t => return (← readTctx t).cohortId
    | none => return cohortInvalid
  | _, _ => return cohortInvalid

def freshCohort : BpfM CohortId := do
  let rr ← .atomic (.counters, .write) fun s => (s.rrCtr, { s with rrCtr := s.rrCtr + 1 })
  let seq ← .atomic (.counters, .write) fun s =>
    (s.cohortSeq, { s with cohortSeq := s.cohortSeq + 1 })
  let id := seq + 1
  let _ ← updatePolicy id { homeLlc := rr % g.nrLlcs } .noExist
  let _ ← updateCounters id {} .noExist
  return id

def orFreshCohort (inherited : CohortId) : BpfM CohortId :=
  if inherited = cohortInvalid then freshCohort g else return inherited

def assignCohort (p : TaskStruct) (fork : Bool) (parent : Option TaskStruct) : BpfM CohortId := do
  match ← lookupTgidCohort p.tgid with
  | some id => return id
  | none =>
    let inherited ← inheritedCohort fork parent
    let id ← orFreshCohort g inherited
    let _ ← updateTgidCohort p.tgid id .any
    return id

def taskStorageCreate (p : TaskStruct) (alloc : Bool) : BpfM (Option Tid) :=
  .atomic (.taskCtxs, .write) fun s =>
    match s.taskCtxs p.tid with
    | some _ => (some p.tid, s)
    | none =>
      if alloc then
        (some p.tid, { s with taskCtxs := Function.update s.taskCtxs p.tid (some {}) })
      else
        (none, s)

def countTask (id : CohortId) (f : UInt64 → UInt64) : BpfM PUnit := do
  match ← lookupCounters id with
  | some _ => modifyCounters id fun c => { c with nrTasks := f c.nrTasks }
  | none => return

def startVtime (t : Tid) (id : CohortId) : BpfM PUnit := do
  match ← lookupPolicy id with
  | some policy =>
    let llcx ← lookupLlcCtx (safeLlc g policy.homeLlc)
    let vtimeNow := match llcx with
      | some llcx => llcx.vtimeNow
      | none => 0
    modifyTctx t fun c => { c with vtime := vtimeNow }
  | none => return

def updateTaskStat (pid : Pid) (ts : TaskStat) : BpfM (Except MapErr PUnit) :=
  tryUpdate .taskStats fun s =>
    return { s with taskStats := ← s.taskStats.update pid ts .any }

def admitTask (p : TaskStruct) (fork : Bool) (parent : Option TaskStruct) : BpfM PUnit := do
  let id ← assignCohort g p fork parent
  modifyTctx p.tid fun c => { c with cohortId := id }
  countTask id (· + 1)
  startVtime g p.tid id
  let _ ← updateTaskStat p.pid { tgid := p.tgid, cohortId := id, comm := p.comm }

-- `alloc` says whether the kernel could allocate the task storage; the result is whether the
-- callback returned 0.
def cohortInitTask (p : TaskStruct) (fork : Bool) (parent : Option TaskStruct) (alloc : Bool)
    : BpfM Bool := do
  match ← taskStorageCreate p alloc with
  | none => return false
  | some _ =>
    admitTask g p fork parent
    return true

def cohortExitTask (p : TaskStruct) : BpfM PUnit := do
  match ← taskStorageGet p with
  | none => return
  | some t =>
    let id ← resolveCohort p (some t)
    countTask id (· - 1)
    .atomic (.taskStats, .delete) fun s =>
      (⟨⟩, { s with taskStats := s.taskStats.delete p.pid })
    .atomic (.spillTasks, .delete) fun s =>
      (⟨⟩, { s with spillTasks := s.spillTasks.delete p.pid })

def llcMask (llc : LlcId) : Finset Nat :=
  (Finset.range (min g.nrCpus maxCpus)).filter fun cpu => safeLlc g (g.cpuLlcId cpu) = llc

def createDsq (llc : LlcId) : BpfM Bool :=
  .atomic (.dsqs, .write) fun s =>
    if llc ∈ s.createdDsqs then
      (false, s)
    else
      (true, { s with createdDsqs := llc :: s.createdDsqs })

def initLlcs : List Nat → BpfM Bool
  | [] => return true
  | i :: is => do
    let llc := UInt32.ofNat i
    match ← lookupLlcCtx llc with
    | none => return false
    | some _ =>
      if ← createDsq llc then
        modifyLlc llc fun l => { l with cpumask := some (llcMask g llc) }
        initLlcs is
      else
        return false

def cohortInit : BpfM Bool := initLlcs g (List.range g.nrLlcs.toNat)

-- The maps as the scheduler finds them once it is attached, before any task has been admitted.
def attached : Maps := ((cohortInit g).run {}).2

end

end Bpf
