import ScxCohort.Bpf.Run
import ScxCohort.Daemon.Balancer
import ScxCohort.Daemon.WakeGraph
import ScxCohort.Lib.Utf8

/-!
This module contains the daemon (`main.rs`): its state and one tick of its loop, as a program of map
operations. A failed map operation ends the tick where the source has a `?`.
-/

-- `cgroup` is a compiled glob.
structure Rule where
  comms : Option (List (List Char)) := none
  cgroup : Option (List Char → Bool) := none
  pinCcd : Option UInt32 := none
  minCcdResidencyMs : Option UInt64 := none

structure Config where
  rules : List Rule := []

def Config.matchTask (config : Config) (comm cgroup : List Char) : Option Rule :=
  config.rules.find? fun r =>
    r.comms.all (fun cs => comm ∈ cs) && r.cgroup.all (fun g => g cgroup)

structure Scheduler where
  intervalNs : UInt64 := 200000000
  balancer : Balancer := {}
  llcCpus : List (LlcId × UInt64)
  prevLoadSum : HashTable CohortId UInt64 := ∅
  prevLlcLoad : HashTable LlcId UInt64 := ∅
  deadCohorts : Finset CohortId := ∅
  deadTgids : Finset Tgid := ∅
  wakeGraph : WakeGraph := {}
  daemonSeq : UInt64 := 0
  sampleMult : UInt64 := 8
  config : Config := {}
  spillCfg : SpillCfg := {}
  currentSpills : Spills := ∅
  prevRuntime : HashTable Pid (UInt64 × UInt64) := ∅
  cgroupCache : HashTable Tgid (List Char) := ∅
  residencyOverrides : HashTable CohortId UInt64 := ∅
  nrMigrations : UInt64 := 0
  nrMerges : UInt64 := 0
  nrSplits : UInt64 := 0

def daemonCohortBase : CohortId := (1 : UInt64) <<< 32

-- What one tick is given from outside the maps: the clock, procfs, and the order of every iteration.
structure TickEnv where
  nowMs : UInt64 := 0
  procCgroup : Tgid → Option (List Char) := fun _ => none
  order : IterOrder := .id

abbrev DaemonM := StateT Scheduler (ExceptT MapErr BpfM)

namespace Daemon

def attempt {α : Type} (p : BpfM α) : DaemonM α := fun d =>
  ExceptT.mk do
    let a ← p
    return .ok (a, d)

def require {α : Type} (p : BpfM (Except MapErr α)) : DaemonM α := fun d =>
  ExceptT.mk do
    let r ← p
    return r.map fun a => (a, d)

section Snapshots

def batch {κ ν : Type} (o : IterOrder) (m : MapName) (table : Maps → HashTable κ ν)
    : DaemonM (List (κ × ν)) :=
  attempt (.atomic (m, .batch) fun s => (o.order (table s).items, s))

def commOf (comm : Comm) : List Char := Utf8.fromUtf8Lossy (comm.toList.takeWhile (· ≠ 0))

def taskSnapshot (prevRuntime : HashTable Pid (UInt64 × UInt64)) (e : Pid × TaskStat)
    : TaskSnapshot :=
  let prev := (prevRuntime.lookup e.1).getD (e.2.runtimeSum, e.2.runtimeHomeSum)
  { pid := e.1
    tgid := e.2.tgid
    cohortId := e.2.cohortId
    dutyNs := e.2.runtimeSum.saturatingSub prev.1
    homeNs := e.2.runtimeHomeSum.saturatingSub prev.2
    comm := commOf e.2.comm }

def snapshotTasks (env : TickEnv) : DaemonM (List TaskSnapshot) := do
  let entries ← batch env.order .taskStats (·.taskStats.table)
  let d ← get
  let runtimes := entries.map fun e => (e.1, (e.2.runtimeSum, e.2.runtimeHomeSum))
  set { d with prevRuntime := HashTable.ofList runtimes }
  return entries.map (taskSnapshot d.prevRuntime)

def snapshotTgidCohort (env : TickEnv) : DaemonM (HashTable Tgid CohortId) := do
  let entries ← batch env.order .tgidCohort (·.tgidCohort.table)
  return HashTable.ofList entries

-- `sample_mult`, as the daemon computes it from its options when it starts.
def sampleMult (tunables : Tunables) : UInt64 := 1 <<< tunables.sampleShift.toUInt64

def snapshotEdges (env : TickEnv) : DaemonM (List (Tgid × Tgid × UInt64)) := do
  let entries ← attempt (.atomic (.wakeEdges, .drain) fun s =>
    (env.order.order s.wakeEdges.items, { s with wakeEdges := ∅ }))
  return (entries.filter fun e => e.2 > 0).map fun e => (e.1.wakerTgid, e.1.wakeeTgid, e.2)

end Snapshots

section Rules

-- The cgroup v2 line of `/proc/<tgid>/cgroup`, without its leading slashes.
def cgroupPath (text : List Char) : List Char :=
  let lines := text.splitOn '\n'
  let stripped := lines.dropLast.map (fun l => if l.getLast? = some '\r' then l.dropLast else l)
    ++ lines.getLast?.toList
  (stripped.findSome? fun l =>
    match l with
    | '0' :: ':' :: ':' :: path => some (path.dropWhile (· = '/'))
    | _ => none).getD []

structure RuleEffects where
  overrides : HashTable CohortId UInt64 := ∅
  pins : HashTable CohortId UInt32 := ∅
  cgroupCache : HashTable Tgid (List Char)

def cgroupOf (env : TickEnv) (cache : HashTable Tgid (List Char)) (tgid : Tgid)
    : List Char × HashTable Tgid (List Char) :=
  match cache.lookup tgid with
  | some path => (path, cache)
  | none =>
    let path := ((env.procCgroup tgid).map cgroupPath).getD []
    (path, cache.insert tgid path)

def ruleEffects (config : Config) (env : TickEnv) (fx : RuleEffects) (t : TaskSnapshot)
    : RuleEffects :=
  let (cgroup, cache) := cgroupOf env fx.cgroupCache t.tgid
  match config.matchTask t.comm cgroup with
  | none => { fx with cgroupCache := cache }
  | some rule =>
    { overrides :=
        match rule.minCcdResidencyMs with
        | some ms => fx.overrides.upsert t.cohortId fun e => max (e.getD ms) ms
        | none => fx.overrides
      pins :=
        match rule.pinCcd with
        | some ccd => fx.pins.insert t.cohortId ccd
        | none => fx.pins
      cgroupCache := cache }

def wantHome (d : Scheduler) (ccd : UInt32) : LlcId := min ccd (UInt32.ofNat d.llcCpus.length - 1)

def pinCohort (cohort : CohortId) (ccd : UInt32) : DaemonM PUnit := do
  match ← attempt (Bpf.lookupPolicy cohort) with
  | none => return
  | some policy =>
    let home := wantHome (← get) ccd
    if policy.flags &&& cohortPinned = 0 ∨ policy.homeLlc ≠ home then
      require (Bpf.updatePolicy cohort { flags := policy.flags ||| cohortPinned, homeLlc := home }
        .exist)
    else
      return

def collectRules (env : TickEnv) (tasks : List TaskSnapshot) (d : Scheduler) : RuleEffects :=
  tasks.foldl (ruleEffects d.config env)
    { cgroupCache := d.cgroupCache.retain fun tgid _ => tgid ∈ tasks.map (·.tgid) }

def applyRules (env : TickEnv) (tasks : List TaskSnapshot) : DaemonM PUnit := do
  let d ← get
  if d.config.rules.isEmpty then
    return
  else
    let fx := collectRules env tasks d
    set { d with cgroupCache := fx.cgroupCache, residencyOverrides := fx.overrides }
    (env.order.order fx.pins.items).forM fun pin => pinCohort pin.1 pin.2

end Rules

section Cohorts

structure CohortScan where
  out : List CohortSnapshot := []
  dead : List CohortId := []
  deadNow : Finset CohortId := ∅
  seen : HashTable CohortId UInt64 := ∅

def taskCounts (tasks : List TaskSnapshot) : HashTable CohortId UInt64 :=
  tasks.foldl (fun counts t => counts.upsert t.cohortId fun n => n.getD 0 + 1) ∅

def cohortSnapshot (d : Scheduler) (nrTasks : UInt64) (policies : HashTable CohortId CohortPolicy)
    (e : CohortId × CohortCounters) : CohortSnapshot :=
  let policy := (policies.lookup e.1).getD {}
  let prev := (d.prevLoadSum.lookup e.1).getD e.2.loadSum
  { id := e.1
    homeLlc := policy.homeLlc
    pinned := policy.flags &&& cohortPinned ≠ 0
    nrTasks := nrTasks
    loadNs := e.2.loadSum.saturatingSub prev
    residencyMs := d.residencyOverrides.lookup e.1 }

def scanCohort (d : Scheduler) (tasks : List TaskSnapshot) (referenced : List CohortId)
    (policies : HashTable CohortId CohortPolicy) (scan : CohortScan)
    (e : CohortId × CohortCounters) : CohortScan :=
  let nrTasks := ((taskCounts tasks).lookup e.1).getD 0
  if nrTasks = 0 ∧ e.1 ∉ referenced then
    if tasks.isEmpty then
      scan
    else if e.1 ∈ d.deadCohorts then
      { scan with dead := scan.dead ++ [e.1] }
    else
      { scan with deadNow := insert e.1 scan.deadNow }
  else
    { scan with
      seen := scan.seen.insert e.1 e.2.loadSum
      out := scan.out ++ [cohortSnapshot d nrTasks policies e] }

def deleteCohort (id : CohortId) : DaemonM PUnit := do
  attempt (Bpf.deleteCounters id)
  attempt (Bpf.deletePolicy id)

def snapshotCohorts (env : TickEnv) (tasks : List TaskSnapshot)
    (tgidCohort : HashTable Tgid CohortId) : DaemonM (List CohortSnapshot) := do
  let policies ← batch env.order .cohortPolicy (·.cohortPolicy.table)
  let counters ← batch env.order .cohortCounters (·.cohortCounters.table)
  let d ← get
  let scan := counters.foldl
    (scanCohort d tasks tgidCohort.values (HashTable.ofList policies)) {}
  scan.dead.forM deleteCohort
  let balancer := d.balancer.retainCohorts fun id => id ∈ scan.out.map fun c => c.id
  set { d with deadCohorts := scan.deadNow, prevLoadSum := scan.seen, balancer := balancer }
  return scan.out

def gcTgidMap (env : TickEnv) (tgidCohort : HashTable Tgid CohortId) (tasks : List TaskSnapshot)
    : DaemonM PUnit := do
  let d ← get
  let stale := (env.order.order tgidCohort.keys).filter fun tgid => tgid ∉ tasks.map (·.tgid)
  (stale.filter fun tgid => tgid ∈ d.deadTgids).forM fun tgid =>
    attempt (Bpf.deleteTgidCohort tgid)
  set { d with deadTgids := (stale.filter fun tgid => tgid ∉ d.deadTgids).toFinset }

def readLlcLoads (tickNs : UInt64) : List (LlcId × UInt64) → DaemonM (List LlcLoad)
  | [] => return []
  | (llc, cpus) :: rest => do
    let cur ← attempt (Bpf.load .llcLoad fun s => if llc.toNat < maxLlcs then s.llcLoad llc else 0)
    let prev := ((← get).prevLlcLoad.lookup llc).getD cur
    modify fun d => { d with prevLlcLoad := d.prevLlcLoad.insert llc cur }
    let out ← readLlcLoads tickNs rest
    return { llc := llc, loadNs := cur.saturatingSub prev, capacityNs := cpus * tickNs } :: out

def llcLoads : DaemonM (List LlcLoad) := do
  let d ← get
  readLlcLoads d.intervalNs d.llcCpus

def applyDecision : Decision → DaemonM PUnit
  | .moveCohort id toLlc => do
    match ← attempt (Bpf.lookupPolicy id) with
    | none => return
    | some policy =>
      require (Bpf.updatePolicy id { policy with homeLlc := toLlc } .exist)
      modify fun d => { d with nrMigrations := d.nrMigrations + 1 }

def apply (decisions : List Decision) : DaemonM PUnit := decisions.forM applyDecision

def planMoves (env : TickEnv) (llcs : List LlcLoad) (cohorts : List CohortSnapshot)
    : DaemonM (List Decision) := do
  let d ← get
  let (decisions, balancer) := d.balancer.plan env.nowMs llcs cohorts
  set { d with balancer := balancer }
  return decisions

def setSpill (current : Spills) (e : Pid × LlcId) : DaemonM PUnit :=
  if current.lookup e.1 ≠ some e.2 then require (Bpf.updateSpill e.1 e.2) else return

def unsetSpill (desired : Spills) (pid : Pid) : DaemonM PUnit :=
  if pid ∉ desired then attempt (Bpf.deleteSpill pid) else return

def applySpills (env : TickEnv) (desired : Spills) : DaemonM PUnit := do
  let current := (← get).currentSpills
  (env.order.order desired.items).forM (setSpill current)
  (env.order.order current.keys).forM (unsetSpill desired)
  modify fun d => { d with currentSpills := desired }

end Cohorts

section Relationships

def retarget (plan : MergePlan) (e : Tgid × CohortId) : DaemonM PUnit :=
  if e.2 = plan.src then do
    let _ ← attempt (Bpf.updateTgidCohort e.1 plan.into .exist)
  else
    return

def applyMerge (env : TickEnv) (tgidCohort : HashTable Tgid CohortId) (plan : MergePlan)
    : DaemonM PUnit := do
  match ← attempt (Bpf.lookupCounters plan.into) with
  | none => return
  | some _ =>
    match ← attempt (Bpf.lookupCounters plan.src) with
    | none => return
    | some _ =>
      (env.order.order tgidCohort.items).forM (retarget plan)
      deleteCohort plan.src
      modify fun d =>
        { d with prevLoadSum := d.prevLoadSum.erase plan.src, nrMerges := d.nrMerges + 1 }

def splitTgid (newId : CohortId) (tgid : Tgid) : DaemonM PUnit := do
  match ← attempt (Bpf.lookupTgidCohort tgid) with
  | none => return
  | some _ => require (Bpf.updateTgidCohort tgid newId .exist)

def applySplit (plan : SplitPlan) : DaemonM PUnit := do
  match ← attempt (Bpf.lookupPolicy plan.cohort) with
  | none => return
  | some oldPolicy =>
    let newId := daemonCohortBase + (← get).daemonSeq
    modify fun d => { d with daemonSeq := d.daemonSeq + 1 }
    require (Bpf.updatePolicy newId { homeLlc := oldPolicy.homeLlc, flags := 0 } .noExist)
    require (Bpf.updateCounters newId {} .noExist)
    plan.offTgids.forM (splitTgid newId)
    modify fun d => { d with nrSplits := d.nrSplits + 1 }

def tgidTasks (tasks : List TaskSnapshot) : HashTable Tgid UInt64 :=
  tasks.foldl (fun counts t => counts.upsert t.tgid fun n => n.getD 0 + 1) ∅

def cohortTgids (o : IterOrder) (cohortSizes : HashTable CohortId UInt64)
    (tasks : List TaskSnapshot) (tgidCohort : HashTable Tgid CohortId)
    : HashTable CohortId WakeGraph.Members :=
  (o.order tgidCohort.items).foldl
    (fun groups e =>
      if e.2 ∈ cohortSizes then
        groups.upsert e.2 fun members =>
          members.getD [] ++ [(e.1, ((tgidTasks tasks).lookup e.1).getD 0)]
      else
        groups)
    ∅

def observeEdges (env : TickEnv) : DaemonM PUnit := do
  let deltas ← snapshotEdges env
  modify fun d =>
    { d with wakeGraph := d.wakeGraph.observe deltas (d.intervalNs.toNat / 1000000000) d.sampleMult }

def planMerges (env : TickEnv) (tgidCohort : HashTable Tgid CohortId)
    (cohortSizes : HashTable CohortId UInt64) : DaemonM (List MergePlan) := do
  let d ← get
  let (plans, wakeGraph) := d.wakeGraph.merges env.order tgidCohort cohortSizes
  set { d with wakeGraph := wakeGraph }
  return plans

def planSplits (env : TickEnv) (groups : HashTable CohortId WakeGraph.Members)
    : DaemonM (List SplitPlan) := do
  let d ← get
  let (plans, wakeGraph) := d.wakeGraph.splits env.order groups
  set { d with wakeGraph := wakeGraph }
  return plans

def discoverRelationships (env : TickEnv) (cohorts : List CohortSnapshot)
    (tasks : List TaskSnapshot) (tgidCohort : HashTable Tgid CohortId) : DaemonM PUnit := do
  observeEdges env
  let cohortSizes := HashTable.ofList (cohorts.map fun c => (c.id, c.nrTasks))
  let merges ← planMerges env tgidCohort cohortSizes
  merges.forM (applyMerge env tgidCohort)
  let splits ← planSplits env (cohortTgids env.order cohortSizes tasks tgidCohort)
  splits.forM applySplit

end Relationships

structure TickView where
  tasks : List TaskSnapshot
  tgidCohort : HashTable Tgid CohortId
  cohorts : List CohortSnapshot
  llcs : List LlcLoad

def survey (env : TickEnv) : DaemonM TickView := do
  let tasks ← snapshotTasks env
  let tgidCohort ← snapshotTgidCohort env
  applyRules env tasks
  let cohorts ← snapshotCohorts env tasks tgidCohort
  gcTgidMap env tgidCohort tasks
  let llcs ← llcLoads
  return ⟨tasks, tgidCohort, cohorts, llcs⟩

-- The tick up to the point where it looks for merges and splits.
def place (env : TickEnv) : DaemonM TickView := do
  let view ← survey env
  let decisions ← planMoves env view.llcs view.cohorts
  apply decisions
  let d ← get
  applySpills env (planSpills d.spillCfg view.llcs view.tasks d.currentSpills view.cohorts)
  return view

def tick (env : TickEnv) : DaemonM (List CohortSnapshot × List LlcLoad) := do
  let view ← place env
  discoverRelationships env view.cohorts view.tasks view.tgidCohort
  return (view.cohorts, view.llcs)

end Daemon
