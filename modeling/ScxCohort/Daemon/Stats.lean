import Mathlib.Algebra.Order.Field.Rat
import ScxCohort.Daemon.Scheduler

/-!
This module contains what the daemon reports (`stats.rs`, `main.rs`): its metrics, the differences that a
reader of them is sent, and the view of cohorts and processes. Percentages are exact.
-/

structure LlcMetrics where
  util : ℚ := 0
  nrCohorts : UInt64 := 0

structure Metrics where
  nrCohorts : UInt64 := 0
  nrTasks : UInt64 := 0
  affinityHitPct : ℚ := 0
  nrSyncLocal : UInt64 := 0
  nrPrevIdle : UInt64 := 0
  nrIdleCore : UInt64 := 0
  nrIdleSmt : UInt64 := 0
  nrHomeMissClamp : UInt64 := 0
  nrEnqHome : UInt64 := 0
  nrEnqSpill : UInt64 := 0
  nrSteals : UInt64 := 0
  nrTctxErrors : UInt64 := 0
  nrMigrations : UInt64 := 0
  nrMerges : UInt64 := 0
  nrSplits : UInt64 := 0
  nrSpilled : UInt64 := 0
  llcs : HashTable LlcId LlcMetrics := ∅

namespace Stats

-- A stolen task was counted at its enqueue, as landing home.
def affinityPct (direct enqHome enqSpill steals : UInt64) : ℚ :=
  let home := (direct + enqHome).saturatingSub steals
  let total := direct + enqHome + enqSpill
  if total > 0 then home.toNat * 100 / total.toNat else 100

end Stats

def Metrics.delta (cur prev : Metrics) : Metrics :=
  let d :=
    { cur with
      nrSyncLocal := cur.nrSyncLocal.saturatingSub prev.nrSyncLocal
      nrPrevIdle := cur.nrPrevIdle.saturatingSub prev.nrPrevIdle
      nrIdleCore := cur.nrIdleCore.saturatingSub prev.nrIdleCore
      nrIdleSmt := cur.nrIdleSmt.saturatingSub prev.nrIdleSmt
      nrHomeMissClamp := cur.nrHomeMissClamp.saturatingSub prev.nrHomeMissClamp
      nrEnqHome := cur.nrEnqHome.saturatingSub prev.nrEnqHome
      nrEnqSpill := cur.nrEnqSpill.saturatingSub prev.nrEnqSpill
      nrSteals := cur.nrSteals.saturatingSub prev.nrSteals
      nrTctxErrors := cur.nrTctxErrors.saturatingSub prev.nrTctxErrors
      nrMigrations := cur.nrMigrations.saturatingSub prev.nrMigrations
      nrMerges := cur.nrMerges.saturatingSub prev.nrMerges
      nrSplits := cur.nrSplits.saturatingSub prev.nrSplits }
  { d with
    affinityHitPct := Stats.affinityPct (d.nrSyncLocal + d.nrPrevIdle + d.nrIdleCore + d.nrIdleSmt)
      d.nrEnqHome d.nrEnqSpill d.nrSteals }

namespace Daemon

section Metrics

def statIndices : List Stat :=
  [.syncLocal, .prevIdle, .idleCore, .idleSmt, .homeMissClamp, .enqHome, .enqSpill, .steal, .tctxErr]

-- The counters are looked up one after another. The sum over the CPUs is what the map is modelled as.
def readStatCounters : BpfM (Stat → UInt64) :=
  statIndices.foldlM (fun out idx => do
    let sum ← Bpf.load .stats (·.stats idx)
    return Function.update out idx sum) fun _ => 0

def llcMetrics (cohorts : List CohortSnapshot) (l : LlcLoad) : LlcMetrics where
  util := l.loadNs.toNat / (max l.capacityNs 1).toNat
  nrCohorts := UInt64.ofNat (cohorts.countP fun c => c.homeLlc = l.llc)

def getMetrics (d : Scheduler) (cohorts : List CohortSnapshot) (llcs : List LlcLoad) : BpfM Metrics := do
  let c ← readStatCounters
  return {
    nrCohorts := UInt64.ofNat cohorts.length
    nrTasks := (cohorts.map (·.nrTasks)).sum
    affinityHitPct := Stats.affinityPct (c .syncLocal + c .prevIdle + c .idleCore + c .idleSmt) (c .enqHome)
      (c .enqSpill) (c .steal)
    nrSyncLocal := c .syncLocal
    nrPrevIdle := c .prevIdle
    nrIdleCore := c .idleCore
    nrIdleSmt := c .idleSmt
    nrHomeMissClamp := c .homeMissClamp
    nrEnqHome := c .enqHome
    nrEnqSpill := c .enqSpill
    nrSteals := c .steal
    nrTctxErrors := c .tctxErr
    nrMigrations := d.nrMigrations
    nrMerges := d.nrMerges
    nrSplits := d.nrSplits
    nrSpilled := UInt64.ofNat d.currentSpills.entries.length
    llcs := HashTable.ofList (llcs.map fun l => (l.llc, llcMetrics cohorts l)) }

end Metrics

end Daemon

structure ProcRow where
  tgid : UInt64 := 0
  comm : List Char := []
  threads : UInt64 := 0
  spilled : UInt64 := 0
  utilPct : ℚ := 0
  affinityPct : ℚ := 0

structure CohortRow where
  homeLlc : UInt64 := 0
  pinned : UInt64 := 0
  tasks : UInt64 := 0
  utilPct : ℚ := 0
  affinityPct : ℚ := 0
  procs : HashTable Tgid ProcRow := ∅

namespace Stats

section Procs

variable (spills : Spills) (tickNs : UInt64)

structure CohortScan where
  row : CohortRow
  duty : UInt64 := 0
  home : UInt64 := 0

end Procs

end Stats
