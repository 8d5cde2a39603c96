import Mathlib.Data.UInt
import ScxCohort.Lib.BoundedMap

/-!
This module contains the types and constants that the BPF component and the daemon share
(`scx_cohort_common`), and the plain values the daemon's planners work on (`domain.rs`).
-/

abbrev Tgid := UInt32
abbrev Pid := UInt32
abbrev LlcId := UInt32
abbrev CohortId := UInt64

def maxCpus : Nat := 512
def maxLlcs : Nat := 8
def maxCohorts : Nat := 1024

def cohortInvalid : CohortId := 0

def cohortPinned : UInt32 := 1

inductive Stat where
  | syncLocal
  | prevIdle
  | idleCore
  | idleSmt
  | homeMissClamp
  | enqHome
  | enqSpill
  | steal
  | tctxErr
  deriving DecidableEq, Repr

structure TaskCtx where
  cohortId : CohortId := 0
  vtime : UInt64 := 0
  lastRunAt : UInt64 := 0
  avgRuntimeNs : UInt64 := 0
  wakeFreq : UInt64 := 0
  lastWakeAt : UInt64 := 0
  isSpilled : UInt32 := 0
  spillLlc : LlcId := 0
  homeLlc : LlcId := 0
  deriving DecidableEq, Repr

structure CohortPolicy where
  homeLlc : LlcId := 0
  flags : UInt32 := 0
  deriving DecidableEq, Repr

structure CohortCounters where
  nrTasks : UInt64 := 0
  loadSum : UInt64 := 0
  deriving DecidableEq, Repr

structure WakeEdgeKey where
  wakerTgid : Tgid
  wakeeTgid : Tgid
  deriving DecidableEq, Repr

abbrev Comm := Vector UInt8 16

structure TaskStat where
  tgid : Tgid
  cohortId : CohortId
  runtimeSum : UInt64 := 0
  runtimeHomeSum : UInt64 := 0
  comm : Comm
  deriving DecidableEq, Repr

structure Tunables where
  stealMin : UInt64 := 2
  stealDelayNs : UInt64 := 500000
  creditMaxNs : UInt64 := 4000000
  creditWakeFreqMin : UInt64 := 50
  creditRuntimeMaxNs : UInt64 := 2000000
  sampleShift : UInt32 := 3
  deriving DecidableEq, Repr

structure LlcLoad where
  llc : LlcId
  loadNs : UInt64
  capacityNs : UInt64
  deriving DecidableEq, Repr

structure CohortSnapshot where
  id : CohortId
  homeLlc : LlcId
  pinned : Bool
  nrTasks : UInt64
  loadNs : UInt64
  residencyMs : Option UInt64
  deriving DecidableEq, Repr

structure TaskSnapshot where
  pid : Pid
  tgid : Tgid
  cohortId : CohortId
  dutyNs : UInt64
  homeNs : UInt64
  comm : List Char
  deriving DecidableEq, Repr

inductive Decision where
  | moveCohort (id : CohortId) (toLlc : LlcId)
  deriving DecidableEq, Repr

def UInt64.saturatingSub (a b : UInt64) : UInt64 := if b ≤ a then a - b else 0

theorem UInt64.toNat_saturatingSub (a b : UInt64)
    : (a.saturatingSub b).toNat = a.toNat - b.toNat := by
  unfold saturatingSub
  split
  . next h => exact UInt64.toNat_sub_of_le a b h
  . next h =>
    rw [UInt64.le_iff_toNat_le] at h
    simp only [UInt64.toNat_zero]
    omega
