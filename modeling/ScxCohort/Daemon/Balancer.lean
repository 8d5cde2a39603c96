import Mathlib.Data.List.MinMax
import Mathlib.Data.List.Sort
import Mathlib.Data.Prod.Lex
import ScxCohort.Common
import ScxCohort.Lib.Signed

/-!
This module contains the load balancer and the spill planner (`balancer.rs`). Integer arithmetic wraps
as it does in a release build.
-/

structure BalancerCfg where
  imbalancePct : UInt64 := 20
  confirmTicks : UInt32 := 2
  residencyMs : UInt64 := 2000
  deriving DecidableEq, Repr

structure Balancer where
  cfg : BalancerCfg := {}
  lastMoveAt : HashTable CohortId UInt64 := ∅
  streak : UInt32 := 0

namespace Balancer

def new (cfg : BalancerCfg) : Balancer := { cfg := cfg }

-- `Iterator::max_by_key` takes the last maximum, `Iterator::min_by_key` the first minimum.
def maxLoad (llcs : List LlcLoad) : Option LlcLoad := llcs.reverse.argmax (·.loadNs.toNat)

def minLoad (llcs : List LlcLoad) : Option LlcLoad := llcs.argmin (·.loadNs.toNat)

def retainCohorts (b : Balancer) (live : CohortId → Bool) : Balancer :=
  { b with lastMoveAt := b.lastMoveAt.retain fun id _ => live id }

def resident (b : Balancer) (nowMs : UInt64) (c : CohortSnapshot) : Bool :=
  match b.lastMoveAt.lookup c.id with
  | none => true
  | some movedAt => nowMs.saturatingSub movedAt ≥ c.residencyMs.getD b.cfg.residencyMs

def movable (b : Balancer) (nowMs : UInt64) (max min : LlcLoad) (c : CohortSnapshot) : Bool :=
  c.homeLlc = max.llc ∧ ¬ c.pinned ∧ c.nrTasks > 0 ∧ c.loadNs > 0 ∧ c.loadNs ≤ min.capacityNs
    ∧ b.resident nowMs c

def gapAfter (gap : UInt64) (c : CohortSnapshot) : UInt64 :=
  (gap.toInt64 - 2 * c.loadNs.toInt64).unsignedAbs

def best (b : Balancer) (nowMs : UInt64) (max min : LlcLoad) (cohorts : List CohortSnapshot)
    : Option CohortSnapshot :=
  let gap := max.loadNs - min.loadNs
  ((cohorts.filter (b.movable nowMs max min)).filter fun c => gapAfter gap c < gap).argmin fun c =>
    toLex ((gapAfter gap c).toNat, c.loadNs.toNat)

def overThreshold (b : Balancer) (max min : LlcLoad) : Bool :=
  max.loadNs - min.loadNs > min.capacityNs * b.cfg.imbalancePct / 100

def plan (b : Balancer) (nowMs : UInt64) (llcs : List LlcLoad) (cohorts : List CohortSnapshot)
    : List Decision × Balancer :=
  if llcs.length < 2 then
    ([], b)
  else
    match maxLoad llcs, minLoad llcs with
    | some max, some min =>
      if ¬ b.overThreshold max min then
        ([], { b with streak := 0 })
      else if b.streak + 1 < b.cfg.confirmTicks then
        ([], { b with streak := b.streak + 1 })
      else
        match b.best nowMs max min cohorts with
        | some c =>
          ([.moveCohort c.id min.llc],
            { b with lastMoveAt := b.lastMoveAt.insert c.id nowMs, streak := 0 })
        | none => ([], { b with streak := b.streak + 1 })
    | _, _ => ([], b)

end Balancer

structure SpillCfg where
  highPct : UInt64 := 95
  lowPct : UInt64 := 75
  coldMaxPct : UInt64 := 25
  tickNs : UInt64 := 200000000
  deriving DecidableEq, Repr

abbrev Spills := HashTable Pid LlcId

section

variable (cfg : SpillCfg) (llcs : List LlcLoad) (tasks : List TaskSnapshot) (current : Spills)

def spillCapacity : HashTable LlcId UInt64 :=
  HashTable.ofList (llcs.map fun l => (l.llc, l.capacityNs))

def alreadySpilled (cohort : CohortSnapshot) : List Pid :=
  (tasks.filter fun t => t.cohortId = cohort.id ∧ t.pid ∈ current).map (·.pid)

-- `unwrap` on the result cannot fail with two LLCs or more.
def spillTarget (cohort : CohortSnapshot) : Option LlcId :=
  ((llcs.filter fun l => l.llc ≠ cohort.homeLlc).argmin (·.loadNs.toNat)).map (·.llc)

def coldMembers (cohort : CohortSnapshot) : List TaskSnapshot :=
  let coldCeiling := cfg.tickNs * cfg.coldMaxPct / 100
  (tasks.filter fun t =>
    t.cohortId = cohort.id ∧ t.pid ∉ alreadySpilled tasks current cohort
      ∧ t.dutyNs < coldCeiling).insertionSort fun a b => a.dutyNs ≤ b.dutyNs

-- The coldest members, until what they shed makes up for the excess.
def growSpills (target : LlcId) (excess : UInt64)
    : Spills → UInt64 → List TaskSnapshot → Spills
  | desired, _, [] => desired
  | desired, shed, t :: ts =>
    if shed ≥ excess then
      desired
    else
      growSpills target excess (desired.insert t.pid target) (shed + max t.dutyNs 1) ts

def keepSpilled (cohort : CohortSnapshot) (desired : Spills) : Spills :=
  (alreadySpilled tasks current cohort).foldl
    (fun desired pid => desired.insert pid ((current.lookup pid).getD 0)) desired

def planCohortSpills (desired : Spills) (cohort : CohortSnapshot) : Spills :=
  match (spillCapacity llcs).lookup cohort.homeLlc, spillTarget llcs cohort with
  | some cap, some target =>
    let high := cap * cfg.highPct / 100
    let low := cap * cfg.lowPct / 100
    if cohort.loadNs < low then
      desired
    else if cohort.loadNs < high then
      keepSpilled tasks current cohort desired
    else
      growSpills target (cohort.loadNs - high) (keepSpilled tasks current cohort desired) 0
        (coldMembers cfg tasks current cohort)
  | _, _ => desired

def planSpills (cohorts : List CohortSnapshot) : Spills :=
  if llcs.length < 2 then
    ∅
  else
    cohorts.foldl (planCohortSpills cfg llcs tasks current) ∅

end
