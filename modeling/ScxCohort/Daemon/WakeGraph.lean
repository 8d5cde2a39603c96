import Mathlib.Data.Rat.Defs
import Mathlib.Data.List.Sort
import ScxCohort.Common
import ScxCohort.Lib.UnionFind

/-!
This module contains the wake graph (`wake_graph.rs`): edge rates from sampled wakeups, and the cohort
merges and splits they lead to. Rates are exact rationals. Iteration orders are arguments.
-/

abbrev EdgeKey := Tgid × Tgid

def ekey (a b : Tgid) : EdgeKey := if a < b then (a, b) else (b, a)

structure WakeGraphCfg where
  mergeWakesPerSec : ℚ := 300
  mergeConfirmTicks : UInt32 := 3
  splitMinWakesPerSec : ℚ := 10
  splitConfirmTicks : UInt32 := 25
  splitMinTasks : UInt64 := 2
  rateTauS : ℚ := 1

structure MergePlan where
  into : CohortId
  src : CohortId
  deriving DecidableEq, Repr

structure SplitPlan where
  cohort : CohortId
  offTgids : List Tgid
  deriving DecidableEq, Repr

structure EdgeState where
  rate : ℚ := 0
  inst : ℚ := 0
  overTicks : UInt32 := 0
  deriving DecidableEq

structure WakeGraph where
  cfg : WakeGraphCfg := {}
  edges : HashTable EdgeKey EdgeState := ∅
  splitStreak : HashTable CohortId UInt32 := ∅

namespace WakeGraph

section Observe

def freshCounts (deltas : List (Tgid × Tgid × UInt64)) (sampleMult : UInt64)
    : HashTable EdgeKey UInt64 :=
  deltas.foldl
    (fun fresh d => fresh.upsert (ekey d.1 d.2.1) fun c => c.getD 0 + d.2.2 * sampleMult) ∅

def decayEdge (alpha dtS : ℚ) (fresh : HashTable EdgeKey UInt64) (key : EdgeKey) (st : EdgeState)
    : EdgeState :=
  let inst : ℚ := ((fresh.lookup key).getD 0).toNat / dtS
  { st with inst := inst, rate := st.rate + alpha * (inst - st.rate) }

def addFreshEdge (alpha dtS : ℚ) (edges : HashTable EdgeKey EdgeState) (e : EdgeKey × UInt64)
    : HashTable EdgeKey EdgeState :=
  if e.1 ∈ edges then
    edges
  else
    let inst : ℚ := e.2.toNat / dtS
    edges.insert e.1 { rate := alpha * inst, inst := inst, overTicks := 0 }

def observe (w : WakeGraph) (deltas : List (Tgid × Tgid × UInt64)) (dtS : ℚ)
    (sampleMult : UInt64) : WakeGraph :=
  if dtS ≤ 0 then
    w
  else
    let alpha := dtS / (dtS + w.cfg.rateTauS)
    let fresh := freshCounts deltas sampleMult
    let decayed := w.edges.mapValues (decayEdge alpha dtS fresh)
    let edges := fresh.items.foldl (addFreshEdge alpha dtS) decayed
    { w with edges := edges.retain fun _ st => st.rate ≥ w.cfg.splitMinWakesPerSec / 10 }

end Observe

section Merges

structure MergeState where
  out : List MergePlan := []
  merged : Finset CohortId := ∅
  edges : HashTable EdgeKey EdgeState

def setOverTicks (m : MergeState) (key : EdgeKey) (st : EdgeState) (n : UInt32) : MergeState :=
  { m with edges := m.edges.insert key { st with overTicks := n } }

def mergeEdge (cfg : WakeGraphCfg) (tgidCohort : HashTable Tgid CohortId)
    (cohortSizes : HashTable CohortId UInt64) (m : MergeState) (e : EdgeKey × EdgeState)
    : MergeState :=
  match tgidCohort.lookup e.1.1, tgidCohort.lookup e.1.2 with
  | some ca, some cb =>
    if ca = cb then
      setOverTicks m e.1 e.2 0
    else if e.2.rate < cfg.mergeWakesPerSec ∨ e.2.inst < cfg.mergeWakesPerSec then
      setOverTicks m e.1 e.2 0
    else if e.2.overTicks + 1 < cfg.mergeConfirmTicks then
      setOverTicks m e.1 e.2 (e.2.overTicks + 1)
    else if ca ∈ m.merged ∨ cb ∈ m.merged then
      setOverTicks m e.1 e.2 (e.2.overTicks + 1)
    else
      let sa := (cohortSizes.lookup ca).getD 0
      let sb := (cohortSizes.lookup cb).getD 0
      let plan : MergePlan := if sa ≥ sb then ⟨ca, cb⟩ else ⟨cb, ca⟩
      { setOverTicks m e.1 e.2 0 with
        out := m.out ++ [plan]
        merged := insert cb (insert ca m.merged) }
  | _, _ => m

def merges (o : IterOrder) (w : WakeGraph) (tgidCohort : HashTable Tgid CohortId)
    (cohortSizes : HashTable CohortId UInt64) : List MergePlan × WakeGraph :=
  let m := (o.order w.edges.items).foldl (mergeEdge w.cfg tgidCohort cohortSizes)
    { edges := w.edges }
  (m.out, { w with edges := m.edges })

end Merges

section Splits

abbrev Members := List (Tgid × UInt64)

def tasksOf (comp : Members) : UInt64 := comp.foldl (fun n m => n + m.2) 0

-- The edges that still count as connecting their ends, in the order they are looked at.
def liveEdges (o : IterOrder) (w : WakeGraph) : List EdgeKey :=
  ((o.order w.edges.items).filter fun e => ¬ (e.2.rate < w.cfg.splitMinWakesPerSec)).map (·.1)

-- The recursion of `find` is no deeper than the number of unions made.
def splitFuel (o : IterOrder) (w : WakeGraph) : Nat := (liveEdges o w).length + 1

def splitForest (o : IterOrder) (w : WakeGraph) (members : Members) : Forest Tgid :=
  (Forest.singletons (members.map (·.1))).unions (splitFuel o w) (liveEdges o w)

def addToComponent (fuel : Nat) (acc : Forest Tgid × HashTable Tgid Members)
    (m : Tgid × UInt64) : Forest Tgid × HashTable Tgid Members :=
  let (root, parent) := acc.1.find fuel m.1
  (parent, acc.2.upsert root fun comp => comp.getD [] ++ [m])

def components (o : IterOrder) (w : WakeGraph) (members : Members) : HashTable Tgid Members :=
  (members.foldl (addToComponent (splitFuel o w)) (splitForest o w members, ∅)).2

-- All components but the largest one, and but those under the footprint floor.
def splitOff (cfg : WakeGraphCfg) (cohort : CohortId) (comps : List Members) : List SplitPlan :=
  (((comps.insertionSort fun a b => tasksOf a ≥ tasksOf b).drop 1).filter fun comp =>
    ¬ (tasksOf comp < cfg.splitMinTasks)).map fun comp => ⟨cohort, comp.map (·.1)⟩

def splitCohort (o : IterOrder) (w : WakeGraph)
    (acc : List SplitPlan × HashTable CohortId UInt32) (c : CohortId × Members)
    : List SplitPlan × HashTable CohortId UInt32 :=
  if c.2.length < 2 then
    (acc.1, acc.2.erase c.1)
  else
    let comps := components o w c.2
    if comps.entries.length < 2 then
      (acc.1, acc.2.erase c.1)
    else
      let streak := (acc.2.lookup c.1).getD 0 + 1
      if streak < w.cfg.splitConfirmTicks then
        (acc.1, acc.2.insert c.1 streak)
      else
        (acc.1 ++ splitOff w.cfg c.1 (o.order comps.values), acc.2.erase c.1)

def splits (o : IterOrder) (w : WakeGraph) (cohortTgids : HashTable CohortId Members)
    : List SplitPlan × WakeGraph :=
  let kept := w.splitStreak.retain fun cohort _ => cohort ∈ cohortTgids
  let r := (o.order cohortTgids.items).foldl (splitCohort o w) ([], kept)
  (r.1, { w with splitStreak := r.2 })

end Splits

end WakeGraph
