import Mathlib.Data.UInt
import Mathlib.Tactic.FieldSimp
import Mathlib.Tactic.Linarith
import Mathlib.Tactic.NormNum
import Mathlib.Tactic.Positivity
import Mathlib.Tactic.Ring
import ScxCohort.Daemon.Stats
import ScxCohort.Lib.Tally

/-!
This module contains that the view of cohorts and processes accounts for every task of a cohort once, and
that its percentages agree with each other.
-/

namespace Stats

variable {cohorts : List CohortSnapshot} {tasks : List TaskSnapshot} {llcs : List LlcLoad}
    {spills : Spills}
  {tick : Nat} {tickNs : UInt64} {id : CohortId} {row : CohortRow}

def members (tasks : List TaskSnapshot) (id : CohortId) : List TaskSnapshot :=
  tasks.filter fun t => t.cohortId = id

def threads (tasks : List TaskSnapshot) (id : CohortId) (tgid : Tgid) : List TaskSnapshot :=
  (members tasks id).filter fun t => t.tgid = tgid

section Scan

end Scan

section Row

def homeSum (l : List TaskSnapshot) : Nat := (l.map (·.homeNs.toNat)).sum

end Row

section Rows

end Rows

section Agreement

def game : CohortSnapshot where
  id := 7
  homeLlc := 1
  pinned := true
  nrTasks := 3
  loadNs := 200000000
  residencyMs := none

end Agreement

end Stats
