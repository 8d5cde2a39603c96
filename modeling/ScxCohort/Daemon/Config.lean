import ScxCohort.Daemon.Scheduler
import ScxCohort.Lib.Toml

/-!
This module contains the configuration (`config.rs`): what the file may hold, and how it is checked and
compiled. The compilation of a glob is a parameter.
-/

open Toml

-- The `[options]` table. Every field may be missing.
structure OptionsTable (F : Type) where
  sliceUs : Option UInt64 := none
  intervalMs : Option UInt64 := none
  stealMin : Option UInt64 := none
  stealDelayUs : Option UInt64 := none
  imbalancePct : Option UInt64 := none
  residencyMs : Option UInt64 := none
  mergeWakesPerSec : Option F := none
  rtPriority : Option Int32 := none
  dropPrivs : Option Bool := none

structure RuleFile where
  matchComm : Option (List (List Char)) := none
  matchCgroup : Option (List Char) := none
  joinCohortOf : Option (List Char) := none
  pinCcd : Option UInt32 := none
  minCcdResidencyMs : Option UInt64 := none

structure ConfigFile (F : Type) where
  options : OptionsTable F := {}
  rules : List RuleFile := []

-- The rules with the options.
structure FileConfig (F : Type) extends Config where
  options : OptionsTable F := {}

inductive ConfigErr where
  -- "failed to parse config"
  | malformed
  -- "rule {i}: join_cohort_of only supports "parent""
  | joinCohortOf (i : Nat)
  -- "rule {i}: needs match_comm and/or match_cgroup"
  | noMatcher (i : Nat)
  -- "rule {i}: bad glob {g:?}"
  | badGlob (i : Nat) (g : List Char)
  deriving DecidableEq, Repr

-- The derived decoders take a record by name from a table, and by position from an array.
namespace OptionsTable

-- In the order of the fields.
def keys : List Key :=
  ["slice_us".toList, "interval_ms".toList, "steal_min".toList, "steal_delay_us".toList,
    "imbalance_pct".toList, "residency_ms".toList, "merge_wakes_per_sec".toList, "rt_priority".toList,
    "drop_privs".toList]

variable {F : Type} [IntCast F]

def deserialize (v : Value F) : Option (OptionsTable F) := do
  let entries ← fields keys v
  let sliceUs ← field entries "slice_us".toList asU64
  let intervalMs ← field entries "interval_ms".toList asU64
  let stealMin ← field entries "steal_min".toList asU64
  let stealDelayUs ← field entries "steal_delay_us".toList asU64
  let imbalancePct ← field entries "imbalance_pct".toList asU64
  let residencyMs ← field entries "residency_ms".toList asU64
  let mergeWakesPerSec ← field entries "merge_wakes_per_sec".toList asF64
  let rtPriority ← field entries "rt_priority".toList asI32
  let dropPrivs ← field entries "drop_privs".toList asBool
  return { sliceUs, intervalMs, stealMin, stealDelayUs, imbalancePct, residencyMs, mergeWakesPerSec,
           rtPriority, dropPrivs }

end OptionsTable

namespace RuleFile

def keys : List Key :=
  ["match_comm".toList, "match_cgroup".toList, "join_cohort_of".toList, "pin_ccd".toList,
    "min_ccd_residency_ms".toList]

variable {F : Type}

def deserialize (v : Value F) : Option RuleFile := do
  let entries ← fields keys v
  let matchComm ← field entries "match_comm".toList (asArray asString)
  let matchCgroup ← field entries "match_cgroup".toList asString
  let joinCohortOf ← field entries "join_cohort_of".toList asString
  let pinCcd ← field entries "pin_ccd".toList asU32
  let minCcdResidencyMs ← field entries "min_ccd_residency_ms".toList asU64
  return { matchComm, matchCgroup, joinCohortOf, pinCcd, minCcdResidencyMs }

end RuleFile

-- There is no `deny_unknown_fields` on this one.
def ConfigFile.deserialize {F : Type} [IntCast F] (entries : List (Key × Value F))
    : Option (ConfigFile F) := do
  let options ← field entries "options".toList OptionsTable.deserialize
  let rules ← field entries "rule".toList (asArray RuleFile.deserialize)
  return { options := options.getD {}, rules := rules.getD [] }

namespace Config

variable (glob : List Char → Option (List Char → Bool))

def compileRule (i : Nat) (r : RuleFile) : Except ConfigErr Rule :=
  if r.joinCohortOf.any (· ≠ "parent".toList) then
    .error (.joinCohortOf (i + 1))
  else if r.matchComm.isNone && r.matchCgroup.isNone then
    .error (.noMatcher (i + 1))
  else
    match r.matchCgroup with
    | none =>
      .ok { comms := r.matchComm, cgroup := none, pinCcd := r.pinCcd
            minCcdResidencyMs := r.minCcdResidencyMs }
    | some g =>
      match glob g with
      | none => .error (.badGlob (i + 1) g)
      | some matcher =>
        .ok { comms := r.matchComm, cgroup := some matcher, pinCcd := r.pinCcd
              minCcdResidencyMs := r.minCcdResidencyMs }

def compileRules : Nat → List RuleFile → Except ConfigErr (List Rule)
  | _, [] => .ok []
  | i, r :: rs => do
    let rule ← compileRule glob i r
    let rules ← compileRules (i + 1) rs
    return rule :: rules

def parse {F : Type} [IntCast F] (doc : Document F) : Except ConfigErr (FileConfig F) := do
  let file ← (ConfigFile.deserialize doc.entries).elim (.error .malformed) .ok
  let rules ← compileRules glob 0 file.rules
  return { rules := rules, options := file.options }

end Config
