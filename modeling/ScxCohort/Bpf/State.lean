import Mathlib.Data.Finset.Basic
import Mathlib.Logic.Function.Basic
import ScxCohort.Common
import ScxCohort.Lib.Proc

/-!
This module contains the state of the BPF component: its maps, its global counters and the dispatch
queues, together with the single map operations its callbacks and the daemon are made of.
-/

abbrev Tid := Nat

structure TaskStruct where
  tid : Tid
  pid : Pid
  tgid : Tgid
  weight : UInt32 := 100
  cpu : Int := 0
  cpusPtr : Finset Nat := {0}
  nrCpusAllowed : Nat := 1
  comm : Comm := Vector.replicate 16 0
  deriving DecidableEq

structure Globals where
  sliceNs : UInt64 := 5000000
  nrCpus : Nat := 1
  nrLlcs : UInt32 := 1
  cpuLlcId : Nat → LlcId := fun _ => 0
  tunables : Tunables := {}

structure LlcCtx where
  cpumask : Option (Finset Nat) := none
  vtimeNow : UInt64 := 0
  headEnqTs : UInt64 := 0
  deriving DecidableEq

structure DsqEntry where
  tid : Tid
  vtime : UInt64
  enqAt : UInt64
  deriving DecidableEq, Repr

structure Maps where
  llcs : LlcId → LlcCtx := fun _ => {}
  sampleCtr : Nat → UInt32 := fun _ => 0
  taskCtxs : Tid → Option TaskCtx := fun _ => none
  cohortPolicy : BoundedMap maxCohorts CohortId CohortPolicy := .empty
  cohortCounters : BoundedMap maxCohorts CohortId CohortCounters := .empty
  llcLoad : LlcId → UInt64 := fun _ => 0
  tgidCohort : BoundedMap 65536 Tgid CohortId := .empty
  stats : Stat → UInt64 := fun _ => 0
  taskStats : BoundedMap 65536 Pid TaskStat := .empty
  wakeEdges : HashTable WakeEdgeKey UInt64 := ∅
  spillTasks : BoundedMap 8192 Pid LlcId := .empty
  cohortSeq : UInt64 := 0
  rrCtr : UInt32 := 0
  createdDsqs : List LlcId := []
  dsqs : LlcId → List DsqEntry := fun _ => []
  localDsq : List (Tid × Int) := []
  idleClaims : List Int := []

inductive MapName where
  | llcs
  | scratchStor
  | taskCtxs
  | cohortPolicy
  | cohortCounters
  | llcLoad
  | tgidCohort
  | stats
  | taskStats
  | wakeEdges
  | spillTasks
  | counters
  | dsqs
  | idle
  deriving DecidableEq, Repr

inductive Access where
  | lookup
  | read
  | batch
  | drain
  | write
  | update
  | delete
  deriving DecidableEq, Repr

abbrev Op := MapName × Access

abbrev BpfM := Proc Op Maps

namespace Bpf

def load {β : Type} (m : MapName) (f : Maps → β) (access : Access := .lookup) : BpfM β :=
  .atomic (m, access) fun s => (f s, s)

def store (m : MapName) (f : Maps → Maps) : BpfM PUnit :=
  .atomic (m, .write) fun s => (⟨⟩, f s)

def tryUpdate (m : MapName) (upd : Maps → Except MapErr Maps) : BpfM (Except MapErr PUnit) :=
  .atomic (m, .update) fun s =>
    match upd s with
    | .ok s' => (.ok ⟨⟩, s')
    | .error e => (.error e, s)

def lookupTgidCohort (tgid : Tgid) : BpfM (Option CohortId) :=
  load .tgidCohort (·.tgidCohort.lookup tgid)

def updateTgidCohort (tgid : Tgid) (id : CohortId) (flag : UpdateFlag)
    : BpfM (Except MapErr PUnit) :=
  tryUpdate .tgidCohort fun s =>
    return { s with tgidCohort := ← s.tgidCohort.update tgid id flag }

def deleteTgidCohort (tgid : Tgid) : BpfM PUnit :=
  .atomic (.tgidCohort, .delete) fun s =>
    (⟨⟩, { s with tgidCohort := s.tgidCohort.delete tgid })

def lookupPolicy (id : CohortId) : BpfM (Option CohortPolicy) :=
  load .cohortPolicy (·.cohortPolicy.lookup id)

def updatePolicy (id : CohortId) (policy : CohortPolicy) (flag : UpdateFlag)
    : BpfM (Except MapErr PUnit) :=
  tryUpdate .cohortPolicy fun s =>
    return { s with cohortPolicy := ← s.cohortPolicy.update id policy flag }

def deletePolicy (id : CohortId) : BpfM PUnit :=
  .atomic (.cohortPolicy, .delete) fun s =>
    (⟨⟩, { s with cohortPolicy := s.cohortPolicy.delete id })

def lookupCounters (id : CohortId) : BpfM (Option CohortCounters) :=
  load .cohortCounters (·.cohortCounters.lookup id)

def updateCounters (id : CohortId) (counters : CohortCounters) (flag : UpdateFlag)
    : BpfM (Except MapErr PUnit) :=
  tryUpdate .cohortCounters fun s =>
    return { s with cohortCounters := ← s.cohortCounters.update id counters flag }

def modifyCounters (id : CohortId) (f : CohortCounters → CohortCounters) : BpfM PUnit :=
  store .cohortCounters fun s => { s with cohortCounters := s.cohortCounters.modify id f }

def deleteCounters (id : CohortId) : BpfM PUnit :=
  .atomic (.cohortCounters, .delete) fun s =>
    (⟨⟩, { s with cohortCounters := s.cohortCounters.delete id })

def readTctx (t : Tid) : BpfM TaskCtx :=
  load .taskCtxs (fun s => (s.taskCtxs t).getD {}) .read

def modifyTctx (t : Tid) (f : TaskCtx → TaskCtx) : BpfM PUnit :=
  store .taskCtxs fun s => { s with taskCtxs := Function.update s.taskCtxs t ((s.taskCtxs t).map f) }

def modifyLlc (llc : LlcId) (f : LlcCtx → LlcCtx) : BpfM PUnit :=
  store .llcs fun s => { s with llcs := Function.update s.llcs llc (f (s.llcs llc)) }

def modifyTaskStat (pid : Pid) (f : TaskStat → TaskStat) : BpfM PUnit :=
  store .taskStats fun s => { s with taskStats := s.taskStats.modify pid f }

section

variable (s : Maps)

@[simp]
theorem run_load {β : Type} (m : MapName) (f : Maps → β) (access : Access)
    : (load m f access).run s = (f s, s) := rfl

@[simp]
theorem run_store (m : MapName) (f : Maps → Maps) : (store m f).run s = (⟨⟩, f s) := rfl

theorem run_tryUpdate_ok {m : MapName} {upd : Maps → Except MapErr Maps} {s s' : Maps}
    (h : upd s = .ok s')
    : (tryUpdate m upd).run s = (.ok ⟨⟩, s') := by
  unfold tryUpdate
  rw [Proc.run_atomic, h]

theorem run_tryUpdate_error {m : MapName} {upd : Maps → Except MapErr Maps} {s : Maps}
    {e : MapErr} (h : upd s = .error e)
    : (tryUpdate m upd).run s = (.error e, s) := by
  unfold tryUpdate
  rw [Proc.run_atomic, h]

@[simp]
theorem run_lookupTgidCohort (tgid : Tgid)
    : (lookupTgidCohort tgid).run s = (s.tgidCohort.lookup tgid, s) := rfl

@[simp]
theorem run_lookupPolicy (id : CohortId)
    : (lookupPolicy id).run s = (s.cohortPolicy.lookup id, s) := rfl

@[simp]
theorem run_lookupCounters (id : CohortId)
    : (lookupCounters id).run s = (s.cohortCounters.lookup id, s) := rfl

@[simp]
theorem run_readTctx (t : Tid) : (readTctx t).run s = ((s.taskCtxs t).getD {}, s) := rfl

@[simp]
theorem run_modifyTctx (t : Tid) (f : TaskCtx → TaskCtx)
    : (modifyTctx t f).run s
        =
      (⟨⟩, { s with taskCtxs := Function.update s.taskCtxs t ((s.taskCtxs t).map f) }) := rfl

@[simp]
theorem run_modifyLlc (llc : LlcId) (f : LlcCtx → LlcCtx)
    : (modifyLlc llc f).run s
        =
      (⟨⟩, { s with llcs := Function.update s.llcs llc (f (s.llcs llc)) }) := rfl

@[simp]
theorem run_modifyCounters (id : CohortId) (f : CohortCounters → CohortCounters)
    : (modifyCounters id f).run s
        =
      (⟨⟩, { s with cohortCounters := s.cohortCounters.modify id f }) := rfl

@[simp]
theorem run_modifyTaskStat (pid : Pid) (f : TaskStat → TaskStat)
    : (modifyTaskStat pid f).run s
        =
      (⟨⟩, { s with taskStats := s.taskStats.modify pid f }) := rfl

end

end Bpf
