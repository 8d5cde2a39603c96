import ScxCohort.Bpf.Callbacks

/-!
This module contains runs of the BPF component in which every callback is one atomic step. The daemon
takes part through its writes to the cohort, tgid and spill maps.
-/

namespace Bpf

-- The helper where every queued task may run on the CPU.
def firstQueued : MoveToLocal := fun _ q => if h : 0 < q.length then some ⟨0, h⟩ else none

inductive Event where
  | initTask (p : TaskStruct) (fork : Bool) (parent : Option TaskStruct) (alloc : Bool)
  | exitTask (p : TaskStruct)
  | selectCpu (p : TaskStruct) (prevCpu : Int) (env : WakeEnv)
  | enqueue (p : TaskStruct) (now : UInt64)
  | dispatch (cpu : Int) (now : UInt64) (move : MoveToLocal := firstQueued)
  | runnable (p : TaskStruct) (now : UInt64)
  | running (p : TaskStruct) (now : UInt64)
  | stopping (p : TaskStruct) (now : UInt64)
  | setPolicy (id : CohortId) (policy : CohortPolicy) (flag : UpdateFlag)
  | dropPolicy (id : CohortId)
  | setCounters (id : CohortId) (counters : CohortCounters) (flag : UpdateFlag)
  | dropCounters (id : CohortId)
  | setTgid (tgid : Tgid) (id : CohortId) (flag : UpdateFlag)
  | dropTgid (tgid : Tgid)
  | setSpill (pid : Pid) (llc : LlcId)
  | dropSpill (pid : Pid)

def updateSpill (pid : Pid) (llc : LlcId) : BpfM (Except MapErr PUnit) :=
  tryUpdate .spillTasks fun s =>
    return { s with spillTasks := ← s.spillTasks.update pid llc .any }

def deleteSpill (pid : Pid) : BpfM PUnit :=
  .atomic (.spillTasks, .delete) fun s =>
    (⟨⟩, { s with spillTasks := s.spillTasks.delete pid })

def ignore {α : Type} (p : BpfM α) : BpfM PUnit := do
  let _ ← p

variable (g : Globals)

def Event.prog : Event → BpfM PUnit
  | .initTask p fork parent alloc => ignore (cohortInitTask g p fork parent alloc)
  | .exitTask p => cohortExitTask p
  | .selectCpu p prevCpu env => ignore (cohortSelectCpu g p prevCpu env)
  | .enqueue p now => cohortEnqueue g p now
  | .dispatch cpu now move => ignore (cohortDispatch g move cpu now)
  | .runnable p now => cohortRunnable p now
  | .running p now => cohortRunning g p now
  | .stopping p now => cohortStopping g p now
  | .setPolicy id policy flag => ignore (updatePolicy id policy flag)
  | .dropPolicy id => Bpf.deletePolicy id
  | .setCounters id counters flag => ignore (updateCounters id counters flag)
  | .dropCounters id => Bpf.deleteCounters id
  | .setTgid tgid id flag => ignore (updateTgidCohort tgid id flag)
  | .dropTgid tgid => deleteTgidCohort tgid
  | .setSpill pid llc => ignore (updateSpill pid llc)
  | .dropSpill pid => Bpf.deleteSpill pid

def step (s : Maps) (e : Event) : Maps := ((e.prog g).run s).2

def run (s : Maps) (es : List Event) : Maps := es.foldl (step g) s

@[simp]
theorem run_nil (s : Maps) : run g s [] = s := rfl

@[simp]
theorem run_cons (s : Maps) (e : Event) (es : List Event)
    : run g s (e :: es) = run g (step g s e) es := rfl

theorem run_append (s : Maps) (es es' : List Event)
    : run g s (es ++ es') = run g (run g s es) es' := by
  unfold run
  rw [List.foldl_append]

end Bpf
