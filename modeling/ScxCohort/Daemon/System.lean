import ScxCohort.Daemon.Scheduler

/-!
This module contains the callbacks and the daemon together. Callbacks of any number of tasks and the
ticks of the daemon take turns, one map operation at a time.
-/

def Bpf.Event.isCallback : Bpf.Event → Bool
  | .initTask _ _ _ _ => true
  | .exitTask _ => true
  | .selectCpu _ _ _ => true
  | .enqueue _ _ => true
  | .dispatch _ _ _ => true
  | .runnable _ _ => true
  | .running _ _ => true
  | .stopping _ _ => true
  | _ => false

-- An event under way, with the cohorts it has taken up to enter into `tgid_cohort`.
structure Callback where
  event : Bpf.Event
  held : List CohortId := []
  prog : BpfM PUnit

-- `entered` are the cohorts that callbacks have entered into `tgid_cohort` since the daemon last read
-- it.
structure World where
  maps : Maps
  entered : List CohortId := []
  callbacks : List Callback := []
  daemon : BpfM (Except MapErr ((List CohortSnapshot × List LlcLoad) × Scheduler))

namespace World

inductive Turn where
  | call (e : Bpf.Event)
  | callback (i : Nat)
  | beginTick (env : TickEnv)
  | daemon

def start (g : Globals) (d : Scheduler) : World :=
  { maps := Bpf.attached g, daemon := .ret (.ok (([], []), d)) }

section History

def enteredBy (s s' : Maps) : List CohortId :=
  (s'.tgidCohort.table.items.filter fun e => s.tgidCohort.lookup e.1 ≠ some e.2).map (·.2)

def removedBy (s s' : Maps) : List CohortId :=
  s.cohortPolicy.keys.filter (· ∉ s'.cohortPolicy)
    ++ s.cohortCounters.keys.filter (· ∉ s'.cohortCounters)

-- The cohort a fork copies from its parent.
def copiedBy : Bpf.Event → Op → Maps → List CohortId
  | .initTask _ _ (some parent) _, (.taskCtxs, .read), s =>
    [((s.taskCtxs parent.tid).getD {}).cohortId].filter (· ≠ cohortInvalid)
  | _, _, _ => []

-- The cohort whose number is drawn from `cohort_seq`.
def drawnBy (s s' : Maps) : List CohortId :=
  if s'.cohortSeq = s.cohortSeq then [] else [s'.cohortSeq]

def noteTaken (e : Bpf.Event) (op : Op) (s s' : Maps) (held : List CohortId) : List CohortId :=
  if op = (.tgidCohort, .update) then [] else held ++ copiedBy e op s ++ drawnBy s s'

def noteRead (op : Op) (entered : List CohortId) : List CohortId :=
  if op = (.tgidCohort, .batch) then [] else entered

end History

-- A turn of a program that has ended, or of a tick while another one is under way, does nothing.
def next (g : Globals) (w : World) : Turn → World
  | .call e =>
    if e.isCallback then
      { w with callbacks := w.callbacks ++ [{ event := e, prog := e.prog g }] }
    else
      w
  | .callback i =>
    match w.callbacks[i]? with
    | none => w
    | some cb =>
      match cb.prog.step? w.maps with
      | none => w
      | some (op, p, s) =>
        { w with
          maps := s
          entered := w.entered ++ enteredBy w.maps s
          callbacks := w.callbacks.set i
            { cb with held := noteTaken cb.event op w.maps s cb.held, prog := p } }
  | .beginTick env =>
    match w.daemon with
    | .ret (.ok (_, d)) => { w with daemon := (Daemon.tick env d).run }
    | _ => w
  | .daemon =>
    match w.daemon.step? w.maps with
    | some (op, p, s) => { w with maps := s, entered := noteRead op w.entered, daemon := p }
    | none => w

def run (g : Globals) (w : World) (turns : List Turn) : World := turns.foldl (next g) w

-- Every turn meets `P` in the world it is taken in.
def along (g : Globals) (P : World → Turn → Bool) : World → List Turn → Bool
  | _, [] => true
  | w, t :: turns => P w t && along g P (next g w t) turns

def atRest (w : World) : Bool := w.daemon.isDone && w.callbacks.all fun cb => cb.prog.isDone

end World
