import ScxCohort.Daemon.Stats
import ScxCohort.Daemon.System

/-!
This module contains the daemon's loop with one reader of its metrics (`main.rs`, `stats.rs`). Between
two ticks the daemon looks up the counters of an answer one after another, while callbacks go on.
-/

-- `opened` is the answer the session has started with, `prev` the last one, `reports` what it has been
-- sent.
structure Service where
  world : World
  reading : Option (BpfM Metrics) := none
  opened : Option Metrics := none
  prev : Option Metrics := none
  reports : List Metrics := []

namespace Service

inductive Turn where
  | world (t : World.Turn)
  | request
  | read

def start (g : Globals) (d : Scheduler) : Service := { world := World.start g d }

-- The reader takes the first answer as it is, and of the others the difference to the one before.
def respond (v : Service) (m : Metrics) : Service :=
  match v.prev with
  | none => { v with reading := none, opened := some m, prev := some m }
  | some prev => { v with reading := none, prev := some m, reports := v.reports ++ [m.delta prev] }

-- The loop is busy while it answers, and while it ticks.
def next (g : Globals) (v : Service) : Turn → Service
  | .world (.beginTick env) =>
    if v.reading.isSome then v else { v with world := World.next g v.world (.beginTick env) }
  | .world t => { v with world := World.next g v.world t }
  | .request =>
    match v.reading, v.world.daemon with
    | none, .ret (.ok (view, d)) => { v with reading := some (Daemon.getMetrics d view.1 view.2) }
    | _, _ => v
  | .read =>
    match v.reading with
    | none => v
    | some (.ret m) => v.respond m
    | some p =>
      match p.step? v.world.maps with
      | none => v
      | some (_, p', s) => { v with reading := some p', world := { v.world with maps := s } }

def run (g : Globals) (v : Service) (turns : List Turn) : Service := turns.foldl (next g) v

end Service
