import ScxCohort.Bpf.Lemmas.Roster
import ScxCohort.Daemon.Lemmas.Frame
import ScxCohort.Daemon.Lemmas.Survey

/-!
This module contains how the daemon counts the members of a cohort. It goes by the cohort that each entry
of `task_stats` names, and an entry follows its thread group only once the task has been woken and then
stopped.
-/

namespace Daemon

open Bpf (Member Turn cohortOf countedIn)

section Count

-- `nr_tasks` of every cohort that the snapshots of a tick report, against the live tasks `r`.
def countsExact (env : TickEnv) (d : Scheduler) (s : Maps) (r : List Member) : Bool :=
  match (exec (survey env) d s).1 with
  | .ok (view, _) =>
    view.cohorts.all fun c =>
      c.nrTasks.toNat = r.countP fun m => cohortOf s m.task.tgid = some c.id
  | .error _ => true

def CountsExact (s : Maps) (r : List Member) : Prop := ∀ env d, countsExact env d s r = true

variable {env : TickEnv} {d : Scheduler} {s : Maps} {r : List Member}

theorem countP_tasksSeen (id : CohortId)
    : (tasksSeen env d s).countP (·.cohortId = id)
        =
      s.taskStats.keys.countP fun pid => countedIn s pid = some id := by
  have hkeys : s.taskStats.keys = s.taskStats.table.items.map (·.1) := by
    unfold BoundedMap.keys HashTable.items AList.keys List.keys
    rw [List.map_map]
    rfl
  unfold tasksSeen
  rw [List.countP_map, hkeys, List.countP_map, (env.order.perm _).countP_eq]
  apply List.countP_congr
  intro e he
  have hlookup : s.taskStats.lookup e.1 = some e.2 := HashTable.mem_items.mp he
  rw [Function.comp_apply, Function.comp_apply, decide_eq_true_iff, decide_eq_true_iff]
  simp [taskSnapshot, countedIn, hlookup]

-- Every live task has an entry that names its cohort, and there are no other entries.
theorem countP_keys (h : Bpf.Roster.Follows r s) (hcounted : ∀ m ∈ r, m.counted = true) (id : CohortId)
    : s.taskStats.keys.countP (fun pid => countedIn s pid = some id)
        =
      r.countP fun m => cohortOf s m.task.tgid = some id := by
  have hnodup : s.taskStats.keys.Nodup := AList.keys_nodup _
  have hperm : s.taskStats.keys.Perm (r.map (·.task.pid)) := by
    rw [List.perm_ext_iff_of_nodup hnodup h.pids]
    intro pid
    have hmem : pid ∈ s.taskStats.keys ↔ (countedIn s pid).isSome = true := by
      unfold countedIn
      rw [Option.isSome_map, Option.isSome_iff_exists, ← BoundedMap.mem_iff_lookup]
      exact BoundedMap.mem_keys
    rw [hmem, List.mem_map]
    constructor
    . exact h.stats pid
    . rintro ⟨m, hm, rfl⟩
      have hm' := (h.members m hm).counted (hcounted m hm)
      rw [hm'.2]
      exact hm'.1
  rw [hperm.countP_eq, List.countP_map]
  apply List.countP_congr
  intro m hm
  have hm' := (h.members m hm).counted (hcounted m hm)
  simp [hm'.2]

theorem nrTasks_of_counted (h : Bpf.Roster.Follows r s) (hcounted : ∀ m ∈ r, m.counted = true)
    (id : CohortId)
    : (((taskCounts (tasksSeen env d s)).lookup id).getD 0).toNat
        =
      r.countP fun m => cohortOf s m.task.tgid = some id := by
  have hsize : s.taskStats.keys.length ≤ 65536 := by
    have := s.taskStats.size_le
    unfold BoundedMap.keys AList.keys List.keys
    rw [List.length_map]
    exact this
  have hle := List.countP_le_length (p := fun pid => decide (countedIn s pid = some id))
    (l := s.taskStats.keys)
  rw [lookup_taskCounts, countP_tasksSeen, UInt64.toNat_ofNat_of_lt']
  . exact countP_keys h hcounted id
  . unfold UInt64.size
    omega

theorem counts_of_counted (h : Bpf.Roster.Follows r s) (hcounted : ∀ m ∈ r, m.counted = true)
    : CountsExact s r := by
  intro env d
  unfold countsExact
  split
  . next view d' hexec =>
    rw [List.all_eq_true]
    intro c hc
    rw [decide_eq_true_eq, ((surveyed_of_exec (Prod.ext hexec rfl)).cohorts c hc).2]
    exact nrTasks_of_counted h hcounted c.id
  . rfl

end Count

section Run

variable {g : Globals}

-- A tick, come to its end or not, is a turn of the daemon.
theorem step_daemon_tick (env : TickEnv) (d : Scheduler) (s : Maps)
    : Turn.step g s (.daemon (exec (tick env) d s).2) = (exec (tick env) d s).2 := by
  have hwrites : KeepsWrites fun s s' => s'.taskCtxs = s.taskCtxs ∧ s'.taskStats = s.taskStats :=
    { refl := fun _ => ⟨rfl, rfl⟩
      policy := fun _ _ _ _ => ⟨rfl, rfl⟩
      counters := fun _ _ _ _ => ⟨rfl, rfl⟩
      tgid := fun _ _ _ _ => ⟨rfl, rfl⟩
      spill := fun _ _ => ⟨rfl, rfl⟩
      edges := fun _ _ => ⟨rfl, rfl⟩
      dropPolicy := fun _ _ => ⟨rfl, rfl⟩
      dropCounters := fun _ _ => ⟨rfl, rfl⟩
      dropTgid := fun _ _ => ⟨rfl, rfl⟩ }
  have hkeeps : Keeps _ (tick env) := hwrites.tick
  have hsame := hkeeps.exec hwrites.refl (fun a b c h h' => ⟨h'.1.trans h.1, h'.2.trans h.2⟩) d s
  unfold Turn.step
  dsimp only
  rw [← hsame.1, ← hsame.2]

theorem counts_exact_of_counted (ts : List Turn)
    (hproper : Bpf.Roster.allProper g (Bpf.attached g) [] ts = true)
    (hcounted : ∀ m ∈ (Bpf.Roster.run g (Bpf.attached g) [] ts).2, m.counted = true)
    : CountsExact (Bpf.Roster.run g (Bpf.attached g) [] ts).1
        (Bpf.Roster.run g (Bpf.attached g) [] ts).2 :=
  counts_of_counted (Bpf.Roster.follows_run g ts (Bpf.Roster.follows_attached g) hproper) hcounted

def parentTask : TaskStruct := { tid := 1, pid := 10, tgid := 10 }

def helperTask : TaskStruct := { tid := 2, pid := 20, tgid := 20 }

-- Cohort 2 is merged into cohort 1.
def helperMerged : List Turn :=
  [.event (.initTask parentTask false none true), .event (.initTask helperTask false none true),
    .event (.setTgid 20 1 .exist), .event (.dropCounters 2), .event (.dropPolicy 2)]

theorem counts_exact_once_stopped
    : CountsExact
        (Bpf.Roster.run {} (Bpf.attached {}) []
          (helperMerged ++ [.event (.enqueue helperTask 1), .event (.stopping helperTask 2)])).1
        (Bpf.Roster.run {} (Bpf.attached {}) []
          (helperMerged ++ [.event (.enqueue helperTask 1), .event (.stopping helperTask 2)])).2 := by
  apply counts_exact_of_counted
  . decide +kernel
  . decide +kernel

-- Until the merged task has stopped, the next ticks report one member where there are two.
theorem merged_not_counts_exact
    : ¬ CountsExact (Bpf.Roster.run {} (Bpf.attached {}) [] helperMerged).1
        (Bpf.Roster.run {} (Bpf.attached {}) [] helperMerged).2 := by
  intro h
  have hcounts := h {} { llcCpus := [(0, 1)] }
  revert hcounts
  decide +kernel

end Run

end Daemon
