import ScxCohort.Bpf.Lemmas.Roster
import ScxCohort.Daemon.Lemmas.Survey
import ScxCohort.Lib.Streak

/-!
This module contains which name of a task the rules are matched with. `cohort_init_task` copies the name
into `task_stats`, and nothing copies it again.
-/

namespace Daemon

-- A live task as it was admitted, its name by now, and whether it has stopped since the name changed.
structure Named where
  task : TaskStruct
  comm : Comm
  stopped : Bool := false

inductive NameTurn where
  | turn (t : Bpf.Turn)
  | rename (t : Tid) (comm : Comm)

def Named.rename (t : Tid) (comm : Comm) (n : Named) : Named :=
  if n.task.tid = t ∧ n.comm ≠ comm then { n with comm := comm, stopped := false } else n

def Named.stop (t : Tid) (n : Named) : Named := if n.task.tid = t then { n with stopped := true } else n

-- The maps, with the live tasks.
structure Names where
  maps : Maps
  tasks : List Named := []

namespace Names

variable (g : Globals)

def note (w : Names) : NameTurn → List Named
  | .turn (.event (.initTask p fork parent alloc)) =>
    if ((Bpf.cohortInitTask g p fork parent alloc).run w.maps).1 then
      { task := p, comm := p.comm } :: w.tasks
    else
      w.tasks
  | .turn (.event (.exitTask p)) => w.tasks.filter (·.task.tid ≠ p.tid)
  | .turn (.event (.stopping p _)) => w.tasks.map (Named.stop p.tid)
  | .turn _ => w.tasks
  | .rename t comm => w.tasks.map (Named.rename t comm)

def next (w : Names) (t : NameTurn) : Names :=
  { maps := match t with
      | .turn t => t.step g w.maps
      | .rename _ _ => w.maps
    tasks := w.note g t }

-- The kernel gives no task the pid of a live one.
def proper (w : Names) : NameTurn → Bool
  | .turn (.event (.initTask p _ _ _)) => w.tasks.all (·.task.pid ≠ p.pid)
  | _ => true

-- Whatever a tick gives the rules as the name of such a task is what it is called now.
def Seen (w : Names) : Prop :=
  ∀ n ∈ w.tasks, n.stopped = true → ∀ env d, ∀ t ∈ tasksSeen env d w.maps, t.pid = n.task.pid
    → t.comm = commOf n.comm

-- It is called what it was called when it was admitted.
def asAdmitted (w : Names) : Bool :=
  w.tasks.all fun n =>
    !n.stopped || n.task.pid ∉ w.maps.taskStats || commOf n.task.comm = commOf n.comm

end Names

section Copies

variable {g : Globals} {s s' : Maps}

-- Entries are at most dropped, and keep their names.
def OldComms (s s' : Maps) : Prop :=
  ∀ pid ts', s'.taskStats.lookup pid = some ts'
    → ∃ ts, s.taskStats.lookup pid = some ts ∧ ts'.comm = ts.comm

namespace OldComms

theorem of_same (h : s'.taskStats = s.taskStats) : OldComms s s' := by
  intro pid ts' hlookup
  rw [h] at hlookup
  exact ⟨ts', hlookup, rfl⟩

theorem refl (s : Maps) : OldComms s s := of_same rfl

theorem trans (a b c : Maps) (h : OldComms a b) (h' : OldComms b c) : OldComms a c := by
  intro pid ts'' hlookup
  obtain ⟨ts', hlookup', heq'⟩ := h' pid ts'' hlookup
  obtain ⟨ts, hlookup, heq⟩ := h pid ts' hlookup'
  exact ⟨ts, hlookup, heq'.trans heq⟩

theorem keepsFast : Bpf.KeepsFast OldComms where
  refl := refl
  stat := fun _ _ => of_same rfl
  tctx := fun _ _ _ _ => of_same rfl
  sample := fun _ _ => of_same rfl
  edges := fun _ _ => of_same rfl
  headEnqTs := fun _ _ _ => of_same rfl
  queues := fun _ _ _ => of_same rfl
  idle := fun _ _ => of_same rfl
  wake := fun _ _ _ _ => of_same rfl
  nrTasks := fun _ _ _ => of_same rfl
  dropSpill := fun _ _ => of_same rfl
  dropTaskStat := by
    intro s pid pid' ts' hlookup
    dsimp only at hlookup
    rw [BoundedMap.lookup_delete] at hlookup
    split at hlookup
    . contradiction
    . exact ⟨ts', hlookup, rfl⟩

theorem keepsAccount : Bpf.KeepsAccount OldComms where
  refl := refl
  tctxErr := fun _ => of_same rfl
  account := fun _ _ _ _ => of_same rfl
  vtimeNow := fun _ _ _ => of_same rfl
  loadSum := fun _ _ _ => of_same rfl
  llcLoad := fun _ _ => of_same rfl
  runtime := by
    intro s pid f hf pid' ts' hlookup
    dsimp only at hlookup
    rw [BoundedMap.lookup_modify] at hlookup
    split at hlookup
    . obtain ⟨ts, hts, rfl⟩ := Option.map_eq_some_iff.mp hlookup
      obtain ⟨sum, home, id, heq⟩ := hf ts
      refine ⟨ts, hts, ?_⟩
      rw [heq]
    . exact ⟨ts', hlookup, rfl⟩

end OldComms

theorem oldComms_step {e : Bpf.Event} (he : ∀ p fork parent alloc, e ≠ .initTask p fork parent alloc)
    : OldComms s (Bpf.step g s e) := by
  have hrun {q : BpfM PUnit} (hq : q.Keeps OldComms) : OldComms s (q.run s).2 :=
    hq.run OldComms.refl OldComms.trans s
  cases e with
  | initTask p fork parent alloc => exact absurd rfl (he p fork parent alloc)
  | exitTask p => exact hrun OldComms.keepsFast.cohortExitTask
  | selectCpu p prevCpu env => exact hrun (Bpf.keeps_ignore OldComms.keepsFast.calls.cohortSelectCpu)
  | enqueue p now => exact hrun OldComms.keepsFast.calls.cohortEnqueue
  | dispatch cpu now => exact hrun (Bpf.keeps_ignore OldComms.keepsFast.cohortDispatch)
  | runnable p now => exact hrun OldComms.keepsFast.cohortRunnable
  | running p now => exact hrun OldComms.keepsAccount.cohortRunning
  | stopping p now => exact hrun OldComms.keepsAccount.cohortStopping
  | setPolicy id policy flag =>
    simp only [Bpf.step, Bpf.Event.prog, Bpf.ignore, Proc.run_bind, Proc.run_pure, Bpf.run_updatePolicy]
    exact OldComms.of_same rfl
  | setCounters id counters flag =>
    simp only [Bpf.step, Bpf.Event.prog, Bpf.ignore, Proc.run_bind, Proc.run_pure, Bpf.run_updateCounters]
    exact OldComms.of_same rfl
  | setTgid tgid id flag =>
    simp only [Bpf.step, Bpf.Event.prog, Bpf.ignore, Proc.run_bind, Proc.run_pure,
      Bpf.run_updateTgidCohort]
    exact OldComms.of_same rfl
  | setSpill pid llc =>
    simp only [Bpf.step, Bpf.Event.prog, Bpf.ignore, Proc.run_bind, Proc.run_pure, Bpf.run_updateSpill]
    exact OldComms.of_same rfl
  | dropPolicy id => exact OldComms.of_same rfl
  | dropCounters id => exact OldComms.of_same rfl
  | dropTgid tgid => exact OldComms.of_same rfl
  | dropSpill pid => exact OldComms.of_same rfl

-- An admission enters the task under the name it has then, if there is room.
theorem comm_admitted {p : TaskStruct} {fork : Bool} {parent : Option TaskStruct} {ts : TaskStat}
    (h : (Bpf.admitted g s p fork parent).2.taskStats.lookup p.pid = some ts)
    : ts.comm = p.comm := by
  simp only [Bpf.admitted, Bpf.enroll, Bpf.assigned_taskStats, Bpf.withStorage_taskStats] at h
  by_cases hroom : p.pid ∈ s.taskStats ∨ s.taskStats.size < 65536
  . rw [BoundedMap.lookup_updateD_any hroom, Option.some.injEq] at h
    rw [← h]
  . rw [not_or] at hroom
    rw [BoundedMap.lookup_updateD_new hroom.1, if_neg hroom.2] at h
    contradiction

theorem lookup_admitted_ne {p : TaskStruct} {fork : Bool} {parent : Option TaskStruct} {pid : Pid}
    (hne : pid ≠ p.pid)
    : (Bpf.admitted g s p fork parent).2.taskStats.lookup pid = s.taskStats.lookup pid := by
  simp only [Bpf.admitted, Bpf.enroll, Bpf.assigned_taskStats, Bpf.withStorage_taskStats]
  rw [BoundedMap.lookup_updateD_ne _ _ _ hne]

end Copies

namespace Names

variable {g : Globals} {w : Names}

-- The entry of a live task has the name the task was admitted with.
def CopiedOnce (w : Names) : Prop :=
  ∀ n ∈ w.tasks, ∀ ts, w.maps.taskStats.lookup n.task.pid = some ts → ts.comm = n.task.comm

theorem copiedOnce_new (s : Maps) : CopiedOnce { maps := s } := by
  intro n hn
  contradiction

theorem CopiedOnce.old {w' : Names} (h : w.CopiedOnce) (hold : OldComms w.maps w'.maps)
    (htasks : ∀ n ∈ w'.tasks, ∃ m ∈ w.tasks, n.task = m.task)
    : w'.CopiedOnce := by
  intro n hn ts' hlookup
  obtain ⟨m, hm, heq⟩ := htasks n hn
  rw [heq] at hlookup ⊢
  obtain ⟨ts, hts, hcomm⟩ := hold _ _ hlookup
  rw [hcomm]
  exact h m hm ts hts

theorem copiedOnce_init {p : TaskStruct} {fork : Bool} {parent : Option TaskStruct} {alloc : Bool}
    (h : w.CopiedOnce) (hproper : ∀ n ∈ w.tasks, n.task.pid ≠ p.pid)
    : CopiedOnce (w.next g (.turn (.event (.initTask p fork parent alloc)))) := by
  unfold next note Bpf.Turn.step
  dsimp only
  rw [Bpf.run_cohortInitTask, Bpf.step_initTask]
  split
  . dsimp only
    rw [if_pos rfl]
    intro n hn ts hlookup
    cases List.mem_cons.mp hn with
    | inl heq =>
      rw [heq] at hlookup ⊢
      exact comm_admitted hlookup
    | inr hn =>
      rw [lookup_admitted_ne (hproper n hn)] at hlookup
      exact h n hn ts hlookup
  . exact h

theorem copiedOnce_next {t : NameTurn} (h : w.CopiedOnce) (hproper : w.proper t = true)
    : CopiedOnce (w.next g t) := by
  have hmap : ∀ f : Named → Named, (∀ n, (f n).task = n.task)
      → ∀ n ∈ w.tasks.map f, ∃ m ∈ w.tasks, n.task = m.task := by
    intro f hf n hn
    obtain ⟨m, hm, rfl⟩ := List.mem_map.mp hn
    exact ⟨m, hm, hf m⟩
  have hself : ∀ n ∈ w.tasks, ∃ m ∈ w.tasks, n.task = m.task := fun n hn => ⟨n, hn, rfl⟩
  cases t with
  | rename t comm =>
    apply CopiedOnce.old h
    . exact OldComms.refl w.maps
    . apply hmap
      intro n
      unfold Named.rename
      split <;> rfl
  | turn t =>
    cases t with
    | daemon s' => exact h.old (OldComms.of_same rfl) hself
    | event e =>
      cases e with
      | initTask p fork parent alloc =>
        apply copiedOnce_init h
        intro n hn
        exact of_decide_eq_true (List.all_eq_true.mp hproper n hn)
      | exitTask p =>
        apply h.old (oldComms_step (by intros; nofun))
        intro n hn
        exact hself n (List.mem_filter.mp hn).1
      | stopping p now =>
        apply h.old (oldComms_step (by intros; nofun))
        apply hmap
        intro n
        unfold Named.stop
        split <;> rfl
      | _ => exact h.old (oldComms_step (by intros; nofun)) hself

theorem seen_iff (h : w.CopiedOnce) : w.Seen ↔ w.asAdmitted = true := by
  have hseen : ∀ env d t, t ∈ tasksSeen env d w.maps
      ↔ ∃ pid ts, w.maps.taskStats.lookup pid = some ts ∧ t = taskSnapshot d.prevRuntime (pid, ts) := by
    intro env d t
    unfold tasksSeen
    rw [List.mem_map]
    constructor
    . intro ht
      obtain ⟨e, he, rfl⟩ := ht
      rw [IterOrder.mem_order] at he
      exact ⟨e.1, e.2, HashTable.mem_items.mp he, rfl⟩
    . intro ht
      obtain ⟨pid, ts, hlookup, rfl⟩ := ht
      refine ⟨(pid, ts), ?_, rfl⟩
      rw [IterOrder.mem_order]
      exact HashTable.mem_items.mpr hlookup
  unfold Seen asAdmitted
  simp only [List.all_eq_true, Bool.or_eq_true, Bool.not_eq_true', decide_eq_true_eq]
  constructor
  . intro hright n hn
    by_cases hstopped : n.stopped = true
    . by_cases hmem : n.task.pid ∈ w.maps.taskStats
      . obtain ⟨ts, hts⟩ := BoundedMap.mem_iff_lookup.mp hmem
        have hcomm := hright n hn hstopped {} { llcCpus := [] } _ ((hseen _ _ _).mpr ⟨_, ts, hts, rfl⟩) rfl
        right
        rw [← hcomm, ← h n hn ts hts]
        rfl
      . exact .inl (.inr hmem)
    . exact .inl (.inl (Bool.eq_false_iff.mpr hstopped))
  . intro hnamed n hn hstopped env d t ht hpid
    obtain ⟨pid, ts, hlookup, rfl⟩ := (hseen env d t).mp ht
    have heq : pid = n.task.pid := hpid
    rw [heq] at hlookup
    have hmem := BoundedMap.mem_iff_lookup.mpr ⟨ts, hlookup⟩
    show commOf ts.comm = commOf n.comm
    rw [h n hn ts hlookup]
    rcases hnamed n hn with (hrunning | hgone) | hsame
    . rw [hstopped] at hrunning
      contradiction
    . exact absurd hmem hgone
    . exact hsame

theorem throughout_seen_iff (ts : List NameTurn) (h : w.CopiedOnce)
    (hproper : Streak.Throughout (next g) (fun w t => w.proper t = true) w ts)
    : Streak.Throughout (next g) (fun w t => (w.next g t).Seen) w ts
        ↔
      Streak.Throughout (next g) (fun w t => (w.next g t).asAdmitted = true) w ts := by
  apply Streak.throughout_congr (I := CopiedOnce) (R := fun w t => w.proper t = true)
  . intro w t h hproper
    exact seen_iff (copiedOnce_next h hproper)
  . intro w t h hproper _
    exact copiedOnce_next h hproper
  . exact h
  . exact hproper

end Names

-- After every step, so at every tick, whatever stage the daemon is at.
theorem rules_see_name_iff (g : Globals) (ts : List NameTurn)
    (hproper : Streak.Throughout (Names.next g) (fun w t => w.proper t = true)
      { maps := Bpf.attached g } ts)
    : Streak.Throughout (Names.next g) (fun w t => (w.next g t).Seen) { maps := Bpf.attached g } ts
        ↔
      Streak.Throughout (Names.next g) (fun w t => (w.next g t).asAdmitted = true)
        { maps := Bpf.attached g } ts :=
  Names.throughout_seen_iff ts (Names.copiedOnce_new _) hproper

section Exec

def bash : Comm := #v[98, 97, 115, 104, 0, 0, 0, 0, 0, 0, 0, 0, 0, 0, 0, 0]

def make : Comm := #v[109, 97, 107, 101, 0, 0, 0, 0, 0, 0, 0, 0, 0, 0, 0, 0]

def forked : TaskStruct := { tid := 10, pid := 10, tgid := 10, comm := bash }

-- A shell's child, which keeps the name it was forked with.
def subshell : List NameTurn :=
  [.turn (.event (.initTask forked true none true)), .turn (.event (.running forked 1000)),
    .turn (.event (.stopping forked 2000))]

theorem subshell_seen_by_name
    : Streak.Throughout (Names.next {}) (fun w t => (w.next {} t).Seen) { maps := Bpf.attached {} }
        subshell := by
  rw [rules_see_name_iff {} subshell (by decide +kernel)]
  decide +kernel

-- The child executes another program before it runs.
def command : List NameTurn :=
  [.turn (.event (.initTask forked true none true)), .rename 10 make,
    .turn (.event (.running forked 1000)), .turn (.event (.stopping forked 2000))]

theorem command_not_seen_by_name
    : ¬ Streak.Throughout (Names.next {}) (fun w t => (w.next {} t).Seen) { maps := Bpf.attached {} }
        command := by
  rw [Names.throughout_seen_iff command (Names.copiedOnce_new _) (by decide +kernel)]
  decide +kernel

end Exec

end Daemon
