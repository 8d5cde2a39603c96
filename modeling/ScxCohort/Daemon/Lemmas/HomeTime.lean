import ScxCohort.Bpf.Lemmas.Affinity
import ScxCohort.Daemon.Lemmas.Survey

/-!
This module contains how the time a snapshot reports at home compares with the time it reports in all.
Both are differences to what the previous snapshot found under the pid, which may have been another
task's.
-/

namespace Daemon

-- What has happened under a pid since the previous snapshot: the time accounted to it, whether it has
-- been given a new entry, and whether the sum in its entry has wrapped.
structure Tally where
  ran : Nat := 0
  made : Bool := false
  wrapped : Bool := false
  deriving DecidableEq, Repr

def Tally.charge (tally : Tally) (sum delta : UInt64) : Tally :=
  { tally with
    ran := tally.ran + delta.toNat
    wrapped := tally.wrapped || 2 ^ 64 ≤ sum.toNat + delta.toNat }

inductive HomeTurn where
  | event (e : Bpf.Event)
  | snapshot (env : TickEnv)

structure Homing where
  maps : Maps
  daemon : Scheduler
  since : Pid → Tally := fun _ => {}

namespace Homing

variable (g : Globals)

def note (w : Homing) : Bpf.Event → Pid → Tally
  | .initTask p fork parent alloc =>
    if ((Bpf.cohortInitTask g p fork parent alloc).run w.maps).1 then
      Function.update w.since p.pid { w.since p.pid with made := true }
    else
      w.since
  | .stopping p now =>
    match w.maps.taskCtxs p.tid, w.maps.taskStats.lookup p.pid with
    | some c, some ts =>
      Function.update w.since p.pid ((w.since p.pid).charge ts.runtimeSum (now - c.lastRunAt))
    | _, _ => w.since
  | _ => w.since

def next (w : Homing) : HomeTurn → Homing
  | .event e => { w with maps := Bpf.step g w.maps e, since := w.note g e }
  | .snapshot env =>
    match exec (snapshotTasks env) w.daemon w.maps with
    | (.ok (_, d'), s') => { maps := s', daemon := d' }
    | (.error _, s') => { w with maps := s' }

def start (s : Maps) (d : Scheduler) : Homing := { maps := s, daemon := { d with prevRuntime := ∅ } }

-- The home time of every task is part of its time, which is part of the time accounted under its pid.
def InDuty (w : Homing) : HomeTurn → Prop
  | .event _ => True
  | .snapshot env =>
    ∀ tasks d' s', exec (snapshotTasks env) w.daemon w.maps = (.ok (tasks, d'), s') →
      ∀ t ∈ tasks, t.homeNs ≤ t.dutyNs ∧ t.dutyNs.toNat ≤ (w.since t.pid).ran

def away (sum homeSum : UInt64) : Int := sum.toNat - homeSum.toNat

-- A pid that has been given a new entry, or whose sum has wrapped, shows no more time at home than
-- before, or no less time away from it.
def followsOn (w : Homing) : HomeTurn → Bool
  | .event _ => true
  | .snapshot _ =>
    w.daemon.prevRuntime.items.all fun e =>
      match w.maps.taskStats.lookup e.1 with
      | none => true
      | some ts =>
        !(w.since e.1).made && !(w.since e.1).wrapped || ts.runtimeHomeSum ≤ e.2.2
          || away e.2.1 e.2.2 ≤ away ts.runtimeSum ts.runtimeHomeSum

end Homing

section Entries

variable {g : Globals} {s s' : Maps} {p : TaskStruct} {pid : Pid}

def SameStats (s s' : Maps) : Prop := s'.taskStats = s.taskStats

namespace SameStats

theorem refl (s : Maps) : SameStats s s := rfl

theorem trans (a b c : Maps) (h : SameStats a b) (h' : SameStats b c) : SameStats a c := Eq.trans h' h

theorem keepsCalls : Bpf.KeepsCalls SameStats where
  refl := refl
  tctxErr := fun _ => rfl
  stat := fun _ _ => rfl
  tctx := fun _ _ _ _ => rfl
  sample := fun _ _ => rfl
  edges := fun _ _ => rfl
  headEnqTs := fun _ _ _ => rfl
  queues := fun _ _ _ => rfl
  idle := fun _ _ => rfl

theorem keepsWake : Bpf.KeepsWake SameStats where
  refl := refl
  tctxErr := fun _ => rfl
  wake := fun _ _ _ _ => rfl

end SameStats

-- Admission, exit and accounting are all that touches an entry.
theorem sameStats_step {e : Bpf.Event} (hinit : ∀ p fork parent alloc, e ≠ .initTask p fork parent alloc)
    (hexit : ∀ p, e ≠ .exitTask p) (hstop : ∀ p now, e ≠ .stopping p now)
    : SameStats s (Bpf.step g s e) := by
  have hrun {q : BpfM PUnit} (hq : q.Keeps SameStats) : SameStats s (q.run s).2 :=
    hq.run SameStats.refl SameStats.trans s
  cases e with
  | initTask p fork parent alloc => exact absurd rfl (hinit p fork parent alloc)
  | exitTask p => exact absurd rfl (hexit p)
  | stopping p now => exact absurd rfl (hstop p now)
  | selectCpu p prevCpu env => exact hrun (Bpf.keeps_ignore SameStats.keepsCalls.cohortSelectCpu)
  | enqueue p now => exact hrun SameStats.keepsCalls.cohortEnqueue
  | dispatch cpu now => exact hrun (Bpf.keeps_ignore SameStats.keepsCalls.cohortDispatch)
  | runnable p now => exact hrun SameStats.keepsWake.cohortRunnable
  | running p now => exact Bpf.sameCopies_step_running.stats
  | setPolicy id policy flag =>
    simp only [Bpf.step, Bpf.Event.prog, Bpf.ignore, Proc.run_bind, Proc.run_pure, Bpf.run_updatePolicy]
    rfl
  | setCounters id counters flag =>
    simp only [Bpf.step, Bpf.Event.prog, Bpf.ignore, Proc.run_bind, Proc.run_pure, Bpf.run_updateCounters]
    rfl
  | setTgid tgid id flag =>
    simp only [Bpf.step, Bpf.Event.prog, Bpf.ignore, Proc.run_bind, Proc.run_pure,
      Bpf.run_updateTgidCohort]
    rfl
  | setSpill pid llc =>
    simp only [Bpf.step, Bpf.Event.prog, Bpf.ignore, Proc.run_bind, Proc.run_pure, Bpf.run_updateSpill]
    rfl
  | dropPolicy id => rfl
  | dropCounters id => rfl
  | dropTgid tgid => rfl
  | dropSpill pid => rfl

-- A new entry starts from nothing.
theorem lookup_step_initTask {fork : Bool} {parent : Option TaskStruct} {alloc : Bool} {ts : TaskStat}
    (h : (Bpf.step g s (.initTask p fork parent alloc)).taskStats.lookup pid = some ts)
    : s.taskStats.lookup pid = some ts
        ∧ (pid ≠ p.pid ∨ ((Bpf.cohortInitTask g p fork parent alloc).run s).1 = false)
      ∨ pid = p.pid ∧ ((Bpf.cohortInitTask g p fork parent alloc).run s).1 = true
        ∧ ts.runtimeSum = 0 := by
  rw [Bpf.step_initTask] at h
  rw [Bpf.run_cohortInitTask]
  split at h
  . next hyes =>
    rw [if_pos hyes]
    simp only [Bpf.admitted, Bpf.enroll, Bpf.assigned_taskStats, Bpf.withStorage_taskStats] at h
    by_cases heq : pid = p.pid
    . right
      refine ⟨heq, rfl, ?_⟩
      rw [heq] at h
      by_cases hroom : p.pid ∈ s.taskStats ∨ s.taskStats.size < 65536
      . rw [BoundedMap.lookup_updateD_any hroom, Option.some.injEq] at h
        rw [← h]
      . rw [not_or] at hroom
        rw [BoundedMap.lookup_updateD_new hroom.1, if_neg hroom.2] at h
        contradiction
    . left
      rw [BoundedMap.lookup_updateD_ne _ _ _ heq] at h
      exact ⟨h, .inl heq⟩
  . next hno =>
    rw [if_neg hno]
    exact .inl ⟨h, .inr rfl⟩

theorem lookup_step_exitTask {ts : TaskStat}
    (h : (Bpf.step g s (.exitTask p)).taskStats.lookup pid = some ts)
    : s.taskStats.lookup pid = some ts := by
  cases hc : s.taskCtxs p.tid with
  | none =>
    rw [Bpf.step_exitTask_of_none hc] at h
    exact h
  | some c =>
    rw [(Bpf.exits_step_exitTask hc).stats, BoundedMap.lookup_delete] at h
    split at h
    . contradiction
    . exact h

theorem lookup_step_stopping {c : TaskCtx} {now : UInt64} (hc : s.taskCtxs p.tid = some c)
    : (Bpf.step g s (.stopping p now)).taskStats.lookup pid
        =
      if pid = p.pid then
        (s.taskStats.lookup pid).map (Bpf.ranFor (Bpf.llcOfCpu g p.cpu) c (now - c.lastRunAt))
      else
        s.taskStats.lookup pid := by
  simp only [Bpf.step, Bpf.Event.prog]
  rw [Bpf.run_cohortStopping hc, Bpf.lookup_accountStop (Function.update_self ..)]
  rfl

end Entries

section Invariant

variable {g : Globals} {w : Homing} {pid : Pid} {ts ts' : TaskStat}

-- How an entry stands to what the previous snapshot found under its pid.
structure Tally.Counts (tally : Tally) (prev : UInt64 × UInt64) (ts : TaskStat) : Prop where
  sum : ts.runtimeSum.toNat ≤ prev.1.toNat + tally.ran
  kept : tally.made = false → tally.wrapped = false
    → ts.runtimeSum.toNat = prev.1.toNat + tally.ran
      ∧ ts.runtimeHomeSum.toNat ≤ prev.2.toNat + tally.ran

namespace Tally

variable {tally : Tally} {prev : UInt64 × UInt64}

theorem counts_new (ts : TaskStat) : Counts {} (ts.runtimeSum, ts.runtimeHomeSum) ts :=
  ⟨Nat.le_refl _, fun _ _ => ⟨rfl, Nat.le_refl _⟩⟩

theorem Counts.made (h : ts.runtimeSum = 0) : Counts { tally with made := true } prev ts := by
  constructor
  . rw [h]
    apply Nat.zero_le
  . nofun

theorem Counts.charge {llc : LlcId} {c : TaskCtx} {delta : UInt64} (h : tally.Counts prev ts)
    : (tally.charge ts.runtimeSum delta).Counts prev (Bpf.ranFor llc c delta ts) := by
  have hsum : (Bpf.ranFor llc c delta ts).runtimeSum.toNat
      = (ts.runtimeSum.toNat + delta.toNat) % 2 ^ 64 := UInt64.toNat_add _ _
  have hhome : (Bpf.ranFor llc c delta ts).runtimeHomeSum.toNat
      ≤ ts.runtimeHomeSum.toNat + delta.toNat := by
    unfold Bpf.ranFor
    dsimp only
    split
    . rw [UInt64.toNat_add]
      apply Nat.mod_le
    . apply Nat.le_add_right
  have hle := h.sum
  constructor
  . rw [hsum]
    dsimp only [Tally.charge]
    have := Nat.mod_le (ts.runtimeSum.toNat + delta.toNat) (2 ^ 64)
    omega
  . intro hmade hwrapped
    simp only [Tally.charge, Bool.or_eq_false_iff, decide_eq_false_iff_not, Nat.not_le] at hmade hwrapped ⊢
    obtain ⟨heq, hhomes⟩ := h.kept hmade hwrapped.1
    rw [hsum, Nat.mod_eq_of_lt hwrapped.2]
    omega

end Tally

namespace Homing

def Counted (w : Homing) : Prop :=
  ∀ pid prev ts, w.daemon.prevRuntime.lookup pid = some prev → w.maps.taskStats.lookup pid = some ts
    → (w.since pid).Counts prev ts

theorem counted_start (s : Maps) (d : Scheduler) : (start s d).Counted := by
  intro pid prev ts hprev
  contradiction

theorem Counted.event (h : w.Counted) (e : Bpf.Event) : (w.next g (.event e)).Counted := by
  intro pid prev ts hprev hts
  dsimp only [next] at hprev hts ⊢
  cases e with
  | initTask p fork parent alloc =>
    dsimp only [note]
    cases lookup_step_initTask hts with
    | inl hold =>
      obtain ⟨hts, hother⟩ := hold
      split
      . next hyes =>
        rw [hyes] at hother
        have hne : pid ≠ p.pid := by
          cases hother with
          | inl hne => exact hne
          | inr hno => contradiction
        rw [Function.update_of_ne hne]
        exact h pid prev ts hprev hts
      . exact h pid prev ts hprev hts
    | inr hnew =>
      obtain ⟨rfl, hyes, hsum⟩ := hnew
      rw [if_pos hyes, Function.update_self]
      exact Tally.Counts.made hsum
  | stopping p now =>
    dsimp only [note]
    cases hc : w.maps.taskCtxs p.tid with
    | none =>
      rw [(Bpf.sameMembership_step_stopping_of_none hc now).stats] at hts
      exact h pid prev ts hprev hts
    | some c =>
      rw [lookup_step_stopping hc] at hts
      split at hts
      . next heq =>
        obtain ⟨ts₀, hts₀, rfl⟩ := Option.map_eq_some_iff.mp hts
        rw [← heq, hts₀]
        dsimp only
        rw [Function.update_self]
        exact (h pid prev ts₀ hprev hts₀).charge
      . next hne =>
        cases w.maps.taskStats.lookup p.pid with
        | none => exact h pid prev ts hprev hts
        | some ts₀ =>
          dsimp only
          rw [Function.update_of_ne hne]
          exact h pid prev ts hprev hts
  | exitTask p => exact h pid prev ts hprev (lookup_step_exitTask hts)
  | _ =>
    rw [sameStats_step (by intros; nofun) (by intros; nofun) (by intros; nofun)] at hts
    exact h pid prev ts hprev hts

end Homing

theorem lookup_of_runtimesSeen {env : TickEnv} {s : Maps} {prev : UInt64 × UInt64}
    (h : (runtimesSeen env s).lookup pid = some prev)
    : ∃ ts, s.taskStats.lookup pid = some ts ∧ prev = (ts.runtimeSum, ts.runtimeHomeSum) := by
  have hmem := HashTable.mem_of_lookup_ofList h
  rw [List.mem_map] at hmem
  obtain ⟨e, he, heq⟩ := hmem
  rw [IterOrder.mem_order] at he
  rw [Prod.mk.injEq] at heq
  refine ⟨e.2, ?_, heq.2.symm⟩
  rw [← heq.1]
  exact HashTable.mem_items.mp he

namespace Homing

theorem counted_snapshot (env : TickEnv) : (w.next g (.snapshot env)).Counted := by
  intro pid prev ts hprev hts
  simp only [next, exec_snapshotTasks] at hprev hts ⊢
  obtain ⟨ts₀, hts₀, rfl⟩ := lookup_of_runtimesSeen hprev
  rw [hts₀, Option.some.injEq] at hts
  rw [hts]
  exact Tally.counts_new ts

theorem Counted.next (h : w.Counted) (t : HomeTurn) : (w.next g t).Counted := by
  cases t with
  | event e => exact h.event e
  | snapshot env => exact counted_snapshot env

end Homing

-- The two differences of one task, in terms of what was found before and is found now.
theorem Tally.Counts.inDuty_iff {tally : Tally} {prev : UInt64 × UInt64} (h : tally.Counts prev ts)
    : ts.runtimeHomeSum.saturatingSub prev.2 ≤ ts.runtimeSum.saturatingSub prev.1
        ∧ (ts.runtimeSum.saturatingSub prev.1).toNat ≤ tally.ran
        ↔
      (tally.made = false ∧ tally.wrapped = false ∨ ts.runtimeHomeSum ≤ prev.2)
        ∨ Homing.away prev.1 prev.2 ≤ Homing.away ts.runtimeSum ts.runtimeHomeSum := by
  have hsum := h.sum
  unfold Homing.away
  rw [UInt64.le_iff_toNat_le, UInt64.le_iff_toNat_le, UInt64.toNat_saturatingSub,
    UInt64.toNat_saturatingSub]
  constructor
  . intro hduty
    omega
  . intro hcond
    refine ⟨?_, by omega⟩
    rcases hcond with (hkept | hhome) | haway
    . obtain ⟨heq, hle⟩ := h.kept hkept.1 hkept.2
      omega
    . omega
    . omega

namespace Homing

theorem inDuty_iff (h : w.Counted) (t : HomeTurn) : w.InDuty t ↔ w.followsOn t = true := by
  cases t with
  | event e => simp [InDuty, followsOn]
  | snapshot env =>
    unfold InDuty followsOn
    simp only [exec_snapshotTasks, Prod.mk.injEq, Except.ok.injEq, List.all_eq_true]
    constructor
    . intro hduty e he
      have hprev := HashTable.mem_items.mp he
      split
      . rfl
      . next ts hts =>
        have hseen : taskSnapshot w.daemon.prevRuntime (e.1, ts) ∈ tasksSeen env w.daemon w.maps := by
          apply List.mem_map_of_mem
          rw [IterOrder.mem_order]
          exact HashTable.mem_items.mpr hts
        have ht := hduty _ _ _ ⟨⟨rfl, rfl⟩, rfl⟩ _ hseen
        simp only [taskSnapshot, hprev, Option.getD_some] at ht
        simpa using (h e.1 e.2 ts hprev hts).inDuty_iff.mp ht
    . rintro hfollows _ _ _ ⟨⟨rfl, _⟩, _⟩ t ht
      unfold tasksSeen at ht
      rw [List.mem_map] at ht
      obtain ⟨e, he, rfl⟩ := ht
      rw [IterOrder.mem_order] at he
      have hts : w.maps.taskStats.lookup e.1 = some e.2 := HashTable.mem_items.mp he
      unfold taskSnapshot
      cases hprev : w.daemon.prevRuntime.lookup e.1 with
      | none => simp [UInt64.saturatingSub]
      | some prev =>
        have hcond := hfollows (e.1, prev) (HashTable.mem_items.mpr hprev)
        dsimp only at hcond ⊢
        rw [hts] at hcond
        rw [Option.getD_some]
        apply (h e.1 prev e.2 hprev hts).inDuty_iff.mpr
        simpa using hcond

theorem throughout_inDuty_iff (ts : List HomeTurn) (h : w.Counted)
    : Streak.Throughout (next g) InDuty w ts
        ↔
      Streak.Throughout (next g) (fun w t => w.followsOn t = true) w ts := by
  apply Streak.throughout_congr (I := Counted) (R := fun _ _ => True)
  . intro w t h _
    exact inDuty_iff h t
  . intro w t h _ _
    exact h.next t
  . exact h
  . exact Streak.throughout_of_forall fun _ _ => trivial

end Homing

end Invariant

-- In every run, from any maps, for a daemon that has taken no snapshot yet.
theorem home_in_duty_iff (g : Globals) (s : Maps) (d : Scheduler) (ts : List HomeTurn)
    : Streak.Throughout (Homing.next g) Homing.InDuty (.start s d) ts
        ↔
      Streak.Throughout (Homing.next g) (fun w t => w.followsOn t = true) (.start s d) ts :=
  Homing.throughout_inDuty_iff ts (Homing.counted_start s d)

-- A task runs 100 ns away from home and exits; the next one with its pid runs 200 ns at home.
def takenOver : List HomeTurn :=
  [.event (.initTask Bpf.editor false none true), .snapshot {},
    .event (.enqueue Bpf.editor 0), .event (.running { Bpf.editor with cpu := 1 } 1000),
    .event (.stopping { Bpf.editor with cpu := 1 } 1100), .snapshot {},
    .event (.exitTask Bpf.editor), .event (.initTask { Bpf.editor with tid := 2 } false none true),
    .event (.enqueue { Bpf.editor with tid := 2 } 2000),
    .event (.running { Bpf.editor with tid := 2 } 2000),
    .event (.stopping { Bpf.editor with tid := 2 } 2200), .snapshot {}]

theorem takenOver_not_inDuty
    : ¬ Streak.Throughout (Homing.next Bpf.twoLlcs) Homing.InDuty
        (.start (Bpf.attached Bpf.twoLlcs) { llcCpus := [(0, 1), (1, 1)] }) takenOver := by
  rw [Homing.throughout_inDuty_iff takenOver (Homing.counted_start _ _)]
  decide +kernel

end Daemon
