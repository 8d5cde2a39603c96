import ScxCohort.Bpf.Lemmas.Admit
import ScxCohort.Daemon.Lemmas.Regroup
import ScxCohort.Daemon.Lemmas.Sticky

/-!
This module contains how far the daemon's copy of the spill map can be relied on. Tasks that exit take
their entries out of the map behind the daemon's back, and the daemon writes only what its copy lacks.
-/

namespace Daemon

-- The maps, the daemon unless a tick has failed, and the live tasks. A pid is lost from the exit of a
-- task that the copy lists until spills are applied that want something else for it.
structure Copied where
  maps : Maps
  daemon : Option Scheduler
  live : List TaskStruct := []
  lost : List Pid := []
  synced : Bool := false

inductive CopyTurn where
  | call (e : Bpf.Event)
  | rest (s : Maps) (d : Scheduler)
  | sync (env : TickEnv) (llcs : List LlcLoad) (tasks : List TaskSnapshot)
      (cohorts : List CohortSnapshot)
  | tickEnd

theorem SameSpills.carriesSearch : CarriesSearch SameSpills where
  refl := SameSpills.refl
  trans := SameSpills.trans
  graph := fun _ _ _ => ⟨rfl, rfl, rfl, rfl⟩
  edges := fun _ _ _ => ⟨rfl, rfl, rfl, rfl⟩
  merge := fun _ _ _ _ _ _ => ⟨rfl, rfl, rfl, rfl⟩
  split := fun _ _ _ _ honce => ⟨rfl, rfl, honce.taskStats, honce.spillTasks⟩

namespace Copied

variable (g : Globals)

-- A new daemon has spilled nothing yet.
def start (d : Scheduler) : Copied :=
  { maps := Bpf.attached g, daemon := some { d with currentSpills := ∅ } }

def liveAfter (w : Copied) : Bpf.Event → List TaskStruct
  | .initTask p fork parent alloc =>
    if ((Bpf.cohortInitTask g p fork parent alloc).run w.maps).1 then p :: w.live else w.live
  | .exitTask p => w.live.filter (·.tid ≠ p.tid)
  | _ => w.live

def listed (w : Copied) (pid : Pid) : Bool := w.daemon.any fun d => (d.currentSpills.lookup pid).isSome

def lostAfter (w : Copied) : Bpf.Event → List Pid
  | .exitTask p =>
    if w.listed p.pid ∧ (w.maps.taskCtxs p.tid).isSome then p.pid :: w.lost else w.lost
  | _ => w.lost

def planned (d : Scheduler) (llcs : List LlcLoad) (tasks : List TaskSnapshot)
    (cohorts : List CohortSnapshot) : Spills :=
  planSpills d.spillCfg llcs tasks d.currentSpills cohorts

-- `rest` is what a tick does besides: it leaves the spill map and the daemon's copy alone.
def next (w : Copied) : CopyTurn → Copied
  | .call e =>
    if e.isCallback then
      { w with maps := Bpf.step g w.maps e, live := liveAfter g w e, lost := lostAfter w e }
    else
      w
  | .rest s d =>
    { w with
      maps := { s with spillTasks := w.maps.spillTasks }
      daemon := w.daemon.map fun d₀ => { d with currentSpills := d₀.currentSpills } }
  | .sync env llcs tasks cohorts =>
    match w.daemon with
    | none => w
    | some d =>
      let desired := planned d llcs tasks cohorts
      match exec (applySpills env desired) d w.maps with
      | (.ok (_, d'), s) =>
        { w with
          maps := s, daemon := some d', synced := true
          lost := w.lost.filter fun pid => d.currentSpills.lookup pid = desired.lookup pid }
      | (.error _, s) => { w with maps := s, daemon := none, synced := false }
  | .tickEnd => { w with synced := false }

def Along (P : Copied → CopyTurn → Prop) : Copied → List CopyTurn → Prop
  | _, [] => True
  | w, t :: ts => P w t ∧ Along P (next g w t) ts

-- At the end of a tick whose spills were applied the map and the copy agree on every live task.
def Agrees (w : Copied) : CopyTurn → Prop
  | .tickEnd => w.synced = true → ∀ d, w.daemon = some d
    → ∀ p ∈ w.live, w.maps.spillTasks.lookup p.pid = d.currentSpills.lookup p.pid
  | _ => True

-- No live task has the pid of one that exited while it was listed, unless it was wanted elsewhere since.
def NoneLost (w : Copied) : CopyTurn → Prop
  | .tickEnd => w.synced = true → w.daemon.isSome = true → ∀ p ∈ w.live, p.pid ∉ w.lost
  | _ => True

variable {g} {w : Copied}

structure Accounted (w : Copied) (d : Scheduler) : Prop where
  mirrors : Mirrors d w.maps
  lost : ∀ pid, pid ∈ w.lost
    ↔ (d.currentSpills.lookup pid).isSome = true ∧ w.maps.spillTasks.lookup pid = none

theorem listed_eq {d : Scheduler} (hd : w.daemon = some d) (pid : Pid)
    : w.listed pid = (d.currentSpills.lookup pid).isSome := by
  unfold listed
  rw [hd, Option.any_some]

theorem Accounted.same_iff {d : Scheduler} (h : Accounted w d) (pid : Pid)
    : w.maps.spillTasks.lookup pid = d.currentSpills.lookup pid ↔ pid ∉ w.lost := by
  rw [h.lost]
  cases hmap : w.maps.spillTasks.lookup pid with
  | some x => simp [h.mirrors pid x hmap]
  | none => cases d.currentSpills.lookup pid <;> simp

theorem accounted_call {d : Scheduler} (hd : w.daemon = some d) (h : Accounted w d) (e : Bpf.Event)
    : Accounted (next g w (.call e)) d := by
  unfold next
  dsimp only
  split
  . next he =>
    by_cases hexit : ∃ p, e = .exitTask p
    . obtain ⟨p, rfl⟩ := hexit
      constructor
      . intro pid llc hlookup
        dsimp only at hlookup
        rw [Bpf.lookup_spillTasks_exitTask] at hlookup
        split at hlookup
        . contradiction
        . exact h.mirrors pid llc hlookup
      . intro pid
        unfold lostAfter
        dsimp only
        rw [listed_eq hd, Bpf.lookup_spillTasks_exitTask]
        by_cases heq : pid = p.pid ∧ (w.maps.taskCtxs p.tid).isSome = true
        . rw [if_pos heq, heq.1]
          split
          . next hexits => simp [hexits.1]
          . next hnot =>
            have hunlisted : ¬ (d.currentSpills.lookup p.pid).isSome = true :=
              fun hlisted => hnot ⟨hlisted, heq.2⟩
            simp [h.lost, hunlisted]
        . rw [if_neg heq, ← h.lost]
          split
          . next hexits =>
            have hne : pid ≠ p.pid := fun hpid => heq ⟨hpid, hexits.2⟩
            simp [hne]
          . rfl
    . have hmap := Bpf.spillTasks_callback (g := g) (s := w.maps) he fun p heq => hexit ⟨p, heq⟩
      have hlost : lostAfter w e = w.lost := by
        unfold lostAfter
        split
        . next p => exact absurd ⟨p, rfl⟩ hexit
        . rfl
      constructor
      . intro pid llc hlookup
        dsimp only at hlookup
        rw [hmap] at hlookup
        exact h.mirrors pid llc hlookup
      . intro pid
        dsimp only
        rw [hlost, hmap, h.lost]
  . exact h

-- What is wanted as it stands in the copy is not written, so a lost entry stays lost.
theorem accounted_sync {env : TickEnv} {desired : Spills} {d d' : Scheduler} {s : Maps}
    (h : Accounted w d) (hexec : exec (applySpills env desired) d w.maps = (.ok (⟨⟩, d'), s))
    : Accounted
        { w with
          maps := s, daemon := some d', synced := true
          lost := w.lost.filter fun pid => d.currentSpills.lookup pid = desired.lookup pid } d' := by
  have happlied := spillsApplied h.mirrors hexec
  constructor
  . exact happlied.mirrors
  . intro pid
    dsimp only
    rw [List.mem_filter, decide_eq_true_eq, happlied.current, lookup_applySpills hexec, h.lost]
    by_cases hsame : d.currentSpills.lookup pid = desired.lookup pid
    . rw [if_pos hsame, hsame]
      simp
    . simp only [hsame, if_false, and_false, false_iff, not_and]
      intro hlisted hnone
      rw [hnone] at hlisted
      contradiction

theorem accounted_next {t : CopyTurn} (h : ∀ d, w.daemon = some d → Accounted w d)
    : ∀ d, (next g w t).daemon = some d → Accounted (next g w t) d := by
  intro d hd
  cases t with
  | call e =>
    have hd₀ : w.daemon = some d := by
      unfold next at hd
      dsimp only at hd
      split at hd
      . exact hd
      . exact hd
    exact accounted_call hd₀ (h d hd₀) e
  | rest s d₁ =>
    obtain ⟨d₀, hd₀, rfl⟩ := Option.map_eq_some_iff.mp hd
    exact ⟨(h d₀ hd₀).mirrors, (h d₀ hd₀).lost⟩
  | sync env llcs tasks cohorts =>
    unfold next at hd ⊢
    dsimp only at hd ⊢
    cases hd₀ : w.daemon with
    | none => simp [hd₀] at hd
    | some d₀ =>
      rw [hd₀] at hd
      dsimp only at hd ⊢
      cases hexec : exec (applySpills env (planned d₀ llcs tasks cohorts)) d₀ w.maps with
      | mk r s =>
        rw [hexec] at hd
        cases r with
        | error e => contradiction
        | ok r =>
          obtain rfl : r.2 = d := Option.some.inj hd
          exact accounted_sync (h d₀ hd₀) hexec
  | tickEnd => exact ⟨(h d hd).mirrors, (h d hd).lost⟩

theorem agrees_iff_noneLost (h : ∀ d, w.daemon = some d → Accounted w d) (t : CopyTurn)
    : Agrees w t ↔ NoneLost w t := by
  cases t with
  | call e => exact Iff.rfl
  | rest s d => exact Iff.rfl
  | sync env llcs tasks cohorts => exact Iff.rfl
  | tickEnd =>
    unfold Agrees NoneLost
    dsimp only
    cases hd : w.daemon with
    | none => simp
    | some d =>
      simp only [Option.some.injEq, forall_eq', (h d hd).same_iff, Option.isSome_some, forall_const]

theorem along_agrees_iff (ts : List CopyTurn) (h : ∀ d, w.daemon = some d → Accounted w d)
    : Along g Agrees w ts ↔ Along g NoneLost w ts := by
  induction ts generalizing w with
  | nil => exact Iff.rfl
  | cons t ts ih =>
    unfold Along
    rw [agrees_iff_noneLost h t, ih (accounted_next h)]

theorem accounted_start (d : Scheduler)
    : ∀ d', (start g d).daemon = some d' → Accounted (start g d) d' := by
  intro d' hd'
  obtain rfl : { d with currentSpills := ∅ } = d' := Option.some.inj hd'
  have hempty : (start g d).maps.spillTasks = .empty := by
    unfold start
    rw [Bpf.attached_eq]
    rfl
  constructor
  . intro pid llc hlookup
    rw [hempty, BoundedMap.lookup_empty] at hlookup
    contradiction
  . intro pid
    simp [start]

theorem copy_agrees_iff (g : Globals) (d : Scheduler) (ts : List CopyTurn)
    : Along g Agrees (start g d) ts ↔ Along g NoneLost (start g d) ts := by
  apply along_agrees_iff
  exact accounted_start d

-- A tick that nothing interferes with.
theorem exec_tick_turns {env : TickEnv} {d d' : Scheduler} {s s' : Maps}
    {r : List CohortSnapshot × List LlcLoad} (h : exec (tick env) d s = (.ok (r, d'), s'))
    (live : List TaskStruct) (lost : List Pid)
    : ∃ (view : TickView) (s₁ : Maps) (d₁ : Scheduler) (lost' : List Pid),
        [.rest s₁ d₁, .sync env view.llcs view.tasks view.cohorts, .rest s' d'].foldl (next g)
            { maps := s, daemon := some d, live := live, lost := lost }
          = { maps := s', daemon := some d', live := live, lost := lost', synced := true } := by
  obtain ⟨view, d₃, s₃, plans, d₄, s₄, hplace, hmerge, hsplits⟩ := exec_tick_inv h
  obtain ⟨d₁, s₁, d₂, s₂, h₁, h₂, h₃⟩ := exec_place_inv hplace
  have hseen := seen_of_survey h₁
  have hmoves := moves_apply _ _ _ _ _ _ h₂
  have hsearch := SameSpills.carriesSearch.afterPlace hmerge hsplits
  have hcurrent : d.currentSpills = d₂.currentSpills := by
    rw [hmoves.same.current]
    exact hseen.same.current.symm
  have hspills : s.spillTasks = s₂.spillTasks := by
    rw [hmoves.same.spillTasks, hseen.same.spillTasks]
  let lost' := lost.filter fun pid =>
    d₂.currentSpills.lookup pid = (planned d₂ view.llcs view.tasks view.cohorts).lookup pid
  have hrest : next g { maps := s, daemon := some d, live := live, lost := lost } (.rest s₂ d₂)
      = { maps := s₂, daemon := some d₂, live := live, lost := lost } := by
    unfold next
    dsimp only [Option.map_some]
    rw [hspills, hcurrent]
  have hsync : next g { maps := s₂, daemon := some d₂, live := live, lost := lost }
        (.sync env view.llcs view.tasks view.cohorts)
      = { maps := s₃, daemon := some d₃, live := live, lost := lost', synced := true } := by
    unfold next planned
    dsimp only
    rw [h₃]
    rfl
  have hlast : next g { maps := s₃, daemon := some d₃, live := live, lost := lost', synced := true }
        (.rest s' d')
      = { maps := s', daemon := some d', live := live, lost := lost', synced := true } := by
    unfold next
    dsimp only [Option.map_some]
    rw [← hsearch.current, ← hsearch.spillTasks]
  refine ⟨view, s₂, d₂, lost', ?_⟩
  rw [List.foldl_cons, List.foldl_cons, List.foldl_cons, List.foldl_nil, hrest, hsync, hlast]

section Reuse

def leader : TaskStruct := { tid := 1, pid := 1, tgid := 1 }

def thread (tid : Tid) : TaskStruct := { tid := tid, pid := 10, tgid := 1 }

def busyAndIdle : List TaskSnapshot := [⟨1, 1, 1, 190000001, 190000001, []⟩, idleMember 10]

-- A thread is spilled and exits, and the next thread of its process gets its pid.
def reuse : List CopyTurn :=
  [.call (.initTask leader false none true), .call (.initTask (thread 2) true (some leader) true),
    .sync {} evenLlcs busyAndIdle overHigh, .tickEnd, .call (.exitTask (thread 2)),
    .call (.initTask (thread 3) true (some leader) true), .sync {} evenLlcs busyAndIdle overHigh]

def reused : Copied := reuse.foldl (next { nrLlcs := 2 }) (start { nrLlcs := 2 } twoLlcs)

theorem reused_pid_not_agrees
    : ¬ Along { nrLlcs := 2 } Agrees (start { nrLlcs := 2 } twoLlcs) (reuse ++ [.tickEnd]) := by
  intro h
  have hend : Agrees reused .tickEnd := h.2.2.2.2.2.2.2.1
  have hlive : thread 3 ∈ reused.live := by decide +kernel
  have hsynced : reused.synced = true := by decide +kernel
  have hafter : (reused.daemon.map fun d =>
      (reused.maps.spillTasks.lookup 10, d.currentSpills.lookup 10)) = some (none, some 1) := by
    decide +kernel
  obtain ⟨d, hd, heq⟩ := Option.map_eq_some_iff.mp hafter
  rw [Prod.mk.injEq] at heq
  have hsame := hend hsynced d hd (thread 3) hlive
  have hpid : (thread 3).pid = 10 := rfl
  rw [hpid, heq.1, heq.2] at hsame
  contradiction

end Reuse

end Copied

end Daemon
