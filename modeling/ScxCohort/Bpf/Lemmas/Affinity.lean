import ScxCohort.Bpf.Lemmas.Roster
import ScxCohort.Lib.Streak

/-!
This module contains which runtime counts as runtime at home. `task_home_llc` leaves in a context the LLC
it placed the task on, and `cohort_stopping` compares with that.
-/

namespace Bpf

-- What a home lookup finds: the cohort of the task with its policy's home, and the spill target.
structure Placement where
  cohort : CohortId
  home : LlcId
  spill : Option LlcId
  deriving DecidableEq, Repr

section

variable (g : Globals)

def placement (s : Maps) (p : TaskStruct) : Option Placement := do
  let c ← s.taskCtxs p.tid
  let id := (s.tgidCohort.lookup p.tgid).getD c.cohortId
  let policy ← s.cohortPolicy.lookup id
  return { cohort := id, home := policy.homeLlc, spill := s.spillTasks.lookup p.pid }

def Placement.llc (pl : Placement) : LlcId := safeLlc g (pl.spill.getD pl.home)

-- The context as the home lookup leaves it.
def Placement.note (pl : Placement) (c : TaskCtx) : TaskCtx :=
  match pl.spill with
  | some spill => { c with isSpilled := 1, spillLlc := safeLlc g spill, homeLlc := safeLlc g spill }
  | none => { c with isSpilled := 0, cohortId := pl.cohort, homeLlc := safeLlc g pl.home }

-- The maps, with the last placement of every task.
structure Placed where
  maps : Maps
  last : Tid → Option Placement := fun _ => none

namespace Placed

def note (w : Placed) : Event → Tid → Option Placement
  | .selectCpu p _ _ =>
    if p.nrCpusAllowed = 1 then w.last else Function.update w.last p.tid (placement w.maps p)
  | .enqueue p _ => Function.update w.last p.tid (placement w.maps p)
  | _ => w.last

def next (w : Placed) (e : Event) : Placed := { maps := step g w.maps e, last := w.note e }

def CountsHome (w : Placed) : Event → Prop
  | .stopping p now =>
    ∀ c ∈ w.maps.taskCtxs p.tid, ∀ pl ∈ w.last p.tid,
      ((step g w.maps (.stopping p now)).taskStats.lookup p.pid).map (·.runtimeHomeSum)
        =
      (w.maps.taskStats.lookup p.pid).map fun ts =>
        if llcOfCpu g p.cpu = pl.home then ts.runtimeHomeSum + (now - c.lastRunAt) else ts.runtimeHomeSum
  | _ => True

-- The task was placed at home, or has run neither there nor where it was placed.
def ranAsPlaced (w : Placed) : Event → Bool
  | .stopping p now =>
    match w.maps.taskCtxs p.tid, w.last p.tid with
    | some c, some pl =>
      p.pid ∉ w.maps.taskStats || now = c.lastRunAt || pl.llc g = pl.home
        || (llcOfCpu g p.cpu ≠ pl.home && llcOfCpu g p.cpu ≠ pl.llc g)
    | _, _ => true
  | _ => true

end Placed

end

section Lookup

variable {g : Globals} {s : Maps} {p : TaskStruct} {c : TaskCtx} {pl : Placement}

theorem taskCtxs_of_placement (hpl : placement s p = some pl) : ∃ c, s.taskCtxs p.tid = some c := by
  cases hc : s.taskCtxs p.tid with
  | none => simp [placement, hc] at hpl
  | some c => exact ⟨c, rfl⟩

theorem run_taskHomeLlc (hc : s.taskCtxs p.tid = some c) (hpl : placement s p = some pl)
    : (taskHomeLlc g p (some p.tid)).run s
        =
      (pl.llc g, { s with taskCtxs := Function.update s.taskCtxs p.tid (some (pl.note g c)) }) := by
  unfold placement at hpl
  simp only [hc, Option.bind_eq_bind, Option.bind_some, Option.bind_eq_some_iff, Option.pure_def,
    Option.some.injEq] at hpl
  obtain ⟨policy, hpolicy, rfl⟩ := hpl
  unfold taskHomeLlc Placement.llc Placement.note
  cases hspill : s.spillTasks.lookup p.pid with
  | some spill => simp [hspill, hc]
  | none =>
    cases htgid : s.tgidCohort.lookup p.tgid with
    | some id =>
      rw [htgid, Option.getD_some] at hpolicy
      simp [hspill, resolveCohort, htgid, hc, hpolicy]
    | none =>
      rw [htgid, Option.getD_none] at hpolicy
      simp [hspill, resolveCohort, htgid, hc, hpolicy]

theorem Placement.note_homeLlc : (pl.note g c).homeLlc = pl.llc g := by
  unfold Placement.note Placement.llc
  cases pl.spill <;> rfl

theorem homeLooked_eq (hc : s.taskCtxs p.tid = some c) (hpl : placement s p = some pl)
    : homeLooked g s p
        =
      { s with taskCtxs := Function.update s.taskCtxs p.tid (some (pl.note g c)) } := by
  unfold homeLooked
  rw [run_lookupTaskCtx hc, run_taskHomeLlc hc hpl]

theorem taskCtxs_homeLooked_ne {t : Tid} (ht : t ≠ p.tid)
    : (homeLooked g s p).taskCtxs t = s.taskCtxs t := by
  have hlook : SameMembership s ((lookupTaskCtx p).run s).2 := sameMembership_lookupTaskCtx
  unfold homeLooked
  rw [run_lookupTaskCtx_fst, ← hlook.tctx, taskCtxs_taskHomeLlc_ne ht]

theorem placement_recordWakeEdge (g : Globals) (waker : Option TaskStruct) (cpu : Nat)
    : placement ((recordWakeEdge g p waker cpu).run s).2 p = placement s p := by
  have hkeeps : KeepsEdges fun s s' => s'.cohortPolicy = s.cohortPolicy :=
    { refl := fun _ => rfl, tctxErr := fun _ => rfl, sample := fun _ _ => rfl, edges := fun _ _ => rfl }
  have hpolicy : ((recordWakeEdge g p waker cpu).run s).2.cohortPolicy = s.cohortPolicy := by
    apply hkeeps.recordWakeEdge.run
    . intro s
      rfl
    . intro a b c h h'
      exact h'.trans h
  have hsame : SameMembership s ((recordWakeEdge g p waker cpu).run s).2 :=
    sameMembership_recordWakeEdge
  unfold placement
  rw [hpolicy, hsame.tctx, hsame.tgid, hsame.spill]

end Lookup

section Kept

variable {g : Globals} {s s' : Maps} {p : TaskStruct} {now : UInt64}

structure SameHomes (s s' : Maps) : Prop where
  home : ∀ t, ∀ c ∈ s.taskCtxs t, ∃ c', s'.taskCtxs t = some c' ∧ c'.homeLlc = c.homeLlc

namespace SameHomes

theorem of_same (h : s'.taskCtxs = s.taskCtxs) : SameHomes s s' := by
  constructor
  intro t c hc
  exact ⟨c, by rw [h]; exact hc, rfl⟩

theorem refl (s : Maps) : SameHomes s s := of_same rfl

theorem trans (a b c : Maps) (h : SameHomes a b) (h' : SameHomes b c) : SameHomes a c := by
  constructor
  intro t ctx hctx
  obtain ⟨ctx', hctx', heq⟩ := h.home t ctx hctx
  obtain ⟨ctx'', hctx'', heq'⟩ := h'.home t ctx' hctx'
  exact ⟨ctx'', hctx'', heq'.trans heq⟩

theorem of_tctx {t : Tid} {f : TaskCtx → TaskCtx} (hf : ∀ c, (f c).homeLlc = c.homeLlc)
    : SameHomes s { s with taskCtxs := Function.update s.taskCtxs t ((s.taskCtxs t).map f) } := by
  constructor
  intro t' c hc
  by_cases heq : t' = t
  . rw [heq] at hc ⊢
    refine ⟨f c, ?_, hf c⟩
    simp [Option.mem_def.mp hc]
  . exact ⟨c, by simpa [Function.update_of_ne heq] using hc, rfl⟩

theorem keepsDispatch : KeepsDispatch SameHomes where
  refl := refl
  tctxErr := fun _ => of_same rfl
  steal := fun _ => of_same rfl
  headEnqTs := fun _ _ _ => of_same rfl
  queues := fun _ _ _ => of_same rfl

theorem keepsWake : KeepsWake SameHomes where
  refl := refl
  tctxErr := fun _ => of_same rfl
  wake := by
    intro s t f hf
    apply of_tctx
    intro c
    obtain ⟨_, _, heq⟩ := hf c
    rw [heq]

theorem keepsAccount : KeepsAccount SameHomes where
  refl := refl
  tctxErr := fun _ => of_same rfl
  account := by
    intro s t f hf
    apply of_tctx
    intro c
    obtain ⟨_, _, _, heq⟩ := hf c
    rw [heq]
  vtimeNow := fun _ _ _ => of_same rfl
  loadSum := fun _ _ _ => of_same rfl
  llcLoad := fun _ _ => of_same rfl
  runtime := fun _ _ _ _ => of_same rfl

theorem keepsAdmit : KeepsAdmit SameHomes where
  refl := refl
  tctxErr := fun _ => of_same rfl
  seq := fun _ _ _ => of_same rfl
  policy := fun _ _ _ _ _ _ => of_same rfl
  counters := fun _ _ _ _ _ _ => of_same rfl
  tgid := fun _ _ _ _ _ _ => of_same rfl
  nrTasks := fun _ _ _ => of_same rfl
  storage := by
    intro s t hnone
    constructor
    intro t' c hc
    have hne : t' ≠ t := by
      intro heq
      rw [heq, hnone] at hc
      contradiction
    exact ⟨c, by simpa [Function.update_of_ne hne] using hc, rfl⟩
  start := by
    intro s t f hf
    apply of_tctx
    intro c
    obtain ⟨_, _, heq⟩ := hf c
    rw [heq]
  taskStat := fun _ _ _ _ _ => of_same rfl

theorem keepsExit : KeepsExit SameHomes where
  refl := refl
  tctxErr := fun _ => of_same rfl
  resolve := by
    intro s t id
    apply of_tctx
    intro c
    rfl
  nrTasks := fun _ _ _ => of_same rfl
  dropTaskStat := fun _ _ => of_same rfl
  dropSpill := fun _ _ => of_same rfl

end SameHomes

theorem sameHomes_step {e : Event} (hselect : ∀ p prevCpu env, e ≠ .selectCpu p prevCpu env)
    (henqueue : ∀ p now, e ≠ .enqueue p now)
    : SameHomes s (step g s e) := by
  have hrun {q : BpfM PUnit} (hq : q.Keeps SameHomes) : SameHomes s (q.run s).2 :=
    hq.run SameHomes.refl SameHomes.trans s
  cases e with
  | initTask p fork parent alloc => exact hrun (keeps_ignore SameHomes.keepsAdmit.cohortInitTask)
  | exitTask p => exact hrun SameHomes.keepsExit.cohortExitTask
  | selectCpu p prevCpu env => exact absurd rfl (hselect p prevCpu env)
  | enqueue p now => exact absurd rfl (henqueue p now)
  | dispatch cpu now => exact hrun (keeps_ignore SameHomes.keepsDispatch.cohortDispatch)
  | runnable p now => exact hrun SameHomes.keepsWake.cohortRunnable
  | running p now => exact hrun SameHomes.keepsAccount.cohortRunning
  | stopping p now => exact hrun SameHomes.keepsAccount.cohortStopping
  | setPolicy id policy flag => exact hrun (keeps_ignore SameHomes.keepsAdmit.updatePolicy)
  | dropPolicy id => exact SameHomes.of_same rfl
  | setCounters id counters flag => exact hrun (keeps_ignore SameHomes.keepsAdmit.updateCounters)
  | dropCounters id => exact SameHomes.of_same rfl
  | setTgid tgid id flag => exact hrun (keeps_ignore SameHomes.keepsAdmit.updateTgidCohort)
  | dropTgid tgid => exact SameHomes.of_same rfl
  | setSpill pid llc =>
    simp only [step, Event.prog, ignore, Proc.run_bind, Proc.run_pure, run_updateSpill]
    exact SameHomes.of_same rfl
  | dropSpill pid => exact SameHomes.of_same rfl

end Kept

section Cached

variable {g : Globals} {s : Maps} {p : TaskStruct} {w : Placed}

-- A context holds the LLC its task was last placed on.
def Placed.Cached (g : Globals) (w : Placed) : Prop :=
  ∀ t, ∀ pl ∈ w.last t, ∃ c, w.maps.taskCtxs t = some c ∧ c.homeLlc = pl.llc g

namespace Placed

theorem cached_new (g : Globals) (s : Maps) : Cached g { maps := s } := by
  intro t pl hpl
  contradiction

theorem Cached.same (h : w.Cached g) (hsame : SameHomes w.maps s) : Cached g { w with maps := s } := by
  intro t pl hpl
  obtain ⟨c, hc, heq⟩ := h t pl hpl
  obtain ⟨c', hc', heq'⟩ := hsame.home t c hc
  exact ⟨c', hc', heq'.trans heq⟩

theorem Cached.looked (h : w.Cached g)
    : Cached g
        { maps := homeLooked g w.maps p
          last := Function.update w.last p.tid (placement w.maps p) } := by
  intro t pl hpl
  dsimp only at hpl ⊢
  by_cases heq : t = p.tid
  . rw [heq, Function.update_self, Option.mem_def] at hpl
    rw [heq]
    obtain ⟨c, hc⟩ := taskCtxs_of_placement hpl
    refine ⟨pl.note g c, ?_, Placement.note_homeLlc⟩
    rw [homeLooked_eq hc hpl]
    simp
  . rw [Function.update_of_ne heq] at hpl
    rw [taskCtxs_homeLooked_ne heq]
    exact h t pl hpl

theorem cached_next (h : w.Cached g) (e : Event) : Cached g (w.next g e) := by
  have hmembership {s₀ s₁ : Maps} (hsame : SameMembership s₀ s₁) : SameHomes s₀ s₁ :=
    SameHomes.of_same hsame.tctx
  unfold next note
  cases e with
  | selectCpu p prevCpu env =>
    dsimp only
    split
    . next hpinned => exact h.same (hmembership (sameMembership_step_selectCpu_pinned hpinned))
    . next hpinned =>
      have hedge : SameMembership w.maps
          ((recordWakeEdge g p env.waker env.smpProcessorId).run w.maps).2 :=
        sameMembership_recordWakeEdge
      rw [← placement_recordWakeEdge g env.waker env.smpProcessorId]
      exact (h.same (hmembership hedge)).looked.same (hmembership (sameMembership_step_selectCpu hpinned))
  | enqueue p now => exact h.looked.same (hmembership sameMembership_step_enqueue)
  | _ => exact h.same (sameHomes_step (by intros; nofun) (by intros; nofun))

end Placed

-- The entry of a task that has run for `delta`.
def ranFor (llc : LlcId) (c : TaskCtx) (delta : UInt64) (ts : TaskStat) : TaskStat :=
  { ts with
    runtimeSum := ts.runtimeSum + delta
    runtimeHomeSum := if llc = c.homeLlc then ts.runtimeHomeSum + delta else ts.runtimeHomeSum
    cohortId := c.cohortId }

theorem lookup_chargeTaskStat {pid : Pid} {c : TaskCtx} {llc : LlcId} {delta : UInt64}
    (hc : s.taskCtxs p.tid = some c)
    : ((chargeTaskStat p p.tid llc delta).run s).2.taskStats.lookup pid
        =
      if pid = p.pid then
        (s.taskStats.lookup pid).map (ranFor llc c delta)
      else
        s.taskStats.lookup pid := by
  unfold chargeTaskStat
  rw [Proc.run_bind, run_load]
  dsimp only
  cases hts : s.taskStats.lookup p.pid with
  | none =>
    dsimp only [Proc.run_pure]
    split
    . next heq => rw [heq, hts, Option.map_none]
    . rfl
  | some ts =>
    simp only [Proc.run_bind, run_readTctx, run_modifyTaskStat, hc, Option.getD_some]
    rw [BoundedMap.lookup_modify]
    rfl

theorem lookup_accountStop {pid : Pid} {c : TaskCtx} {delta : UInt64} (hc : s.taskCtxs p.tid = some c)
    : ((accountStop g p delta).run s).2.taskStats.lookup pid
        =
      if pid = p.pid then
        (s.taskStats.lookup pid).map (ranFor (llcOfCpu g p.cpu) c delta)
      else
        s.taskStats.lookup pid := by
  unfold accountStop
  rw [Proc.run_bind, Proc.run_bind]
  have hcohort := SameMembership.run (sameMembership_chargeCohort p.tid (scaledCharge p delta)) s
  have hllc := SameMembership.run
    (sameMembership_chargeLlc (llcOfCpu g p.cpu) (scaledCharge p delta))
    ((chargeCohort p.tid (scaledCharge p delta)).run s).2
  have hsame := SameMembership.trans _ _ _ hcohort hllc
  rw [← hsame.tctx] at hc
  rw [lookup_chargeTaskStat hc, hsame.stats]

-- Counting by where a task was placed is counting by its home, unless the task ran on one of the two
-- only.
theorem counted_alike_iff (llc placed home : LlcId) (sum delta : UInt64)
    : ((if llc = placed then sum + delta else sum) = if llc = home then sum + delta else sum)
        ↔
      (delta = 0 ∨ placed = home) ∨ llc ≠ home ∧ llc ≠ placed := by
  have hadd : sum + delta = sum ↔ delta = 0 := add_eq_left
  by_cases hplaced : llc = placed
  . by_cases hhome : llc = home
    . simp [← hplaced, ← hhome]
    . simp [← hplaced, hhome, hadd]
  . by_cases hhome : llc = home
    . have hne : placed ≠ home := by
        intro heq
        exact hplaced (hhome.trans heq.symm)
      rw [if_neg hplaced, if_pos hhome, eq_comm, hadd]
      simp [hhome, hne]
    . simp [hplaced, hhome]

namespace Placed

theorem countsHome_iff (h : w.Cached g) (e : Event) : w.CountsHome g e ↔ w.ranAsPlaced g e = true := by
  unfold CountsHome ranAsPlaced
  split
  . next p now =>
    cases hc : w.maps.taskCtxs p.tid with
    | none => simp
    | some c =>
      cases hpl : w.last p.tid with
      | none => simp
      | some pl =>
        obtain ⟨c', hc', hhome⟩ := h p.tid pl hpl
        rw [hc, Option.some.injEq] at hc'
        rw [← hc'] at hhome
        simp only [Option.mem_def, Option.some.injEq, forall_eq', step, Event.prog]
        rw [run_cohortStopping hc, lookup_accountStop (c := stops p (now - c.lastRunAt) c) (by simp)]
        cases hts : w.maps.taskStats.lookup p.pid with
        | none =>
          have hnew := BoundedMap.lookup_eq_none.mp hts
          simp [hnew]
        | some ts =>
          have hmem := BoundedMap.mem_iff_lookup.mpr ⟨ts, hts⟩
          have hdelta : now - c.lastRunAt = 0 ↔ now = c.lastRunAt := sub_eq_zero
          have halike := counted_alike_iff (llcOfCpu g p.cpu) (pl.llc g) pl.home ts.runtimeHomeSum
            (now - c.lastRunAt)
          rw [hdelta] at halike
          simp [hmem, ranFor, stops, hhome, halike]
  . simp

theorem throughout_countsHome_iff (es : List Event) (h : w.Cached g)
    : Streak.Throughout (next g) (CountsHome g) w es
        ↔
      Streak.Throughout (next g) (fun w e => w.ranAsPlaced g e = true) w es := by
  apply Streak.throughout_congr (I := Cached g) (R := fun _ _ => True)
  . intro w e h _
    exact countsHome_iff h e
  . intro w e h _ _
    exact cached_next h e
  . exact h
  . exact Streak.throughout_of_forall fun _ _ => trivial

end Placed

end Cached

-- From any maps. A task counts as placed once it has been looked up in the run.
theorem home_runtime_iff (g : Globals) (s : Maps) (es : List Event)
    : Streak.Throughout (Placed.next g) (Placed.CountsHome g) { maps := s } es
        ↔
      Streak.Throughout (Placed.next g) (fun w e => w.ranAsPlaced g e = true) { maps := s } es :=
  Placed.throughout_countsHome_iff es (Placed.cached_new g s)

-- A spilled task runs on its target, away from the home of its cohort.
def ranSpilled : List Event :=
  [.initTask editor false none true, .setSpill 10 1, .enqueue editor 0,
    .running { editor with cpu := 1 } 1000, .stopping { editor with cpu := 1 } 3000]

theorem ranSpilled_counted_home
    : ¬ Streak.Throughout (Placed.next twoLlcs) (Placed.CountsHome twoLlcs)
        { maps := attached twoLlcs } ranSpilled := by
  rw [Placed.throughout_countsHome_iff ranSpilled (Placed.cached_new twoLlcs (attached twoLlcs))]
  decide +kernel

end Bpf
