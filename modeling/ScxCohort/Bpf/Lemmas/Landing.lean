import ScxCohort.Bpf.Lemmas.Affinity
import ScxCohort.Bpf.Lemmas.Serve

/-!
This module contains what the placement counters count. They are chosen by how a task was placed, and
which LLC that was is decided elsewhere: by the spill map, and by the fallback of `task_effective_llc`.
-/

namespace Bpf

def homeCount (s : Maps) : UInt64 :=
  s.stats .syncLocal + s.stats .prevIdle + s.stats .idleCore + s.stats .idleSmt + s.stats .enqHome

section

variable (g : Globals)

-- The LLC of the CPU that a task is dispatched to, or of the queue it is inserted into.
def landing (s : Maps) : Event → Option LlcId
  | .selectCpu p prevCpu env =>
    if dispatchesDirectly g s p prevCpu env then
      (step g s (.selectCpu p prevCpu env)).localDsq.head?.map fun e => llcOfCpu g e.2
    else
      none
  | .enqueue p _ => some (chosenLlc g s p)
  | _ => none

def landingHome (s : Maps) : Event → Option LlcId
  | .selectCpu p _ _ => (placement s p).map (·.home)
  | .enqueue p _ => (placement s p).map (·.home)
  | _ => none

-- The maps, with the number of placements so far.
structure Landings where
  maps : Maps
  home : Nat := 0
  away : Nat := 0

namespace Landings

def next (w : Landings) (e : Event) : Landings :=
  let s := step g w.maps e
  match landing g w.maps e with
  | none => { w with maps := s }
  | some llc =>
    if landingHome w.maps e = some llc then
      { w with maps := s, home := w.home + 1 }
    else
      { w with maps := s, away := w.away + 1 }

-- The counters of the maps, as 64-bit numbers.
def Counted (w : Landings) : Prop :=
  homeCount w.maps = UInt64.ofNat w.home ∧ w.maps.stats .enqSpill = UInt64.ofNat w.away

instance (w : Landings) : Decidable w.Counted := inferInstanceAs (Decidable (_ ∧ _))

theorem next_maps {w : Landings} {e : Event} : (w.next g e).maps = step g w.maps e := by
  unfold next
  split
  . rfl
  . split <;> rfl

end Landings

section Conditions

-- None of the CPUs of the LLC is open to the task.
def barred (s : Maps) (p : TaskStruct) (llc : LlcId) : Bool :=
  llc.toNat < maxLlcs && (s.llcs llc).cpumask.any fun mask => mask ∩ p.cpusPtr = ∅

def handsOver (s : Maps) (p : TaskStruct) (pl : Placement) (homeMask : Finset Nat) (env : WakeEnv)
    : Bool :=
  env.wakeSync
    && (env.waker.any fun waker =>
      (s.taskCtxs p.tid).any fun c => (s.taskCtxs waker.tid).any fun c' =>
        waker.tid = p.tid || (pl.note g c).cohortId = c'.cohortId)
    && env.smpProcessorId ∈ homeMask && env.smpProcessorId ∈ p.cpusPtr
    && env.localQueued env.smpProcessorId = 0

def idleOffered (p : TaskStruct) (prevCpu : Int) (homeMask : Finset Nat) (env : WakeEnv) : Bool :=
  (inMask prevCpu homeMask && inMask prevCpu env.idleSmtmask && env.prevCoreIdle)
    || (env.hasScratch
      && (0 ≤ env.pickIdleCore (homeMask ∩ p.cpusPtr) || (inMask prevCpu homeMask && env.prevIdle)
        || 0 ≤ env.pickIdleCpu (homeMask ∩ p.cpusPtr)))

-- The waker hands over its CPU, or there is an idle one, among those of the LLC looked up.
def offered (s : Maps) (p : TaskStruct) (pl : Placement) (prevCpu : Int) (env : WakeEnv) : Bool :=
  p.nrCpusAllowed ≠ 1 && (pl.llc g).toNat < maxLlcs
    && (s.llcs (pl.llc g)).cpumask.any fun homeMask =>
      homeMask ∩ p.cpusPtr ≠ ∅
        && (handsOver g s p pl homeMask env || idleOffered p prevCpu homeMask env)

def landsAsCounted (s : Maps) : Event → Bool
  | .selectCpu p prevCpu env =>
    (placement s p).all fun pl => pl.llc g = pl.home || !offered g s p pl prevCpu env
  | .enqueue p _ =>
    (placement s p).all fun pl =>
      if barred s p (pl.llc g) then
        pl.spill.isSome = decide (llcOfCpu g p.cpu ≠ pl.home)
      else
        pl.spill.isSome = decide (pl.llc g ≠ pl.home)
  | _ => true

end Conditions

-- What the kernel promises of its idle-CPU search: a CPU it returns is one of those asked for.
def WakeEnv.Picks (env : WakeEnv) : Prop :=
  ∀ mask, (0 ≤ env.pickIdleCore mask → inMask (env.pickIdleCore mask) mask = true)
    ∧ (0 ≤ env.pickIdleCpu mask → inMask (env.pickIdleCpu mask) mask = true)

-- A task that is placed has a cohort with a policy.
def HasPolicy (s : Maps) : Event → Prop
  | .selectCpu p _ env => (placement s p).isSome ∧ env.Picks
  | .enqueue p _ => (placement s p).isSome
  | _ => True

end

section Counts

variable {s s' : Maps} {p : TaskStruct} {idx : Stat}

structure SameCounts (s s' : Maps) : Prop where
  home : homeCount s' = homeCount s
  spill : s'.stats .enqSpill = s.stats .enqSpill

namespace SameCounts

theorem of_stats (h : s'.stats = s.stats) : SameCounts s s' := by
  constructor <;> simp only [homeCount, h]

theorem refl (s : Maps) : SameCounts s s := of_stats rfl

theorem trans (a b c : Maps) (h : SameCounts a b) (h' : SameCounts b c) : SameCounts a c :=
  ⟨h'.home.trans h.home, h'.spill.trans h.spill⟩

-- The other counters.
theorem of_stat (h : idx ∈ [Stat.tctxErr, .steal, .homeMissClamp])
    : SameCounts s { s with stats := Function.update s.stats idx (s.stats idx + 1) } := by
  simp only [List.mem_cons, List.not_mem_nil, or_false] at h
  obtain rfl | rfl | rfl := h
  . exact ⟨rfl, rfl⟩
  . exact ⟨rfl, rfl⟩
  . exact ⟨rfl, rfl⟩

theorem keepsDispatch : KeepsDispatch SameCounts where
  refl := refl
  tctxErr := fun _ => of_stat (by simp)
  steal := fun _ => of_stat (by simp)
  headEnqTs := fun _ _ _ => of_stats rfl
  queues := fun _ _ _ => of_stats rfl

theorem keepsWake : KeepsWake SameCounts where
  refl := refl
  tctxErr := fun _ => of_stat (by simp)
  wake := fun _ _ _ _ => of_stats rfl

theorem keepsAccount : KeepsAccount SameCounts where
  refl := refl
  tctxErr := fun _ => of_stat (by simp)
  account := fun _ _ _ _ => of_stats rfl
  vtimeNow := fun _ _ _ => of_stats rfl
  loadSum := fun _ _ _ => of_stats rfl
  llcLoad := fun _ _ => of_stats rfl
  runtime := fun _ _ _ _ => of_stats rfl

theorem keepsAdmit : KeepsAdmit SameCounts where
  refl := refl
  tctxErr := fun _ => of_stat (by simp)
  seq := fun _ _ _ => of_stats rfl
  policy := fun _ _ _ _ _ _ => of_stats rfl
  counters := fun _ _ _ _ _ _ => of_stats rfl
  tgid := fun _ _ _ _ _ _ => of_stats rfl
  nrTasks := fun _ _ _ => of_stats rfl
  storage := fun _ _ _ => of_stats rfl
  start := fun _ _ _ _ => of_stats rfl
  taskStat := fun _ _ _ _ _ => of_stats rfl

theorem keepsExit : KeepsExit SameCounts where
  refl := refl
  tctxErr := fun _ => of_stat (by simp)
  resolve := fun _ _ _ => of_stats rfl
  nrTasks := fun _ _ _ => of_stats rfl
  dropTaskStat := fun _ _ => of_stats rfl
  dropSpill := fun _ _ => of_stats rfl

end SameCounts

theorem sameCounts_step {g : Globals} {e : Event}
    (hselect : ∀ p prevCpu env, e ≠ .selectCpu p prevCpu env) (henqueue : ∀ p now, e ≠ .enqueue p now)
    : SameCounts s (step g s e) := by
  have hrun {q : BpfM PUnit} (hq : q.Keeps SameCounts) : SameCounts s (q.run s).2 :=
    hq.run SameCounts.refl SameCounts.trans s
  cases e with
  | initTask p fork parent alloc => exact hrun (keeps_ignore SameCounts.keepsAdmit.cohortInitTask)
  | exitTask p => exact hrun SameCounts.keepsExit.cohortExitTask
  | selectCpu p prevCpu env => exact absurd rfl (hselect p prevCpu env)
  | enqueue p now => exact absurd rfl (henqueue p now)
  | dispatch cpu now => exact hrun (keeps_ignore SameCounts.keepsDispatch.cohortDispatch)
  | runnable p now => exact hrun SameCounts.keepsWake.cohortRunnable
  | running p now => exact hrun SameCounts.keepsAccount.cohortRunning
  | stopping p now => exact hrun SameCounts.keepsAccount.cohortStopping
  | setPolicy id policy flag => exact hrun (keeps_ignore SameCounts.keepsAdmit.updatePolicy)
  | dropPolicy id => exact SameCounts.of_stats rfl
  | setCounters id counters flag => exact hrun (keeps_ignore SameCounts.keepsAdmit.updateCounters)
  | dropCounters id => exact SameCounts.of_stats rfl
  | setTgid tgid id flag => exact hrun (keeps_ignore SameCounts.keepsAdmit.updateTgidCohort)
  | dropTgid tgid => exact SameCounts.of_stats rfl
  | setSpill pid llc =>
    simp only [step, Event.prog, ignore, Proc.run_bind, Proc.run_pure, run_updateSpill]
    exact SameCounts.of_stats rfl
  | dropSpill pid => exact SameCounts.of_stats rfl

theorem homeCount_statInc
    (h : idx ∈ [Stat.syncLocal, .prevIdle, .idleCore, .idleSmt, .enqHome])
    : homeCount { s with stats := Function.update s.stats idx (s.stats idx + 1) } = homeCount s + 1 := by
  simp only [List.mem_cons, List.not_mem_nil, or_false] at h
  unfold homeCount
  obtain rfl | rfl | rfl | rfl | rfl := h <;>
  . simp only [Function.update_apply, reduceCtorEq, if_true, if_false]
    ac_rfl

theorem enqSpill_statInc (h : idx ≠ .enqSpill)
    : Function.update s.stats idx (s.stats idx + 1) .enqSpill = s.stats .enqSpill :=
  Function.update_of_ne h.symm _ _

end Counts

section Direct

variable {g : Globals} {s s' : Maps} {p : TaskStruct} {prevCpu : Int} {homeMask : Finset Nat}
  {env : WakeEnv}

-- A direct dispatch to one of the CPUs of a mask, or none.
structure Dispatches (s s' : Maps) (p : TaskStruct) (cpu : Int) : Prop where
  home : homeCount s' = homeCount s + 1
  spill : s'.stats .enqSpill = s.stats .enqSpill
  dsq : s'.localDsq = (p.tid, cpu) :: s.localDsq

structure Stays (s s' : Maps) : Prop extends SameCounts s s' where
  dsq : s'.localDsq = s.localDsq

namespace Stays

theorem of_same (hstats : s'.stats = s.stats) (hdsq : s'.localDsq = s.localDsq) : Stays s s' :=
  ⟨SameCounts.of_stats hstats, hdsq⟩

theorem refl (s : Maps) : Stays s s := of_same rfl rfl

theorem trans (a b c : Maps) (h : Stays a b) (h' : Stays b c) : Stays a c :=
  ⟨SameCounts.trans _ _ _ h.toSameCounts h'.toSameCounts, h'.dsq.trans h.dsq⟩

theorem keepsEdges : KeepsEdges Stays where
  refl := refl
  tctxErr := fun _ => ⟨SameCounts.of_stat (by simp), rfl⟩
  sample := fun _ _ => of_same rfl rfl
  edges := fun _ _ => of_same rfl rfl

theorem dispatches {s₀ : Maps} {cpu : Int} (h : Stays s s₀) (hd : Dispatches s₀ s' p cpu)
    : Dispatches s s' p cpu :=
  ⟨by rw [hd.home, h.home], by rw [hd.spill, h.spill], by rw [hd.dsq, h.dsq]⟩

end Stays

theorem dispatches_place {cpu : Int} {idx : Stat} (h : idx ∈ [Stat.prevIdle, .idleCore, .idleSmt])
    : Dispatches s
        ((do
          claimIdle cpu
          statInc idx
          dsqInsertLocal p cpu
          return cpu : BpfM Int).run s).2 p cpu := by
  have hmem : idx ∈ [Stat.syncLocal, .prevIdle, .idleCore, .idleSmt, .enqHome] := by
    simp only [List.mem_cons, List.not_mem_nil, or_false] at h ⊢
    tauto
  have hne : idx ≠ .enqSpill := by
    rintro rfl
    simp at h
  simp only [Proc.run_bind, Proc.run_pure, claimIdle, statInc, dsqInsertLocal, run_store]
  exact ⟨homeCount_statInc (s := s) hmem, enqSpill_statInc hne, rfl⟩

theorem run_idleLadder (henv : env.Picks)
    : (idleOffered p prevCpu homeMask env = true
          ∧ ∃ cpu, inMask cpu homeMask = true
            ∧ Dispatches s ((idleLadder p prevCpu homeMask env).run s).2 p cpu)
        ∨
      (idleOffered p prevCpu homeMask env = false
          ∧ Stays s ((idleLadder p prevCpu homeMask env).run s).2) := by
  have hscratch : ∀ cpu, inMask cpu (homeMask ∩ p.cpusPtr) = true → inMask cpu homeMask = true := by
    intro cpu hcpu
    unfold inMask at hcpu ⊢
    rw [decide_eq_true_eq, Finset.mem_inter] at hcpu
    exact decide_eq_true ⟨hcpu.1, hcpu.2.1⟩
  unfold idleLadder
  dsimp only
  split
  . next hprev =>
    refine .inl ⟨?_, prevCpu, hprev.1, dispatches_place (by simp)⟩
    simp [idleOffered, hprev]
  . next hprev =>
    simp only [not_and, Bool.not_eq_true] at hprev
    split
    . next hno =>
      refine .inr ⟨?_, Stays.refl s⟩
      rw [Bool.not_eq_true] at hno
      simpa [idleOffered, hno] using hprev
    . next hyes =>
      rw [not_not] at hyes
      split
      . next hcore =>
        refine .inl ⟨?_, _, hscratch _ ((henv _).1 hcore), dispatches_place (by simp)⟩
        simp [idleOffered, hyes, hcore]
      . next hcore =>
        split
        . next hsmt =>
          refine .inl ⟨?_, prevCpu, hsmt.1, dispatches_place (by simp)⟩
          simp [idleOffered, hyes, hsmt]
        . next hsmt =>
          split
          . next hcpu =>
            refine .inl ⟨?_, _, hscratch _ ((henv _).2 hcpu), dispatches_place (by simp)⟩
            simp [idleOffered, hyes, hcpu]
          . next hcpu =>
            refine .inr ⟨?_, ?_⟩
            . simp only [not_and, Bool.not_eq_true] at hsmt
              simpa [idleOffered, hyes, hcore, hcpu] using ⟨hprev, hsmt⟩
            . simp only [Proc.run_bind, Proc.run_pure, statInc, run_store]
              exact ⟨SameCounts.of_stat (by simp), rfl⟩

theorem run_syncHandoff {pl : Placement} {c : TaskCtx} (hc : s.taskCtxs p.tid = some c)
    : (syncHandoff p (some p.tid) homeMask env).run
          { s with taskCtxs := Function.update s.taskCtxs p.tid (some (pl.note g c)) }
        =
      (handsOver g s p pl homeMask env,
        { s with taskCtxs := Function.update s.taskCtxs p.tid (some (pl.note g c)) }) := by
  unfold syncHandoff handsOver
  cases env.wakeSync with
  | false => simp
  | true =>
    cases env.waker with
    | none => simp
    | some waker =>
      by_cases hself : waker.tid = p.tid
      . simp [taskStorageGet, hc, hself, Bool.and_assoc]
      . cases hw : s.taskCtxs waker.tid with
        | none => simp [taskStorageGet, hc, hw, Function.update_of_ne hself]
        | some c' =>
          simp only [taskStorageGet, Proc.run_bind, run_load, Function.update_of_ne hself, hw]
          by_cases hsame : (pl.note g c).cohortId = c'.cohortId
          . simp [hc, hw, Function.update_of_ne hself, hsame, Bool.and_assoc]
          . simp [hc, hw, hsame, hself]

-- All of `cohort_select_cpu` after the wake edge, for a task that may be moved.
def selectPlaced (g : Globals) (p : TaskStruct) (prevCpu : Int) (env : WakeEnv) : BpfM Int := do
  let tctx ← lookupTaskCtx p
  let home ← taskHomeLlc g p tctx
  match ← lookupLlcCtx home with
  | none => return prevCpu
  | some llcx =>
    match llcx.cpumask with
    | none => return prevCpu
    | some homeMask =>
      if homeMask ∩ p.cpusPtr = ∅ then
        return prevCpu
      if ← syncHandoff p tctx homeMask env then
        statInc .syncLocal
        dsqInsertLocal p env.smpProcessorId
        return env.smpProcessorId
      idleLadder p prevCpu homeMask env

theorem step_selectCpu_eq (h : p.nrCpusAllowed ≠ 1)
    : step g s (.selectCpu p prevCpu env)
        =
      ((selectPlaced g p prevCpu env).run
        ((recordWakeEdge g p env.waker env.smpProcessorId).run s).2).2 := by
  simp only [step, Event.prog, ignore, Proc.run_bind, Proc.run_pure]
  unfold cohortSelectCpu
  rw [Proc.run_bind]
  simp only [if_neg h]
  rfl

theorem inMask_of_handsOver {pl : Placement} (h : handsOver g s p pl homeMask env = true)
    : inMask env.smpProcessorId homeMask = true := by
  simp only [handsOver, Bool.and_eq_true, decide_eq_true_eq] at h
  simp [inMask, h]

theorem run_selectPlaced {pl : Placement} (g : Globals) (prevCpu : Int) (hpinned : p.nrCpusAllowed ≠ 1)
    (hpl : placement s p = some pl) (henv : env.Picks)
    : (offered g s p pl prevCpu env = true
          ∧ ∃ homeMask cpu, (s.llcs (pl.llc g)).cpumask = some homeMask ∧ inMask cpu homeMask = true
            ∧ Dispatches s ((selectPlaced g p prevCpu env).run s).2 p cpu)
        ∨
      (offered g s p pl prevCpu env = false ∧ Stays s ((selectPlaced g p prevCpu env).run s).2) := by
  obtain ⟨c, hc⟩ := taskCtxs_of_placement hpl
  have hlooked : Stays s
      { s with taskCtxs := Function.update s.taskCtxs p.tid (some (pl.note g c)) } :=
    Stays.of_same rfl rfl
  unfold selectPlaced offered
  simp only [Proc.run_bind, run_lookupTaskCtx hc, run_taskHomeLlc hc hpl, lookupLlcCtx, run_load,
    hpinned, ne_eq, not_false_eq_true, decide_true, Bool.true_and]
  by_cases hlt : (pl.llc g).toNat < maxLlcs
  . simp only [hlt, if_true, decide_true, Bool.true_and]
    cases hmask : (s.llcs (pl.llc g)).cpumask with
    | none => exact .inr ⟨rfl, hlooked⟩
    | some homeMask =>
      by_cases haff : homeMask ∩ p.cpusPtr = ∅
      . simp only [haff, if_true, Option.any_some]
        exact .inr ⟨by simp, hlooked⟩
      . simp only [haff, if_false, Option.any_some, not_false_eq_true, decide_true, Bool.true_and,
          Proc.run_bind, run_syncHandoff hc]
        by_cases hhand : handsOver g s p pl homeMask env = true
        . simp only [hhand, if_true, Proc.run_bind, Proc.run_pure, statInc, dsqInsertLocal, run_store]
          have hne : Stat.syncLocal ≠ .enqSpill := by simp
          refine .inl ⟨by simp, homeMask, _, rfl, inMask_of_handsOver hhand, ?_⟩
          exact ⟨homeCount_statInc (s := s) (by simp), enqSpill_statInc hne, rfl⟩
        . rw [Bool.not_eq_true] at hhand
          simp only [hhand, Bool.false_eq_true, if_false, Bool.false_or]
          cases run_idleLadder henv with
          | inl h =>
            obtain ⟨hoffered, cpu, hcpu, hdispatches⟩ := h
            exact .inl ⟨hoffered, homeMask, cpu, rfl, hcpu, hlooked.dispatches hdispatches⟩
          | inr h => exact .inr ⟨h.1, Stays.trans _ _ _ hlooked h.2⟩
  . simp only [hlt, if_false]
    exact .inr ⟨by simp, hlooked⟩

theorem llcs_recordWakeEdge {waker : Option TaskStruct} {cpu : Nat}
    : ((recordWakeEdge g p waker cpu).run s).2.llcs = s.llcs := by
  have hkeeps : KeepsEdges fun s s' => s'.llcs = s.llcs :=
    { refl := fun _ => rfl, tctxErr := fun _ => rfl, sample := fun _ _ => rfl, edges := fun _ _ => rfl }
  apply hkeeps.recordWakeEdge.run
  . intro s
    rfl
  . intro a b c h h'
    exact h'.trans h

theorem run_step_selectCpu {pl : Placement} (g : Globals) (prevCpu : Int)
    (hpl : placement s p = some pl) (henv : env.Picks)
    : (offered g s p pl prevCpu env = true
          ∧ ∃ homeMask cpu, (s.llcs (pl.llc g)).cpumask = some homeMask ∧ inMask cpu homeMask = true
            ∧ Dispatches s (step g s (.selectCpu p prevCpu env)) p cpu)
        ∨
      (offered g s p pl prevCpu env = false ∧ Stays s (step g s (.selectCpu p prevCpu env))) := by
  have hstays : Stays s ((recordWakeEdge g p env.waker env.smpProcessorId).run s).2 :=
    Stays.keepsEdges.recordWakeEdge.run Stays.refl Stays.trans s
  by_cases hpinned : p.nrCpusAllowed = 1
  . right
    refine ⟨by simp [offered, hpinned], ?_⟩
    simp only [step, Event.prog, ignore, Proc.run_bind, Proc.run_pure, run_selectCpu_pinned hpinned]
    exact hstays
  . have hsame : SameMembership s ((recordWakeEdge g p env.waker env.smpProcessorId).run s).2 :=
      sameMembership_recordWakeEdge
    have hoffered
        : offered g ((recordWakeEdge g p env.waker env.smpProcessorId).run s).2 p pl prevCpu env
            =
          offered g s p pl prevCpu env := by
      unfold offered handsOver
      rw [llcs_recordWakeEdge, hsame.tctx]
    rw [step_selectCpu_eq hpinned, ← hoffered, ← llcs_recordWakeEdge (g := g) (p := p)]
    rw [← placement_recordWakeEdge g env.waker env.smpProcessorId] at hpl
    cases run_selectPlaced g prevCpu hpinned hpl henv with
    | inl h =>
      obtain ⟨hyes, homeMask, cpu, hmask, hcpu, hdispatches⟩ := h
      exact .inl ⟨hyes, homeMask, cpu, hmask, hcpu, hstays.dispatches hdispatches⟩
    | inr h => exact .inr ⟨h.1, Stays.trans _ _ _ hstays h.2⟩

end Direct

section Queued

variable {g : Globals} {s : Maps} {p : TaskStruct} {c : TaskCtx} {pl : Placement} {now : UInt64}

theorem run_taskEffectiveLlc (hc : s.taskCtxs p.tid = some c) (hpl : placement s p = some pl)
    : (taskEffectiveLlc g p (some p.tid)).run s
        =
      (if barred s p (pl.llc g) then llcOfCpu g p.cpu else pl.llc g,
        { s with taskCtxs := Function.update s.taskCtxs p.tid (some (pl.note g c)) }) := by
  unfold taskEffectiveLlc barred
  simp only [Proc.run_bind, run_taskHomeLlc hc hpl, lookupLlcCtx, run_load]
  by_cases hlt : (pl.llc g).toNat < maxLlcs
  . cases hmask : (s.llcs (pl.llc g)).cpumask with
    | none => simp [hlt, hmask]
    | some mask => simp [hlt, hmask]
  . simp [hlt]

theorem chosenLlc_eq (hpl : placement s p = some pl)
    : chosenLlc g s p = if barred s p (pl.llc g) then llcOfCpu g p.cpu else pl.llc g := by
  obtain ⟨c, hc⟩ := taskCtxs_of_placement hpl
  unfold chosenLlc effectiveLlc
  rw [hc, run_taskEffectiveLlc hc hpl]
  rfl

theorem Placement.note_isSpilled (g : Globals) (pl : Placement) (c : TaskCtx)
    : (pl.note g c).isSpilled ≠ 0 ↔ pl.spill.isSome = true := by
  unfold Placement.note
  cases pl.spill <;> simp

theorem stats_refreshHead {llc : LlcId} {llcx : Option LlcCtx}
    : ((refreshHead llc llcx now).run s).2.stats = s.stats := by
  unfold refreshHead
  rw [Proc.run_bind, run_load]
  dsimp only
  split
  . rfl
  . rfl

theorem stats_step_enqueue (g : Globals) (now : UInt64) (hpl : placement s p = some pl)
    : (step g s (.enqueue p now)).stats
        =
      if pl.spill.isSome then
        Function.update s.stats .enqSpill (s.stats .enqSpill + 1)
      else
        Function.update s.stats .enqHome (s.stats .enqHome + 1) := by
  obtain ⟨c, hc⟩ := taskCtxs_of_placement hpl
  have hspilled := Placement.note_isSpilled g pl c
  simp only [step, Event.prog, cohortEnqueue, enqueueBase, Proc.run_bind, Proc.run_pure,
    run_lookupTaskCtx hc, run_taskEffectiveLlc hc hpl, lookupLlcCtx, run_load, readTctx?, run_readTctx,
    Function.update_self, Option.getD_some, statInc, run_store, stats_refreshHead, Option.any_some]
  by_cases hspill : pl.spill.isSome = true
  . simp [hspilled.mpr hspill, hspill]
  . have hnot : (pl.note g c).isSpilled = 0 := not_not.mp (mt hspilled.mp hspill)
    simp [hnot, hspill]

end Queued

section Masks

variable {g : Globals} {s : Maps} {p : TaskStruct}

-- A mask that has been set is the one of its LLC.
def MasksSet (g : Globals) (s : Maps) : Prop :=
  ∀ l, ∀ mask ∈ (s.llcs l).cpumask, mask = llcMask g l

theorem masksSet_attached (g : Globals) : MasksSet g (attached g) := by
  intro l mask hmask
  rw [attached_eq, attachedUpTo] at hmask
  dsimp only at hmask
  split at hmask
  . exact (Option.mem_some_iff.mp hmask).symm
  . contradiction

theorem masksSet_step (h : MasksSet g s) (e : Event) : MasksSet g (step g s e) := by
  have hsame : SameTopology s (step g s e) :=
    (SameTopology.keepsAll.prog (g := g) e).run SameTopology.refl SameTopology.trans s
  intro l mask hmask
  rw [hsame.masks] at hmask
  exact h l mask hmask

theorem llcOfCpu_of_mask {l : LlcId} {cpu : Int} (h : inMask cpu (llcMask g l) = true)
    : llcOfCpu g cpu = l := by
  unfold inMask llcMask at h
  rw [decide_eq_true_eq, Finset.mem_filter, Finset.mem_range] at h
  obtain ⟨hpos, hlt, hllc⟩ := h
  unfold llcOfCpu
  rw [if_pos (by omega)]
  exact hllc

end Masks

namespace Landings

variable {g : Globals} {w : Landings} {e : Event}

-- One placement, counted as one at home or not.
theorem counted_landed {llc home : LlcId} (atHome : Bool) (h : w.Counted)
    (hlanding : landing g w.maps e = some llc) (hhome : landingHome w.maps e = some home)
    (hcount : homeCount (step g w.maps e) = homeCount w.maps + if atHome then 1 else 0)
    (hspill : (step g w.maps e).stats .enqSpill = w.maps.stats .enqSpill + if atHome then 0 else 1)
    : (w.next g e).Counted ↔ atHome = decide (llc = home) := by
  have hsucc : ∀ n, UInt64.ofNat (n + 1) = UInt64.ofNat n + 1 := by
    intro n
    rw [UInt64.ofNat_add]
    rfl
  have hne : ∀ n, UInt64.ofNat n ≠ UInt64.ofNat n + 1 := by
    intro n heq
    exact absurd (left_eq_add.mp heq) (by decide)
  obtain ⟨hcounted, hspilled⟩ := h
  unfold next
  rw [hlanding, hhome]
  dsimp only
  unfold Counted
  by_cases heq : llc = home
  . rw [if_pos (by rw [heq])]
    dsimp only
    rw [hcount, hspill, hcounted, hspilled, hsucc, decide_eq_true heq]
    cases atHome with
    | true => simp
    | false => simp [hne]
  . rw [if_neg (fun hsome => heq (Option.some.inj hsome).symm)]
    dsimp only
    rw [hcount, hspill, hcounted, hspilled, hsucc, decide_eq_false heq]
    cases atHome with
    | true => simp [hne]
    | false => simp

theorem counted_same (h : w.Counted) (hlanding : landing g w.maps e = none)
    (hsame : SameCounts w.maps (step g w.maps e))
    : (w.next g e).Counted := by
  unfold next
  rw [hlanding]
  exact ⟨hsame.home.trans h.1, hsame.spill.trans h.2⟩

theorem counted_selectCpu {p : TaskStruct} {prevCpu : Int} {env : WakeEnv}
    (hmasks : MasksSet g w.maps) (h : w.Counted) (he : HasPolicy w.maps (.selectCpu p prevCpu env))
    : (w.next g (.selectCpu p prevCpu env)).Counted
        ↔
      landsAsCounted g w.maps (.selectCpu p prevCpu env) = true := by
  obtain ⟨hsome, henv⟩ := he
  obtain ⟨pl, hpl⟩ := Option.isSome_iff_exists.mp hsome
  have hhome : landingHome w.maps (.selectCpu p prevCpu env) = some pl.home := by
    simp [landingHome, hpl]
  unfold landsAsCounted
  dsimp only
  rw [hpl, Option.all_some]
  cases run_step_selectCpu g prevCpu hpl henv with
  | inl hdirect =>
    obtain ⟨hoffered, homeMask, cpu, hmask, hcpu, hdispatches⟩ := hdirect
    rw [hmasks _ _ hmask] at hcpu
    have hlanding : landing g w.maps (.selectCpu p prevCpu env) = some (pl.llc g) := by
      unfold landing dispatchesDirectly
      dsimp only
      rw [hdispatches.dsq]
      simp [llcOfCpu_of_mask hcpu]
    rw [counted_landed true h hlanding hhome (by simp [hdispatches.home])
      (by simp [hdispatches.spill])]
    simp [hoffered]
  | inr hnowhere =>
    obtain ⟨hoffered, hstays⟩ := hnowhere
    have hlanding : landing g w.maps (.selectCpu p prevCpu env) = none := by
      unfold landing dispatchesDirectly
      dsimp only
      rw [hstays.dsq]
      simp
    simp [counted_same h hlanding hstays.toSameCounts, hoffered]

theorem counted_enqueue {p : TaskStruct} {now : UInt64} (h : w.Counted)
    (he : HasPolicy w.maps (.enqueue p now))
    : (w.next g (.enqueue p now)).Counted ↔ landsAsCounted g w.maps (.enqueue p now) = true := by
  obtain ⟨pl, hpl⟩ := Option.isSome_iff_exists.mp he
  have hhome : landingHome w.maps (.enqueue p now) = some pl.home := by
    simp [landingHome, hpl]
  have hlanding : landing g w.maps (.enqueue p now)
      = some (if barred w.maps p (pl.llc g) then llcOfCpu g p.cpu else pl.llc g) := by
    unfold landing
    dsimp only
    rw [chosenLlc_eq hpl]
  have hstats := stats_step_enqueue g now hpl
  unfold landsAsCounted
  dsimp only
  rw [hpl, Option.all_some]
  cases hspill : pl.spill.isSome with
  | true =>
    rw [hspill, if_pos rfl] at hstats
    rw [counted_landed false h hlanding hhome]
    . split <;> simp
    . calc
        homeCount (step g w.maps (.enqueue p now))
        _ = homeCount { w.maps with stats := (step g w.maps (.enqueue p now)).stats } := rfl
        _ = homeCount w.maps + 0 := by
          rw [hstats, add_zero]
          rfl
    . simp [hstats]
  | false =>
    rw [hspill] at hstats
    rw [counted_landed true h hlanding hhome]
    . split <;> simp
    . calc
        homeCount (step g w.maps (.enqueue p now))
        _ = homeCount { w.maps with stats := (step g w.maps (.enqueue p now)).stats } := rfl
        _ = homeCount w.maps + 1 := by
          rw [hstats]
          exact homeCount_statInc (by simp)
    . simp [hstats]

theorem counted_next (hmasks : MasksSet g w.maps) (h : w.Counted) (he : HasPolicy w.maps e)
    : (w.next g e).Counted ↔ landsAsCounted g w.maps e = true := by
  cases e with
  | selectCpu p prevCpu env => exact counted_selectCpu hmasks h he
  | enqueue p now => exact counted_enqueue h he
  | _ =>
    apply iff_of_true _ rfl
    exact counted_same h rfl (sameCounts_step (by intros; nofun) (by intros; nofun))

theorem counted_attached (g : Globals) : Counted { maps := attached g } := by
  unfold Counted
  rw [attached_eq]
  exact ⟨rfl, rfl⟩

end Landings

theorem placements_counted_iff (g : Globals) (es : List Event)
    (hes : Streak.Throughout (Landings.next g) (fun w e => HasPolicy w.maps e) { maps := attached g } es)
    : Streak.Throughout (Landings.next g) (fun w e => (w.next g e).Counted) { maps := attached g } es
        ↔
      Streak.Throughout (Landings.next g) (fun w e => landsAsCounted g w.maps e = true)
        { maps := attached g } es := by
  apply Streak.throughout_congr (I := fun w => MasksSet g w.maps ∧ w.Counted)
      (R := fun w e => HasPolicy w.maps e)
  . intro w e h he
    exact Landings.counted_next h.1 h.2 he
  . intro w e h _ hcounted
    refine ⟨?_, hcounted⟩
    rw [Landings.next_maps]
    exact masksSet_step h.1 e
  . exact ⟨masksSet_attached g, Landings.counted_attached g⟩
  . exact hes

section Wakeups

theorem picks_idle (env : WakeEnv) (hcore : env.pickIdleCore = fun _ => -1)
    (hcpu : env.pickIdleCpu = fun _ => -1)
    : env.Picks := by
  intro mask
  rw [hcore, hcpu]
  constructor <;> intro h <;> contradiction

-- One task is woken on an idle CPU at home, another one is queued at its spill target.
def oneAtHome : List Event :=
  [.initTask editor false none true, .selectCpu editor 0 { prevIdle := true }, .setSpill 10 1,
    .enqueue editor 0]

theorem oneAtHome_counted
    : Streak.Throughout (Landings.next twoLlcs) (fun w e => (w.next twoLlcs e).Counted)
        { maps := attached twoLlcs } oneAtHome := by
  rw [placements_counted_iff twoLlcs oneAtHome]
  . decide +kernel
  . refine ⟨trivial, ⟨by decide +kernel, picks_idle _ rfl rfl⟩, trivial, ?_, trivial⟩
    unfold HasPolicy
    decide +kernel

-- A spilled task is woken on an idle CPU of its target.
def wokenSpilled : List Event :=
  [.initTask editor false none true, .setSpill 10 1, .selectCpu editor 1 { prevIdle := true }]

theorem wokenSpilled_miscounted
    : ¬ Streak.Throughout (Landings.next twoLlcs) (fun w e => (w.next twoLlcs e).Counted)
        { maps := attached twoLlcs } wokenSpilled := by
  decide +kernel

end Wakeups

end Bpf
