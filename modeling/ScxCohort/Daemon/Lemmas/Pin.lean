import ScxCohort.Bpf.Lemmas.Roster
import ScxCohort.Daemon.Lemmas.Homes
import ScxCohort.Lib.Streak

/-!
This module contains how long a pin holds. Only the balancer asks whether a cohort is pinned: a merge
takes the members of a pinned cohort to whatever home the other one has, and what is split off is not
pinned until the rules come across it.
-/

namespace Daemon

-- A live task whose cohort a tick has pinned because a rule matched the task.
structure Pinned where
  pid : Pid
  tgid : Tgid

inductive PinTurn where
  | callback (e : Bpf.Event)
  | tick (env : TickEnv)

-- The daemon is gone once a tick has failed.
structure Pins where
  maps : Maps
  daemon : Option Scheduler
  tasks : List Pinned := []

-- The CCD that the rule for a task pins its cohort to.
def pinOf (env : TickEnv) (d : Scheduler) (t : TaskSnapshot) : Option UInt32 :=
  (d.config.matchTask t.comm (cgroupOf env d.cgroupCache t.tgid).1).bind (·.pinCcd)

def pinnedNow (env : TickEnv) (d : Scheduler) (s : Maps) : List Pinned :=
  ((tasksSeen env d s).filter fun t =>
    (pinOf env d t).isSome ∧ t.cohortId ∈ s.cohortPolicy ∧ t.tgid ∈ s.tgidCohort).map fun t =>
      ⟨t.pid, t.tgid⟩

-- The merges of the tick leave the thread group in a cohort that is pinned, or that is where it should
-- be and stays there.
def settled (env : TickEnv) (x : UInt32) (d : Scheduler) (s : Maps) (tgid : Tgid) : Bool :=
  (s.tgidCohort.lookup tgid).all fun c =>
    (ruledPolicy env (tasksSeen env d s) d s (absorber (outlook env d s).merges s c)).any fun policy =>
      policy.flags &&& cohortPinned ≠ 0
        || policy.homeLlc = wantHome d x
          && (outlook env d s).moves.all fun
            | .moveCohort id _ => id ≠ absorber (outlook env d s).merges s c

namespace Pins

variable (g : Globals)

-- The kernel gives out a pid again only when its task is gone.
def leaving : Bpf.Event → Option Pid
  | .initTask p _ _ _ => some p.pid
  | .exitTask p => some p.pid
  | _ => none

def next (w : Pins) : PinTurn → Pins
  | .callback e =>
    if e.isCallback then
      { w with
        maps := Bpf.step g w.maps e
        tasks := w.tasks.filter fun m => leaving e ≠ some m.pid }
    else
      w
  | .tick env =>
    match w.daemon with
    | none => w
    | some d =>
      match exec (tick env) d w.maps with
      | (.ok (_, d'), s') =>
        { maps := s', daemon := some d', tasks := w.tasks ++ pinnedNow env d w.maps }
      | (.error _, s') => { w with maps := s', daemon := none }

-- Every such task is in a cohort whose home is the CCD that the rules name.
def Held (x : UInt32) (w : Pins) : Prop :=
  ∀ d, w.daemon = some d → ∀ m ∈ w.tasks, tgidHome w.maps m.tgid = some (wantHome d x)

instance (x : UInt32) (w : Pins) : Decidable (w.Held x) :=
  decidable_of_iff
    (w.daemon.all fun d => w.tasks.all fun m => tgidHome w.maps m.tgid = some (wantHome d x)) (by
      unfold Held
      simp only [Option.all_eq_true, List.all_eq_true, decide_eq_true_eq])

-- The callbacks and the daemon have numbers left, and every task that is or becomes pinned is settled.
def safe (x : UInt32) (w : Pins) : PinTurn → Bool
  | .callback _ => w.maps.cohortSeq.toNat < 2 ^ 32 - 1
  | .tick env =>
    w.daemon.all fun d =>
      w.maps.cohortSeq.toNat < 2 ^ 32 - 1
        && daemonCohortBase.toNat + d.daemonSeq.toNat + maxCohorts ≤ 2 ^ 64
        && (w.tasks ++ pinnedNow env d w.maps).all fun m => settled env x d w.maps m.tgid

def start (d : Scheduler) : Pins := { maps := Bpf.attached g, daemon := some d }

end Pins

section Rules

variable {env : TickEnv} {x : UInt32} {config : Config} {d d' : Scheduler} {s s' : Maps}

def NamesOnly (x : UInt32) (config : Config) : Prop :=
  ∀ rule ∈ config.rules, ∀ ccd, rule.pinCcd = some ccd → ccd = x

-- Whatever is pinned has this home.
def PinnedAt (home : LlcId) (s : Maps) : Prop :=
  ∀ id policy, s.cohortPolicy.lookup id = some policy → policy.flags &&& cohortPinned ≠ 0
    → policy.homeLlc = home

theorem pins_ruleEffects {fx : RuleEffects} {t : TaskSnapshot} (hconfig : NamesOnly x config)
    (h : ∀ id ccd, fx.pins.lookup id = some ccd → ccd = x) {id : CohortId} {ccd : UInt32}
    (hlookup : (ruleEffects config env fx t).pins.lookup id = some ccd)
    : ccd = x := by
  unfold ruleEffects at hlookup
  dsimp only at hlookup
  split at hlookup
  . exact h id ccd hlookup
  . next rule hmatch =>
    have hmem : rule ∈ config.rules := List.mem_of_find?_eq_some hmatch
    dsimp only at hlookup
    split at hlookup
    . next ccd' hpin =>
      rw [HashTable.lookup_insert_eq] at hlookup
      split at hlookup
      . rw [Option.some.injEq] at hlookup
        rw [← hlookup]
        exact hconfig rule hmem ccd' hpin
      . exact h id ccd hlookup
    . exact h id ccd hlookup

theorem pins_foldRules (tasks : List TaskSnapshot) {fx : RuleEffects} (hconfig : NamesOnly x config)
    (h : ∀ id ccd, fx.pins.lookup id = some ccd → ccd = x) {id : CohortId} {ccd : UInt32}
    (hlookup : (tasks.foldl (ruleEffects config env) fx).pins.lookup id = some ccd)
    : ccd = x := by
  induction tasks generalizing fx with
  | nil => exact h id ccd hlookup
  | cons t tasks ih => exact ih (fun _ _ => pins_ruleEffects hconfig h) hlookup

theorem pins_collectRules {tasks : List TaskSnapshot} (hconfig : NamesOnly x d.config) {id : CohortId}
    {ccd : UInt32} (hlookup : (pinsSeen env tasks d).lookup id = some ccd)
    : ccd = x := by
  unfold pinsSeen at hlookup
  split at hlookup
  . contradiction
  . unfold collectRules at hlookup
    apply pins_foldRules tasks hconfig _ hlookup
    intro id ccd h
    contradiction

theorem homeLlc_pinPolicy (home : LlcId) (policy : CohortPolicy)
    : (pinPolicy home policy).homeLlc = home := by
  unfold pinPolicy
  split
  . rfl
  . next h =>
    rw [not_or, not_not] at h
    exact h.2

theorem ruled_pinnedAt (hconfig : NamesOnly x d.config) (h : PinnedAt (wantHome d x) s) {id : CohortId}
    {tasks : List TaskSnapshot} {policy : CohortPolicy}
    (hpolicy : ruledPolicy env tasks d s id = some policy) (hpinned : policy.flags &&& cohortPinned ≠ 0)
    : policy.homeLlc = wantHome d x := by
  unfold ruledPolicy at hpolicy
  split at hpolicy
  . next ccd hpin =>
    obtain ⟨old, _, rfl⟩ := Option.map_eq_some_iff.mp hpolicy
    rw [homeLlc_pinPolicy, pins_collectRules hconfig hpin]
  . exact h id policy hpolicy hpinned

-- What the balancer moves is not pinned, what the splits make is not either, and the merges only delete.
theorem pinnedAt_tick {r : List CohortSnapshot × List LlcLoad} (hconfig : NamesOnly x d.config)
    (h : PinnedAt (wantHome d x) s)
    (hids : daemonCohortBase.toNat + d.daemonSeq.toNat + maxCohorts ≤ 2 ^ 64)
    (hexec : exec (tick env) d s = (.ok (r, d'), s'))
    : PinnedAt (wantHome d x) s' := by
  obtain ⟨view, d₁, s₁, plans, d₂, s₂, hplace, hmerge, hsplits⟩ := exec_tick_inv hexec
  have hbefore := beforeMerges_of_place hplace
  have hmade := NoneMade.trans _ _ _ _ _ _ (NoneMade.carriesPlace.place _ _ _ _ _ hplace)
    (NoneMade.carriesMerges.mergeFirst _ _ _ _ _ hmerge)
  have h₁ : PinnedAt (wantHome d x) s₁ := by
    intro id policy hpolicy hpinned
    have hflags := hbefore.flags id
    rw [hpolicy, Option.map_some] at hflags
    split at hflags
    . contradiction
    . next hkept =>
      obtain ⟨ruled, hruled, heq⟩ := Option.map_eq_some_iff.mp hflags.symm
      have hstays : ∀ toLlc, .moveCohort id toLlc ∉ (outlook env d s).moves := by
        intro toLlc hmove
        apply hpinned
        rw [← heq]
        exact unpinned_of_move hmove hruled
      rw [hbefore.unmoved id hstays, if_neg hkept] at hpolicy
      exact ruled_pinnedAt hconfig h hpolicy hpinned
  have h₂ : PinnedAt (wantHome d x) s₂ := by
    obtain ⟨w, d₂', s₂', hmerge', hmerged⟩ :=
      exec_mergeFirst env d₁ fun _ _ => read_of_beforeMerges hbefore
    rw [hmerge, Prod.mk.injEq] at hmerge'
    obtain ⟨_, rfl⟩ := hmerge'
    intro id policy hpolicy
    rw [hmerged.policy] at hpolicy
    split at hpolicy
    . contradiction
    . exact h₁ id policy hpolicy
  refine applySplits_invariant (I := fun _ => PinnedAt (wantHome d x)) (n := maxCohorts) ?_ ?_ ?_ h₂
    hsplits
  . intro plan _ d' s s' _ honce _ hs id policy hpolicy hpinned
    rw [honce.homes] at hpolicy
    split at hpolicy
    . obtain ⟨old, _, rfl⟩ := Option.map_eq_some_iff.mp hpolicy
      exact absurd (UInt32.zero_and) hpinned
    . exact hs id policy hpolicy hpinned
  . rw [hmade.daemonSeq]
    exact hids
  . omega

structure SameConfig (d : Scheduler) (_ : Maps) (d' : Scheduler) (_ : Maps) : Prop where
  config : d'.config = d.config
  llcCpus : d'.llcCpus = d.llcCpus

namespace SameConfig

theorem refl (d : Scheduler) (s : Maps) : SameConfig d s d s := ⟨rfl, rfl⟩

theorem trans (d₁ : Scheduler) (s₁ : Maps) (d₂ : Scheduler) (s₂ : Maps) (d₃ : Scheduler) (s₃ : Maps)
    (h : SameConfig d₁ s₁ d₂ s₂) (h' : SameConfig d₂ s₂ d₃ s₃)
    : SameConfig d₁ s₁ d₃ s₃ :=
  ⟨h'.config.trans h.config, h'.llcCpus.trans h.llcCpus⟩

theorem carriesSurvey : CarriesSurvey SameConfig where
  refl := refl
  trans := trans
  dropPolicy := fun _ _ _ => ⟨rfl, rfl⟩
  dropCounters := fun _ _ _ => ⟨rfl, rfl⟩
  dropTgid := fun _ _ _ => ⟨rfl, rfl⟩
  note := fun _ _ _ _ _ _ _ _ => ⟨rfl, rfl⟩
  setPolicy := fun _ _ _ _ => ⟨rfl, rfl⟩
  rules := fun _ _ _ _ => ⟨rfl, rfl⟩

theorem carriesChanges : CarriesChanges SameConfig where
  refl := refl
  trans := trans
  balancer := fun _ _ _ => ⟨rfl, rfl⟩
  setPolicy := fun _ _ _ _ => ⟨rfl, rfl⟩
  moved := fun _ _ _ => ⟨rfl, rfl⟩
  spill := fun _ _ _ => ⟨rfl, rfl⟩
  spilled := fun _ _ _ => ⟨rfl, rfl⟩
  graph := fun _ _ _ => ⟨rfl, rfl⟩
  edges := fun _ _ _ => ⟨rfl, rfl⟩
  merge := fun _ _ _ _ _ _ => ⟨rfl, rfl⟩
  split := fun _ _ _ _ _ => ⟨rfl, rfl⟩

theorem of_tick {r : List CohortSnapshot × List LlcLoad}
    (h : exec (tick env) d s = (.ok (r, d'), s'))
    : SameConfig d s d' s' := by
  obtain ⟨view, d₁, s₁, hsurvey, hrest⟩ := carriesChanges.afterSurvey h
  exact trans _ _ _ _ _ _ (carriesSurvey.survey _ _ _ _ _ hsurvey) hrest

end SameConfig

end Rules

section Callbacks

variable {g : Globals} {s s' : Maps} {e : Bpf.Event} {p : TaskStruct} {fork : Bool}
  {parent : Option TaskStruct} {alloc : Bool}

structure SameCohorts (s s' : Maps) : Prop where
  tgids : s'.tgidCohort = s.tgidCohort
  policy : s'.cohortPolicy = s.cohortPolicy

namespace SameCohorts

theorem refl (s : Maps) : SameCohorts s s := ⟨rfl, rfl⟩

theorem trans (a b c : Maps) (h : SameCohorts a b) (h' : SameCohorts b c) : SameCohorts a c :=
  ⟨h'.tgids.trans h.tgids, h'.policy.trans h.policy⟩

theorem keepsRuntime : Bpf.KeepsRuntime SameCohorts where
  refl := refl
  stat := fun _ _ => ⟨rfl, rfl⟩
  tctx := fun _ _ _ _ => ⟨rfl, rfl⟩
  headEnqTs := fun _ _ _ => ⟨rfl, rfl⟩
  queues := fun _ _ _ => ⟨rfl, rfl⟩
  idle := fun _ _ => ⟨rfl, rfl⟩
  sample := fun _ _ => ⟨rfl, rfl⟩
  edges := fun _ _ => ⟨rfl, rfl⟩
  wake := fun _ _ _ _ => ⟨rfl, rfl⟩
  nrTasks := fun _ _ _ => ⟨rfl, rfl⟩
  dropTaskStat := fun _ _ => ⟨rfl, rfl⟩
  dropSpill := fun _ _ => ⟨rfl, rfl⟩
  anyTctx := fun _ _ _ => ⟨rfl, rfl⟩
  vtimeNow := fun _ _ _ => ⟨rfl, rfl⟩
  anyCounters := fun _ _ _ => ⟨rfl, rfl⟩
  llcLoad := fun _ _ => ⟨rfl, rfl⟩
  anyTaskStat := fun _ _ _ => ⟨rfl, rfl⟩

end SameCohorts

theorem sameCohorts_callback (he : e.isCallback = true)
    (hinit : ∀ p fork parent alloc, e ≠ .initTask p fork parent alloc)
    : SameCohorts s (Bpf.step g s e) := by
  have hkeeps := SameCohorts.keepsRuntime
  have hrun {q : BpfM PUnit} (hq : q.Keeps SameCohorts) : SameCohorts s (q.run s).2 :=
    hq.run SameCohorts.refl SameCohorts.trans s
  cases e with
  | initTask p fork parent alloc => exact absurd rfl (hinit p fork parent alloc)
  | exitTask p => exact hrun hkeeps.cohortExitTask
  | selectCpu p prevCpu env => exact hrun (Bpf.keeps_ignore hkeeps.calls.cohortSelectCpu)
  | enqueue p now => exact hrun hkeeps.calls.cohortEnqueue
  | dispatch cpu now => exact hrun (Bpf.keeps_ignore hkeeps.cohortDispatch)
  | runnable p now => exact hrun hkeeps.cohortRunnable
  | running p now => exact hrun hkeeps.account.cohortRunning
  | stopping p now => exact hrun hkeeps.account.cohortStopping
  | _ => contradiction

theorem stats_tick (env : TickEnv) (d : Scheduler) (s : Maps)
    : (exec (tick env) d s).2.taskStats = s.taskStats := by
  have hwrites : KeepsWrites fun s s' => s'.taskStats = s.taskStats :=
    { refl := fun _ => rfl
      policy := fun _ _ _ _ => rfl
      counters := fun _ _ _ _ => rfl
      tgid := fun _ _ _ _ => rfl
      spill := fun _ _ => rfl
      edges := fun _ _ => rfl
      dropPolicy := fun _ _ => rfl
      dropCounters := fun _ _ => rfl
      dropTgid := fun _ _ => rfl }
  have hkeeps : Keeps _ (tick env) := hwrites.tick
  exact hkeeps.exec hwrites.refl (fun _ _ _ h h' => h'.trans h) d s

-- The entries of live tasks stay, and keep their thread groups.
def KeptStats (s s' : Maps) : Prop :=
  ∀ pid ts, s.taskStats.lookup pid = some ts
    → ∃ ts', s'.taskStats.lookup pid = some ts' ∧ ts'.tgid = ts.tgid

namespace KeptStats

theorem of_same (h : s'.taskStats = s.taskStats) : KeptStats s s' := by
  intro pid ts hlookup
  rw [h]
  exact ⟨ts, hlookup, rfl⟩

theorem refl (s : Maps) : KeptStats s s := of_same rfl

theorem trans (a b c : Maps) (h : KeptStats a b) (h' : KeptStats b c) : KeptStats a c := by
  intro pid ts hlookup
  obtain ⟨ts', hlookup', heq⟩ := h pid ts hlookup
  obtain ⟨ts'', hlookup'', heq'⟩ := h' pid ts' hlookup'
  exact ⟨ts'', hlookup'', heq'.trans heq⟩

theorem keepsCalls : Bpf.KeepsCalls KeptStats where
  refl := refl
  stat := fun _ _ => of_same rfl
  tctx := fun _ _ _ _ => of_same rfl
  sample := fun _ _ => of_same rfl
  edges := fun _ _ => of_same rfl
  headEnqTs := fun _ _ _ => of_same rfl
  queues := fun _ _ _ => of_same rfl
  idle := fun _ _ => of_same rfl

theorem keepsWake : Bpf.KeepsWake KeptStats where
  refl := refl
  tctxErr := fun _ => of_same rfl
  wake := fun _ _ _ _ => of_same rfl

theorem keepsAccount : Bpf.KeepsAccount KeptStats where
  refl := refl
  tctxErr := fun _ => of_same rfl
  account := fun _ _ _ _ => of_same rfl
  vtimeNow := fun _ _ _ => of_same rfl
  loadSum := fun _ _ _ => of_same rfl
  llcLoad := fun _ _ => of_same rfl
  runtime := by
    intro s pid f hf pid' ts hlookup
    obtain ⟨_, _, _, heq⟩ := hf ts
    dsimp only
    rw [BoundedMap.lookup_modify, hlookup]
    split
    . refine ⟨f ts, rfl, ?_⟩
      rw [heq]
    . exact ⟨ts, rfl, rfl⟩

end KeptStats

theorem stat_callback {pid : Pid} {ts : TaskStat} (he : e.isCallback = true)
    (hstays : Pins.leaving e ≠ some pid) (h : s.taskStats.lookup pid = some ts)
    : ∃ ts', (Bpf.step g s e).taskStats.lookup pid = some ts' ∧ ts'.tgid = ts.tgid := by
  have hrun {q : BpfM PUnit} (hq : q.Keeps KeptStats) : KeptStats s (q.run s).2 :=
    hq.run KeptStats.refl KeptStats.trans s
  cases e with
  | initTask p fork parent alloc =>
    have hne : pid ≠ p.pid := fun heq => hstays (congrArg some heq.symm)
    rw [Bpf.step_initTask]
    split
    . simp only [Bpf.admitted, Bpf.enroll, Bpf.assigned_taskStats, Bpf.withStorage_taskStats]
      rw [BoundedMap.lookup_updateD_ne _ _ _ hne]
      exact ⟨ts, h, rfl⟩
    . exact ⟨ts, h, rfl⟩
  | exitTask p =>
    have hne : pid ≠ p.pid := fun heq => hstays (congrArg some heq.symm)
    cases hc : s.taskCtxs p.tid with
    | none =>
      rw [Bpf.step_exitTask_of_none hc]
      exact ⟨ts, h, rfl⟩
    | some c =>
      rw [(Bpf.exits_step_exitTask hc).stats, BoundedMap.lookup_delete, if_neg hne]
      exact ⟨ts, h, rfl⟩
  | selectCpu p prevCpu env =>
    exact hrun (Bpf.keeps_ignore KeptStats.keepsCalls.cohortSelectCpu) pid ts h
  | enqueue p now => exact hrun KeptStats.keepsCalls.cohortEnqueue pid ts h
  | dispatch cpu now => exact hrun (Bpf.keeps_ignore KeptStats.keepsCalls.cohortDispatch) pid ts h
  | runnable p now => exact hrun KeptStats.keepsWake.cohortRunnable pid ts h
  | running p now => exact hrun KeptStats.keepsAccount.cohortRunning pid ts h
  | stopping p now => exact hrun KeptStats.keepsAccount.cohortStopping pid ts h
  | _ => contradiction

-- An admission enters a thread group that has no entry, and at most makes a cohort that is not pinned.
structure Extends (s s' : Maps) : Prop where
  tgids : ∀ tgid id, s.tgidCohort.lookup tgid = some id → s'.tgidCohort.lookup tgid = some id
  policy : ∀ id policy, s.cohortPolicy.lookup id = some policy → s'.cohortPolicy.lookup id = some policy
  made : ∀ id policy, s'.cohortPolicy.lookup id = some policy
    → s.cohortPolicy.lookup id = some policy ∨ policy.flags = 0

theorem SameCohorts.extends (h : SameCohorts s s') : Extends s s' := by
  refine ⟨?_, ?_, ?_⟩
  . intro tgid id hlookup
    rw [h.tgids, hlookup]
  . intro id policy hlookup
    rw [h.policy, hlookup]
  . intro id policy hlookup
    rw [h.policy] at hlookup
    exact .inl hlookup

theorem extends_trans {s'' : Maps} (h : Extends s s') (h' : Extends s' s'') : Extends s s'' := by
  refine ⟨?_, ?_, ?_⟩
  . intro tgid id hlookup
    exact h'.tgids tgid id (h.tgids tgid id hlookup)
  . intro id policy hlookup
    exact h'.policy id policy (h.policy id policy hlookup)
  . intro id policy hlookup
    cases h'.made id policy hlookup with
    | inl hold => exact h.made id policy hold
    | inr hflags => exact .inr hflags

theorem extends_fresh (g : Globals) (s : Maps) : Extends s (Bpf.withFreshCohort g s) := by
  unfold Bpf.withFreshCohort
  refine ⟨fun _ _ h => h, ?_, ?_⟩
  . intro id policy hlookup
    dsimp only
    rw [BoundedMap.lookup_updateD_noExist (BoundedMap.mem_iff_lookup.mpr ⟨policy, hlookup⟩), hlookup]
  . intro id policy hlookup
    dsimp only at hlookup
    cases BoundedMap.lookup_updateD s.cohortPolicy (s.cohortSeq + 1) { homeLlc := s.rrCtr % g.nrLlcs }
        .noExist id with
    | inl hsame =>
      rw [hsame] at hlookup
      exact .inl hlookup
    | inr hnew =>
      rw [hnew.2, Option.some.injEq] at hlookup
      rw [← hlookup]
      exact .inr rfl

theorem extends_enter {tgid : Tgid} (hnew : s.tgidCohort.lookup tgid = none) (id : CohortId)
    : Extends s { s with tgidCohort := s.tgidCohort.updateD tgid id .any } := by
  refine ⟨?_, fun _ _ h => h, fun _ _ h => .inl h⟩
  intro tgid' id' hlookup
  dsimp only
  rw [BoundedMap.lookup_updateD_ne, hlookup]
  intro heq
  rw [heq, hnew] at hlookup
  contradiction

theorem extends_assigned : Extends s (Bpf.assigned g s p fork parent).2 := by
  unfold Bpf.assigned
  split
  . exact (SameCohorts.refl s).extends
  . next hnew =>
    split
    . exact extends_trans (extends_fresh g s) (extends_enter (s := Bpf.withFreshCohort g s) hnew _)
    . exact extends_enter hnew _

theorem extends_callback (he : e.isCallback = true) : Extends s (Bpf.step g s e) := by
  by_cases hinit : ∃ p fork parent alloc, e = .initTask p fork parent alloc
  . obtain ⟨p, fork, parent, alloc, rfl⟩ := hinit
    rw [Bpf.step_initTask]
    split
    . have hstorage : SameCohorts s (Bpf.withStorage s p.tid) := by
        unfold Bpf.withStorage
        split <;> exact ⟨rfl, rfl⟩
      have henroll : ∀ s id, SameCohorts s (Bpf.enroll g s p id) := fun _ _ => ⟨rfl, rfl⟩
      exact extends_trans hstorage.extends (extends_trans extends_assigned (henroll _ _).extends)
    . exact (SameCohorts.refl s).extends
  . apply SameCohorts.extends
    apply sameCohorts_callback he
    intro p fork parent alloc heq
    exact hinit ⟨p, fork, parent, alloc, heq⟩

theorem Extends.tgidHome {tgid : Tgid} {home : LlcId} (h : Extends s s')
    (hhome : tgidHome s tgid = some home)
    : tgidHome s' tgid = some home := by
  rw [tgidHome_eq_some] at hhome ⊢
  obtain ⟨id, policy, hid, hpolicy, heq⟩ := hhome
  exact ⟨id, policy, h.tgids tgid id hid, h.policy id policy hpolicy, heq⟩

theorem Extends.pinnedAt {home : LlcId} (h : Extends s s') (hpinned : PinnedAt home s)
    : PinnedAt home s' := by
  intro id policy hpolicy hflags
  cases h.made id policy hpolicy with
  | inl hold => exact hpinned id policy hold hflags
  | inr hzero =>
    rw [hzero] at hflags
    exact absurd UInt32.zero_and hflags

end Callbacks

namespace Pins

variable {g : Globals} {env : TickEnv} {x : UInt32} {d : Scheduler} {w : Pins}

structure Sound (x : UInt32) (w : Pins) : Prop where
  config : ∀ d, w.daemon = some d → NamesOnly x d.config
  allocated : ∀ d, w.daemon = some d → AllAllocated d w.maps
  pinnedAt : ∀ d, w.daemon = some d → PinnedAt (wantHome d x) w.maps
  listed : ∀ m ∈ w.tasks, ∃ ts, w.maps.taskStats.lookup m.pid = some ts ∧ ts.tgid = m.tgid
  held : w.Held x

theorem sound_start (g : Globals) (hconfig : NamesOnly x d.config) : Sound x (start g d) := by
  have hstart := Bpf.cohorts_attached (g := g)
  refine ⟨?_, ?_, ?_, ?_, ?_⟩
  . intro d' hd'
    rw [← Option.some.inj hd']
    exact hconfig
  . intro d' _
    exact allAllocated_of_reached (.start d')
  . intro d' _ id policy hpolicy
    have hmem := BoundedMap.mem_iff_lookup.mpr ⟨policy, hpolicy⟩
    rw [start, hstart.policy] at hmem
    omega
  . intro m hm
    contradiction
  . intro d' _ m hm
    contradiction

theorem sound_of_dead {s : Maps} {tasks : List Pinned}
    (h : ∀ m ∈ tasks, ∃ ts, s.taskStats.lookup m.pid = some ts ∧ ts.tgid = m.tgid)
    : Sound x { maps := s, daemon := none, tasks := tasks } := by
  have hdead : ∀ d, (none : Option Scheduler) ≠ some d := fun d => (Option.some_ne_none d).symm
  exact ⟨fun d hd => absurd hd (hdead d), fun d hd => absurd hd (hdead d),
    fun d hd => absurd hd (hdead d), h, fun d hd => absurd hd (hdead d)⟩

theorem sound_callback {e : Bpf.Event} (h : Sound x w) (hsafe : w.safe x (.callback e) = true)
    : Sound x (w.next g (.callback e)) := by
  unfold next
  dsimp only
  split
  . next he =>
    have hextends := extends_callback (g := g) (s := w.maps) he
    refine ⟨h.config, ?_, ?_, ?_, ?_⟩
    . intro d hd
      exact allAllocated_callback he (h.allocated d hd) (of_decide_eq_true hsafe)
    . intro d hd
      exact hextends.pinnedAt (h.pinnedAt d hd)
    . intro m hm
      rw [List.mem_filter, decide_eq_true_eq] at hm
      obtain ⟨ts, hts, htgid⟩ := h.listed m hm.1
      obtain ⟨ts', hts', heq⟩ := stat_callback (g := g) he hm.2 hts
      exact ⟨ts', hts', heq.trans htgid⟩
    . intro d hd m hm
      exact hextends.tgidHome (h.held d hd m (List.mem_filter.mp hm).1)
  . exact h

theorem tgidHome_of_settled {s' : Maps} {d' : Scheduler} {s : Maps} {tgid : Tgid}
    {r : List CohortSnapshot × List LlcLoad} (hconfig : NamesOnly x d.config) (hall : AllAllocated d s)
    (hpinned : PinnedAt (wantHome d x) s) (hseq : s.cohortSeq.toNat < 2 ^ 32 - 1)
    (hids : daemonCohortBase.toNat + d.daemonSeq.toNat + maxCohorts ≤ 2 ^ 64)
    (hmem : tgid ∈ s.tgidCohort) (hlive : tgid ∈ (tasksSeen env d s).map (·.tgid))
    (hsettled : settled env x d s tgid = true) (hexec : exec (tick env) d s = (.ok (r, d'), s'))
    : tgidHome s' tgid = some (wantHome d x) := by
  obtain ⟨c, hc⟩ := BoundedMap.mem_iff_lookup.mp hmem
  unfold settled at hsettled
  rw [hc, Option.all_some, Option.any_eq_true] at hsettled
  obtain ⟨policy, hpolicy, hcase⟩ := hsettled
  rw [Bool.or_eq_true, Bool.and_eq_true, decide_eq_true_eq, decide_eq_true_eq] at hcase
  have hlapsed : ¬ lapsed env d s tgid := fun h => h.1 hlive
  cases hcase with
  | inl hflags =>
    rw [tgidHome_tick hall hseq hids hc hlapsed hpolicy _ hexec]
    . rw [ruled_pinnedAt hconfig hpinned hpolicy hflags]
    . intro toLlc hmove
      exact hflags (unpinned_of_move hmove hpolicy)
  | inr hhome =>
    rw [tgidHome_tick hall hseq hids hc hlapsed hpolicy _ hexec]
    . rw [hhome.1]
    . intro toLlc hmove
      have hne := List.all_eq_true.mp hhome.2 _ hmove
      exact of_decide_eq_true hne rfl

theorem mem_tgids_of_stat {s : Maps} {m : Pinned}
    (h : ∃ ts, s.taskStats.lookup m.pid = some ts ∧ ts.tgid = m.tgid)
    : m.tgid ∈ (tasksSeen env d s).map (·.tgid) := by
  obtain ⟨ts, hts, htgid⟩ := h
  unfold tasksSeen
  rw [List.map_map, List.mem_map]
  refine ⟨(m.pid, ts), ?_, htgid⟩
  rw [IterOrder.mem_order]
  exact HashTable.mem_items.mpr hts

theorem mem_pinnedNow {s : Maps} {m : Pinned} (hm : m ∈ pinnedNow env d s)
    : (∃ ts, s.taskStats.lookup m.pid = some ts ∧ ts.tgid = m.tgid) ∧ m.tgid ∈ s.tgidCohort := by
  unfold pinnedNow at hm
  rw [List.mem_map] at hm
  obtain ⟨t, ht, rfl⟩ := hm
  rw [List.mem_filter, decide_eq_true_eq] at ht
  obtain ⟨ht, _, _, hmem⟩ := ht
  refine ⟨?_, hmem⟩
  unfold tasksSeen at ht
  obtain ⟨e, he, rfl⟩ := List.mem_map.mp ht
  rw [IterOrder.mem_order] at he
  exact ⟨e.2, HashTable.mem_items.mp he, rfl⟩

theorem sound_tick (h : Sound x w) (hsafe : w.safe x (.tick env) = true)
    : Sound x (w.next g (.tick env)) := by
  unfold next
  dsimp only
  cases hd : w.daemon with
  | none => exact h
  | some d =>
    unfold safe at hsafe
    dsimp only at hsafe
    rw [hd, Option.all_some, Bool.and_eq_true, Bool.and_eq_true, decide_eq_true_eq,
      decide_eq_true_eq] at hsafe
    obtain ⟨⟨hseq, hids⟩, hsettled⟩ := hsafe
    dsimp only
    have hstats := stats_tick env d w.maps
    split
    . next r d' s' hexec =>
      rw [hexec] at hstats
      have hsame := SameConfig.of_tick hexec
      have hwant : wantHome d' x = wantHome d x := by
        unfold wantHome
        rw [hsame.llcCpus]
      have hlisted : ∀ m ∈ w.tasks ++ pinnedNow env d w.maps,
          (∃ ts, w.maps.taskStats.lookup m.pid = some ts ∧ ts.tgid = m.tgid)
            ∧ m.tgid ∈ w.maps.tgidCohort := by
        intro m hm
        cases List.mem_append.mp hm with
        | inl hm =>
          obtain ⟨id, _, hid, _⟩ := tgidHome_eq_some.mp (h.held d hd m hm)
          exact ⟨h.listed m hm, BoundedMap.mem_iff_lookup.mpr ⟨id, hid⟩⟩
        | inr hm => exact mem_pinnedNow hm
      refine ⟨?_, ?_, ?_, ?_, ?_⟩
      . intro d'' hd''
        rw [← Option.some.inj hd'', NamesOnly, hsame.config]
        exact h.config d hd
      . intro d'' hd''
        rw [← Option.some.inj hd'']
        exact allAllocated_tick (h.allocated d hd) hids hexec
      . intro d'' hd''
        rw [← Option.some.inj hd'', hwant]
        exact pinnedAt_tick (h.config d hd) (h.pinnedAt d hd) hids hexec
      . intro m hm
        dsimp only at hstats ⊢
        rw [hstats]
        exact (hlisted m hm).1
      . intro d'' hd'' m hm
        rw [← Option.some.inj hd'', hwant]
        exact tgidHome_of_settled (h.config d hd) (h.allocated d hd) (h.pinnedAt d hd) hseq hids
          (hlisted m hm).2 (mem_tgids_of_stat (hlisted m hm).1) (List.all_eq_true.mp hsettled m hm) hexec
    . next e s' hexec =>
      rw [hexec] at hstats
      apply sound_of_dead
      intro m hm
      dsimp only at hstats ⊢
      rw [hstats]
      exact h.listed m hm

theorem sound_next {t : PinTurn} (h : Sound x w) (hsafe : w.safe x t = true) : Sound x (w.next g t) := by
  cases t with
  | callback e => exact sound_callback h hsafe
  | tick env => exact sound_tick h hsafe

end Pins

theorem pins_held (g : Globals) (d : Scheduler) (x : UInt32) (hconfig : NamesOnly x d.config)
    (ts : List PinTurn)
    (hsafe : Streak.Throughout (Pins.next g) (fun w t => w.safe x t = true) (Pins.start g d) ts)
    : Streak.Throughout (Pins.next g) (fun w t => (w.next g t).Held x) (Pins.start g d) ts := by
  apply Streak.throughout_of_invariant (I := Pins.Sound x) _ (Pins.sound_start g hconfig) hsafe
  intro w t h hsafe
  have hnext := Pins.sound_next (g := g) h hsafe
  exact ⟨hnext, hnext.held⟩

section Merged

def twoCcds : Globals := { nrLlcs := 2 }

-- The rules pin the game to the first CCD, and cohorts are merged at a wakeup per second.
def pinGame : Scheduler :=
  { llcCpus := [(0, 1), (1, 1)]
    wakeGraph := { cfg := { mergeWakesPerSec := 1 } }
    config := { rules := [{ comms := some ["game".toList], pinCcd := some 0 }] } }

def game : TaskStruct :=
  { tid := 10, pid := 10, tgid := 10, comm := #v[103, 97, 109, 101, 0, 0, 0, 0, 0, 0, 0, 0, 0, 0, 0, 0] }

def helper (pid : Pid) : TaskStruct := { tid := pid.toNat, pid := pid, tgid := 20 }

theorem namesOnly_pinGame : NamesOnly 0 pinGame.config := by
  intro rule hrule ccd hccd
  unfold pinGame at hrule
  rw [List.mem_singleton] at hrule
  rw [hrule, Option.some.injEq] at hccd
  exact hccd.symm

-- One wakeup in eight is recorded.
def wokenTick : List PinTurn :=
  List.replicate 8 (.callback (.selectCpu game 0 { waker := some (helper 20) })) ++ [.tick {}]

-- The game has two tasks, and the process that wakes it one: after three such ticks that one joins the
-- game.
def gameJoined : List PinTurn :=
  [.callback (.initTask game false none true),
    .callback (.initTask { tid := 11, pid := 11, tgid := 10 } true (some game) true),
    .callback (.initTask (helper 20) false none true)]
    ++ wokenTick ++ wokenTick ++ wokenTick ++ [.tick {}]

theorem gameJoined_held
    : tgidHome (gameJoined.foldl (Pins.next twoCcds) (Pins.start twoCcds pinGame)).maps 20 = some 0
      ∧ ((gameJoined.foldl (Pins.next twoCcds) (Pins.start twoCcds pinGame)).tasks.map (·.pid))
        = [10, 10, 10, 10]
      ∧ Streak.Throughout (Pins.next twoCcds) (fun w t => (w.next twoCcds t).Held 0)
        (Pins.start twoCcds pinGame) gameJoined :=
  ⟨by decide +kernel, by decide +kernel,
    pins_held twoCcds pinGame 0 namesOnly_pinGame gameJoined (by decide +kernel)⟩

-- The process that wakes the game has more tasks than it has, and its cohort is at home on the other
-- CCD.
def gameMerged : List PinTurn :=
  [.callback (.initTask game false none true), .callback (.initTask (helper 20) false none true),
    .callback (.initTask (helper 21) false none true)]
    ++ wokenTick ++ wokenTick ++ wokenTick

theorem gameMerged_not_held
    : NamesOnly 0 pinGame.config
      ∧ ¬ Streak.Throughout (Pins.next twoCcds) (fun w t => (w.next twoCcds t).Held 0)
        (Pins.start twoCcds pinGame) gameMerged :=
  ⟨namesOnly_pinGame, by decide +kernel⟩

end Merged

end Daemon
