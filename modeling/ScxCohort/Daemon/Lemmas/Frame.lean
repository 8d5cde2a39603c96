import ScxCohort.Bpf.Lemmas.Frame
import ScxCohort.Daemon.Lemmas.Exec

/-!
This module contains what the daemon writes: a relation between states that holds of each of its writes
is kept by a whole tick, whether the tick comes to its end or not. The parts of a tick that return also
keep relations that speak of the daemon's own state.
-/

namespace Daemon

variable {α β : Type} {G : Maps → Maps → Prop}

def Keeps (G : Maps → Maps → Prop) (p : DaemonM α) : Prop := ∀ d, (p d).run.Keeps G

theorem Keeps.exec {p : DaemonM α} (hp : Keeps G p) (hrefl : ∀ s, G s s)
    (htrans : ∀ a b c, G a b → G b c → G a c) (d : Scheduler) (s : Maps)
    : G s (exec p d s).2 :=
  (hp d).run hrefl htrans s

-- Whether the first part returns or fails.
theorem exec_bind_kept {p : DaemonM α} {f : α → DaemonM β} {d : Scheduler} {s : Maps}
    (htrans : ∀ a b c, G a b → G b c → G a c) (hp : G s (Daemon.exec p d s).2)
    (hf : ∀ a d' s', Daemon.exec p d s = (.ok (a, d'), s') → G s' (Daemon.exec (f a) d' s').2)
    : G s (Daemon.exec (p >>= f) d s).2 := by
  rw [exec_bind]
  split
  . next a d' s' heq =>
    rw [heq] at hp
    exact htrans _ _ _ hp (hf a d' s' heq)
  . next e s' heq =>
    rw [heq] at hp
    exact hp

theorem keeps_pure {a : α} : Keeps G (pure a : DaemonM α) := fun _ => trivial

theorem keeps_get : Keeps G (get : DaemonM Scheduler) := fun _ => trivial

theorem keeps_set {d : Scheduler} : Keeps G (set d : DaemonM PUnit) := fun _ => trivial

theorem keeps_modify {f : Scheduler → Scheduler} : Keeps G (modify f : DaemonM PUnit) :=
  fun _ => trivial

theorem keeps_attempt {q : BpfM α} (hq : q.Keeps G) : Keeps G (attempt q) := by
  intro d
  apply Proc.keeps_bind hq
  intro a
  trivial

theorem keeps_require {q : BpfM (Except MapErr α)} (hq : q.Keeps G) : Keeps G (require q) := by
  intro d
  apply Proc.keeps_bind hq
  intro r
  trivial

theorem keeps_bind {p : DaemonM α} {f : α → DaemonM β} (hp : Keeps G p) (hf : ∀ a, Keeps G (f a))
    : Keeps G (p >>= f) := by
  intro d
  have hbind : (p >>= f) d = p d >>= fun r => f r.1 r.2 := rfl
  rw [hbind, ExceptT.run_bind]
  apply Proc.keeps_bind (hp d)
  intro r
  cases r with
  | ok r => exact hf r.1 r.2
  | error e => trivial

theorem keeps_forM_mem {f : β → DaemonM PUnit} {l : List β} (hf : ∀ b ∈ l, Keeps G (f b))
    : Keeps G (l.forM f) := by
  induction l with
  | nil => exact keeps_pure
  | cons b l ih =>
    apply keeps_bind (hf b List.mem_cons_self)
    intro _
    exact ih fun b' hb' => hf b' (List.mem_cons_of_mem b hb')

theorem keeps_forM {f : β → DaemonM PUnit} (l : List β) (hf : ∀ b, Keeps G (f b))
    : Keeps G (l.forM f) :=
  keeps_forM_mem fun b _ => hf b

-- Only the last part of a program that returns decides what it returns.
theorem returns_bind {p : DaemonM α} {f : α → DaemonM β} {d : Scheduler}
    {Q : Except MapErr (β × Scheduler) → Prop} (hf : ∀ a d, (f a d).run.Returns Q)
    (herror : ∀ e, Q (.error e))
    : ((p >>= f) d).run.Returns Q := by
  have hbind : (p >>= f) d = p d >>= fun r => f r.1 r.2 := rfl
  rw [hbind, ExceptT.run_bind]
  apply Proc.returns_bind
  intro r
  cases r with
  | ok r => exact hf r.1 r.2
  | error e => exact herror e

-- What `place` does after the survey.
def moveAndSpill (env : TickEnv) (view : TickView) : DaemonM TickView := do
  let decisions ← planMoves env view.llcs view.cohorts
  apply decisions
  let d ← get
  applySpills env (planSpills d.spillCfg view.llcs view.tasks d.currentSpills view.cohorts)
  return view

theorem place_eq (env : TickEnv) : place env = survey env >>= moveAndSpill env := rfl

-- What a tick writes where it deletes nothing.
structure KeepsUpdates (G : Maps → Maps → Prop) : Prop where
  refl : ∀ s, G s s
  policy : ∀ s id policy flag, G s { s with cohortPolicy := s.cohortPolicy.updateD id policy flag }
  counters : ∀ s id counters flag,
    G s { s with cohortCounters := s.cohortCounters.updateD id counters flag }
  tgid : ∀ s tgid id flag, G s { s with tgidCohort := s.tgidCohort.updateD tgid id flag }
  spill : ∀ s m, G s { s with spillTasks := m }
  edges : ∀ s m, G s { s with wakeEdges := m }

namespace KeepsUpdates

variable {env : TickEnv}

theorem batch {κ ν : Type} {o : IterOrder} {m : MapName} {table : Maps → HashTable κ ν}
    (h : KeepsUpdates G)
    : Keeps G (Daemon.batch o m table) := by
  apply keeps_attempt
  apply Proc.keeps_atomic
  intro s
  apply h.refl

theorem load {m : MapName} {f : Maps → β} (h : KeepsUpdates G)
    : Keeps G (attempt (Bpf.load m f)) :=
  keeps_attempt (Bpf.keeps_load h.refl)

theorem tryUpdate {m : MapName} {upd : Maps → Except MapErr Maps} {f : Maps → Maps}
    (hrun : ∀ s, ((Bpf.tryUpdate m upd).run s).2 = f s) (hf : ∀ s, G s (f s))
    : (Bpf.tryUpdate m upd).Keeps G := by
  apply Proc.keeps_atomic
  intro s
  have := hf s
  rw [← hrun s] at this
  exact this

theorem updatePolicy {id : CohortId} {policy : CohortPolicy} {flag : UpdateFlag} (h : KeepsUpdates G)
    : (Bpf.updatePolicy id policy flag).Keeps G :=
  tryUpdate (fun s => Bpf.run_updatePolicy s id flag policy) fun s => h.policy s _ _ _

theorem updateCounters {id : CohortId} {counters : CohortCounters} {flag : UpdateFlag}
    (h : KeepsUpdates G)
    : (Bpf.updateCounters id counters flag).Keeps G :=
  tryUpdate (fun s => Bpf.run_updateCounters s id flag counters) fun s => h.counters s _ _ _

theorem updateTgidCohort {tgid : Tgid} {id : CohortId} {flag : UpdateFlag} (h : KeepsUpdates G)
    : (Bpf.updateTgidCohort tgid id flag).Keeps G :=
  tryUpdate (fun s => Bpf.run_updateTgidCohort s id flag tgid) fun s => h.tgid s _ _ _

theorem updateSpill {pid : Pid} {llc : LlcId} (h : KeepsUpdates G) : (Bpf.updateSpill pid llc).Keeps G :=
  tryUpdate (fun s => Bpf.run_updateSpill s pid llc) fun s => h.spill s _

theorem snapshotTasks (h : KeepsUpdates G) : Keeps G (Daemon.snapshotTasks env) := by
  unfold Daemon.snapshotTasks
  apply keeps_bind h.batch
  intro entries
  apply keeps_bind keeps_get
  intro d
  apply keeps_bind keeps_set
  intro _
  exact keeps_pure

theorem snapshotTgidCohort (h : KeepsUpdates G) : Keeps G (Daemon.snapshotTgidCohort env) := by
  unfold Daemon.snapshotTgidCohort
  apply keeps_bind h.batch
  intro entries
  exact keeps_pure

theorem pinCohort {cohort : CohortId} {ccd : UInt32} (h : KeepsUpdates G)
    : Keeps G (Daemon.pinCohort cohort ccd) := by
  unfold Daemon.pinCohort
  apply keeps_bind h.load
  intro policy
  split
  . exact keeps_pure
  . apply keeps_bind keeps_get
    intro d
    dsimp only
    split
    . exact keeps_require h.updatePolicy
    . exact keeps_pure

theorem applyRules {tasks : List TaskSnapshot} (h : KeepsUpdates G)
    : Keeps G (Daemon.applyRules env tasks) := by
  unfold Daemon.applyRules
  apply keeps_bind keeps_get
  intro d
  dsimp only
  split
  . exact keeps_pure
  . apply keeps_bind keeps_set
    intro _
    apply keeps_forM
    intro pin
    exact h.pinCohort

theorem llcLoads (h : KeepsUpdates G) : Keeps G Daemon.llcLoads := by
  have hread : ∀ tickNs llcs, Keeps G (Daemon.readLlcLoads tickNs llcs) := by
    intro tickNs llcs
    induction llcs with
    | nil => exact keeps_pure
    | cons e rest ih =>
      apply keeps_bind h.load
      intro cur
      apply keeps_bind keeps_get
      intro d
      apply keeps_bind keeps_modify
      intro _
      apply keeps_bind ih
      intro out
      exact keeps_pure
  unfold Daemon.llcLoads
  apply keeps_bind keeps_get
  intro d
  exact hread _ _

theorem apply {decisions : List Decision} (h : KeepsUpdates G) : Keeps G (Daemon.apply decisions) := by
  unfold Daemon.apply
  apply keeps_forM
  intro decision
  cases decision with
  | moveCohort id toLlc =>
    unfold applyDecision
    apply keeps_bind h.load
    intro policy
    split
    . exact keeps_pure
    . apply keeps_bind (keeps_require h.updatePolicy)
      intro _
      exact keeps_modify

theorem applySpills {desired : Spills} (h : KeepsUpdates G)
    : Keeps G (Daemon.applySpills env desired) := by
  unfold Daemon.applySpills
  apply keeps_bind keeps_get
  intro d
  apply keeps_bind
  . apply keeps_forM
    intro e
    unfold setSpill
    split
    . exact keeps_require h.updateSpill
    . exact keeps_pure
  . intro _
    apply keeps_bind
    . apply keeps_forM
      intro pid
      unfold unsetSpill
      split
      . apply keeps_attempt
        apply Proc.keeps_atomic
        intro s
        apply h.spill
      . exact keeps_pure
    . intro _
      exact keeps_modify

theorem planMoves {llcs : List LlcLoad} {cohorts : List CohortSnapshot}
    : Keeps G (Daemon.planMoves env llcs cohorts) := by
  unfold Daemon.planMoves
  apply keeps_bind keeps_get
  intro d
  apply keeps_bind keeps_set
  intro _
  exact keeps_pure

theorem moveAndSpill {view : TickView} (h : KeepsUpdates G)
    : Keeps G (Daemon.moveAndSpill env view) := by
  unfold Daemon.moveAndSpill
  apply keeps_bind planMoves
  intro decisions
  apply keeps_bind h.apply
  intro _
  apply keeps_bind keeps_get
  intro d
  apply keeps_bind h.applySpills
  intro _
  exact keeps_pure

theorem observeEdges (h : KeepsUpdates G) : Keeps G (Daemon.observeEdges env) := by
  unfold Daemon.observeEdges snapshotEdges
  apply keeps_bind
  . apply keeps_bind
    . apply keeps_attempt
      apply Proc.keeps_atomic
      intro s
      apply h.edges
    . intro entries
      exact keeps_pure
  . intro deltas
    exact keeps_modify

theorem planMerges {T : HashTable Tgid CohortId} {sizes : HashTable CohortId UInt64}
    : Keeps G (Daemon.planMerges env T sizes) := by
  unfold Daemon.planMerges
  apply keeps_bind keeps_get
  intro d
  apply keeps_bind keeps_set
  intro _
  exact keeps_pure

theorem planSplits {groups : HashTable CohortId WakeGraph.Members}
    : Keeps G (Daemon.planSplits env groups) := by
  unfold Daemon.planSplits
  apply keeps_bind keeps_get
  intro d
  apply keeps_bind keeps_set
  intro _
  exact keeps_pure

theorem applySplit {plan : SplitPlan} (h : KeepsUpdates G) : Keeps G (Daemon.applySplit plan) := by
  unfold Daemon.applySplit
  apply keeps_bind h.load
  intro policy
  split
  . exact keeps_pure
  . apply keeps_bind keeps_get
    intro d
    apply keeps_bind keeps_modify
    intro _
    apply keeps_bind (keeps_require h.updatePolicy)
    intro _
    apply keeps_bind (keeps_require h.updateCounters)
    intro _
    apply keeps_bind
    . apply keeps_forM
      intro tgid
      unfold splitTgid
      apply keeps_bind h.load
      intro id
      split
      . exact keeps_pure
      . exact keeps_require h.updateTgidCohort
    . intro _
      exact keeps_modify

end KeepsUpdates

structure KeepsDrops (G : Maps → Maps → Prop) : Prop extends KeepsUpdates G where
  dropPolicy : ∀ s id, G s { s with cohortPolicy := s.cohortPolicy.delete id }
  dropCounters : ∀ s id, G s { s with cohortCounters := s.cohortCounters.delete id }

namespace KeepsDrops

variable {env : TickEnv}

theorem deleteCohort {id : CohortId} (h : KeepsDrops G) : Keeps G (Daemon.deleteCohort id) := by
  unfold Daemon.deleteCohort
  apply keeps_bind
  . apply keeps_attempt
    apply Proc.keeps_atomic
    intro s
    apply h.dropCounters
  . intro _
    apply keeps_attempt
    apply Proc.keeps_atomic
    intro s
    apply h.dropPolicy

theorem snapshotCohorts {tasks : List TaskSnapshot} {tgidCohort : HashTable Tgid CohortId}
    (h : KeepsDrops G)
    : Keeps G (Daemon.snapshotCohorts env tasks tgidCohort) := by
  unfold Daemon.snapshotCohorts
  apply keeps_bind h.batch
  intro policies
  apply keeps_bind h.batch
  intro counters
  apply keeps_bind keeps_get
  intro d
  apply keeps_bind
  . apply keeps_forM
    intro id
    exact h.deleteCohort
  . intro _
    apply keeps_bind keeps_set
    intro _
    exact keeps_pure

theorem applyMerge {tgidCohort : HashTable Tgid CohortId} {plan : MergePlan} (h : KeepsDrops G)
    : Keeps G (Daemon.applyMerge env tgidCohort plan) := by
  unfold Daemon.applyMerge
  apply keeps_bind h.load
  intro into
  split
  . exact keeps_pure
  . apply keeps_bind h.load
    intro src
    split
    . exact keeps_pure
    . apply keeps_bind
      . apply keeps_forM
        intro e
        unfold retarget
        split
        . apply keeps_bind (keeps_attempt h.updateTgidCohort)
          intro _
          exact keeps_pure
        . exact keeps_pure
      . intro _
        apply keeps_bind h.deleteCohort
        intro _
        exact keeps_modify

theorem discoverRelationships {cohorts : List CohortSnapshot} {tasks : List TaskSnapshot}
    {tgidCohort : HashTable Tgid CohortId} (h : KeepsDrops G)
    : Keeps G (Daemon.discoverRelationships env cohorts tasks tgidCohort) := by
  unfold Daemon.discoverRelationships
  apply keeps_bind h.observeEdges
  intro _
  apply keeps_bind KeepsUpdates.planMerges
  intro merges
  apply keeps_bind
  . apply keeps_forM
    intro plan
    exact h.applyMerge
  . intro _
    apply keeps_bind KeepsUpdates.planSplits
    intro splits
    apply keeps_forM
    intro plan
    exact h.applySplit

end KeepsDrops

structure KeepsWrites (G : Maps → Maps → Prop) : Prop extends KeepsDrops G where
  dropTgid : ∀ s tgid, G s { s with tgidCohort := s.tgidCohort.delete tgid }

namespace KeepsWrites

variable {env : TickEnv}

theorem gcTgidMap {tasks : List TaskSnapshot} {tgidCohort : HashTable Tgid CohortId}
    (h : KeepsWrites G)
    : Keeps G (Daemon.gcTgidMap env tgidCohort tasks) := by
  unfold Daemon.gcTgidMap
  apply keeps_bind keeps_get
  intro d
  apply keeps_bind
  . apply keeps_forM
    intro tgid
    apply keeps_attempt
    apply Proc.keeps_atomic
    intro s
    apply h.dropTgid
  . intro _
    exact keeps_set

theorem survey (h : KeepsWrites G) : Keeps G (Daemon.survey env) := by
  unfold Daemon.survey
  apply keeps_bind h.snapshotTasks
  intro tasks
  apply keeps_bind h.snapshotTgidCohort
  intro tgidCohort
  apply keeps_bind h.applyRules
  intro _
  apply keeps_bind h.snapshotCohorts
  intro cohorts
  apply keeps_bind h.gcTgidMap
  intro _
  apply keeps_bind h.llcLoads
  intro llcs
  exact keeps_pure

theorem place (h : KeepsWrites G) : Keeps G (Daemon.place env) := by
  rw [place_eq]
  apply keeps_bind h.survey
  intro view
  exact h.moveAndSpill

theorem tick (h : KeepsWrites G) : Keeps G (Daemon.tick env) := by
  unfold Daemon.tick
  apply keeps_bind h.place
  intro view
  apply keeps_bind h.discoverRelationships
  intro _
  exact keeps_pure

end KeepsWrites

section Tick

variable {G : Scheduler → Maps → Scheduler → Maps → Prop} {env : TickEnv}

-- What the snapshots write: entries are at most dropped.
structure CarriesSnapshots (G : Scheduler → Maps → Scheduler → Maps → Prop) : Prop where
  refl : ∀ d s, G d s d s
  trans : ∀ d₁ s₁ d₂ s₂ d₃ s₃, G d₁ s₁ d₂ s₂ → G d₂ s₂ d₃ s₃ → G d₁ s₁ d₃ s₃
  dropPolicy : ∀ d s id, G d s d { s with cohortPolicy := s.cohortPolicy.delete id }
  dropCounters : ∀ d s id, G d s d { s with cohortCounters := s.cohortCounters.delete id }
  dropTgid : ∀ d s tgid, G d s d { s with tgidCohort := s.tgidCohort.delete tgid }
  note : ∀ d s runtime loadSum llcLoad cohorts tgids balancer,
    G d s
      { d with
        prevRuntime := runtime, prevLoadSum := loadSum, prevLlcLoad := llcLoad
        deadCohorts := cohorts, deadTgids := tgids, balancer := balancer }
      s

namespace CarriesSnapshots

theorem batch {κ ν : Type} {o : IterOrder} {m : MapName} {table : Maps → HashTable κ ν}
    (h : CarriesSnapshots G)
    : Carries G (Daemon.batch o m table) :=
  carries_attempt fun d s => h.refl d s

theorem load {m : MapName} {f : Maps → β} (h : CarriesSnapshots G)
    : Carries G (attempt (Bpf.load m f)) :=
  carries_attempt fun d s => h.refl d s

theorem snapshotTasks (h : CarriesSnapshots G) : Carries G (Daemon.snapshotTasks env) := by
  unfold Daemon.snapshotTasks
  apply carries_bind h.trans h.batch
  intro entries
  apply carries_get_bind
  intro d s b d' s' hexec
  rw [exec_bind_ok (exec_set _ _ _)] at hexec
  apply h.trans _ _ _ _ _ _ (h.note d s _ _ _ _ _ _)
  exact carries_pure h.refl _ _ _ _ _ hexec

theorem snapshotTgidCohort (h : CarriesSnapshots G) : Carries G (Daemon.snapshotTgidCohort env) := by
  unfold Daemon.snapshotTgidCohort
  apply carries_bind h.trans h.batch
  intro entries
  exact carries_pure h.refl

-- A loop that deletes leaves the daemon's own state alone.
theorem still_trans (h : CarriesSnapshots G) (d₁ : Scheduler) (s₁ : Maps) (d₂ : Scheduler) (s₂ : Maps)
    (d₃ : Scheduler) (s₃ : Maps) (h₁ : d₂ = d₁ ∧ G d₁ s₁ d₂ s₂) (h₂ : d₃ = d₂ ∧ G d₂ s₂ d₃ s₃)
    : d₃ = d₁ ∧ G d₁ s₁ d₃ s₃ :=
  ⟨h₂.1.trans h₁.1, h.trans _ _ _ _ _ _ h₁.2 h₂.2⟩

theorem deleteCohort {id : CohortId} (h : CarriesSnapshots G)
    : Carries (fun d s d' s' => d' = d ∧ G d s d' s') (Daemon.deleteCohort id) := by
  unfold Daemon.deleteCohort
  apply carries_bind h.still_trans
  . exact carries_attempt fun d s => ⟨rfl, h.dropCounters d s id⟩
  . intro _
    exact carries_attempt fun d s => ⟨rfl, h.dropPolicy d s id⟩

theorem snapshotCohorts {tasks : List TaskSnapshot} {tgidCohort : HashTable Tgid CohortId}
    (h : CarriesSnapshots G)
    : Carries G (Daemon.snapshotCohorts env tasks tgidCohort) := by
  unfold Daemon.snapshotCohorts
  apply carries_bind h.trans h.batch
  intro policies
  apply carries_bind h.trans h.batch
  intro counters
  apply carries_get_bind
  intro d s b d' s' hexec
  obtain ⟨_, d₁, s₁, h₁, hexec⟩ := exec_bind_inv hexec
  obtain ⟨rfl, hdelete⟩ := carries_forM h.still_trans (fun d s => ⟨rfl, h.refl d s⟩)
    (fun _ _ => h.deleteCohort) _ _ _ _ _ h₁
  rw [exec_bind_ok (exec_set _ _ _)] at hexec
  apply h.trans _ _ _ _ _ _ hdelete
  apply h.trans _ _ _ _ _ _ (h.note _ _ _ _ _ _ _ _)
  exact carries_pure h.refl _ _ _ _ _ hexec

theorem gcTgidMap {tgidCohort : HashTable Tgid CohortId} {tasks : List TaskSnapshot}
    (h : CarriesSnapshots G)
    : Carries G (Daemon.gcTgidMap env tgidCohort tasks) := by
  unfold Daemon.gcTgidMap
  apply carries_get_bind
  intro d s b d' s' hexec
  obtain ⟨_, d₁, s₁, h₁, hexec⟩ := exec_bind_inv hexec
  have hone : ∀ tgid,
      Carries (fun d s d' s' => d' = d ∧ G d s d' s') (attempt (Bpf.deleteTgidCohort tgid)) := by
    intro tgid
    exact carries_attempt fun d s => ⟨rfl, h.dropTgid d s tgid⟩
  obtain ⟨rfl, hdelete⟩ := carries_forM h.still_trans (fun d s => ⟨rfl, h.refl d s⟩)
    (fun tgid _ => hone tgid) _ _ _ _ _ h₁
  obtain ⟨_, rfl, rfl⟩ := exec_inj hexec (exec_set ..)
  exact h.trans _ _ _ _ _ _ hdelete (h.note _ _ _ _ _ _ _ _)

theorem llcLoads (h : CarriesSnapshots G) : Carries G Daemon.llcLoads := by
  have hread : ∀ tickNs llcs, Carries G (Daemon.readLlcLoads tickNs llcs) := by
    intro tickNs llcs
    induction llcs with
    | nil => exact carries_pure h.refl
    | cons e rest ih =>
      apply carries_bind h.trans h.load
      intro cur
      apply carries_bind h.trans (carries_get h.refl)
      intro d
      apply carries_bind h.trans (carries_modify fun d s => h.note d s _ _ _ _ _ _)
      intro _
      apply carries_bind h.trans ih
      intro out
      exact carries_pure h.refl
  unfold Daemon.llcLoads
  apply carries_bind h.trans (carries_get h.refl)
  intro d
  exact hread _ _

end CarriesSnapshots

-- The rules may also change a cohort's policy.
structure CarriesSurvey (G : Scheduler → Maps → Scheduler → Maps → Prop) : Prop
    extends CarriesSnapshots G where
  setPolicy : ∀ d s id policy,
    G d s d { s with cohortPolicy := s.cohortPolicy.updateD id policy .exist }
  rules : ∀ d s cache overrides, G d s { d with cgroupCache := cache, residencyOverrides := overrides } s

namespace CarriesSurvey

theorem updatePolicy {id : CohortId} {policy : CohortPolicy} (h : CarriesSurvey G)
    : Carries G (require (Bpf.updatePolicy id policy .exist)) := by
  apply carries_require
  intro d s
  rw [Bpf.run_updatePolicy]
  exact h.setPolicy d s id policy

theorem pinCohort {cohort : CohortId} {ccd : UInt32} (h : CarriesSurvey G)
    : Carries G (Daemon.pinCohort cohort ccd) := by
  unfold Daemon.pinCohort
  apply carries_bind h.trans h.load
  intro policy
  split
  . exact carries_pure h.refl
  . apply carries_bind h.trans (carries_get h.refl)
    intro d
    dsimp only
    split
    . exact h.updatePolicy
    . exact carries_pure h.refl

theorem applyRules {tasks : List TaskSnapshot} (h : CarriesSurvey G)
    : Carries G (Daemon.applyRules env tasks) := by
  unfold Daemon.applyRules
  apply carries_get_bind
  intro d s b d' s' hexec
  split at hexec
  . exact carries_pure h.refl d s b d' s' hexec
  . rw [exec_bind_ok (exec_set _ _ _)] at hexec
    apply h.trans _ _ _ _ _ _ (h.rules d s _ _)
    exact carries_forM h.trans h.refl (fun _ _ => h.pinCohort) _ _ _ _ _ hexec

theorem survey (h : CarriesSurvey G) : Carries G (Daemon.survey env) := by
  unfold Daemon.survey
  apply carries_bind h.trans h.snapshotTasks
  intro tasks
  apply carries_bind h.trans h.snapshotTgidCohort
  intro tgidCohort
  apply carries_bind h.trans h.applyRules
  intro _
  apply carries_bind h.trans h.snapshotCohorts
  intro cohorts
  apply carries_bind h.trans h.gcTgidMap
  intro _
  apply carries_bind h.trans h.llcLoads
  intro llcs
  exact carries_pure h.refl

end CarriesSurvey

structure CarriesSpills (G : Scheduler → Maps → Scheduler → Maps → Prop) : Prop where
  refl : ∀ d s, G d s d s
  trans : ∀ d₁ s₁ d₂ s₂ d₃ s₃, G d₁ s₁ d₂ s₂ → G d₂ s₂ d₃ s₃ → G d₁ s₁ d₃ s₃
  spill : ∀ d s m, G d s d { s with spillTasks := m }
  spilled : ∀ d s current, G d s { d with currentSpills := current } s

theorem CarriesSpills.applySpills {desired : Spills} (h : CarriesSpills G)
    : Carries G (Daemon.applySpills env desired) := by
  unfold Daemon.applySpills
  apply carries_bind h.trans (carries_get h.refl)
  intro d
  apply carries_bind h.trans
  . apply carries_forM h.trans h.refl
    intro e _
    unfold setSpill
    split
    . apply carries_require
      intro d s
      rw [Bpf.run_updateSpill]
      exact h.spill d s _
    . exact carries_pure h.refl
  . intro _
    apply carries_bind h.trans
    . apply carries_forM h.trans h.refl
      intro pid _
      unfold unsetSpill
      split
      . exact carries_attempt fun d s => h.spill d s _
      . exact carries_pure h.refl
    . intro _
      exact carries_modify fun d s => h.spilled d s _

-- What comes between the survey and the search for merges and splits.
structure CarriesMoves (G : Scheduler → Maps → Scheduler → Maps → Prop) : Prop
    extends CarriesSpills G where
  balancer : ∀ d s balancer, G d s { d with balancer := balancer } s
  setPolicy : ∀ d s id policy,
    G d s d { s with cohortPolicy := s.cohortPolicy.updateD id policy .exist }
  moved : ∀ d s n, G d s { d with nrMigrations := n } s

namespace CarriesMoves

theorem load {m : MapName} {f : Maps → β} (h : CarriesMoves G)
    : Carries G (attempt (Bpf.load m f)) :=
  carries_attempt fun d s => h.refl d s

theorem planMoves {llcs : List LlcLoad} {cohorts : List CohortSnapshot} (h : CarriesMoves G)
    : Carries G (Daemon.planMoves env llcs cohorts) := by
  unfold Daemon.planMoves
  apply carries_get_bind
  intro d s b d' s' hexec
  rw [exec_bind_ok (exec_set _ _ _)] at hexec
  apply h.trans _ _ _ _ _ _ (h.balancer d s _)
  exact carries_pure h.refl _ _ _ _ _ hexec

theorem apply {decisions : List Decision} (h : CarriesMoves G)
    : Carries G (Daemon.apply decisions) := by
  unfold Daemon.apply
  apply carries_forM h.trans h.refl
  intro decision _
  cases decision with
  | moveCohort id toLlc =>
    unfold applyDecision
    apply carries_bind h.trans h.load
    intro policy
    split
    . exact carries_pure h.refl
    . apply carries_bind h.trans
      . apply carries_require
        intro d s
        rw [Bpf.run_updatePolicy]
        exact h.setPolicy d s id _
      . intro _
        exact carries_modify fun d s => h.moved d s _

theorem moveAndSpill {view : TickView} (h : CarriesMoves G)
    : Carries G (Daemon.moveAndSpill env view) := by
  unfold Daemon.moveAndSpill
  apply carries_bind h.trans h.planMoves
  intro decisions
  apply carries_bind h.trans h.apply
  intro _
  apply carries_bind h.trans (carries_get h.refl)
  intro d
  apply carries_bind h.trans h.applySpills
  intro _
  exact carries_pure h.refl

end CarriesMoves

structure CarriesPlace (G : Scheduler → Maps → Scheduler → Maps → Prop) : Prop
    extends CarriesSurvey G where
  moved : ∀ d s n, G d s { d with nrMigrations := n } s
  spill : ∀ d s m, G d s d { s with spillTasks := m }
  spilled : ∀ d s current, G d s { d with currentSpills := current } s

namespace CarriesPlace

theorem carriesMoves (h : CarriesPlace G) : CarriesMoves G where
  refl := h.refl
  trans := h.trans
  balancer := fun d s balancer => h.note d s _ _ _ _ _ balancer
  setPolicy := h.setPolicy
  moved := h.moved
  spill := h.spill
  spilled := h.spilled

theorem place (h : CarriesPlace G) : Carries G (Daemon.place env) := by
  rw [place_eq]
  apply carries_bind h.trans h.survey
  intro view
  exact h.carriesMoves.moveAndSpill

end CarriesPlace

end Tick

end Daemon
