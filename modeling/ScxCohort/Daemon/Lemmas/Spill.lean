import ScxCohort.Daemon.Lemmas.Frame
import ScxCohort.Daemon.Lemmas.Survey

/-!
This module contains where the spilled tasks of a cohort run relative to its home. A task that stays
spilled keeps its target, so a home that moves can catch up with it.
-/

section Plan

variable {cfg : SpillCfg} {llcs : List LlcLoad} {tasks : List TaskSnapshot} {current : Spills}

-- The marks of a cohort's home, if its capacity is known.
def lowMark (cfg : SpillCfg) (cap : UInt64) : UInt64 := cap * cfg.lowPct / 100

def highMark (cfg : SpillCfg) (cap : UInt64) : UInt64 := cap * cfg.highPct / 100

def staysSpilled (cfg : SpillCfg) (llcs : List LlcLoad) (c : CohortSnapshot) : Bool :=
  ((spillCapacity llcs).lookup c.homeLlc).any fun cap => lowMark cfg cap ≤ c.loadNs

-- There is an excess over the high mark, and someone cold to shed it.
def growsSpill (cfg : SpillCfg) (llcs : List LlcLoad) (tasks : List TaskSnapshot)
    (current : Spills) (c : CohortSnapshot) : Bool :=
  (((spillCapacity llcs).lookup c.homeLlc).any fun cap => highMark cfg cap < c.loadNs)
    && !(coldMembers cfg tasks current c).isEmpty

-- Where an entry of the planned spills comes from.
structure Planned (cfg : SpillCfg) (llcs : List LlcLoad) (tasks : List TaskSnapshot)
    (current : Spills) (c : CohortSnapshot) (pid : Pid) (llc : LlcId) : Prop where
  task : ∃ t ∈ tasks, t.pid = pid ∧ t.cohortId = c.id
  stays : staysSpilled cfg llcs c = true
  target : current.lookup pid = some llc
    ∨ spillTarget llcs c = some llc ∧ growsSpill cfg llcs tasks current c = true

theorem mem_alreadySpilled {c : CohortSnapshot} {pid : Pid}
    : pid ∈ alreadySpilled tasks current c
        ↔
      pid ∈ current ∧ ∃ t ∈ tasks, t.pid = pid ∧ t.cohortId = c.id := by
  unfold alreadySpilled
  simp only [List.mem_map, List.mem_filter, decide_eq_true_eq]
  constructor
  . intro h
    obtain ⟨t, ⟨ht, hcohort, hmem⟩, heq⟩ := h
    rw [← heq]
    exact ⟨hmem, t, ht, rfl, hcohort⟩
  . intro h
    obtain ⟨hmem, t, ht, heq, hcohort⟩ := h
    rw [← heq] at hmem
    exact ⟨t, ⟨ht, hcohort, hmem⟩, heq⟩

theorem lookup_keepSpilled_eq (c : CohortSnapshot) (desired : Spills) (pid : Pid)
    : (keepSpilled tasks current c desired).lookup pid
        =
      if pid ∈ alreadySpilled tasks current c then current.lookup pid else desired.lookup pid := by
  have hfold : ∀ (l : List Pid) (desired : Spills), (∀ p ∈ l, p ∈ current)
      → (l.foldl (fun desired pid => desired.insert pid ((current.lookup pid).getD 0))
            desired).lookup pid
          = if pid ∈ l then current.lookup pid else desired.lookup pid := by
    intro l
    induction l with
    | nil =>
      intro desired _
      rw [List.foldl_nil, if_neg List.not_mem_nil]
    | cons p l ih =>
      intro desired hl
      obtain ⟨v, hv⟩ := Option.isSome_iff_exists.mp (AList.lookup_isSome.mpr (hl p List.mem_cons_self))
      rw [List.foldl_cons, ih _ (fun p' hp' => hl p' (List.mem_cons_of_mem _ hp'))]
      rw [HashTable.lookup_insert_eq, hv, Option.getD_some]
      by_cases heq : pid = p
      . subst heq
        rw [if_pos rfl, if_pos List.mem_cons_self, hv, ite_self]
      . rw [if_neg heq]
        simp only [List.mem_cons, heq, false_or]
  unfold keepSpilled
  apply hfold
  intro p hp
  exact (mem_alreadySpilled.mp hp).1

theorem lookup_keepSpilled {c : CohortSnapshot} {desired : Spills} {pid : Pid} {llc : LlcId}
    (h : (keepSpilled tasks current c desired).lookup pid = some llc)
    : desired.lookup pid = some llc
      ∨ current.lookup pid = some llc ∧ ∃ t ∈ tasks, t.pid = pid ∧ t.cohortId = c.id := by
  rw [lookup_keepSpilled_eq] at h
  split at h
  . next hmem => exact .inr ⟨h, (mem_alreadySpilled.mp hmem).2⟩
  . exact .inl h

-- The members that `growSpills` goes through before it stops.
def taken (excess : UInt64) : UInt64 → List TaskSnapshot → List TaskSnapshot
  | _, [] => []
  | shed, t :: ts => if shed ≥ excess then [] else t :: taken excess (shed + max t.dutyNs 1) ts

theorem lookup_growSpills_eq (target : LlcId) (excess : UInt64) (desired : Spills) (shed : UInt64)
    (members : List TaskSnapshot) (pid : Pid)
    : (growSpills target excess desired shed members).lookup pid
        =
      if pid ∈ (taken excess shed members).map (·.pid) then some target else desired.lookup pid := by
  induction members generalizing desired shed with
  | nil => rfl
  | cons t members ih =>
    unfold growSpills taken
    split
    . rfl
    . rw [ih, HashTable.lookup_insert_eq]
      by_cases heq : pid = t.pid
      . simp [heq]
      . simp [heq]

theorem mem_of_mem_taken {excess shed : UInt64} {members : List TaskSnapshot} {t : TaskSnapshot}
    (h : t ∈ taken excess shed members)
    : t ∈ members := by
  induction members generalizing shed with
  | nil => exact h
  | cons t' members ih =>
    unfold taken at h
    split at h
    . contradiction
    . cases List.mem_cons.mp h with
      | inl heq => rw [heq]; exact List.mem_cons_self
      | inr h => exact List.mem_cons_of_mem _ (ih h)

theorem taken_zero (shed : UInt64) (members : List TaskSnapshot) : taken 0 shed members = [] := by
  cases members with
  | nil => rfl
  | cons t members =>
    unfold taken
    rw [if_pos]
    exact UInt64.le_iff_toNat_le.mpr (Nat.zero_le _)

theorem lookup_growSpills {target : LlcId} {excess : UInt64} {members : List TaskSnapshot}
    {desired : Spills} {shed : UInt64} {pid : Pid} {llc : LlcId}
    (h : (growSpills target excess desired shed members).lookup pid = some llc)
    : desired.lookup pid = some llc
      ∨ (llc = target ∧ 0 < excess ∧ ∃ t ∈ members, t.pid = pid) := by
  rw [lookup_growSpills_eq] at h
  split at h
  . next hmem =>
    obtain ⟨t, ht, hpid⟩ := List.mem_map.mp hmem
    simp only [Option.some.injEq] at h
    refine .inr ⟨h.symm, ?_, t, mem_of_mem_taken ht, hpid⟩
    apply UInt64.pos_iff_ne_zero.mpr
    intro hzero
    rw [hzero, taken_zero] at ht
    contradiction
  . exact .inl h

theorem lookup_planCohortSpills {desired : Spills} {c : CohortSnapshot} {pid : Pid} {llc : LlcId}
    (h : (planCohortSpills cfg llcs tasks current desired c).lookup pid = some llc)
    : desired.lookup pid = some llc ∨ Planned cfg llcs tasks current c pid llc := by
  unfold planCohortSpills at h
  split at h
  . next cap target hcap htarget =>
    dsimp only at h
    split at h
    . exact .inl h
    . next hlow =>
      have hstays : staysSpilled cfg llcs c = true := by
        unfold staysSpilled
        rw [hcap, Option.any_some, decide_eq_true_eq]
        exact UInt64.not_lt.mp hlow
      have hkept : (keepSpilled tasks current c desired).lookup pid = some llc
          → desired.lookup pid = some llc ∨ Planned cfg llcs tasks current c pid llc := by
        intro h
        cases lookup_keepSpilled h with
        | inl h => exact .inl h
        | inr h => exact .inr ⟨h.2, hstays, .inl h.1⟩
      split at h
      . exact hkept h
      . cases lookup_growSpills h with
        | inl h => exact hkept h
        | inr hgrown =>
          obtain ⟨hllc, hexcess, t, ht, hpid⟩ := hgrown
          have hcold : t ∈ tasks ∧ t.cohortId = c.id := by
            unfold coldMembers at ht
            simp only [List.mem_insertionSort, List.mem_filter, decide_eq_true_eq] at ht
            exact ⟨ht.1, ht.2.1⟩
          have hhigh : highMark cfg cap < c.loadNs := by
            next hnot =>
            rw [UInt64.not_lt] at hnot
            rw [UInt64.lt_iff_toNat_lt] at hexcess ⊢
            rw [UInt64.toNat_sub_of_le _ _ hnot, UInt64.toNat_zero] at hexcess
            unfold highMark
            omega
          have hgrows : growsSpill cfg llcs tasks current c = true := by
            unfold growsSpill
            rw [hcap, Option.any_some, decide_eq_true hhigh, Bool.true_and, Bool.not_eq_true',
              List.isEmpty_eq_false_iff]
            exact List.ne_nil_of_mem ht
          right
          refine ⟨⟨t, hcold.1, hpid, hcold.2⟩, hstays, .inr ⟨?_, hgrows⟩⟩
          rw [hllc]
          exact htarget
  . exact .inl h

theorem planned_of_lookup {cohorts : List CohortSnapshot} {pid : Pid} {llc : LlcId}
    (h : (planSpills cfg llcs tasks current cohorts).lookup pid = some llc)
    : ∃ c ∈ cohorts, Planned cfg llcs tasks current c pid llc := by
  have hfold : ∀ (l : List CohortSnapshot) (desired : Spills),
      (l.foldl (planCohortSpills cfg llcs tasks current) desired).lookup pid = some llc
        → desired.lookup pid = some llc ∨ ∃ c ∈ l, Planned cfg llcs tasks current c pid llc := by
    intro l
    induction l with
    | nil =>
      intro desired h
      exact .inl h
    | cons c l ih =>
      intro desired h
      cases ih _ h with
      | inr h =>
        obtain ⟨c', hc', hplanned⟩ := h
        exact .inr ⟨c', List.mem_cons_of_mem _ hc', hplanned⟩
      | inl h =>
        cases lookup_planCohortSpills h with
        | inl h => exact .inl h
        | inr hplanned => exact .inr ⟨c, List.mem_cons_self, hplanned⟩
  unfold planSpills at h
  split at h
  . rw [AList.lookup_empty] at h
    contradiction
  . cases hfold _ _ h with
    | inl h =>
      rw [AList.lookup_empty] at h
      contradiction
    | inr h => exact h

theorem spillTarget_ne {c : CohortSnapshot} {llc : LlcId} (h : spillTarget llcs c = some llc)
    : llc ≠ c.homeLlc := by
  unfold spillTarget at h
  rw [Option.map_eq_some_iff] at h
  obtain ⟨l, hl, heq⟩ := h
  have hmem := List.argmin_mem hl
  rw [List.mem_filter, decide_eq_true_eq] at hmem
  rw [← heq]
  exact hmem.2

end Plan

namespace Daemon

section Apply

-- What the tick leaves alone until it applies the spills.
structure SameSpills (d : Scheduler) (s : Maps) (d' : Scheduler) (s' : Maps) : Prop where
  current : d'.currentSpills = d.currentSpills
  cfg : d'.spillCfg = d.spillCfg
  taskStats : s'.taskStats = s.taskStats
  spillTasks : s'.spillTasks = s.spillTasks

namespace SameSpills

theorem refl (d : Scheduler) (s : Maps) : SameSpills d s d s := ⟨rfl, rfl, rfl, rfl⟩

theorem trans (d₁ : Scheduler) (s₁ : Maps) (d₂ : Scheduler) (s₂ : Maps) (d₃ : Scheduler) (s₃ : Maps)
    (h : SameSpills d₁ s₁ d₂ s₂) (h' : SameSpills d₂ s₂ d₃ s₃)
    : SameSpills d₁ s₁ d₃ s₃ := by
  constructor
  . rw [h'.current, h.current]
  . rw [h'.cfg, h.cfg]
  . rw [h'.taskStats, h.taskStats]
  . rw [h'.spillTasks, h.spillTasks]

theorem carriesSurvey : CarriesSurvey SameSpills where
  refl := refl
  trans := trans
  dropPolicy := fun _ _ _ => ⟨rfl, rfl, rfl, rfl⟩
  dropCounters := fun _ _ _ => ⟨rfl, rfl, rfl, rfl⟩
  dropTgid := fun _ _ _ => ⟨rfl, rfl, rfl, rfl⟩
  note := fun _ _ _ _ _ _ _ _ => ⟨rfl, rfl, rfl, rfl⟩
  setPolicy := fun _ _ _ _ => ⟨rfl, rfl, rfl, rfl⟩
  rules := fun _ _ _ _ => ⟨rfl, rfl, rfl, rfl⟩

end SameSpills

-- What the tick knows when it has looked around: the cohorts of the tasks and their homes.
structure Seen (d : Scheduler) (s : Maps) (view : TickView) (d' : Scheduler) (s' : Maps) : Prop where
  same : SameSpills d s d' s'
  task : ∀ t ∈ view.tasks, ∃ ts, s.taskStats.lookup t.pid = some ts ∧ t.cohortId = ts.cohortId
  home : ∀ c ∈ view.cohorts, ∀ policy, s'.cohortPolicy.lookup c.id = some policy
    → c.homeLlc = policy.homeLlc

theorem seen_of_survey {env : TickEnv} {d d' : Scheduler} {s s' : Maps} {view : TickView}
    (h : exec (survey env) d s = (.ok (view, d'), s'))
    : Seen d s view d' s' := by
  have hsurvey := surveyed_of_exec h
  constructor
  . exact SameSpills.carriesSurvey.survey _ _ _ _ _ h
  . intro t ht
    rw [hsurvey.tasks] at ht
    exact mem_tasksSeen ht
  . intro c hc policy hpolicy
    rw [hsurvey.policy] at hpolicy
    split at hpolicy
    . contradiction
    . exact (hsurvey.listed c hc policy hpolicy).1

-- A home that changed is the target of one of the moves.
structure Moves (decisions : List Decision) (d : Scheduler) (s : Maps) (d' : Scheduler) (s' : Maps)
    : Prop where
  same : SameSpills d s d' s'
  home : ∀ id policy', s'.cohortPolicy.lookup id = some policy'
    → (∃ policy, s.cohortPolicy.lookup id = some policy ∧ policy.homeLlc = policy'.homeLlc)
      ∨ .moveCohort id policy'.homeLlc ∈ decisions

theorem moves_refl (decisions : List Decision) (d : Scheduler) (s : Maps)
    : Moves decisions d s d s :=
  ⟨SameSpills.refl d s, fun _ policy h => .inl ⟨policy, h, rfl⟩⟩

theorem moves_trans (decisions : List Decision) (d₁ : Scheduler) (s₁ : Maps) (d₂ : Scheduler)
    (s₂ : Maps) (d₃ : Scheduler) (s₃ : Maps) (h : Moves decisions d₁ s₁ d₂ s₂)
    (h' : Moves decisions d₂ s₂ d₃ s₃)
    : Moves decisions d₁ s₁ d₃ s₃ := by
  refine ⟨SameSpills.trans _ _ _ _ _ _ h.same h'.same, ?_⟩
  intro id policy₃ h₃
  cases h'.home id policy₃ h₃ with
  | inr hmove => exact .inr hmove
  | inl h₂ =>
    obtain ⟨policy₂, h₂, heq⟩ := h₂
    rw [← heq]
    exact h.home id policy₂ h₂

theorem moves_applyDecision {decisions : List Decision} {decision : Decision}
    (hmem : decision ∈ decisions)
    : Carries (Moves decisions) (applyDecision decision) := by
  obtain ⟨id, toLlc⟩ := decision
  unfold applyDecision
  apply carries_bind (moves_trans decisions)
  . apply carries_attempt
    intro d s
    exact moves_refl decisions d s
  . intro policy
    split
    . exact carries_pure (moves_refl decisions)
    . apply carries_bind (moves_trans decisions)
      . apply carries_require
        intro d s
        rw [Bpf.run_updatePolicy]
        refine ⟨SameSpills.carriesSurvey.setPolicy d s id _, ?_⟩
        intro id' policy' h
        dsimp only at h
        cases BoundedMap.lookup_updateD s.cohortPolicy id _ .exist id' with
        | inl hkept =>
          rw [hkept] at h
          exact .inl ⟨policy', h, rfl⟩
        | inr hset =>
          rw [hset.2, Option.some.injEq] at h
          rw [hset.1, ← h]
          exact .inr hmem
      . intro _
        exact carries_modify fun d s =>
          ⟨⟨rfl, rfl, rfl, rfl⟩, fun _ policy h => .inl ⟨policy, h, rfl⟩⟩

theorem moves_apply (decisions : List Decision) : Carries (Moves decisions) (apply decisions) := by
  unfold apply
  apply carries_forM (moves_trans decisions) (moves_refl decisions)
  intro decision hmem
  exact moves_applyDecision hmem

-- What is left alone while the spills are applied.
structure SamePlaces (d : Scheduler) (s : Maps) (d' : Scheduler) (s' : Maps) : Prop where
  scheduler : d' = d
  taskStats : s'.taskStats = s.taskStats
  policy : s'.cohortPolicy = s.cohortPolicy

theorem samePlaces_refl (d : Scheduler) (s : Maps) : SamePlaces d s d s := ⟨rfl, rfl, rfl⟩

theorem samePlaces_trans (d₁ : Scheduler) (s₁ : Maps) (d₂ : Scheduler) (s₂ : Maps) (d₃ : Scheduler)
    (s₃ : Maps) (h : SamePlaces d₁ s₁ d₂ s₂) (h' : SamePlaces d₂ s₂ d₃ s₃)
    : SamePlaces d₁ s₁ d₃ s₃ := by
  constructor
  . rw [h'.scheduler, h.scheduler]
  . rw [h'.taskStats, h.taskStats]
  . rw [h'.policy, h.policy]

theorem samePlaces_setSpill {current : Spills} {e : Pid × LlcId}
    : Carries SamePlaces (setSpill current e) := by
  unfold setSpill
  split
  . apply carries_require
    intro d s
    rw [Bpf.run_updateSpill]
    exact ⟨rfl, rfl, rfl⟩
  . exact carries_pure samePlaces_refl

theorem samePlaces_unsetSpill {desired : Spills} {pid : Pid}
    : Carries SamePlaces (unsetSpill desired pid) := by
  unfold unsetSpill
  split
  . apply carries_attempt
    intro d s
    exact ⟨rfl, rfl, rfl⟩
  . exact carries_pure samePlaces_refl

variable {current desired : Spills} {d d' : Scheduler} {s s' : Maps}

theorem lookup_setSpills {l : List (Pid × LlcId)} (hnodup : (l.map (·.1)).Nodup)
    (h : exec (l.forM (setSpill current)) d s = (.ok (⟨⟩, d'), s')) (pid : Pid)
    : (∀ x, (pid, x) ∈ l
        → s'.spillTasks.lookup pid
            = if current.lookup pid = some x then s.spillTasks.lookup pid else some x)
      ∧ (pid ∉ l.map (·.1) → s'.spillTasks.lookup pid = s.spillTasks.lookup pid) := by
  induction l generalizing d s with
  | nil =>
    obtain ⟨_, rfl⟩ := Prod.mk.inj h
    exact ⟨nofun, fun _ => rfl⟩
  | cons e l ih =>
    rw [List.map_cons, List.nodup_cons] at hnodup
    obtain ⟨_, d₁, s₁, h₁, h⟩ := exec_bind_inv h
    obtain ⟨hin, hout⟩ := ih hnodup.2 h
    have hstep : s₁.spillTasks.lookup pid
        = if pid = e.1 ∧ current.lookup e.1 ≠ some e.2 then some e.2 else s.spillTasks.lookup pid := by
      unfold setSpill at h₁
      split at h₁
      . next hne =>
        obtain ⟨_, hrun⟩ := exec_require_inv h₁
        obtain ⟨m, hm, heq⟩ := Bpf.run_updateSpill_ok hrun
        rw [heq]
        dsimp only
        rw [BoundedMap.lookup_update_ok hm]
        simp only [hne, ne_eq, not_false_eq_true, and_true]
      . next hsame =>
        rw [exec_pure, Prod.mk.injEq] at h₁
        rw [← h₁.2, if_neg (fun h => hsame h.2)]
    constructor
    . intro x hx
      cases List.mem_cons.mp hx with
      | inl heq =>
        subst heq
        rw [hout hnodup.1, hstep]
        by_cases hc : current.lookup pid = some x
        . rw [if_pos hc, if_neg (fun h => h.2 hc)]
        . rw [if_neg hc, if_pos ⟨rfl, hc⟩]
      | inr hmem =>
        have hne : pid ≠ e.1 := by
          intro heq
          apply hnodup.1
          rw [← heq]
          exact List.mem_map_of_mem hmem
        have hsame : s₁.spillTasks.lookup pid = s.spillTasks.lookup pid := by
          rw [hstep, if_neg (fun h => hne h.1)]
        rw [hin x hmem, hsame]
    . intro hnot
      rw [List.map_cons, List.mem_cons, not_or] at hnot
      rw [hout hnot.2, hstep, if_neg (fun h => hnot.1 h.1)]

theorem lookup_unsetSpills {l : List Pid}
    (h : exec (l.forM (unsetSpill desired)) d s = (.ok (⟨⟩, d'), s')) (pid : Pid)
    : s'.spillTasks.lookup pid
        =
      if pid ∈ l ∧ pid ∉ desired then none else s.spillTasks.lookup pid := by
  induction l generalizing d s with
  | nil =>
    obtain ⟨_, rfl⟩ := Prod.mk.inj h
    rw [if_neg (fun h => List.not_mem_nil h.1)]
  | cons p l ih =>
    obtain ⟨_, d₁, s₁, h₁, h⟩ := exec_bind_inv h
    have hstep : s₁.spillTasks.lookup pid
        = if pid = p ∧ pid ∉ desired then none else s.spillTasks.lookup pid := by
      unfold unsetSpill at h₁
      split at h₁
      . next hnot =>
        rw [exec_attempt, Prod.mk.injEq] at h₁
        have hdelete : s₁.spillTasks.lookup pid = (s.spillTasks.delete p).lookup pid := by
          rw [← h₁.2]
          rfl
        rw [hdelete, BoundedMap.lookup_delete]
        by_cases heq : pid = p
        . rw [heq, if_pos rfl, if_pos ⟨rfl, hnot⟩]
        . rw [if_neg heq, if_neg (fun h => heq h.1)]
      . next hin =>
        rw [exec_pure, Prod.mk.injEq] at h₁
        rw [← h₁.2, if_neg]
        intro h
        apply hin
        rw [← h.1]
        exact h.2
    rw [ih h, hstep]
    by_cases hd : pid ∈ desired
    . simp [hd]
    . simp only [hd, not_false_eq_true, and_true, List.mem_cons]
      by_cases heq : pid = p
      . simp [heq]
      . simp [heq]

-- The daemon knows every entry of the spill map; entries that went away it may not know of.
def Mirrors (d : Scheduler) (s : Maps) : Prop :=
  ∀ pid llc, s.spillTasks.lookup pid = some llc → d.currentSpills.lookup pid = some llc

-- Where the copy has the planned target already, the map keeps what it has, be it nothing.
theorem lookup_applySpills {env : TickEnv}
    (h : exec (applySpills env desired) d s = (.ok (⟨⟩, d'), s')) (pid : Pid)
    : s'.spillTasks.lookup pid
        =
      if d.currentSpills.lookup pid = desired.lookup pid then
        s.spillTasks.lookup pid
      else
        desired.lookup pid := by
  unfold applySpills at h
  rw [exec_bind_ok (exec_get _ _)] at h
  obtain ⟨_, d₁, s₁, h₁, h⟩ := exec_bind_inv h
  obtain ⟨_, d₂, s₂, h₂, h⟩ := exec_bind_inv h
  simp only [exec_modify, Prod.mk.injEq, Except.ok.injEq, true_and] at h
  obtain ⟨rfl, rfl⟩ := h
  have hnodup : ((env.order.order desired.items).map (·.1)).Nodup := by
    rw [((env.order.perm desired.items).map (·.1)).nodup_iff]
    exact HashTable.nodup_items desired
  obtain ⟨hin, hout⟩ := lookup_setSpills hnodup h₁ pid
  rw [lookup_unsetSpills h₂ pid]
  simp only [IterOrder.mem_order]
  cases hdesired : desired.lookup pid with
  | some x =>
    have hmem : pid ∈ desired := AList.lookup_isSome.mp (by simp [hdesired])
    rw [if_neg (fun h => h.2 hmem)]
    apply hin
    rw [IterOrder.mem_order]
    exact HashTable.mem_items.mpr hdesired
  | none =>
    have hnot : pid ∉ desired := AList.lookup_eq_none.mp hdesired
    have hkeys : pid ∉ (env.order.order desired.items).map (·.1) := by
      intro hmem
      obtain ⟨e, he, heq⟩ := List.mem_map.mp hmem
      rw [IterOrder.mem_order] at he
      have hlookup := HashTable.mem_items.mp he
      rw [heq, hdesired] at hlookup
      contradiction
    cases hcurrent : d.currentSpills.lookup pid with
    | some x =>
      have hmem : pid ∈ d.currentSpills.keys := AList.lookup_isSome.mp (by simp [hcurrent])
      rw [if_pos ⟨hmem, hnot⟩, if_neg (by simp)]
    | none =>
      have hmem : pid ∉ d.currentSpills.keys := AList.lookup_eq_none.mp hcurrent
      rw [if_neg (fun h => hmem h.1), if_pos rfl, hout hkeys]

structure SpillsApplied (desired : Spills) (d : Scheduler) (s : Maps) (d' : Scheduler) (s' : Maps)
    : Prop where
  mirrors : Mirrors d' s'
  current : d'.currentSpills = desired
  kept : ∀ pid llc, s'.spillTasks.lookup pid = some llc → d.currentSpills.lookup pid = some llc
    → s.spillTasks.lookup pid = some llc
  taskStats : s'.taskStats = s.taskStats
  policy : s'.cohortPolicy = s.cohortPolicy

theorem spillsApplied {env : TickEnv} (hmirrors : Mirrors d s)
    (h : exec (applySpills env desired) d s = (.ok (⟨⟩, d'), s'))
    : SpillsApplied desired d s d' s' := by
  have hentry : ∀ pid llc, s'.spillTasks.lookup pid = some llc
      → desired.lookup pid = some llc
        ∧ (d.currentSpills.lookup pid = some llc → s.spillTasks.lookup pid = some llc) := by
    intro pid llc hlookup
    rw [lookup_applySpills h] at hlookup
    split at hlookup
    . next hsame =>
      rw [← hsame]
      exact ⟨hmirrors pid llc hlookup, fun _ => hlookup⟩
    . next hne =>
      refine ⟨hlookup, ?_⟩
      intro hcurrent
      rw [hcurrent, hlookup] at hne
      exact absurd rfl hne
  unfold applySpills at h
  rw [exec_bind_ok (exec_get _ _)] at h
  obtain ⟨_, d₁, s₁, h₁, h⟩ := exec_bind_inv h
  obtain ⟨_, d₂, s₂, h₂, h⟩ := exec_bind_inv h
  simp only [exec_modify, Prod.mk.injEq, Except.ok.injEq, true_and] at h
  obtain ⟨rfl, rfl⟩ := h
  have hplaces₁ := carries_forM samePlaces_trans samePlaces_refl
    (fun _ _ => samePlaces_setSpill) _ _ _ _ _ h₁
  have hplaces₂ := carries_forM samePlaces_trans samePlaces_refl
    (fun _ _ => samePlaces_unsetSpill) _ _ _ _ _ h₂
  constructor
  . intro pid llc hlookup
    exact (hentry pid llc hlookup).1
  . rfl
  . intro pid llc hlookup
    exact (hentry pid llc hlookup).2
  . rw [hplaces₂.taskStats, hplaces₁.taskStats]
  . rw [hplaces₂.policy, hplaces₁.policy]

end Apply

section Remote

def homeOf (s : Maps) (pid : Pid) : Option LlcId :=
  (s.taskStats.lookup pid).bind fun ts => (s.cohortPolicy.lookup ts.cohortId).map (·.homeLlc)

-- No entry of the spill map targets the home of its task's cohort.
def remote (s : Maps) : Bool :=
  s.spillTasks.table.items.all fun e => homeOf s e.1 ≠ some e.2

-- A tick, and the maps as it finds them.
structure Tick where
  maps : Maps
  env : TickEnv := {}

def remoteAfter (_ : Maps) (d : Scheduler) (t : Tick) : Bool :=
  match exec (place t.env) d t.maps with
  | (.ok _, s') => remote s'
  | (.error _, _) => true

-- Between ticks tasks exit, and their entries go.
def onlyDropped (s : Maps) (_ : Scheduler) (t : Tick) : Bool :=
  t.maps.spillTasks.table.items.all fun e => s.spillTasks.lookup e.1 = some e.2

-- Of a cohort whose members stay spilled, none has its home come to the target: not by its cohort or
-- the home changing since the last tick, nor by a move. A cohort that spills more does not move.
def cohortApart (s : Maps) (d : Scheduler) (t : Tick) (view : TickView) (moves : List Decision)
    (c : CohortSnapshot) : Bool :=
  (staysSpilled d.spillCfg view.llcs c →
    ∀ task ∈ view.tasks, task.cohortId = c.id →
      (t.maps.spillTasks.lookup task.pid).all fun llc =>
        (c.homeLlc = llc → homeOf s task.pid = some llc) ∧ .moveCohort c.id llc ∉ moves)
  ∧ (growsSpill d.spillCfg view.llcs view.tasks d.currentSpills c →
      moves.all fun
        | .moveCohort id _ => id ≠ c.id)

def apart (s : Maps) (d : Scheduler) (t : Tick) : Bool :=
  match exec (survey t.env) d t.maps with
  | (.ok (view, d₁), _) =>
    view.cohorts.all
      (cohortApart s d t view (d₁.balancer.plan t.env.nowMs view.llcs view.cohorts).1)
  | (.error _, _) => true

-- `P` at every tick of a run, from the maps that the tick before left.
def along (P : Maps → Scheduler → Tick → Bool) : Maps → Scheduler → List Tick → Bool
  | _, _, [] => true
  | s, d, t :: ts =>
    P s d t &&
      match exec (place t.env) d t.maps with
      | (.ok (_, d'), s') => along P s' d' ts
      | (.error _, _) => true

theorem remote_iff {s : Maps}
    : remote s = true ↔ ∀ pid llc, s.spillTasks.lookup pid = some llc → homeOf s pid ≠ some llc := by
  unfold remote
  rw [List.all_eq_true]
  constructor
  . intro h pid llc hlookup
    exact of_decide_eq_true (h (pid, llc) (HashTable.mem_items.mpr hlookup))
  . intro h e he
    exact decide_eq_true (h e.1 e.2 (HashTable.mem_items.mp he))

theorem mem_of_onlyDropped {s : Maps} {d : Scheduler} {t : Tick} (h : onlyDropped s d t = true)
    {pid : Pid} {llc : LlcId} (hlookup : t.maps.spillTasks.lookup pid = some llc)
    : s.spillTasks.lookup pid = some llc := by
  unfold onlyDropped at h
  rw [List.all_eq_true] at h
  exact of_decide_eq_true (h (pid, llc) (HashTable.mem_items.mpr hlookup))

theorem homeOf_eq_some {s : Maps} {pid : Pid} {llc : LlcId} (h : homeOf s pid = some llc)
    : ∃ ts policy, s.taskStats.lookup pid = some ts
      ∧ s.cohortPolicy.lookup ts.cohortId = some policy ∧ policy.homeLlc = llc := by
  unfold homeOf at h
  rw [Option.bind_eq_some_iff] at h
  obtain ⟨ts, hts, hpolicy⟩ := h
  rw [Option.map_eq_some_iff] at hpolicy
  obtain ⟨policy, hpolicy, hhome⟩ := hpolicy
  exact ⟨ts, policy, hts, hpolicy, hhome⟩

-- One tick: what stays spilled is not at home because nothing brought its home there, and what is
-- spilled anew targets another LLC than the home, which does not move.
theorem remote_place {s s' : Maps} {d d' : Scheduler} {t : Tick} {view : TickView}
    (hremote : remote s = true) (hmirrors : Mirrors d s) (hdropped : onlyDropped s d t = true)
    (hapart : apart s d t = true) (h : exec (place t.env) d t.maps = (.ok (view, d'), s'))
    : remote s' = true ∧ Mirrors d' s' := by
  obtain ⟨d₁, s₁, d₂, s₂, h₁, h₂, h₃⟩ := exec_place_inv h
  have hseen := seen_of_survey h₁
  have hmoves := moves_apply _ _ _ _ _ _ h₂
  have hcurrent : d₂.currentSpills = d.currentSpills := by
    rw [hmoves.same.current]
    exact hseen.same.current
  have hcfg : d₂.spillCfg = d.spillCfg := by
    rw [hmoves.same.cfg]
    exact hseen.same.cfg
  have hspills : s₂.spillTasks = t.maps.spillTasks := by
    rw [hmoves.same.spillTasks, hseen.same.spillTasks]
  have hstats : s₂.taskStats = t.maps.taskStats := by
    rw [hmoves.same.taskStats, hseen.same.taskStats]
  have hmirrors₂ : Mirrors d₂ s₂ := by
    intro pid llc hlookup
    rw [hspills] at hlookup
    rw [hcurrent]
    exact hmirrors pid llc (mem_of_onlyDropped hdropped hlookup)
  have happlied := spillsApplied hmirrors₂ h₃
  refine ⟨?_, happlied.mirrors⟩
  rw [remote_iff]
  intro pid llc hlookup hhome
  obtain ⟨ts, policy', hts, hpolicy', hllc⟩ := homeOf_eq_some hhome
  have hdesired := happlied.mirrors pid llc hlookup
  rw [happlied.current, hcurrent, hcfg] at hdesired
  obtain ⟨c, hc, hplanned⟩ := planned_of_lookup hdesired
  obtain ⟨task, htask, hpid, hcohort⟩ := hplanned.task
  have hid : ts.cohortId = c.id := by
    obtain ⟨ts', hts', heq⟩ := hseen.task task htask
    rw [happlied.taskStats, hstats, ← hpid, hts', Option.some.injEq] at hts
    rw [← hts, ← heq, hcohort]
  rw [happlied.policy, hid] at hpolicy'
  have hwhere : c.homeLlc = llc
      ∨ .moveCohort c.id llc ∈ (d₁.balancer.plan t.env.nowMs view.llcs view.cohorts).1 := by
    cases hmoves.home _ _ hpolicy' with
    | inl hsame =>
      obtain ⟨policy, hpolicy, heq⟩ := hsame
      left
      rw [hseen.home c hc policy hpolicy, heq, hllc]
    | inr hmove =>
      rw [hllc] at hmove
      exact .inr hmove
  unfold apart at hapart
  rw [h₁] at hapart
  dsimp only at hapart
  rw [List.all_eq_true] at hapart
  have hc' := hapart c hc
  simp only [cohortApart, decide_eq_true_eq] at hc'
  cases hplanned.target with
  | inl hkept =>
    rw [← hcurrent] at hkept
    have hbefore := happlied.kept pid llc hlookup hkept
    rw [hspills] at hbefore
    have hstay := hc'.1 hplanned.stays task htask hcohort
    rw [hpid, hbefore, Option.all_some, decide_eq_true_eq] at hstay
    cases hwhere with
    | inl hhere =>
      have hold := mem_of_onlyDropped hdropped hbefore
      exact remote_iff.mp hremote pid llc hold (hstay.1 hhere)
    | inr hmove => exact hstay.2 hmove
  | inr hgrown =>
    cases hwhere with
    | inl hhere => exact spillTarget_ne hgrown.1 hhere.symm
    | inr hmove =>
      have hstill := hc'.2 hgrown.2
      rw [List.all_eq_true] at hstill
      have := hstill _ hmove
      simp at this

theorem remote_along (ts : List Tick) {s : Maps} {d : Scheduler} (hremote : remote s = true)
    (hmirrors : Mirrors d s) (hdropped : along onlyDropped s d ts = true)
    (hapart : along apart s d ts = true)
    : along remoteAfter s d ts = true := by
  induction ts generalizing s d with
  | nil => rfl
  | cons t ts ih =>
    unfold along at hdropped hapart ⊢
    rw [Bool.and_eq_true] at hdropped hapart ⊢
    unfold remoteAfter
    cases hexec : exec (place t.env) d t.maps with
    | mk r s' =>
      cases r with
      | error e => simp
      | ok r =>
        obtain ⟨view, d'⟩ := r
        rw [hexec] at hdropped hapart
        have hstep := remote_place hremote hmirrors hdropped.1 hapart.1 hexec
        exact ⟨hstep.1, ih hstep.1 hstep.2 hdropped.2 hapart.2⟩

-- A run of the daemon starts with an empty spill map.
theorem spilled_stay_remote {s : Maps} {d : Scheduler} {ts : List Tick}
    (hs : s.spillTasks = .empty) (hdropped : along onlyDropped s d ts = true)
    (hapart : along apart s d ts = true)
    : along remoteAfter s d ts = true := by
  have hempty : ∀ pid llc, s.spillTasks.lookup pid ≠ some llc := by
    intro pid llc hlookup
    rw [hs, BoundedMap.lookup_empty] at hlookup
    contradiction
  apply remote_along ts _ _ hdropped hapart
  . rw [remote_iff]
    intro pid llc hlookup
    exact absurd hlookup (hempty pid llc)
  . intro pid llc hlookup
    exact absurd hlookup (hempty pid llc)

section TwoLlcs

def twoLlcs : Scheduler := { llcCpus := [(0, 1), (1, 1)] }

def member : TaskStat := { tgid := 1, cohortId := 1, comm := Vector.replicate 16 0 }

-- Cohort 1, homed on LLC 0, with tasks 1 and 2.
def twoTasks : Maps :=
  { cohortPolicy := BoundedMap.updateD .empty 1 {} .any
    cohortCounters := BoundedMap.updateD .empty 1 { nrTasks := 2 } .any
    tgidCohort := BoundedMap.updateD .empty 1 1 .any
    taskStats := (BoundedMap.updateD .empty 1 member .any).updateD 2 member .any }

-- Task 1 ran on LLC 0, beside `other` nanoseconds of other work there.
def ran (load other : UInt64) (s : Maps) : Maps :=
  { s with
    cohortCounters := s.cohortCounters.modify 1 fun c => { c with loadSum := c.loadSum + load }
    llcLoad := Function.update s.llcLoad 0 (s.llcLoad 0 + load + other)
    taskStats := s.taskStats.modify 1 fun ts => { ts with runtimeSum := ts.runtimeSum + load } }

-- The ticks of a run, from what happens before each of them.
def ticksOf : Scheduler → Maps → List (Maps → Maps) → List Tick
  | _, _, [] => []
  | d, s, f :: fs =>
    ⟨f s, {}⟩ ::
      match exec (place {}) d (f s) with
      | (.ok (_, d'), s') => ticksOf d' s' fs
      | (.error _, _) => []

theorem spilled_stay_remote_at_rest
    : along remoteAfter twoTasks twoLlcs
        (ticksOf twoLlcs twoTasks [id, ran 200000000 0, ran 160000000 0]) = true := by
  apply spilled_stay_remote
  . rfl
  . decide +kernel
  . decide +kernel

-- Task 2 is spilled to LLC 1 and stays spilled at 80% load, when the imbalance moves its cohort there.
theorem moved_onto_spilled
    : along onlyDropped twoTasks twoLlcs
          (ticksOf twoLlcs twoTasks [id, ran 200000000 0, ran 160000000 20000000]) = true
      ∧ along remoteAfter twoTasks twoLlcs
          (ticksOf twoLlcs twoTasks [id, ran 200000000 0, ran 160000000 20000000]) = false := by
  constructor
  . decide +kernel
  . decide +kernel

end TwoLlcs

end Remote

end Daemon
