import ScxCohort.Daemon.Lemmas.Regroup

/-!
This module contains what the splits of a tick do when the maps of cohorts are full. A cohort that cannot
be made ends the tick, and with it the daemon.
-/

namespace Daemon

section Tolerated

variable {plan : SplitPlan} {d d' : Scheduler} {s s' : Maps}

structure SameGroups (s s' : Maps) : Prop where
  tgid : s'.tgidCohort = s.tgidCohort
  policy : s'.cohortPolicy = s.cohortPolicy
  counters : s'.cohortCounters = s.cohortCounters

-- A split whose cohort cannot be made changes nothing, and those after it have their turn.
def SplitsTolerated : List SplitPlan → Scheduler → Maps → Prop
  | [], _, _ => True
  | plan :: plans, d, s =>
    ∃ d' s', exec (applySplit plan) d s = (.ok (⟨⟩, d'), s') ∧ (¬ Insertable d s → SameGroups s s')
      ∧ SplitsTolerated plans d' s'

-- How many of the plans have a cohort to split, when `known` are the cohorts there are.
def splitsDue : List SplitPlan → Scheduler → List CohortId → Nat
  | [], _, _ => 0
  | plan :: plans, d, known =>
    if plan.cohort ∈ known then
      splitsDue plans (splitState d) (freshId d :: known) + 1
    else
      splitsDue plans d known

-- Both maps have room for `n` more cohorts, under numbers that neither has.
structure RoomFor (n : Nat) (d : Scheduler) (s : Maps) : Prop where
  policy : s.cohortPolicy.size + n ≤ maxCohorts
  counters : s.cohortCounters.size + n ≤ maxCohorts
  ids : ∀ id ∈ newIds n d, id ∉ s.cohortPolicy ∧ id ∉ s.cohortCounters

theorem splitsDue_congr (plans : List SplitPlan) (d : Scheduler) {known known' : List CohortId}
    (h : ∀ id, id ∈ known ↔ id ∈ known')
    : splitsDue plans d known = splitsDue plans d known' := by
  induction plans generalizing d known known' with
  | nil => rfl
  | cons plan plans ih =>
    have hcons : ∀ id, id ∈ freshId d :: known ↔ id ∈ freshId d :: known' := by
      intro id
      rw [List.mem_cons, List.mem_cons, h]
    unfold splitsDue
    simp only [h]
    rw [ih d h, ih (splitState d) hcons]

theorem exists_of_mem_newIds {n : Nat} {id : CohortId} (h : id ∈ newIds n d)
    : ∃ i < n, id = freshId d + UInt64.ofNat i := by
  induction n generalizing d with
  | zero => contradiction
  | succ n ih =>
    cases List.mem_cons.mp h with
    | inl heq => exact ⟨0, Nat.zero_lt_succ n, by rw [heq]; simp⟩
    | inr h =>
      obtain ⟨i, hi, heq⟩ := ih h
      refine ⟨i + 1, Nat.succ_lt_succ hi, ?_⟩
      have hstate : freshId (splitState d) = freshId d + 1 := (UInt64.add_assoc _ _ _).symm
      rw [heq, hstate, UInt64.add_assoc, UInt64.add_comm 1, UInt64.ofNat_add]
      rfl

-- The numbers of one tick differ, wherever the counter stands.
theorem freshId_not_mem {n : Nat} (hn : n < 2 ^ 64) : freshId d ∉ newIds n (splitState d) := by
  intro h
  obtain ⟨i, hi, heq⟩ := exists_of_mem_newIds h
  have hstate : freshId (splitState d) = freshId d + 1 := (UInt64.add_assoc _ _ _).symm
  rw [hstate, UInt64.add_assoc, left_eq_add] at heq
  have hsum : ((1 : UInt64) + UInt64.ofNat i).toNat = 0 := by
    rw [heq]
    rfl
  rw [UInt64.toNat_add, UInt64.toNat_ofNat'] at hsum
  have hone : (1 : UInt64).toNat = 1 := rfl
  omega

theorem RoomFor.insertable {n : Nat} (h : RoomFor (n + 1) d s) : Insertable d s := by
  have hids := h.ids (freshId d) List.mem_cons_self
  have := h.policy
  have := h.counters
  refine ⟨⟨hids.1, ?_⟩, hids.2, ?_⟩
  . omega
  . omega

theorem SplitOnce.roomFor_iff (h : SplitOnce plan d s s') (n : Nat)
    : RoomFor (n + 1) d s ↔ RoomFor n (splitState d) s' := by
  have hpolicySize := h.policySize
  have hcountersSize := h.countersSize
  constructor
  . intro hroom
    have := hroom.policy
    have := hroom.counters
    have hmax : maxCohorts = 1024 := rfl
    refine ⟨?_, ?_, ?_⟩
    . omega
    . omega
    . intro id hid
      have hold := hroom.ids id (List.mem_cons_of_mem _ hid)
      have hne : id ≠ freshId d := by
        intro heq
        rw [heq] at hid
        exact freshId_not_mem (by omega) hid
      rw [h.policy, h.counters]
      simp [hne, hold]
  . intro hroom
    have := hroom.policy
    have := hroom.counters
    refine ⟨?_, ?_, ?_⟩
    . omega
    . omega
    . intro id hid
      cases List.mem_cons.mp hid with
      | inl heq =>
        rw [heq]
        exact ⟨h.insertable.policy.1, h.insertable.counters.1⟩
      | inr hid =>
        have hnew := hroom.ids id hid
        rw [h.policy, h.counters, not_or, not_or] at hnew
        exact ⟨hnew.1.2, hnew.2.2⟩

theorem SplitOnce.keys (h : SplitOnce plan d s s') (id : CohortId)
    : id ∈ freshId d :: s.cohortPolicy.keys ↔ id ∈ s'.cohortPolicy.keys := by
  rw [List.mem_cons, BoundedMap.mem_keys, BoundedMap.mem_keys, h.policy]

theorem splitsTolerated_iff (plans : List SplitPlan) (d : Scheduler) (s : Maps)
    : SplitsTolerated plans d s ↔ RoomFor (splitsDue plans d s.cohortPolicy.keys) d s := by
  induction plans generalizing d s with
  | nil =>
    have hpolicy : s.cohortPolicy.size ≤ maxCohorts := s.cohortPolicy.size_le
    have hcounters : s.cohortCounters.size ≤ maxCohorts := s.cohortCounters.size_le
    unfold SplitsTolerated splitsDue
    exact iff_of_true trivial ⟨hpolicy, hcounters, fun _ hid => absurd hid List.not_mem_nil⟩
  | cons plan plans ih =>
    unfold SplitsTolerated splitsDue
    by_cases hmem : plan.cohort ∈ s.cohortPolicy
    . rw [if_pos (BoundedMap.mem_keys.mpr hmem)]
      constructor
      . rintro ⟨d', s', hexec, _, hrest⟩
        obtain ⟨rfl, honce⟩ := splitOnce_of_exec hmem hexec
        rw [honce.roomFor_iff, splitsDue_congr plans (splitState d) honce.keys]
        exact (ih _ _).mp hrest
      . intro hroom
        obtain ⟨s', hexec⟩ := exec_applySplit_of_insertable hmem hroom.insertable
        have honce := (splitOnce_of_exec hmem hexec).2
        refine ⟨_, s', hexec, fun hfull => absurd hroom.insertable hfull, ?_⟩
        rw [honce.roomFor_iff, splitsDue_congr plans (splitState d) honce.keys] at hroom
        exact (ih _ _).mpr hroom
    . rw [if_neg fun hkey => hmem (BoundedMap.mem_keys.mp hkey), ← ih]
      constructor
      . rintro ⟨d', s', hexec, _, hrest⟩
        obtain ⟨_, rfl, rfl⟩ := exec_inj hexec (exec_applySplit_skip hmem ..)
        exact hrest
      . intro hrest
        exact ⟨d, s, exec_applySplit_skip hmem d, fun _ => ⟨rfl, rfl, rfl⟩, hrest⟩

theorem SplitsTolerated.returns {plans : List SplitPlan} (h : SplitsTolerated plans d s)
    : ∃ d' s', exec (plans.forM applySplit) d s = (.ok (⟨⟩, d'), s') := by
  induction plans generalizing d s with
  | nil => exact ⟨d, s, rfl⟩
  | cons plan plans ih =>
    obtain ⟨d₁, s₁, hexec, _, hrest⟩ := h
    rw [exec_forM_cons_ok hexec]
    exact ih hrest

-- The splits of a tick, and every tick that comes to these plans in this state.
structure FullMapsTolerated (plans : List SplitPlan) (d : Scheduler) (s : Maps) : Prop where
  splits : SplitsTolerated plans d s
  discover : ∀ env view d₁ s₁, exec (mergeFirst env view) d₁ s₁ = (.ok (plans, d), s)
    → ∃ d' s', exec (discoverRelationships env view.cohorts view.tasks view.tgidCohort) d₁ s₁
        = (.ok (⟨⟩, d'), s')
  tick : ∀ env view d₀ s₀ d₁ s₁, exec (place env) d₀ s₀ = (.ok (view, d₁), s₁)
    → exec (mergeFirst env view) d₁ s₁ = (.ok (plans, d), s)
    → ∃ r d' s', exec (tick env) d₀ s₀ = (.ok (r, d'), s')

theorem fullMapsTolerated_iff (plans : List SplitPlan) (d : Scheduler) (s : Maps)
    : FullMapsTolerated plans d s ↔ RoomFor (splitsDue plans d s.cohortPolicy.keys) d s := by
  rw [← splitsTolerated_iff]
  constructor
  . intro h
    exact h.splits
  . intro h
    obtain ⟨d', s', hsplits⟩ := h.returns
    have hdiscover : ∀ env view d₁ s₁, exec (mergeFirst env view) d₁ s₁ = (.ok (plans, d), s)
        → exec (discoverRelationships env view.cohorts view.tasks view.tgidCohort) d₁ s₁
          = (.ok (⟨⟩, d'), s') := by
      intro env view d₁ s₁ hmerge
      rw [exec_discoverRelationships, exec_bind_ok hmerge, hsplits]
    refine ⟨h, ?_, ?_⟩
    . intro env view d₁ s₁ hmerge
      exact ⟨d', s', hdiscover env view d₁ s₁ hmerge⟩
    . intro env view d₀ s₀ d₁ s₁ hplace hmerge
      unfold tick
      rw [exec_bind_ok hplace, exec_bind_ok (hdiscover env view d₁ s₁ hmerge), exec_pure]
      exact ⟨_, d', s', rfl⟩

end Tolerated

section Crowded

open Bpf (InitCall Cohorts attachCall)

def childCall : InitCall :=
  { p := { tid := 2000, pid := 2000, tgid := 2000 }, fork := true, parent := some (attachCall 0).p }

def family : Maps := childCall.step {} ((attachCall 0).step {} (Bpf.attached {}))

-- A cohort of two thread groups, and 1023 of one.
def crowded : Maps := ((List.range' 1 1023).map attachCall).foldl (InitCall.step {}) family

theorem cohorts_family : Cohorts 1 family := by
  have hfirst : (attachCall 0).asksFresh (Bpf.attached {}) = true := by decide +kernel
  have hchild : childCall.asksFresh ((attachCall 0).step {} (Bpf.attached {})) = false := by
    decide +kernel
  have h := (Bpf.cohorts_step_fresh (g := {}) (Bpf.cohorts_attached {}) (by decide) hfirst).1
  exact (Bpf.cohorts_step_kept (g := {}) h hchild).1

theorem cohorts_crowded : Cohorts maxCohorts crowded := by
  have hkeys : family.tgidCohort.keys = [2000, 0] := by decide +kernel
  have hfresh : Bpf.freshCalls {} family ((List.range' 1 1023).map attachCall) = 1023 := by
    rw [Bpf.freshCalls_attach, List.length_range']
    . apply Bpf.nodup_map_ofNat List.nodup_range'
      intro i hi
      rw [List.mem_range'_1] at hi
      omega
    . intro i hi hmem
      rw [List.mem_range'_1] at hi
      rw [← BoundedMap.mem_keys, hkeys, List.mem_pair, ← UInt32.toNat_inj, ← UInt32.toNat_inj,
        UInt32.toNat_ofNat'] at hmem
      have hlarge : (2000 : UInt32).toNat = 2000 := rfl
      have hzero : (0 : UInt32).toNat = 0 := rfl
      omega
  have h := Bpf.cohorts_calls {} ((List.range' 1 1023).map attachCall) cohorts_family
  rw [hfresh] at h
  exact h (by decide)

theorem crowded_not_tolerated
    : ¬ FullMapsTolerated [⟨1, [2000]⟩] { llcCpus := [(0, 1)] } crowded := by
  intro h
  obtain ⟨d', s', hexec, _⟩ := h.splits
  have hmem : (1 : CohortId) ∈ crowded.cohortPolicy := by
    rw [cohorts_crowded.policy]
    decide
  have hroom := (splitOnce_of_exec hmem hexec).2.insertable.policy.2
  rw [cohorts_crowded.policySize] at hroom
  omega

end Crowded

end Daemon
