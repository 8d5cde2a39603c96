import ScxCohort.Daemon.Lemmas.Dangling
import ScxCohort.Daemon.Lemmas.Frame

/-!
This module contains what the merges and splits of one tick do together. Both are planned from the
snapshot the tick starts with, and the splits are carried out on what the merges have left.
-/

namespace Daemon

open Bpf (NoDangling CohortExists)

section Made

-- Cohorts are at most dropped, and no number is given out.
structure NoneMade (d : Scheduler) (s : Maps) (d' : Scheduler) (s' : Maps) : Prop where
  policy : ∀ id ∈ s'.cohortPolicy, id ∈ s.cohortPolicy
  counters : ∀ id ∈ s'.cohortCounters, id ∈ s.cohortCounters
  cohortSeq : s'.cohortSeq = s.cohortSeq
  daemonSeq : d'.daemonSeq = d.daemonSeq

namespace NoneMade

theorem same {d d' : Scheduler} {s s' : Maps} (hp : s'.cohortPolicy = s.cohortPolicy)
    (hc : s'.cohortCounters = s.cohortCounters) (hs : s'.cohortSeq = s.cohortSeq)
    (hd : d'.daemonSeq = d.daemonSeq)
    : NoneMade d s d' s' := by
  refine ⟨?_, ?_, hs, hd⟩
  . intro id
    rw [hp]
    exact fun h => h
  . intro id
    rw [hc]
    exact fun h => h

theorem refl (d : Scheduler) (s : Maps) : NoneMade d s d s := same rfl rfl rfl rfl

theorem trans (d₁ : Scheduler) (s₁ : Maps) (d₂ : Scheduler) (s₂ : Maps) (d₃ : Scheduler) (s₃ : Maps)
    (h : NoneMade d₁ s₁ d₂ s₂) (h' : NoneMade d₂ s₂ d₃ s₃)
    : NoneMade d₁ s₁ d₃ s₃ := by
  constructor
  . intro id hid
    exact h.policy id (h'.policy id hid)
  . intro id hid
    exact h.counters id (h'.counters id hid)
  . rw [h'.cohortSeq, h.cohortSeq]
  . rw [h'.daemonSeq, h.daemonSeq]

theorem carriesPlace : CarriesPlace NoneMade where
  refl := refl
  trans := trans
  dropPolicy := fun _ _ _ =>
    ⟨fun _ h => ((BoundedMap.mem_delete _ _ _).mp h).2, fun _ h => h, rfl, rfl⟩
  dropCounters := fun _ _ _ =>
    ⟨fun _ h => h, fun _ h => ((BoundedMap.mem_delete _ _ _).mp h).2, rfl, rfl⟩
  dropTgid := fun _ _ _ => same rfl rfl rfl rfl
  note := fun _ _ _ _ _ _ _ _ => same rfl rfl rfl rfl
  setPolicy := fun _ _ _ _ => ⟨fun _ h => BoundedMap.mem_updateD_exist.mp h, fun _ h => h, rfl, rfl⟩
  rules := fun _ _ _ _ => same rfl rfl rfl rfl
  moved := fun _ _ _ => same rfl rfl rfl rfl
  spill := fun _ _ _ => same rfl rfl rfl rfl
  spilled := fun _ _ _ => same rfl rfl rfl rfl

end NoneMade

end Made

section Merges

variable {env : TickEnv} {T : HashTable Tgid CohortId} {plan : MergePlan} {rest : List MergePlan}
  {d : Scheduler} {s : Maps}

-- The members of a cohort that is still to be merged away are those that were read.
def Agrees (T : HashTable Tgid CohortId) (plans : List MergePlan) (s : Maps) : Prop :=
  ∀ plan ∈ plans, ∀ tgid id, s.tgidCohort.lookup tgid = some id
    → (T.lookup tgid = some plan.src ↔ id = plan.src)

theorem agrees_of_read
    (h : ∀ tgid id, s.tgidCohort.lookup tgid = some id → T.lookup tgid = some id)
    (plans : List MergePlan)
    : Agrees T plans s := by
  intro plan _ tgid id hlookup
  rw [h tgid id hlookup, Option.some.injEq]

def rename (plan : MergePlan) (id : CohortId) : CohortId := if id = plan.src then plan.into else id

theorem lookup_mergeMaps (h : Agrees T (plan :: rest) s) (tgid : Tgid)
    : (mergeMaps env T plan s).tgidCohort.lookup tgid
        =
      (s.tgidCohort.lookup tgid).map (rename plan) := by
  have hread : (tgid, plan.src) ∈ env.order.order T.items ↔ T.lookup tgid = some plan.src := by
    rw [IterOrder.mem_order, HashTable.mem_items]
  unfold mergeMaps
  dsimp only
  rw [lookup_retargetAll]
  cases hid : s.tgidCohort.lookup tgid with
  | none =>
    split
    . rfl
    . rfl
  | some id =>
    have hagree := hread.trans (h plan List.mem_cons_self tgid id hid)
    unfold rename
    by_cases hsrc : id = plan.src
    . rw [if_pos (hagree.mpr hsrc)]
      simp [hsrc]
    . rw [if_neg (fun hread => hsrc (hagree.mp hread))]
      simp [hsrc]

theorem Agrees.merge (env : TickEnv) (h : Agrees T (plan :: rest) s)
    (hmatching : Matching T (plan :: rest))
    : Agrees T rest (mergeMaps env T plan s) := by
  intro p hp tgid id hlookup
  rw [lookup_mergeMaps h, Option.map_eq_some_iff] at hlookup
  obtain ⟨old, hold, rfl⟩ := hlookup
  rw [h p (List.mem_cons_of_mem _ hp) tgid old hold]
  have hapart := (List.pairwise_cons.mp hmatching.apart).1 p hp
  unfold rename
  split
  . next hsrc =>
    rw [hsrc]
    constructor
    . intro heq
      exact absurd heq hapart.2.2
    . intro heq
      exact absurd heq hapart.2.1
  . rfl

theorem Agrees.tail (h : Agrees T (plan :: rest) s) : Agrees T rest s :=
  fun p hp => h p (List.mem_cons_of_mem _ hp)

theorem mergeable_mergeMaps (hmatching : Matching T (plan :: rest)) {p : MergePlan} (hp : p ∈ rest)
    : mergeable p (mergeMaps env T plan s) ↔ mergeable p s := by
  have hapart := (List.pairwise_cons.mp hmatching.apart).1 p hp
  unfold mergeable mergeMaps
  dsimp only
  rw [BoundedMap.mem_delete, BoundedMap.mem_delete]
  simp only [ne_eq, hapart.1.symm, hapart.2.2.symm, not_false_eq_true, true_and]

-- Where the merges of a tick take the members of a cohort.
def absorber (plans : List MergePlan) (s : Maps) (id : CohortId) : CohortId :=
  ((plans.find? fun plan => plan.src = id ∧ mergeable plan s).map (·.into)).getD id

theorem absorber_cons (plan : MergePlan) (rest : List MergePlan) (s : Maps) (id : CohortId)
    : absorber (plan :: rest) s id
        =
      if plan.src = id ∧ mergeable plan s then plan.into else absorber rest s id := by
  unfold absorber
  rw [List.find?_cons]
  by_cases h : plan.src = id ∧ mergeable plan s
  . simp [h]
  . simp [h]

theorem absorber_eq_self {plans : List MergePlan} {id : CohortId} (h : ∀ plan ∈ plans, plan.src ≠ id)
    : absorber plans s id = id := by
  induction plans with
  | nil => rfl
  | cons plan rest ih =>
    rw [absorber_cons, if_neg]
    . exact ih fun p hp => h p (List.mem_cons_of_mem _ hp)
    . intro hsrc
      exact h plan List.mem_cons_self hsrc.1

theorem absorber_congr {plans : List MergePlan} {s' : Maps} {id : CohortId}
    (h : ∀ plan ∈ plans, plan.src = id → (mergeable plan s' ↔ mergeable plan s))
    : absorber plans s' id = absorber plans s id := by
  induction plans with
  | nil => rfl
  | cons plan rest ih =>
    rw [absorber_cons, absorber_cons, ih fun p hp => h p (List.mem_cons_of_mem _ hp)]
    exact if_congr (and_congr_right (h plan List.mem_cons_self)) rfl rfl

theorem absorber_cases (plans : List MergePlan) (s : Maps) (id : CohortId)
    : (absorber plans s id = id ∧ ∀ plan ∈ plans, plan.src = id → ¬ mergeable plan s)
      ∨ ∃ plan ∈ plans, plan.src = id ∧ mergeable plan s ∧ absorber plans s id = plan.into := by
  induction plans with
  | nil => exact .inl ⟨rfl, by simp⟩
  | cons plan rest ih =>
    rw [absorber_cons]
    split
    . next h => exact .inr ⟨plan, List.mem_cons_self, h.1, h.2, rfl⟩
    . next h =>
      cases ih with
      | inl hstays =>
        refine .inl ⟨hstays.1, ?_⟩
        intro p hp hsrc hmergeable
        cases List.mem_cons.mp hp with
        | inl heq =>
          rw [heq] at hsrc hmergeable
          exact h ⟨hsrc, hmergeable⟩
        | inr hp => exact hstays.2 p hp hsrc hmergeable
      | inr hmoves =>
        obtain ⟨p, hp, hmoves⟩ := hmoves
        exact .inr ⟨p, List.mem_cons_of_mem _ hp, hmoves⟩

-- What the merges of a tick do together.
structure MergedAll (plans : List MergePlan) (s s' : Maps) : Prop where
  tgids : ∀ tgid, s'.tgidCohort.lookup tgid = (s.tgidCohort.lookup tgid).map (absorber plans s)
  policy : ∀ id, s'.cohortPolicy.lookup id
    = if ∃ plan ∈ plans, plan.src = id ∧ mergeable plan s then none else s.cohortPolicy.lookup id

theorem MergedAll.skip {s' : Maps} (h : MergedAll rest s s') (hskip : ¬ mergeable plan s)
    : MergedAll (plan :: rest) s s' := by
  constructor
  . intro tgid
    rw [h.tgids]
    congr 1
    funext id
    rw [absorber_cons, if_neg]
    exact fun hplan => hskip hplan.2
  . intro id
    rw [h.policy]
    apply if_congr _ rfl rfl
    rw [List.exists_mem_cons_iff]
    simp only [hskip, and_false, false_or]

theorem MergedAll.cons {s' : Maps} (h : MergedAll rest (mergeMaps env T plan s) s')
    (hagrees : Agrees T (plan :: rest) s) (hmatching : Matching T (plan :: rest))
    (hmergeable : mergeable plan s)
    : MergedAll (plan :: rest) s s' := by
  have hapart := (List.pairwise_cons.mp hmatching.apart).1
  have hsame : ∀ p ∈ rest, mergeable p (mergeMaps env T plan s) ↔ mergeable p s :=
    fun p hp => mergeable_mergeMaps hmatching hp
  constructor
  . intro tgid
    rw [h.tgids, lookup_mergeMaps hagrees, Option.map_map]
    congr 1
    funext id
    rw [Function.comp_apply, absorber_cons, absorber_congr fun p hp _ => hsame p hp]
    unfold rename
    by_cases hsrc : id = plan.src
    . rw [if_pos hsrc, if_pos ⟨hsrc.symm, hmergeable⟩]
      apply absorber_eq_self
      intro p hp heq
      exact (hapart p hp).2.1 heq.symm
    . rw [if_neg hsrc, if_neg]
      exact fun hplan => hsrc hplan.1.symm
  . intro id
    have hdelete : (mergeMaps env T plan s).cohortPolicy.lookup id
        = if id = plan.src then none else s.cohortPolicy.lookup id :=
      BoundedMap.lookup_delete _ _ _
    rw [h.policy, hdelete]
    by_cases hsrc : id = plan.src
    . rw [if_pos hsrc, ite_self, if_pos]
      exact ⟨plan, List.mem_cons_self, hsrc.symm, hmergeable⟩
    . rw [if_neg hsrc]
      apply if_congr _ rfl rfl
      rw [List.exists_mem_cons_iff]
      constructor
      . rintro ⟨p, hp, heq, hp'⟩
        exact .inr ⟨p, hp, heq, (hsame p hp).mp hp'⟩
      . rintro (hplan | ⟨p, hp, heq, hp'⟩)
        . exact absurd hplan.1.symm hsrc
        . exact ⟨p, hp, heq, (hsame p hp).mpr hp'⟩

theorem exec_applyMerges (env : TickEnv) (plans : List MergePlan) (h : Agrees T plans s)
    (hmatching : Matching T plans) (d : Scheduler)
    : ∃ d' s', exec (plans.forM (applyMerge env T)) d s = (.ok (⟨⟩, d'), s')
        ∧ MergedAll plans s s' := by
  induction plans generalizing d s with
  | nil => exact ⟨d, s, rfl, fun _ => (Option.map_id_apply).symm, fun _ => by simp⟩
  | cons plan rest ih =>
    by_cases hmergeable : mergeable plan s
    . obtain ⟨d', s', hexec, hmerged⟩ := ih (h.merge env hmatching) hmatching.tail
        (mergeState plan d)
      refine ⟨d', s', ?_, hmerged.cons h hmatching hmergeable⟩
      rw [exec_forM_cons_ok (exec_applyMerge env T hmergeable d), hexec]
    . obtain ⟨d', s', hexec, hmerged⟩ := ih h.tail hmatching.tail d
      refine ⟨d', s', ?_, hmerged.skip hmergeable⟩
      rw [exec_forM_cons_ok (exec_applyMerge_skip hmergeable), hexec]

end Merges

section Splits

variable {plan : SplitPlan} {d : Scheduler} {s : Maps} {n : Nat}

-- The plans that are carried out, those whose cohort is still there when their turn comes. One that
-- finds no room is the last.
def appliedSplits : List SplitPlan → Scheduler → Maps → List SplitPlan
  | [], _, _ => []
  | plan :: plans, d, s =>
    match exec (applySplit plan) d s with
    | (.ok (_, d'), s') =>
      if plan.cohort ∈ s.cohortPolicy then
        plan :: appliedSplits plans d' s'
      else
        appliedSplits plans d' s'
    | (.error _, _) => [plan]

-- Both maps, and the numbers of the daemon, have room for `n` more cohorts.
structure HasRoom (n : Nat) (d : Scheduler) (s : Maps) : Prop where
  policy : s.cohortPolicy.size + n ≤ maxCohorts
  counters : s.cohortCounters.size + n ≤ maxCohorts
  ids : daemonCohortBase.toNat + d.daemonSeq.toNat + n ≤ 2 ^ 64

def Unused (d : Scheduler) (s : Maps) : Prop :=
  ∀ id, id ∈ s.cohortPolicy ∨ id ∈ s.cohortCounters
    → id.toNat < daemonCohortBase.toNat + d.daemonSeq.toNat

def newIds : Nat → Scheduler → List CohortId
  | 0, _ => []
  | n + 1, d => freshId d :: newIds n (splitState d)

theorem toNat_freshId (h : daemonCohortBase.toNat + d.daemonSeq.toNat < 2 ^ 64)
    : (freshId d).toNat = daemonCohortBase.toNat + d.daemonSeq.toNat := by
  unfold freshId
  rw [UInt64.toNat_add, Nat.mod_eq_of_lt h]

theorem toNat_splitState (h : daemonCohortBase.toNat + d.daemonSeq.toNat < 2 ^ 64)
    : (splitState d).daemonSeq.toNat = d.daemonSeq.toNat + 1 := by
  have hbase : daemonCohortBase.toNat = 2 ^ 32 := by decide
  show (d.daemonSeq + 1).toNat = _
  rw [UInt64.toNat_add]
  apply Nat.mod_eq_of_lt
  rw [hbase] at h
  have hone : (1 : UInt64).toNat = 1 := rfl
  omega

theorem mem_newIds {id : CohortId} (h : daemonCohortBase.toNat + d.daemonSeq.toNat + n ≤ 2 ^ 64)
    (hid : id ∈ newIds n d)
    : daemonCohortBase.toNat + d.daemonSeq.toNat ≤ id.toNat := by
  induction n generalizing d with
  | zero => contradiction
  | succ n ih =>
    have hlt : daemonCohortBase.toNat + d.daemonSeq.toNat < 2 ^ 64 := by omega
    cases List.mem_cons.mp hid with
    | inl heq => rw [heq, toNat_freshId hlt]
    | inr hid =>
      have hseq := toNat_splitState hlt
      have hle := ih (by omega) hid
      omega

theorem nodup_newIds (h : daemonCohortBase.toNat + d.daemonSeq.toNat + n ≤ 2 ^ 64)
    : (newIds n d).Nodup := by
  induction n generalizing d with
  | zero => exact List.nodup_nil
  | succ n ih =>
    have hlt : daemonCohortBase.toNat + d.daemonSeq.toNat < 2 ^ 64 := by omega
    have hseq := toNat_splitState hlt
    apply List.nodup_cons.mpr
    constructor
    . intro hid
      have hle := mem_newIds (by omega) hid
      rw [toNat_freshId hlt] at hle
      omega
    . exact ih (by omega)

theorem length_newIds (n : Nat) (d : Scheduler) : (newIds n d).length = n := by
  induction n generalizing d with
  | zero => rfl
  | succ n ih =>
    unfold newIds
    rw [List.length_cons, ih]

theorem HasRoom.mono {m : Nat} (h : HasRoom n d s) (hm : m ≤ n) : HasRoom m d s := by
  have := h.policy
  have := h.counters
  have := h.ids
  constructor <;> omega

theorem HasRoom.lt (h : HasRoom (n + 1) d s)
    : daemonCohortBase.toNat + d.daemonSeq.toNat < 2 ^ 64 := by
  have := h.ids
  omega

-- The next cohort of the daemon can be made.
structure Insertable (d : Scheduler) (s : Maps) : Prop where
  policy : freshId d ∉ s.cohortPolicy ∧ s.cohortPolicy.size < maxCohorts
  counters : freshId d ∉ s.cohortCounters ∧ s.cohortCounters.size < maxCohorts

theorem HasRoom.insertable (h : HasRoom 1 d s) (hunused : Unused d s) : Insertable d s := by
  have hid := toNat_freshId h.lt
  have hnew : ¬ (freshId d ∈ s.cohortPolicy ∨ freshId d ∈ s.cohortCounters) := by
    intro hold
    have := hunused _ hold
    omega
  rw [not_or] at hnew
  exact ⟨⟨hnew.1, h.policy⟩, hnew.2, h.counters⟩

-- What one split adds.
structure SplitOnce (plan : SplitPlan) (d : Scheduler) (s s' : Maps) : Prop where
  insertable : Insertable d s
  policy : ∀ id, id ∈ s'.cohortPolicy ↔ id = freshId d ∨ id ∈ s.cohortPolicy
  counters : ∀ id, id ∈ s'.cohortCounters ↔ id = freshId d ∨ id ∈ s.cohortCounters
  homes : ∀ id, s'.cohortPolicy.lookup id
    = if id = freshId d then (s.cohortPolicy.lookup plan.cohort).map splitPolicy
      else s.cohortPolicy.lookup id
  policySize : s'.cohortPolicy.size = s.cohortPolicy.size + 1
  countersSize : s'.cohortCounters.size = s.cohortCounters.size + 1
  cohortSeq : s'.cohortSeq = s.cohortSeq
  taskStats : s'.taskStats = s.taskStats
  spillTasks : s'.spillTasks = s.spillTasks
  tgids : ∀ tgid, s'.tgidCohort.lookup tgid
    = if tgid ∈ plan.offTgids then (s.tgidCohort.lookup tgid).map fun _ => freshId d
      else s.tgidCohort.lookup tgid

theorem SplitOnce.room {s' : Maps} (h : SplitOnce plan d s s') (hroom : HasRoom (n + 1) d s)
    : HasRoom n (splitState d) s' := by
  have hseq := toNat_splitState hroom.lt
  have := hroom.policy
  have := hroom.counters
  have := hroom.ids
  constructor
  . rw [h.policySize]
    omega
  . rw [h.countersSize]
    omega
  . omega

theorem SplitOnce.unused {s' : Maps} (h : SplitOnce plan d s s') (hunused : Unused d s)
    (hlt : daemonCohortBase.toNat + d.daemonSeq.toNat < 2 ^ 64)
    : Unused (splitState d) s' := by
  have hseq := toNat_splitState hlt
  intro id hid
  rw [h.policy, h.counters] at hid
  by_cases heq : id = freshId d
  . rw [heq, toNat_freshId hlt]
    omega
  . simp only [heq, false_or] at hid
    have := hunused id hid
    omega

theorem splitOnce_of_exec {a : PUnit} {d' : Scheduler} {s' : Maps} (hmem : plan.cohort ∈ s.cohortPolicy)
    (h : exec (applySplit plan) d s = (.ok (a, d'), s'))
    : d' = splitState d ∧ SplitOnce plan d s s' := by
  obtain ⟨old, hold⟩ := BoundedMap.mem_iff_lookup.mp hmem
  rw [exec_applySplit] at h
  unfold splitMaps at h
  simp only [hold] at h
  cases hpolicy : s.cohortPolicy.update (freshId d) (splitPolicy old) .noExist with
  | error e => simp [hpolicy] at h
  | ok policy =>
    simp only [hpolicy] at h
    cases hcounters : s.cohortCounters.update (freshId d) {} .noExist with
    | error e => simp [hcounters] at h
    | ok counters =>
      simp only [hcounters, Prod.mk.injEq, Except.ok.injEq] at h
      obtain ⟨⟨_, rfl⟩, rfl⟩ := h
      have hpolicySize := BoundedMap.size_update_noExist hpolicy
      have hcountersSize := BoundedMap.size_update_noExist hcounters
      have hpolicyLe : policy.size ≤ maxCohorts := policy.size_le
      have hcountersLe : counters.size ≤ maxCohorts := counters.size_le
      refine ⟨rfl, ⟨⟨BoundedMap.not_mem_of_update_noExist hpolicy, ?_⟩,
          BoundedMap.not_mem_of_update_noExist hcounters, ?_⟩, BoundedMap.mem_update_ok hpolicy,
        BoundedMap.mem_update_ok hcounters, ?_, hpolicySize, hcountersSize, rfl, rfl, rfl,
        lookup_splitAll (freshId d) plan.offTgids s.tgidCohort⟩
      . omega
      . omega
      . intro id
        rw [hold, Option.map_some]
        exact BoundedMap.lookup_update_ok hpolicy id

theorem exec_applySplit_of_insertable (hmem : plan.cohort ∈ s.cohortPolicy) (h : Insertable d s)
    : ∃ s', exec (applySplit plan) d s = (.ok (⟨⟩, splitState d), s') := by
  obtain ⟨old, hold⟩ := BoundedMap.mem_iff_lookup.mp hmem
  obtain ⟨policy, hpolicy⟩ := BoundedMap.update_noExist_of_room h.policy.1 h.policy.2 (splitPolicy old)
  obtain ⟨counters, hcounters⟩ := BoundedMap.update_noExist_of_room h.counters.1 h.counters.2
    ({} : CohortCounters)
  rw [exec_applySplit]
  unfold splitMaps
  simp only [hold, hpolicy, hcounters]
  exact ⟨_, rfl⟩

-- What the splits of a tick do together.
structure SplitOff (applied : List SplitPlan) (d : Scheduler) (s s' : Maps) : Prop where
  policy : ∀ id, id ∈ s'.cohortPolicy ↔ id ∈ s.cohortPolicy ∨ id ∈ newIds applied.length d
  counters : ∀ id, id ∈ s'.cohortCounters ↔ id ∈ s.cohortCounters ∨ id ∈ newIds applied.length d
  tgids : ∀ tgid, tgid ∈ s'.tgidCohort ↔ tgid ∈ s.tgidCohort
  together : ∀ a b, (∀ plan ∈ applied, a ∈ plan.offTgids ↔ b ∈ plan.offTgids)
    → s.tgidCohort.lookup a = s.tgidCohort.lookup b → s'.tgidCohort.lookup a = s'.tgidCohort.lookup b

theorem SplitOnce.mem_tgids {s' : Maps} (h : SplitOnce plan d s s') (tgid : Tgid)
    : tgid ∈ s'.tgidCohort ↔ tgid ∈ s.tgidCohort := by
  rw [BoundedMap.mem_iff_lookup, BoundedMap.mem_iff_lookup, h.tgids]
  split
  . simp
  . rfl

theorem SplitOnce.together {s' : Maps} (h : SplitOnce plan d s s') {a b : Tgid}
    (hplan : a ∈ plan.offTgids ↔ b ∈ plan.offTgids)
    (hab : s.tgidCohort.lookup a = s.tgidCohort.lookup b)
    : s'.tgidCohort.lookup a = s'.tgidCohort.lookup b := by
  rw [h.tgids, h.tgids, hab]
  simp only [hplan]

theorem SplitOff.cons {applied : List SplitPlan} {s' s'' : Maps}
    (h' : SplitOff applied (splitState d) s' s'') (h : SplitOnce plan d s s')
    : SplitOff (plan :: applied) d s s'' := by
  constructor
  . intro id
    rw [h'.policy, h.policy, List.length_cons, newIds, List.mem_cons]
    tauto
  . intro id
    rw [h'.counters, h.counters, List.length_cons, newIds, List.mem_cons]
    tauto
  . intro tgid
    rw [h'.tgids, h.mem_tgids]
  . intro a b hplans hab
    apply h'.together a b
    . intro plan' hplan'
      exact hplans plan' (List.mem_cons_of_mem _ hplan')
    . exact h.together (hplans plan List.mem_cons_self) hab

theorem splitOff_applySplits (plans : List SplitPlan)
    (hroom : HasRoom (appliedSplits plans d s).length d s) (hunused : Unused d s)
    : ∃ d' s', exec (plans.forM applySplit) d s = (.ok (⟨⟩, d'), s')
        ∧ SplitOff (appliedSplits plans d s) d s s' := by
  induction plans generalizing d s with
  | nil => exact ⟨d, s, rfl, by simp [appliedSplits, newIds], by simp [appliedSplits, newIds],
      fun _ => Iff.rfl, fun _ _ _ hab => hab⟩
  | cons plan plans ih =>
    unfold appliedSplits at hroom ⊢
    by_cases hmem : plan.cohort ∈ s.cohortPolicy
    . have hone : HasRoom 1 d s := by
        apply hroom.mono
        split
        . rw [if_pos hmem, List.length_cons]
          omega
        . rfl
      obtain ⟨s', hexec⟩ := exec_applySplit_of_insertable hmem (hone.insertable hunused)
      have honce := (splitOnce_of_exec hmem hexec).2
      simp only [hexec, if_pos hmem, List.length_cons] at hroom ⊢
      obtain ⟨d'', s'', hexec', hoff⟩ := ih (honce.room hroom) (honce.unused hunused hone.lt)
      refine ⟨d'', s'', ?_, hoff.cons honce⟩
      rw [exec_forM_cons_ok hexec, hexec']
    . have hskip := exec_applySplit_skip hmem d
      simp only [hskip, if_neg hmem] at hroom ⊢
      obtain ⟨d', s', hexec, hoff⟩ := ih hroom hunused
      refine ⟨d', s', ?_, hoff⟩
      rw [exec_forM_cons_ok hskip, hexec]

end Splits

section Tick

variable {env : TickEnv} {view : TickView} {d d' : Scheduler} {s s' : Maps}

-- Every number the callbacks or the daemon have ever given out.
def Allocated (d : Scheduler) (s : Maps) (id : CohortId) : Prop :=
  id.toNat ≤ s.cohortSeq.toNat
    ∨ daemonCohortBase.toNat ≤ id.toNat ∧ id.toNat < daemonCohortBase.toNat + d.daemonSeq.toNat

def AllAllocated (d : Scheduler) (s : Maps) : Prop :=
  ∀ id, id ∈ s.cohortPolicy ∨ id ∈ s.cohortCounters → Allocated d s id

theorem NoneMade.unused (h : NoneMade d s d' s') (hall : AllAllocated d s)
    (hseq : s.cohortSeq.toNat < 2 ^ 32 - 1)
    : Unused d' s' := by
  have hbase : daemonCohortBase.toNat = 2 ^ 32 := by decide
  intro id hid
  have hold : id ∈ s.cohortPolicy ∨ id ∈ s.cohortCounters := by
    cases hid with
    | inl hid => exact .inl (h.policy id hid)
    | inr hid => exact .inr (h.counters id hid)
  rw [h.daemonSeq]
  cases hall id hold with
  | inl hbpf => omega
  | inr hdaemon => exact hdaemon.2

-- What comes before the splits, which are then carried out as planned here.
def mergeFirst (env : TickEnv) (view : TickView) : DaemonM (List SplitPlan) := do
  observeEdges env
  let cohortSizes := HashTable.ofList (view.cohorts.map fun c => (c.id, c.nrTasks))
  let merges ← planMerges env view.tgidCohort cohortSizes
  merges.forM (applyMerge env view.tgidCohort)
  planSplits env (cohortTgids env.order cohortSizes view.tasks view.tgidCohort)

theorem exec_discoverRelationships (env : TickEnv) (view : TickView) (d : Scheduler) (s : Maps)
    : exec (discoverRelationships env view.cohorts view.tasks view.tgidCohort) d s
        =
      exec (mergeFirst env view >>= fun plans => plans.forM applySplit) d s := by
  unfold discoverRelationships mergeFirst
  simp only [bind_assoc]

structure CarriesMerges (G : Scheduler → Maps → Scheduler → Maps → Prop) : Prop where
  refl : ∀ d s, G d s d s
  trans : ∀ d₁ s₁ d₂ s₂ d₃ s₃, G d₁ s₁ d₂ s₂ → G d₂ s₂ d₃ s₃ → G d₁ s₁ d₃ s₃
  graph : ∀ d s w, G d s { d with wakeGraph := w } s
  edges : ∀ d s m, G d s d { s with wakeEdges := m }
  merge : ∀ env T plan d s, mergeable plan s → G d s (mergeState plan d) (mergeMaps env T plan s)

namespace CarriesMerges

variable {G : Scheduler → Maps → Scheduler → Maps → Prop} {T : HashTable Tgid CohortId}

theorem applyMerge {plan : MergePlan} (h : CarriesMerges G)
    : Carries G (Daemon.applyMerge env T plan) := by
  intro d s a d' s' hexec
  by_cases hmergeable : mergeable plan s
  . obtain ⟨_, rfl, rfl⟩ := exec_inj hexec (exec_applyMerge env T hmergeable ..)
    exact h.merge env T plan d s hmergeable
  . obtain ⟨_, rfl, rfl⟩ := exec_inj hexec (exec_applyMerge_skip hmergeable ..)
    exact h.refl d s

theorem mergeFirst (h : CarriesMerges G) : Carries G (Daemon.mergeFirst env view) := by
  unfold Daemon.mergeFirst planSplits
  apply carries_bind h.trans
  . intro d s a d' s' hexec
    obtain ⟨_, rfl, rfl⟩ := exec_inj hexec (exec_observeEdges ..)
    exact h.trans _ _ _ _ _ _ (h.edges d s ∅) (h.graph d _ _)
  . intro _
    apply carries_bind h.trans
    . intro d s a d' s' hexec
      obtain ⟨_, rfl, rfl⟩ := exec_inj hexec (exec_planMerges ..)
      exact h.graph d s _
    . intro merges
      apply carries_bind h.trans
      . apply carries_forM h.trans h.refl
        intro plan _
        exact h.applyMerge
      . intro _
        apply carries_get_bind
        intro d s b d' s' hexec
        rw [exec_bind_ok (exec_set _ _ _)] at hexec
        exact h.trans _ _ _ _ _ _ (h.graph d s _) (carries_pure h.refl _ _ _ _ _ hexec)

end CarriesMerges

theorem NoneMade.carriesMerges : CarriesMerges NoneMade where
  refl := NoneMade.refl
  trans := NoneMade.trans
  graph := fun _ _ _ => NoneMade.same rfl rfl rfl rfl
  edges := fun _ _ _ => NoneMade.same rfl rfl rfl rfl
  merge := fun _ _ _ _ _ _ =>
    ⟨fun _ h => ((BoundedMap.mem_delete _ _ _).mp h).2,
      fun _ h => ((BoundedMap.mem_delete _ _ _).mp h).2, rfl, rfl⟩

-- The tasks of each cohort, as the wake graph is told.
def sizesOf (view : TickView) : HashTable CohortId UInt64 :=
  HashTable.ofList (view.cohorts.map fun c => (c.id, c.nrTasks))

theorem exec_mergeFirst (env : TickEnv) (d : Scheduler)
    (h : ∀ tgid id, s.tgidCohort.lookup tgid = some id → view.tgidCohort.lookup tgid = some id)
    : ∃ w d' s', exec (mergeFirst env view) d s
          = (.ok ((WakeGraph.splits env.order w
              (cohortTgids env.order (sizesOf view) view.tasks view.tgidCohort)).1, d'), s')
        ∧ MergedAll ((graphSeen env d s).merges env.order view.tgidCohort (sizesOf view)).1 s s' := by
  unfold mergeFirst
  rw [exec_bind_ok (exec_observeEdges _ _ _), exec_bind_ok (exec_planMerges _ _ _ _ _)]
  have hread : ∀ tgid id, ({ s with wakeEdges := ∅ } : Maps).tgidCohort.lookup tgid = some id
      → view.tgidCohort.lookup tgid = some id := h
  obtain ⟨d₃, s₃, h₃, hmerged⟩ := exec_applyMerges env _ (agrees_of_read hread _)
    (matching_merges _ _ _) _
  rw [exec_bind_ok h₃]
  exact ⟨d₃.wakeGraph, _, s₃, rfl, hmerged.tgids, hmerged.policy⟩

end Tick

section Reached

variable {g : Globals} {env : TickEnv} {d d' : Scheduler} {s s' : Maps}

-- The daemon and the maps between callbacks and ticks. The callbacks never run out of numbers below
-- those of the daemon, and the daemon never of its own.
inductive Reached (g : Globals) : Scheduler → Maps → Prop where
  | start (d : Scheduler) : Reached g d (Bpf.attached g)
  | callback {d : Scheduler} {s : Maps} (e : Bpf.Event) (he : e.isCallback = true)
      (hseq : s.cohortSeq.toNat < 2 ^ 32 - 1) (h : Reached g d s)
      : Reached g d (Bpf.step g s e)
  | tick {d d' : Scheduler} {s s' : Maps} {env : TickEnv} {r : List CohortSnapshot × List LlcLoad}
      (hids : daemonCohortBase.toNat + d.daemonSeq.toNat + maxCohorts ≤ 2 ^ 64)
      (hexec : exec (tick env) d s = (.ok (r, d'), s')) (h : Reached g d s)
      : Reached g d' s'

theorem NoneMade.allAllocated (h : NoneMade d s d' s') (hall : AllAllocated d s)
    : AllAllocated d' s' := by
  intro id hid
  have hold : id ∈ s.cohortPolicy ∨ id ∈ s.cohortCounters := by
    cases hid with
    | inl hid => exact .inl (h.policy id hid)
    | inr hid => exact .inr (h.counters id hid)
  have hid' := hall id hold
  unfold Allocated at hid' ⊢
  rw [h.cohortSeq, h.daemonSeq]
  exact hid'

theorem noneMade_keepsRuntime (d : Scheduler) : Bpf.KeepsRuntime fun s s' => NoneMade d s d s' where
  refl := NoneMade.refl d
  stat := fun _ _ => NoneMade.same rfl rfl rfl rfl
  tctx := fun _ _ _ _ => NoneMade.same rfl rfl rfl rfl
  headEnqTs := fun _ _ _ => NoneMade.same rfl rfl rfl rfl
  queues := fun _ _ _ => NoneMade.same rfl rfl rfl rfl
  idle := fun _ _ => NoneMade.same rfl rfl rfl rfl
  sample := fun _ _ => NoneMade.same rfl rfl rfl rfl
  edges := fun _ _ => NoneMade.same rfl rfl rfl rfl
  wake := fun _ _ _ _ => NoneMade.same rfl rfl rfl rfl
  nrTasks := fun _ _ _ => ⟨fun _ h => h, fun _ h => (BoundedMap.mem_modify _ _ _ _).mp h, rfl, rfl⟩
  dropTaskStat := fun _ _ => NoneMade.same rfl rfl rfl rfl
  dropSpill := fun _ _ => NoneMade.same rfl rfl rfl rfl
  anyTctx := fun _ _ _ => NoneMade.same rfl rfl rfl rfl
  vtimeNow := fun _ _ _ => NoneMade.same rfl rfl rfl rfl
  anyCounters := fun _ _ _ => ⟨fun _ h => h, fun _ h => (BoundedMap.mem_modify _ _ _ _).mp h, rfl, rfl⟩
  llcLoad := fun _ _ => NoneMade.same rfl rfl rfl rfl
  anyTaskStat := fun _ _ _ => NoneMade.same rfl rfl rfl rfl

theorem allAllocated_withFreshCohort (hall : AllAllocated d s) (hseq : s.cohortSeq.toNat < 2 ^ 32 - 1)
    : AllAllocated d (Bpf.withFreshCohort g s) := by
  have hone : (s.cohortSeq + 1).toNat = s.cohortSeq.toNat + 1 := by
    rw [UInt64.toNat_add]
    apply Nat.mod_eq_of_lt
    have : (1 : UInt64).toNat = 1 := rfl
    omega
  intro id hid
  have hcases : id = s.cohortSeq + 1 ∨ id ∈ s.cohortPolicy ∨ id ∈ s.cohortCounters := by
    unfold Bpf.withFreshCohort at hid
    dsimp only at hid
    cases hid with
    | inl hid =>
      cases BoundedMap.mem_of_mem_updateD hid with
      | inl heq => exact .inl heq
      | inr hid => exact .inr (.inl hid)
    | inr hid =>
      cases BoundedMap.mem_of_mem_updateD hid with
      | inl heq => exact .inl heq
      | inr hid => exact .inr (.inr hid)
  have hseq' : (Bpf.withFreshCohort g s).cohortSeq = s.cohortSeq + 1 := rfl
  unfold Allocated
  rw [hseq', hone]
  cases hcases with
  | inl heq =>
    rw [heq, hone]
    exact .inl le_rfl
  | inr hold =>
    cases hall id hold with
    | inl hle => exact .inl (by omega)
    | inr hdaemon => exact .inr hdaemon

theorem allAllocated_initTask {p : TaskStruct} {fork : Bool} {parent : Option TaskStruct} {alloc : Bool}
    (hall : AllAllocated d s) (hseq : s.cohortSeq.toNat < 2 ^ 32 - 1)
    : AllAllocated d (Bpf.step g s (.initTask p fork parent alloc)) := by
  rw [Bpf.step_initTask]
  split
  . have hstorage : NoneMade d s d (Bpf.withStorage s p.tid) := by
      unfold Bpf.withStorage
      split <;> exact NoneMade.same rfl rfl rfl rfl
    have hall' := hstorage.allAllocated hall
    rw [← hstorage.cohortSeq] at hseq
    have henroll : ∀ t id, NoneMade d t d (Bpf.enroll g t p id) := by
      intro t id
      exact ⟨fun _ h => h, fun _ h => (BoundedMap.mem_modify _ _ _ _).mp h, rfl, rfl⟩
    apply (henroll _ _).allAllocated
    unfold Bpf.assigned
    split
    . exact hall'
    . split
      . have hfresh := allAllocated_withFreshCohort (g := g) hall' hseq
        exact hfresh
      . exact hall'
  . exact hall

theorem allAllocated_callback {e : Bpf.Event} (he : e.isCallback = true) (hall : AllAllocated d s)
    (hseq : s.cohortSeq.toNat < 2 ^ 32 - 1)
    : AllAllocated d (Bpf.step g s e) := by
  have hkeeps := noneMade_keepsRuntime d
  have hnone {q : BpfM PUnit} (hq : q.Keeps fun s s' => NoneMade d s d s')
      : AllAllocated d (q.run s).2 :=
    (hq.run hkeeps.refl (fun _ _ _ h h' => NoneMade.trans _ _ _ _ _ _ h h') s).allAllocated hall
  cases e with
  | initTask p fork parent alloc => exact allAllocated_initTask hall hseq
  | running p now => exact hnone hkeeps.account.cohortRunning
  | stopping p now => exact hnone hkeeps.account.cohortStopping
  | exitTask p => exact hnone hkeeps.cohortExitTask
  | selectCpu p prevCpu env => exact hnone (Bpf.keeps_ignore hkeeps.calls.cohortSelectCpu)
  | enqueue p now => exact hnone hkeeps.calls.cohortEnqueue
  | dispatch cpu now => exact hnone (Bpf.keeps_ignore hkeeps.cohortDispatch)
  | runnable p now => exact hnone hkeeps.cohortRunnable
  | _ => contradiction

theorem SplitOnce.allAllocated {plan : SplitPlan} (h : SplitOnce plan d s s') (hall : AllAllocated d s)
    (hlt : daemonCohortBase.toNat + d.daemonSeq.toNat < 2 ^ 64)
    : AllAllocated (splitState d) s' := by
  have hdaemon := toNat_splitState hlt
  intro id hid
  rw [h.policy, h.counters] at hid
  unfold Allocated
  rw [h.cohortSeq, hdaemon]
  by_cases heq : id = freshId d
  . rw [heq, toNat_freshId hlt]
    omega
  . simp only [heq, false_or] at hid
    have hold := hall id hid
    unfold Allocated at hold
    omega

-- Every split takes an entry of `cohort_policy`, so there are only so many of them.
theorem applySplits_invariant {I : Scheduler → Maps → Prop} {plans : List SplitPlan}
    (hstep : ∀ plan ∈ plans, ∀ d s s', plan.cohort ∈ s.cohortPolicy → SplitOnce plan d s s'
      → daemonCohortBase.toNat + d.daemonSeq.toNat < 2 ^ 64 → I d s → I (splitState d) s')
    {n : Nat} (hids : daemonCohortBase.toNat + d.daemonSeq.toNat + n ≤ 2 ^ 64)
    (hn : maxCohorts ≤ s.cohortPolicy.size + n) (hs : I d s) {a : PUnit}
    (hexec : exec (plans.forM applySplit) d s = (.ok (a, d'), s'))
    : I d' s' := by
  induction plans generalizing d s n with
  | nil =>
    obtain ⟨⟨_, rfl⟩, rfl⟩ := by simpa [exec_pure] using hexec
    exact hs
  | cons plan plans ih =>
    have hrest := fun p hp => hstep p (List.mem_cons_of_mem _ hp)
    obtain ⟨_, d₁, s₁, h₁, hexec⟩ := exec_bind_inv hexec
    by_cases hmem : plan.cohort ∈ s.cohortPolicy
    . obtain ⟨rfl, honce⟩ := splitOnce_of_exec hmem h₁
      have hsize := honce.policySize
      have hle : s₁.cohortPolicy.size ≤ maxCohorts := s₁.cohortPolicy.size_le
      have hlt : daemonCohortBase.toNat + d.daemonSeq.toNat < 2 ^ 64 := by omega
      have hseq := toNat_splitState hlt
      refine ih hrest (n := n - 1) ?_ ?_ (hstep plan List.mem_cons_self d s s₁ hmem honce hlt hs) hexec
      . omega
      . omega
    . obtain ⟨_, rfl, rfl⟩ := exec_inj h₁ (exec_applySplit_skip hmem ..)
      exact ih hrest hids hn hs hexec

theorem exec_tick_inv {r : List CohortSnapshot × List LlcLoad}
    (h : exec (tick env) d s = (.ok (r, d'), s'))
    : ∃ view d₁ s₁ plans d₂ s₂, exec (place env) d s = (.ok (view, d₁), s₁)
        ∧ exec (mergeFirst env view) d₁ s₁ = (.ok (plans, d₂), s₂)
        ∧ exec (plans.forM applySplit) d₂ s₂ = (.ok (⟨⟩, d'), s') := by
  unfold tick at h
  obtain ⟨view, d₁, s₁, h₁, h⟩ := exec_bind_inv h
  obtain ⟨_, d₂, s₂, h₂, h⟩ := exec_bind_inv h
  obtain ⟨_, rfl, rfl⟩ := exec_inj h (exec_pure ..)
  rw [exec_discoverRelationships] at h₂
  obtain ⟨plans, d₃, s₃, h₃, hsplits⟩ := exec_bind_inv h₂
  exact ⟨view, d₁, s₁, plans, d₃, s₃, h₁, h₃, hsplits⟩

-- What the search for merges and splits does.
structure CarriesSearch (G : Scheduler → Maps → Scheduler → Maps → Prop) : Prop
    extends CarriesMerges G where
  split : ∀ plan d s s', SplitOnce plan d s s' → G d s (splitState d) s'

namespace CarriesSearch

variable {G : Scheduler → Maps → Scheduler → Maps → Prop}

theorem applySplit {plan : SplitPlan} (h : CarriesSearch G) : Carries G (Daemon.applySplit plan) := by
  intro d s a d' s' hexec
  by_cases hmem : plan.cohort ∈ s.cohortPolicy
  . obtain ⟨rfl, honce⟩ := splitOnce_of_exec hmem hexec
    exact h.split plan d s s' honce
  . obtain ⟨_, rfl, rfl⟩ := exec_inj hexec (exec_applySplit_skip hmem ..)
    exact h.refl d s

theorem afterPlace {view : TickView} {plans : List SplitPlan} {d₁ d₂ : Scheduler} {s₁ s₂ : Maps}
    (h : CarriesSearch G) (hmerge : exec (mergeFirst env view) d₁ s₁ = (.ok (plans, d₂), s₂))
    (hsplits : exec (plans.forM Daemon.applySplit) d₂ s₂ = (.ok (⟨⟩, d'), s'))
    : G d₁ s₁ d' s' := by
  apply h.trans _ _ _ _ _ _ (h.toCarriesMerges.mergeFirst _ _ _ _ _ hmerge)
  exact carries_forM h.trans h.refl (fun _ _ => h.applySplit) _ _ _ _ _ hsplits

end CarriesSearch

-- Everything that a tick does after its survey.
structure CarriesChanges (G : Scheduler → Maps → Scheduler → Maps → Prop) : Prop
    extends CarriesMoves G, CarriesSearch G

theorem CarriesChanges.afterSurvey {G : Scheduler → Maps → Scheduler → Maps → Prop}
    {r : List CohortSnapshot × List LlcLoad} (h : CarriesChanges G)
    (hexec : exec (tick env) d s = (.ok (r, d'), s'))
    : ∃ view d₁ s₁, exec (survey env) d s = (.ok (view, d₁), s₁) ∧ G d₁ s₁ d' s' := by
  obtain ⟨view', d₂, s₂, plans, d₃, s₃, hplace, hmerge, hsplits⟩ := exec_tick_inv hexec
  rw [place_eq] at hplace
  obtain ⟨view, d₁, s₁, hsurvey, hmoves⟩ := exec_bind_inv hplace
  refine ⟨view, d₁, s₁, hsurvey, ?_⟩
  apply h.trans _ _ _ _ _ _ (h.toCarriesMoves.moveAndSpill _ _ _ _ _ hmoves)
  exact h.toCarriesSearch.afterPlace hmerge hsplits

theorem allAllocated_tick {r : List CohortSnapshot × List LlcLoad} (hall : AllAllocated d s)
    (hids : daemonCohortBase.toNat + d.daemonSeq.toNat + maxCohorts ≤ 2 ^ 64)
    (hexec : exec (tick env) d s = (.ok (r, d'), s'))
    : AllAllocated d' s' := by
  obtain ⟨view, d₁, s₁, plans, d₂, s₂, hplace, hmerge, hsplits⟩ := exec_tick_inv hexec
  have hmade := NoneMade.trans _ _ _ _ _ _ (NoneMade.carriesPlace.place _ _ _ _ _ hplace)
    (NoneMade.carriesMerges.mergeFirst _ _ _ _ _ hmerge)
  refine applySplits_invariant (n := maxCohorts) ?_ ?_ ?_ (hmade.allAllocated hall) hsplits
  . intro plan _ d s s' _ honce hlt hall
    exact honce.allAllocated hall hlt
  . rw [hmade.daemonSeq]
    exact hids
  . omega

theorem allAllocated_of_reached (h : Reached g d s) : AllAllocated d s := by
  induction h with
  | start d =>
    have hstart := Bpf.cohorts_attached (g := g)
    intro id hid
    rw [hstart.policy, hstart.counters] at hid
    omega
  | callback e he hseq _ ih => exact allAllocated_callback he ih hseq
  | tick hids hexec _ ih => exact allAllocated_tick ih hids hexec

end Reached

section Regrouped

variable {env : TickEnv} {view : TickView} {d d' : Scheduler} {s s' : Maps}

-- `s` is what the tick reads, `s₁` what it has left before it looks for merges and splits.
structure Regrouped (d : Scheduler) (s s₁ : Maps) (applied : List SplitPlan) (s' : Maps) : Prop where
  consistent : NoDangling s'
  tgids : ∀ tgid, tgid ∈ s'.tgidCohort ↔ tgid ∈ s₁.tgidCohort
  created : ∃ created : List CohortId, created.Nodup ∧ created.length = applied.length
    ∧ (∀ id ∈ created, ¬ Allocated d s id ∧ CohortExists s' id)
    ∧ ∀ id, id ∈ s'.cohortPolicy ∨ id ∈ s'.cohortCounters
      → id ∈ s₁.cohortPolicy ∨ id ∈ s₁.cohortCounters ∨ id ∈ created
  together : ∀ a b id, s₁.tgidCohort.lookup a = some id → s₁.tgidCohort.lookup b = some id
    → (∀ plan ∈ applied, a ∈ plan.offTgids ↔ b ∈ plan.offTgids)
    → s'.tgidCohort.lookup a = s'.tgidCohort.lookup b

-- With no callback running, nothing is entered that the daemon has not read.
theorem alone {α : Type} {P : Maps → List CohortId → Prop} {Q : α → Maps → List CohortId → Prop}
    {p : DaemonM α} {a : α} (h : Holds terms P p Q) (hs : P s [])
    (hexec : exec p d s = (.ok (a, d'), s'))
    : Q a s' [] := by
  apply h.exec hs _ _ hexec
  . intro l s s' id _
    exact List.not_mem_nil
  . intro l s s'
    unfold terms World.noteRead
    dsimp only
    split <;> rfl

theorem reads_of_place (hs : NoDangling s) (hplace : exec (place env) d s = (.ok (view, d'), s'))
    : Reads view.tgidCohort s' [] := by
  apply alone holds_place _ hplace
  exact settled_iff.mpr ⟨hs, fun _ hid => hid.elim⟩

-- The numbers of the daemon lie above those of the callbacks.
theorem not_allocated {d₂ : Scheduler} {id : CohortId} (hseq : s.cohortSeq.toNat < 2 ^ 32 - 1)
    (hdaemon : d₂.daemonSeq = d.daemonSeq) {n : Nat} (hroom : HasRoom n d₂ s')
    (hid : id ∈ newIds n d₂)
    : ¬ Allocated d s id := by
  have hbase : daemonCohortBase.toNat = 2 ^ 32 := by decide
  have hle := mem_newIds hroom.ids hid
  rw [hdaemon] at hle
  unfold Allocated
  omega

theorem regrouped_of_place {d₁ d₂ : Scheduler} {s₁ s₂ : Maps} {plans : List SplitPlan}
    (hs : NoDangling s) (hall : AllAllocated d s) (hseq : s.cohortSeq.toNat < 2 ^ 32 - 1)
    (hplace : exec (place env) d s = (.ok (view, d₁), s₁))
    (hmerge : exec (mergeFirst env view) d₁ s₁ = (.ok (plans, d₂), s₂))
    (hroom : HasRoom (appliedSplits plans d₂ s₂).length d₂ s₂)
    : ∃ d' s',
        exec (discoverRelationships env view.cohorts view.tasks view.tgidCohort) d₁ s₁
            = (.ok (⟨⟩, d'), s')
          ∧ Regrouped d s s₁ (appliedSplits plans d₂ s₂) s' := by
  have hreads := reads_of_place hs hplace
  have hread : ∀ tgid id, s₁.tgidCohort.lookup tgid = some id
      → view.tgidCohort.lookup tgid = some id := by
    intro tgid id hlookup
    cases hreads.known tgid id hlookup with
    | inl hread => exact hread
    | inr hentered => contradiction
  have hplaced := NoneMade.carriesPlace.place _ _ _ _ _ hplace
  obtain ⟨w, d₂', s₂', hmerge', hall'⟩ := exec_mergeFirst env d₁ hread
  obtain ⟨_, rfl, rfl⟩ := exec_inj hmerge' hmerge
  have hmerged := NoneMade.carriesMerges.mergeFirst _ _ _ _ _ hmerge
  have hmade := NoneMade.trans _ _ _ _ _ _ hplaced hmerged
  obtain ⟨d', s', hsplit, hoff⟩ := splitOff_applySplits plans hroom (hmade.unused hall hseq)
  have hexec : exec (discoverRelationships env view.cohorts view.tasks view.tgidCohort) d₁ s₁
      = (.ok (⟨⟩, d'), s') := by
    rw [exec_discoverRelationships, exec_bind_ok hmerge, hsplit]
  refine ⟨d', s', hexec, ?_, ?_, ?_, ?_⟩
  . exact (alone holds_discoverRelationships hreads hexec).noDangling
  . intro tgid
    rw [hoff.tgids, BoundedMap.mem_iff_lookup, BoundedMap.mem_iff_lookup, hall'.tgids]
    simp
  . refine ⟨newIds _ d₂, nodup_newIds hroom.ids, length_newIds _ _, ?_, ?_⟩
    . intro id hid
      exact ⟨not_allocated hseq hmade.daemonSeq hroom hid, (hoff.policy id).mpr (.inr hid),
        (hoff.counters id).mpr (.inr hid)⟩
    . intro id hid
      rw [hoff.policy, hoff.counters] at hid
      have hpolicy := hmerged.policy id
      have hcounters := hmerged.counters id
      tauto
  . intro a b id ha hb hplans
    apply hoff.together a b hplans
    rw [hall'.tgids, hall'.tgids, ha, hb]

-- Cohort 1 has two members that never wake one another, and one of them is woken from cohort 2.
def restless : Scheduler :=
  { llcCpus := [(0, 1)]
    wakeGraph :=
      { cfg :=
          { mergeWakesPerSec := 1, mergeConfirmTicks := 1, splitConfirmTicks := 1, splitMinTasks := 1 } } }

def wokenAcross : Maps :=
  { Bpf.run {} (Bpf.attached {})
      [.initTask Bpf.shell false none true, .initTask Bpf.compiler true (some Bpf.shell) true,
        .initTask Bpf.builder false none true] with
    wakeEdges := .ofList [(⟨Bpf.shell.tgid, Bpf.builder.tgid⟩, 100)] }

def regroups : Bool :=
  match exec (place {}) restless wokenAcross with
  | (.ok (view, d₁), s₁) =>
    match exec (mergeFirst {} view) d₁ s₁ with
    | (.ok (plans, d₂), s₂) =>
      decide (s₂.cohortPolicy.size = 1 ∧ s₂.cohortCounters.size = 1 ∧ d₂.daemonSeq = 0
        ∧ (appliedSplits plans d₂ s₂).length = 1)
    | _ => false
  | _ => false

theorem allAllocated_wokenAcross : AllAllocated restless wokenAcross := by
  have hkeys : ((wokenAcross.cohortPolicy.keys ++ wokenAcross.cohortCounters.keys).all fun id =>
      decide (id.toNat ≤ wokenAcross.cohortSeq.toNat)) = true := by
    decide +kernel
  rw [List.all_eq_true] at hkeys
  intro id hid
  left
  have hid' := hkeys id (List.mem_append.mpr hid)
  exact of_decide_eq_true hid'

theorem noDangling_wokenAcross : NoDangling wokenAcross := by
  have hitems : (wokenAcross.tgidCohort.table.items.all fun e =>
      decide (e.2 ∈ wokenAcross.cohortPolicy ∧ e.2 ∈ wokenAcross.cohortCounters)) = true := by
    decide +kernel
  rw [List.all_eq_true] at hitems
  intro tgid id hlookup
  have hid := of_decide_eq_true (hitems (tgid, id) (HashTable.mem_items.mpr hlookup))
  exact ⟨hid.1, hid.2⟩

-- Cohort 2 is absorbed by cohort 1, which is split in the same tick.
theorem absorbing_cohort_regrouped
    : ∃ view d₁ s₁ plans d₂ s₂ d' s', exec (place {}) restless wokenAcross = (.ok (view, d₁), s₁)
        ∧ exec (mergeFirst {} view) d₁ s₁ = (.ok (plans, d₂), s₂)
        ∧ s₂.cohortPolicy.size = 1
        ∧ (appliedSplits plans d₂ s₂).length = 1
        ∧ exec (discoverRelationships {} view.cohorts view.tasks view.tgidCohort) d₁ s₁
          = (.ok (⟨⟩, d'), s')
        ∧ Regrouped restless wokenAcross s₁ (appliedSplits plans d₂ s₂) s' := by
  have hregroups : regroups = true := by decide +kernel
  unfold regroups at hregroups
  split at hregroups
  . next view d₁ s₁ hplace =>
    split at hregroups
    . next plans d₂ s₂ hmerge =>
      obtain ⟨hpolicy, hcounters, hseq, happlied⟩ := of_decide_eq_true hregroups
      have hroom : HasRoom (appliedSplits plans d₂ s₂).length d₂ s₂ := by
        rw [happlied]
        constructor
        . rw [hpolicy]
          decide
        . rw [hcounters]
          decide
        . rw [hseq]
          decide
      obtain ⟨d', s', hexec, hregrouped⟩ := regrouped_of_place noDangling_wokenAcross
        allAllocated_wokenAcross (by decide +kernel) hplace hmerge hroom
      exact ⟨view, d₁, s₁, plans, d₂, s₂, d', s', hplace, hmerge, hpolicy, happlied, hexec, hregrouped⟩
    . contradiction
  . contradiction

end Regrouped

end Daemon
