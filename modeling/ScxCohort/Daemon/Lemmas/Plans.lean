import ScxCohort.Daemon.Lemmas.Survey

/-!
This module contains what carrying out one merge or one split does to the maps, in a tick that nothing
interferes with.
-/

namespace Daemon

variable {d : Scheduler} {s : Maps}

section Planned

-- The wakeups that a tick reads and takes out of the map.
def edgesSeen (env : TickEnv) (s : Maps) : List (Tgid × Tgid × UInt64) :=
  ((env.order.order s.wakeEdges.items).filter fun e => e.2 > 0).map fun e =>
    (e.1.wakerTgid, e.1.wakeeTgid, e.2)

def graphSeen (env : TickEnv) (d : Scheduler) (s : Maps) : WakeGraph :=
  d.wakeGraph.observe (edgesSeen env s) (d.intervalNs.toNat / 1000000000) d.sampleMult

theorem exec_snapshotEdges (env : TickEnv) (d : Scheduler) (s : Maps)
    : exec (snapshotEdges env) d s = (.ok (edgesSeen env s, d), { s with wakeEdges := ∅ }) := by
  unfold snapshotEdges
  rw [exec_bind_ok (exec_attempt _ _ _), exec_pure]
  rfl

theorem exec_observeEdges (env : TickEnv) (d : Scheduler) (s : Maps)
    : exec (observeEdges env) d s
        =
      (.ok (⟨⟩, { d with wakeGraph := graphSeen env d s }), { s with wakeEdges := ∅ }) := by
  unfold observeEdges
  rw [exec_bind_ok (exec_snapshotEdges env d s), exec_modify]
  rfl

theorem exec_planMerges (env : TickEnv) (T : HashTable Tgid CohortId)
    (sizes : HashTable CohortId UInt64) (d : Scheduler) (s : Maps)
    : exec (planMerges env T sizes) d s
        =
      (.ok ((d.wakeGraph.merges env.order T sizes).1,
          { d with wakeGraph := (d.wakeGraph.merges env.order T sizes).2 }), s) := rfl

end Planned

section Matching

-- The cohorts that the plans are about.
def ends (plans : List MergePlan) : List CohortId := plans.flatMap fun plan => [plan.into, plan.src]

theorem mem_ends {plans : List MergePlan} {id : CohortId}
    : id ∈ ends plans ↔ ∃ plan ∈ plans, id = plan.into ∨ id = plan.src := by
  unfold ends
  simp only [List.mem_flatMap, List.mem_cons, List.not_mem_nil, or_false]

-- Every cohort takes part in one plan at most, and only cohorts in use do.
structure Matching (S : HashTable Tgid CohortId) (plans : List MergePlan) : Prop where
  nodup : (ends plans).Nodup
  used : ∀ id ∈ ends plans, id ∈ S.values

namespace Matching

variable {S : HashTable Tgid CohortId} {plans : List MergePlan} {plan : MergePlan}

theorem used_into (h : Matching S plans) (hplan : plan ∈ plans) : plan.into ∈ S.values :=
  h.used _ (mem_ends.mpr ⟨plan, hplan, .inl rfl⟩)

theorem used_src (h : Matching S plans) (hplan : plan ∈ plans) : plan.src ∈ S.values :=
  h.used _ (mem_ends.mpr ⟨plan, hplan, .inr rfl⟩)

theorem distinct (h : Matching S plans) (hplan : plan ∈ plans) : plan.into ≠ plan.src := by
  have hnodup := (List.nodup_flatMap.mp h.nodup).1 plan hplan
  rw [List.nodup_cons, List.mem_singleton] at hnodup
  exact hnodup.1

theorem apart (h : Matching S plans)
    : plans.Pairwise fun a b => a.src ≠ b.into ∧ a.into ≠ b.src ∧ a.src ≠ b.src := by
  apply (List.nodup_flatMap.mp h.nodup).2.imp
  intro a b hdisjoint
  unfold Function.onFun at hdisjoint
  simp only [List.disjoint_cons_left, List.mem_cons, List.not_mem_nil, or_false, not_or] at hdisjoint
  exact ⟨hdisjoint.2.1.1, hdisjoint.1.2, hdisjoint.2.1.2⟩

theorem into_ne_src (h : Matching S plans) {p q : MergePlan} (hp : p ∈ plans) (hq : q ∈ plans)
    : p.into ≠ q.src := by
  have hapart : plans.Pairwise fun a b => a.into ≠ b.src ∧ b.into ≠ a.src :=
    h.apart.imp fun hab => ⟨hab.2.1, hab.1.symm⟩
  by_cases heq : p = q
  . rw [heq]
    exact h.distinct hq
  . have : Std.Symm fun a b : MergePlan => a.into ≠ b.src ∧ b.into ≠ a.src := ⟨fun _ _ => And.symm⟩
    exact (hapart.forall hp hq heq).1

theorem src_inj (h : Matching S plans) {p q : MergePlan} (hp : p ∈ plans) (hq : q ∈ plans)
    (hsrc : p.src = q.src)
    : p = q := by
  have : Std.Symm fun a b : MergePlan => a.src ≠ b.src := ⟨fun _ _ => Ne.symm⟩
  by_contra hne
  exact (h.apart.imp fun hab => hab.2.2).forall hp hq hne hsrc

theorem tail {rest : List MergePlan} (h : Matching S (plan :: rest)) : Matching S rest := by
  have hsub : (ends rest).Sublist (ends (plan :: rest)) := by
    unfold ends
    rw [List.flatMap_cons]
    exact List.sublist_append_right _ _
  exact ⟨hsub.nodup h.nodup, fun id hid => h.used id (hsub.subset hid)⟩

theorem perm {plans' : List MergePlan} (h : Matching S plans) (hperm : plans'.Perm plans)
    : Matching S plans' := by
  have hends : (ends plans').Perm (ends plans) := hperm.flatMap_right _
  exact ⟨hends.nodup_iff.mpr h.nodup, fun id hid => h.used id (hends.subset hid)⟩

end Matching

def sizeIn (cohortSizes : HashTable CohortId UInt64) (id : CohortId) : UInt64 :=
  (cohortSizes.lookup id).getD 0

variable {S : HashTable Tgid CohortId} {cohortSizes : HashTable CohortId UInt64}
  {m m' : WakeGraph.MergeState}

-- One more plan, for two cohorts that are in no other one yet.
structure Pushed (S : HashTable Tgid CohortId) (cohortSizes : HashTable CohortId UInt64)
    (m m' : WakeGraph.MergeState) (plan : MergePlan) : Prop where
  out : m'.out = m.out ++ [plan]
  distinct : plan.into ≠ plan.src
  larger : sizeIn cohortSizes plan.src ≤ sizeIn cohortSizes plan.into
  into : plan.into ∈ S.values ∧ plan.into ∉ m.merged
  src : plan.src ∈ S.values ∧ plan.src ∉ m.merged
  merged : ∀ id, id ∈ m'.merged ↔ id ∈ m.merged ∨ id = plan.into ∨ id = plan.src

theorem pushed_mergeEdge (cfg : WakeGraphCfg) (S : HashTable Tgid CohortId)
    (cohortSizes : HashTable CohortId UInt64) (m : WakeGraph.MergeState) (e : EdgeKey × EdgeState)
    : ((WakeGraph.mergeEdge cfg S cohortSizes m e).out = m.out
        ∧ (WakeGraph.mergeEdge cfg S cohortSizes m e).merged = m.merged)
      ∨ ∃ plan, Pushed S cohortSizes m (WakeGraph.mergeEdge cfg S cohortSizes m e) plan := by
  unfold WakeGraph.mergeEdge
  cases ha : S.lookup e.1.1 with
  | none => exact .inl ⟨rfl, rfl⟩
  | some ca =>
    cases hb : S.lookup e.1.2 with
    | none => exact .inl ⟨rfl, rfl⟩
    | some cb =>
      dsimp only
      split
      . exact .inl ⟨rfl, rfl⟩
      . next hne =>
        split
        . exact .inl ⟨rfl, rfl⟩
        . split
          . exact .inl ⟨rfl, rfl⟩
          . split
            . exact .inl ⟨rfl, rfl⟩
            . next hfree =>
              rw [not_or] at hfree
              have hca : ca ∈ S.values ∧ ca ∉ m.merged := ⟨HashTable.mem_values.mpr ⟨_, ha⟩, hfree.1⟩
              have hcb : cb ∈ S.values ∧ cb ∉ m.merged := ⟨HashTable.mem_values.mpr ⟨_, hb⟩, hfree.2⟩
              right
              split
              . next hle =>
                refine ⟨⟨ca, cb⟩, rfl, hne, hle, hca, hcb, ?_⟩
                intro id
                rw [Finset.mem_insert, Finset.mem_insert]
                tauto
              . next hlt =>
                refine ⟨⟨cb, ca⟩, rfl, Ne.symm hne, UInt64.le_of_lt (UInt64.not_le.mp hlt), hcb, hca, ?_⟩
                intro id
                rw [Finset.mem_insert, Finset.mem_insert]
                tauto

structure Merged (S : HashTable Tgid CohortId) (cohortSizes : HashTable CohortId UInt64)
    (m : WakeGraph.MergeState) : Prop extends Matching S m.out where
  larger : ∀ plan ∈ m.out, sizeIn cohortSizes plan.src ≤ sizeIn cohortSizes plan.into
  merged : ∀ id, id ∈ m.merged ↔ id ∈ ends m.out

theorem Merged.push {plan : MergePlan} (h : Merged S cohortSizes m)
    (hpush : Pushed S cohortSizes m m' plan)
    : Merged S cohortSizes m' := by
  have hends : ends m'.out = ends m.out ++ [plan.into, plan.src] := by
    unfold ends
    rw [hpush.out, List.flatMap_append, List.flatMap_singleton]
  have hmem : ∀ id, id ∈ ends m'.out ↔ id ∈ ends m.out ∨ id = plan.into ∨ id = plan.src := by
    intro id
    rw [hends, List.mem_append, List.mem_pair]
  refine ⟨⟨?_, ?_⟩, ?_, ?_⟩
  . rw [hends]
    apply h.nodup.append
    . simp [hpush.distinct]
    . intro id hid hnew
      rw [← h.merged] at hid
      rw [List.mem_pair] at hnew
      cases hnew with
      | inl heq =>
        rw [heq] at hid
        exact hpush.into.2 hid
      | inr heq =>
        rw [heq] at hid
        exact hpush.src.2 hid
  . intro id hid
    rcases (hmem id).mp hid with hid | rfl | rfl
    . exact h.used id hid
    . exact hpush.into.1
    . exact hpush.src.1
  . intro plan' hplan'
    rw [hpush.out, List.mem_append, List.mem_singleton] at hplan'
    cases hplan' with
    | inl hplan' => exact h.larger plan' hplan'
    | inr heq =>
      rw [heq]
      exact hpush.larger
  . intro id
    rw [hmem, hpush.merged, h.merged]

theorem merged_mergeEdge {cfg : WakeGraphCfg} (h : Merged S cohortSizes m) (e : EdgeKey × EdgeState)
    : Merged S cohortSizes (WakeGraph.mergeEdge cfg S cohortSizes m e) := by
  cases pushed_mergeEdge cfg S cohortSizes m e with
  | inl hsame =>
    constructor
    . rw [hsame.1]
      exact h.toMatching
    . rw [hsame.1]
      exact h.larger
    . rw [hsame.1, hsame.2]
      exact h.merged
  | inr hpush =>
    obtain ⟨plan, hpush⟩ := hpush
    exact h.push hpush

theorem merged_mergeEdges {cfg : WakeGraphCfg} (es : List (EdgeKey × EdgeState))
    (h : Merged S cohortSizes m)
    : Merged S cohortSizes (es.foldl (WakeGraph.mergeEdge cfg S cohortSizes) m) := by
  induction es generalizing m with
  | nil => exact h
  | cons e es ih =>
    apply ih
    exact merged_mergeEdge h e

theorem merged_start (S : HashTable Tgid CohortId) (cohortSizes : HashTable CohortId UInt64)
    (edges : HashTable EdgeKey EdgeState)
    : Merged S cohortSizes { edges := edges } := by
  refine ⟨⟨.nil, fun _ hid => absurd hid List.not_mem_nil⟩,
    fun _ hplan => absurd hplan List.not_mem_nil, ?_⟩
  intro id
  simp [ends]

theorem matching_merges (o : IterOrder) (w : WakeGraph) (cohortSizes : HashTable CohortId UInt64)
    : Matching S (w.merges o S cohortSizes).1 :=
  (merged_mergeEdges (o.order w.edges.items) (merged_start S cohortSizes w.edges)).toMatching

theorem larger_merges (o : IterOrder) (w : WakeGraph) (cohortSizes : HashTable CohortId UInt64)
    : ∀ plan ∈ (w.merges o S cohortSizes).1,
        sizeIn cohortSizes plan.src ≤ sizeIn cohortSizes plan.into :=
  (merged_mergeEdges (o.order w.edges.items) (merged_start S cohortSizes w.edges)).larger

end Matching

section Merge

variable {env : TickEnv} {T : HashTable Tgid CohortId} {plan : MergePlan}

def retargetAll (plan : MergePlan) (es : List (Tgid × CohortId))
    (m : BoundedMap 65536 Tgid CohortId) : BoundedMap 65536 Tgid CohortId :=
  es.foldl (fun m e => if e.2 = plan.src then m.updateD e.1 plan.into .exist else m) m

theorem exec_retargets (es : List (Tgid × CohortId)) (d : Scheduler) (s : Maps)
    : exec (es.forM (retarget plan)) d s
        =
      (.ok (⟨⟩, d), { s with tgidCohort := retargetAll plan es s.tgidCohort }) := by
  unfold retargetAll
  induction es generalizing s with
  | nil => rfl
  | cons e es ih =>
    rw [List.foldl_cons]
    by_cases he : e.2 = plan.src
    . have hstep : exec (retarget plan e) d s
          = (.ok (⟨⟩, d), { s with tgidCohort := s.tgidCohort.updateD e.1 plan.into .exist }) := by
        unfold retarget
        rw [if_pos he, exec_bind_ok (exec_attempt _ _ _), Bpf.run_updateTgidCohort, exec_pure]
      rw [exec_forM_cons_ok hstep, ih, if_pos he]
    . have hstep : exec (retarget plan e) d s = (.ok (⟨⟩, d), s) := by
        unfold retarget
        rw [if_neg he, exec_pure]
      rw [exec_forM_cons_ok hstep, ih, if_neg he]

theorem lookup_retargetAll (es : List (Tgid × CohortId)) (m : BoundedMap 65536 Tgid CohortId)
    (tgid : Tgid)
    : (retargetAll plan es m).lookup tgid
        =
      if (tgid, plan.src) ∈ es then (m.lookup tgid).map fun _ => plan.into else m.lookup tgid := by
  unfold retargetAll
  induction es generalizing m with
  | nil => simp
  | cons e es ih =>
    obtain ⟨t, id⟩ := e
    rw [List.foldl_cons, ih]
    dsimp only
    by_cases hid : id = plan.src
    . rw [if_pos hid, hid]
      by_cases ht : tgid = t
      . rw [ht, BoundedMap.lookup_updateD_exist, if_pos List.mem_cons_self, Option.map_map]
        split <;> rfl
      . rw [BoundedMap.lookup_updateD_ne _ _ _ ht]
        simp [ht]
    . rw [if_neg hid]
      have hne : (tgid, plan.src) ≠ (t, id) := by
        intro heq
        rw [Prod.mk.injEq] at heq
        exact hid heq.2.symm
      simp only [List.mem_cons, hne, false_or]

def mergeMaps (env : TickEnv) (T : HashTable Tgid CohortId) (plan : MergePlan) (s : Maps) : Maps :=
  { s with
    tgidCohort := retargetAll plan (env.order.order T.items) s.tgidCohort
    cohortCounters := s.cohortCounters.delete plan.src
    cohortPolicy := s.cohortPolicy.delete plan.src }

-- Both cohorts of a merge have to be there.
def mergeable (plan : MergePlan) (s : Maps) : Prop :=
  plan.into ∈ s.cohortCounters ∧ plan.src ∈ s.cohortCounters

instance (plan : MergePlan) (s : Maps) : Decidable (mergeable plan s) :=
  inferInstanceAs (Decidable (_ ∧ _))

theorem exec_applyMerge_skip (h : ¬ mergeable plan s)
    : exec (applyMerge env T plan) d s = (.ok (⟨⟩, d), s) := by
  unfold mergeable at h
  unfold applyMerge
  rw [exec_bind_ok (exec_attempt _ _ _), Bpf.run_lookupCounters]
  dsimp only
  cases hinto : s.cohortCounters.lookup plan.into with
  | none => rfl
  | some c =>
    have hnone : s.cohortCounters.lookup plan.src = none := by
      rw [BoundedMap.lookup_eq_none]
      intro hsrc
      exact h ⟨BoundedMap.mem_iff_lookup.mpr ⟨c, hinto⟩, hsrc⟩
    dsimp only
    rw [exec_bind_ok (exec_attempt _ _ _), Bpf.run_lookupCounters, hnone]
    rfl

def mergeState (plan : MergePlan) (d : Scheduler) : Scheduler :=
  { d with prevLoadSum := d.prevLoadSum.erase plan.src, nrMerges := d.nrMerges + 1 }

theorem exec_applyMerge (env : TickEnv) (T : HashTable Tgid CohortId) (h : mergeable plan s)
    (d : Scheduler)
    : exec (applyMerge env T plan) d s = (.ok (⟨⟩, mergeState plan d), mergeMaps env T plan s) := by
  obtain ⟨c, hc⟩ := BoundedMap.mem_iff_lookup.mp h.1
  obtain ⟨c', hc'⟩ := BoundedMap.mem_iff_lookup.mp h.2
  unfold applyMerge
  rw [exec_bind_ok (exec_attempt _ _ _), Bpf.run_lookupCounters, hc]
  dsimp only
  rw [exec_bind_ok (exec_attempt _ _ _), Bpf.run_lookupCounters, hc']
  dsimp only
  rw [exec_bind_ok (exec_retargets _ _ _), exec_bind_ok (exec_deleteCohort _ _ _), exec_modify]
  rfl

end Merge

section Split

variable {plan : SplitPlan}

def splitAll (newId : CohortId) (tgids : List Tgid) (m : BoundedMap 65536 Tgid CohortId)
    : BoundedMap 65536 Tgid CohortId :=
  tgids.foldl (fun m tgid => m.updateD tgid newId .exist) m

-- A thread group that is gone is skipped, and one that is there can be moved.
theorem exec_splitTgid (newId : CohortId) (tgid : Tgid) (d : Scheduler) (s : Maps)
    : exec (splitTgid newId tgid) d s
        =
      (.ok (⟨⟩, d), { s with tgidCohort := s.tgidCohort.updateD tgid newId .exist }) := by
  unfold splitTgid
  rw [exec_bind_ok (exec_attempt _ _ _), Bpf.run_lookupTgidCohort]
  dsimp only
  cases hlookup : s.tgidCohort.lookup tgid with
  | none =>
    have hupdate := BoundedMap.update_exist_of_not_mem (BoundedMap.lookup_eq_none.mp hlookup) newId
    dsimp only
    rw [exec_pure]
    unfold BoundedMap.updateD
    rw [hupdate]
  | some id =>
    obtain ⟨m, hm⟩ := BoundedMap.update_exist_of_mem (BoundedMap.mem_iff_lookup.mpr ⟨id, hlookup⟩) newId
    have hrun : (Bpf.updateTgidCohort tgid newId .exist).run s
        = (.ok ⟨⟩, { s with tgidCohort := m }) := by
      apply Bpf.run_tryUpdate_ok
      rw [hm]
      rfl
    dsimp only
    rw [exec_require, hrun]
    unfold BoundedMap.updateD
    rw [hm]
    rfl

theorem exec_splitTgids (newId : CohortId) (tgids : List Tgid) (d : Scheduler) (s : Maps)
    : exec (tgids.forM (splitTgid newId)) d s
        =
      (.ok (⟨⟩, d), { s with tgidCohort := splitAll newId tgids s.tgidCohort }) := by
  unfold splitAll
  induction tgids generalizing s with
  | nil => rfl
  | cons tgid tgids ih => rw [exec_forM_cons_ok (exec_splitTgid newId tgid d s), ih, List.foldl_cons]

theorem lookup_splitAll (newId : CohortId) (tgids : List Tgid) (m : BoundedMap 65536 Tgid CohortId)
    (tgid : Tgid)
    : (splitAll newId tgids m).lookup tgid
        =
      if tgid ∈ tgids then (m.lookup tgid).map fun _ => newId else m.lookup tgid := by
  unfold splitAll
  induction tgids generalizing m with
  | nil => simp
  | cons t tgids ih =>
    rw [List.foldl_cons, ih]
    by_cases ht : tgid = t
    . rw [ht, BoundedMap.lookup_updateD_exist, if_pos List.mem_cons_self, Option.map_map]
      split <;> rfl
    . rw [BoundedMap.lookup_updateD_ne _ _ _ ht]
      simp [ht]

def freshId (d : Scheduler) : CohortId := daemonCohortBase + d.daemonSeq

def splitPolicy (old : CohortPolicy) : CohortPolicy := { homeLlc := old.homeLlc, flags := 0 }

def splitState (d : Scheduler) : Scheduler :=
  { d with daemonSeq := d.daemonSeq + 1, nrSplits := d.nrSplits + 1 }

-- The counters are made after the policy, so a split can end with only one of the two.
def splitMaps (plan : SplitPlan) (d : Scheduler) (s : Maps)
    : Except MapErr (PUnit × Scheduler) × Maps :=
  match s.cohortPolicy.lookup plan.cohort with
  | none => (.ok (⟨⟩, d), s)
  | some old =>
    match s.cohortPolicy.update (freshId d) (splitPolicy old) .noExist with
    | .error e => (.error e, s)
    | .ok policy =>
      match s.cohortCounters.update (freshId d) {} .noExist with
      | .error e => (.error e, { s with cohortPolicy := policy })
      | .ok counters =>
        (.ok (⟨⟩, splitState d),
          { s with
            cohortPolicy := policy
            cohortCounters := counters
            tgidCohort := splitAll (freshId d) plan.offTgids s.tgidCohort })

theorem exec_updateCounters (id : CohortId) (counters : CohortCounters) (flag : UpdateFlag)
    (d : Scheduler) (s : Maps)
    : exec (require (Bpf.updateCounters id counters flag)) d s
        =
      match s.cohortCounters.update id counters flag with
      | .ok m => (.ok (⟨⟩, d), { s with cohortCounters := m })
      | .error e => (.error e, s) := by
  rw [exec_require]
  cases hm : s.cohortCounters.update id counters flag with
  | ok m =>
    have hrun : (Bpf.updateCounters id counters flag).run s
        = (.ok ⟨⟩, { s with cohortCounters := m }) := by
      apply Bpf.run_tryUpdate_ok
      rw [hm]
      rfl
    rw [hrun]
    rfl
  | error e =>
    have hrun : (Bpf.updateCounters id counters flag).run s = (.error e, s) := by
      apply Bpf.run_tryUpdate_error
      rw [hm]
      rfl
    rw [hrun]
    rfl

theorem exec_applySplit (plan : SplitPlan) (d : Scheduler) (s : Maps)
    : exec (applySplit plan) d s = splitMaps plan d s := by
  unfold applySplit splitMaps
  rw [exec_bind_ok (exec_attempt _ _ _), Bpf.run_lookupPolicy]
  dsimp only
  cases s.cohortPolicy.lookup plan.cohort with
  | none => rfl
  | some old =>
    dsimp only
    rw [exec_bind_ok (exec_get _ _), exec_bind_ok (exec_modify _ _ _), exec_bind, exec_updatePolicy]
    unfold freshId splitPolicy
    cases s.cohortPolicy.update (daemonCohortBase + d.daemonSeq) { homeLlc := old.homeLlc, flags := 0 }
        .noExist with
    | error e => rfl
    | ok policy =>
      dsimp only
      rw [exec_bind, exec_updateCounters]
      dsimp only
      cases s.cohortCounters.update (daemonCohortBase + d.daemonSeq) {} .noExist with
      | error e => rfl
      | ok counters =>
        dsimp only
        rw [exec_bind_ok (exec_splitTgids _ _ _ _), exec_modify]
        rfl

-- A cohort that has been merged away, or is gone for another reason, is not split.
theorem exec_applySplit_skip (h : plan.cohort ∉ s.cohortPolicy) (d : Scheduler)
    : exec (applySplit plan) d s = (.ok (⟨⟩, d), s) := by
  rw [exec_applySplit]
  unfold splitMaps
  rw [BoundedMap.lookup_eq_none.mpr h]

end Split

end Daemon
