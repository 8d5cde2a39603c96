import ScxCohort.Daemon.Lemmas.Balancer
import ScxCohort.Daemon.Lemmas.Collect
import ScxCohort.Daemon.Lemmas.Components

/-!
This module contains what one tick makes of the home of a thread group. The merges can take the group
to a cohort with another home; the splits leave it where it is.
-/

namespace Daemon

variable {env : TickEnv} {d d' : Scheduler} {s s' : Maps}

-- The home of the cohort that `tgid_cohort` gives a thread group.
def tgidHome (s : Maps) (tgid : Tgid) : Option LlcId :=
  ((s.tgidCohort.lookup tgid).bind s.cohortPolicy.lookup).map (·.homeLlc)

theorem tgidHome_eq_some {tgid : Tgid} {home : LlcId}
    : tgidHome s tgid = some home
        ↔
      ∃ id policy, s.tgidCohort.lookup tgid = some id ∧ s.cohortPolicy.lookup id = some policy
        ∧ policy.homeLlc = home := by
  unfold tgidHome
  simp only [Option.map_eq_some_iff, Option.bind_eq_some_iff]
  constructor
  . rintro ⟨policy, ⟨id, hid, hpolicy⟩, hhome⟩
    exact ⟨id, policy, hid, hpolicy, hhome⟩
  . rintro ⟨id, policy, hid, hpolicy, hhome⟩
    exact ⟨policy, ⟨id, hid, hpolicy⟩, hhome⟩

section Moves

-- What the moves of the balancer change: the homes of the cohorts they name.
structure Rehomed (decisions : List Decision) (s s' : Maps) : Prop where
  others : ∀ id, (∀ toLlc, .moveCohort id toLlc ∉ decisions)
    → s'.cohortPolicy.lookup id = s.cohortPolicy.lookup id
  flags : ∀ id, (s'.cohortPolicy.lookup id).map (·.flags) = (s.cohortPolicy.lookup id).map (·.flags)
  counters : s'.cohortCounters = s.cohortCounters
  tgids : s'.tgidCohort = s.tgidCohort

theorem rehomed_same {decisions : List Decision} (hpolicy : s'.cohortPolicy = s.cohortPolicy)
    (hcounters : s'.cohortCounters = s.cohortCounters) (htgids : s'.tgidCohort = s.tgidCohort)
    : Rehomed decisions s s' := by
  refine ⟨?_, ?_, hcounters, htgids⟩
  . intro id _
    rw [hpolicy]
  . intro id
    rw [hpolicy]

theorem Rehomed.trans {decisions : List Decision} {s'' : Maps} (h : Rehomed decisions s s')
    (h' : Rehomed decisions s' s'')
    : Rehomed decisions s s'' := by
  constructor
  . intro id hid
    rw [h'.others id hid, h.others id hid]
  . intro id
    rw [h'.flags, h.flags]
  . rw [h'.counters, h.counters]
  . rw [h'.tgids, h.tgids]

theorem exec_applyDecision (id : CohortId) (toLlc : LlcId) (d : Scheduler) (s : Maps)
    : ∃ d' m, exec (applyDecision (.moveCohort id toLlc)) d s
          = (.ok (⟨⟩, d'), { s with cohortPolicy := m })
        ∧ ∀ id', m.lookup id'
            = if id' = id then
                (s.cohortPolicy.lookup id').map fun policy => { policy with homeLlc := toLlc }
              else s.cohortPolicy.lookup id' := by
  unfold applyDecision
  rw [exec_bind_ok (exec_attempt _ _ _), Bpf.run_lookupPolicy]
  dsimp only
  cases hlookup : s.cohortPolicy.lookup id with
  | none =>
    refine ⟨d, s.cohortPolicy, rfl, ?_⟩
    intro id'
    split
    . next heq =>
      rw [heq, hlookup]
      rfl
    . rfl
  | some policy =>
    obtain ⟨m, hm⟩ := BoundedMap.update_exist_of_mem
      (BoundedMap.mem_iff_lookup.mpr ⟨policy, hlookup⟩) { policy with homeLlc := toLlc }
    dsimp only
    rw [exec_bind, exec_updatePolicy, hm]
    refine ⟨_, m, rfl, ?_⟩
    intro id'
    rw [BoundedMap.lookup_update_ok hm]
    split
    . next heq =>
      rw [heq, hlookup]
      rfl
    . rfl

theorem rehomed_apply (decisions : List Decision)
    : Carries (fun _ s _ s' => Rehomed decisions s s') (apply decisions) := by
  apply carries_forM (G := fun _ s _ s' => Rehomed decisions s s') (fun _ _ _ _ _ _ => Rehomed.trans)
  . intro d s
    exact rehomed_same rfl rfl rfl
  . rintro ⟨id, toLlc⟩ hmem d s a d' s' hexec
    obtain ⟨d₁, m, hexec', hlookup⟩ := exec_applyDecision id toLlc d s
    rw [hexec', Prod.mk.injEq] at hexec
    obtain ⟨_, rfl⟩ := hexec
    constructor
    . intro id' hid'
      dsimp only
      rw [hlookup, if_neg]
      intro heq
      rw [heq] at hid'
      exact hid' toLlc hmem
    . intro id'
      dsimp only
      rw [hlookup]
      split
      . rw [Option.map_map]
        rfl
      . rfl
    . rfl
    . rfl

theorem rehomed_applySpills {decisions : List Decision} {desired : Spills}
    : Carries (fun _ s _ s' => Rehomed decisions s s') (applySpills env desired) := by
  have hspills : CarriesSpills fun _ s _ s' => Rehomed decisions s s' :=
    { refl := fun _ _ => rehomed_same rfl rfl rfl
      trans := fun _ _ _ _ _ _ => Rehomed.trans
      spill := fun _ _ _ => rehomed_same rfl rfl rfl
      spilled := fun _ _ _ => rehomed_same rfl rfl rfl }
  exact hspills.applySpills

end Moves

section Outlook

-- What a tick will decide on once it has looked around.
structure Outlook where
  merges : List MergePlan := []
  moves : List Decision := []

def outlook (env : TickEnv) (d : Scheduler) (s : Maps) : Outlook :=
  match exec (survey env) d s with
  | (.ok (view, d₁), _) =>
    { merges := ((graphSeen env d s).merges env.order view.tgidCohort (sizesOf view)).1
      moves := (d₁.balancer.plan env.nowMs view.llcs view.cohorts).1 }
  | (.error _, _) => {}

theorem outlook_of_survey {view : TickView} (h : exec (survey env) d s = (.ok (view, d'), s'))
    : outlook env d s
        =
      { merges := ((graphSeen env d s).merges env.order (tgidsSeen env s) (sizesOf view)).1
        moves := (d'.balancer.plan env.nowMs view.llcs view.cohorts).1 } := by
  unfold outlook
  rw [h]
  dsimp only
  rw [(surveyed_of_exec h).tgidCohort]

theorem matching_outlook : Matching (tgidsSeen env s) (outlook env d s).merges := by
  obtain ⟨view, d', s', hexec, _⟩ := exec_survey env d s
  rw [outlook_of_survey hexec]
  exact matching_merges _ _ _

-- The balancer only moves what is not pinned.
theorem unpinned_of_move {id : CohortId} {toLlc : LlcId}
    (h : .moveCohort id toLlc ∈ (outlook env d s).moves) {policy : CohortPolicy}
    (hpolicy : ruledPolicy env (tasksSeen env d s) d s id = some policy)
    : policy.flags &&& cohortPinned = 0 := by
  obtain ⟨view, d', s', hexec, hsurvey⟩ := exec_survey env d s
  rw [outlook_of_survey hexec] at h
  cases Balancer.plan_cases d'.balancer env.nowMs view.llcs view.cohorts with
  | inl hplan =>
    obtain ⟨streak, hplan⟩ := hplan
    rw [hplan] at h
    contradiction
  | inr hplan =>
    obtain ⟨max, min, c, hmoves, hplan⟩ := hplan
    rw [hplan, List.mem_singleton, Decision.moveCohort.injEq] at h
    rw [h.1] at hpolicy
    have hpinned := (hsurvey.listed c hmoves.mem policy hpolicy).2
    rw [hmoves.unpinned] at hpinned
    by_contra hne
    rw [decide_eq_true hne] at hpinned
    contradiction

-- The maps when the tick begins to look for merges and splits.
structure BeforeMerges (env : TickEnv) (d : Scheduler) (s : Maps) (view : TickView) (d₁ : Scheduler)
    (s₁ : Maps) : Prop where
  tgidCohort : view.tgidCohort = tgidsSeen env s
  merges : ((graphSeen env d₁ s₁).merges env.order view.tgidCohort (sizesOf view)).1
    = (outlook env d s).merges
  tgids : ∀ tgid, s₁.tgidCohort.lookup tgid
    = if lapsed env d s tgid then none else s.tgidCohort.lookup tgid
  counters : ∀ id, s₁.cohortCounters.lookup id
    = if collected env d s id then none else s.cohortCounters.lookup id
  unmoved : ∀ id, (∀ toLlc, .moveCohort id toLlc ∉ (outlook env d s).moves)
    → s₁.cohortPolicy.lookup id
      = if collected env d s id then none else ruledPolicy env (tasksSeen env d s) d s id
  flags : ∀ id, (s₁.cohortPolicy.lookup id).map (·.flags)
    = if collected env d s id then none
      else (ruledPolicy env (tasksSeen env d s) d s id).map (·.flags)

theorem beforeMerges_of_place {view : TickView} (h : exec (place env) d s = (.ok (view, d'), s'))
    : BeforeMerges env d s view d' s' := by
  obtain ⟨d₁, s₁, d₂, s₂, hexec, happly, hspills⟩ := exec_place_inv h
  have hsurvey := surveyed_of_exec hexec
  have hrehomed := (rehomed_apply _ _ _ _ _ _ happly).trans (rehomed_applySpills _ _ _ _ _ hspills)
  have hgraph : graphSeen env d' s' = graphSeen env d s :=
    (SameGraph.carriesPlace.place _ _ _ _ _ h).graphSeen
  have houtlook := outlook_of_survey hexec
  constructor
  . exact hsurvey.tgidCohort
  . rw [hgraph, houtlook, hsurvey.tgidCohort]
  . intro tgid
    rw [hrehomed.tgids, hsurvey.tgids]
  . intro id
    rw [hrehomed.counters, hsurvey.counters]
  . intro id hid
    rw [houtlook] at hid
    rw [hrehomed.others id hid, hsurvey.policy]
  . intro id
    rw [hrehomed.flags, hsurvey.policy]
    split
    . rfl
    . rfl

end Outlook

section Merges

variable {T : HashTable Tgid CohortId} {plans : List MergePlan} {plan : MergePlan} {id : CohortId}

-- No merge takes the members of a cohort to one that is merged away.
theorem MergedAll.policy_absorber (h : MergedAll plans s s') (hmatching : Matching T plans)
    (id : CohortId)
    : s'.cohortPolicy.lookup (absorber plans s id) = s.cohortPolicy.lookup (absorber plans s id) := by
  rw [h.policy, if_neg]
  rintro ⟨p, hp, hsrc, hmergeable⟩
  cases absorber_cases plans s id with
  | inl hstays =>
    rw [hstays.1] at hsrc
    exact hstays.2 p hp hsrc hmergeable
  | inr hmoves =>
    obtain ⟨plan, hplan, _, _, hinto⟩ := hmoves
    rw [hinto] at hsrc
    exact hmatching.into_ne_src hplan hp hsrc.symm

theorem not_collected_of_mem (h : id ∈ (tgidsSeen env s).values) : ¬ collected env d s id := by
  intro hcollected
  have hunused := hcollected.2.1
  unfold unused at hunused
  rw [decide_eq_true_eq] at hunused
  exact hunused.2 h

-- The cohorts that a merge of this group's cohort takes are in use, and so not collected.
theorem absorber_beforeMerges {view : TickView} {d₁ : Scheduler} {s₁ : Maps}
    (h : BeforeMerges env d s view d₁ s₁) (hid : id ∈ (tgidsSeen env s).values)
    : absorber (outlook env d s).merges s₁ id = absorber (outlook env d s).merges s id := by
  apply absorber_congr
  intro plan hplan hsrc
  have hkept : ∀ id ∈ (tgidsSeen env s).values, id ∈ s₁.cohortCounters ↔ id ∈ s.cohortCounters := by
    intro id hid
    rw [BoundedMap.mem_iff_lookup, BoundedMap.mem_iff_lookup, h.counters,
      if_neg (not_collected_of_mem hid)]
  unfold mergeable
  rw [hkept _ (matching_outlook.used_into hplan), hsrc, hkept _ hid]

theorem absorber_mem_values (hid : id ∈ (tgidsSeen env s).values)
    : absorber (outlook env d s).merges s id ∈ (tgidsSeen env s).values := by
  cases absorber_cases (outlook env d s).merges s id with
  | inl hstays =>
    rw [hstays.1]
    exact hid
  | inr hmoves =>
    obtain ⟨plan, hplan, _, _, hinto⟩ := hmoves
    rw [hinto]
    exact matching_outlook.used_into hplan

end Merges

section Splits

variable {tgid : Tgid} {c : CohortId} {home : LlcId} {plan : SplitPlan}

-- What a thread group that was read in cohort `c` keeps while the splits are carried out.
structure KeptHome (tgid : Tgid) (c : CohortId) (home : LlcId) (d : Scheduler) (s : Maps) : Prop where
  kept : tgidHome s tgid = some home
  cohort : ∀ policy, s.cohortPolicy.lookup c = some policy → policy.homeLlc = home
  made : c.toNat < daemonCohortBase.toNat + d.daemonSeq.toNat

theorem KeptHome.split (h : KeptHome tgid c home d s) (honce : SplitOnce plan d s s')
    (hoff : tgid ∈ plan.offTgids → plan.cohort = c) (hmem : plan.cohort ∈ s.cohortPolicy)
    (hlt : daemonCohortBase.toNat + d.daemonSeq.toNat < 2 ^ 64)
    : KeptHome tgid c home (splitState d) s' := by
  obtain ⟨id, policy, hid, hpolicy, hhome⟩ := tgidHome_eq_some.mp h.kept
  obtain ⟨old, hold⟩ := BoundedMap.mem_iff_lookup.mp hmem
  constructor
  . rw [tgidHome_eq_some]
    by_cases hin : tgid ∈ plan.offTgids
    . refine ⟨freshId d, splitPolicy old, ?_, ?_, ?_⟩
      . rw [honce.tgids, if_pos hin, hid]
        rfl
      . rw [honce.homes, if_pos rfl, hold]
        rfl
      . rw [hoff hin] at hold
        exact h.cohort old hold
    . refine ⟨id, policy, ?_, ?_, hhome⟩
      . rw [honce.tgids, if_neg hin, hid]
      . rw [honce.homes, if_neg, hpolicy]
        intro heq
        rw [heq] at hpolicy
        exact honce.insertable.policy.1 (BoundedMap.mem_iff_lookup.mpr ⟨policy, hpolicy⟩)
  . intro policy' hlookup
    rw [honce.homes, if_neg] at hlookup
    . exact h.cohort policy' hlookup
    . intro heq
      have := h.made
      rw [heq, toNat_freshId hlt] at this
      omega
  . have := h.made
    rw [toNat_splitState hlt]
    omega

-- A thread group is split off only from the cohort it was read in.
theorem cohort_of_split {o : IterOrder} {w : WakeGraph} {sizes : HashTable CohortId UInt64}
    {tasks : List TaskSnapshot} {T : HashTable Tgid CohortId} (hread : T.lookup tgid = some c)
    (hplan : plan ∈ (WakeGraph.splits o w (cohortTgids o sizes tasks T)).1)
    (hin : tgid ∈ plan.offTgids)
    : plan.cohort = c := by
  obtain ⟨_, members, x, hlookup, _, _, hoff⟩ := WakeGraph.mem_splits hplan
  rw [hoff] at hin
  have hmem : tgid ∈ WakeGraph.tgids members := (List.filter_sublist.map _).subset hin
  have hfrom := lookup_of_cohortTgids sizes tasks hlookup hmem
  rw [hread, Option.some.injEq] at hfrom
  exact hfrom.symm

end Splits

section Tick

variable {tgid : Tgid} {c : CohortId} {policy : CohortPolicy} {r : List CohortSnapshot × List LlcLoad}

theorem mem_of_ruled {id : CohortId} (h : ruledPolicy env (tasksSeen env d s) d s id = some policy)
    : id ∈ s.cohortPolicy := by
  rw [BoundedMap.mem_iff_lookup]
  unfold ruledPolicy at h
  split at h
  . obtain ⟨old, hold, _⟩ := Option.map_eq_some_iff.mp h
    exact ⟨old, hold⟩
  . exact ⟨policy, h⟩

section Merged

variable {view : TickView} {d₁ : Scheduler} {s₁ : Maps}

theorem read_of_beforeMerges (h : BeforeMerges env d s view d₁ s₁) {id : CohortId}
    (hlookup : s₁.tgidCohort.lookup tgid = some id)
    : view.tgidCohort.lookup tgid = some id := by
  rw [h.tgids] at hlookup
  rw [h.tgidCohort, lookup_tgidsSeen]
  split at hlookup
  . contradiction
  . exact hlookup

theorem policy_absorber (h : BeforeMerges env d s view d₁ s₁)
    (hmerged : MergedAll (outlook env d s).merges s₁ s') (hused : c ∈ (tgidsSeen env s).values)
    (hpolicy : ruledPolicy env (tasksSeen env d s) d s (absorber (outlook env d s).merges s c)
      = some policy)
    (hstays : ∀ toLlc, .moveCohort (absorber (outlook env d s).merges s c) toLlc
      ∉ (outlook env d s).moves)
    : s'.cohortPolicy.lookup (absorber (outlook env d s).merges s₁ c) = some policy := by
  rw [hmerged.policy_absorber matching_outlook, absorber_beforeMerges h hused, h.unmoved _ hstays,
    if_neg (not_collected_of_mem (absorber_mem_values hused)), hpolicy]

-- Once the merges are done, the group is where they take it, and has the home that cohort has.
theorem keptHome_of_merges (h : BeforeMerges env d s view d₁ s₁)
    (hmerged : MergedAll (outlook env d s).merges s₁ s') (hdaemon : d'.daemonSeq = d.daemonSeq)
    (hall : AllAllocated d s) (hseq : s.cohortSeq.toNat < 2 ^ 32 - 1)
    (hlookup : s.tgidCohort.lookup tgid = some c) (hlive : ¬ lapsed env d s tgid)
    (hpolicy : ruledPolicy env (tasksSeen env d s) d s (absorber (outlook env d s).merges s c)
      = some policy)
    (hstays : ∀ toLlc, .moveCohort (absorber (outlook env d s).merges s c) toLlc
      ∉ (outlook env d s).moves)
    : KeptHome tgid c policy.homeLlc d' s' := by
  have hused : c ∈ (tgidsSeen env s).values :=
    HashTable.mem_values.mpr ⟨tgid, (lookup_tgidsSeen env s tgid).trans hlookup⟩
  have hpolicy' := policy_absorber h hmerged hused hpolicy hstays
  constructor
  . rw [tgidHome_eq_some]
    refine ⟨_, policy, ?_, hpolicy', rfl⟩
    rw [hmerged.tgids, h.tgids, if_neg hlive, hlookup, Option.map_some]
  . intro old hold
    cases absorber_cases (outlook env d s).merges s₁ c with
    | inl hstays =>
      rw [hstays.1, hold, Option.some.injEq] at hpolicy'
      rw [hpolicy']
    | inr hmoves =>
      obtain ⟨plan, hplan, hsrc, hmergeable, _⟩ := hmoves
      rw [hmerged.policy, if_pos ⟨plan, hplan, hsrc, hmergeable⟩] at hold
      contradiction
  . have hmem : c ∈ s.cohortPolicy ∨ c ∈ s.cohortCounters := by
      cases absorber_cases (outlook env d s).merges s c with
      | inl hstays =>
        rw [hstays.1] at hpolicy
        exact .inl (mem_of_ruled hpolicy)
      | inr hmoves =>
        obtain ⟨plan, _, hsrc, hmergeable, _⟩ := hmoves
        rw [← hsrc]
        exact .inr hmergeable.2
    rw [hdaemon]
    exact (NoneMade.refl d s).unused hall hseq c hmem

end Merged

theorem tgidHome_tick (hall : AllAllocated d s) (hseq : s.cohortSeq.toNat < 2 ^ 32 - 1)
    (hids : daemonCohortBase.toNat + d.daemonSeq.toNat + maxCohorts ≤ 2 ^ 64)
    (hlookup : s.tgidCohort.lookup tgid = some c) (hlive : ¬ lapsed env d s tgid)
    (hpolicy : ruledPolicy env (tasksSeen env d s) d s (absorber (outlook env d s).merges s c)
      = some policy)
    (hstays : ∀ toLlc, .moveCohort (absorber (outlook env d s).merges s c) toLlc
      ∉ (outlook env d s).moves)
    (hexec : exec (tick env) d s = (.ok (r, d'), s'))
    : tgidHome s' tgid = some policy.homeLlc := by
  obtain ⟨view, d₁, s₁, plans, d₂, s₂, hplace, hmerge, hsplits⟩ := exec_tick_inv hexec
  have hbefore := beforeMerges_of_place hplace
  have hmade := NoneMade.trans _ _ _ _ _ _ (NoneMade.carriesPlace.place _ _ _ _ _ hplace)
    (NoneMade.carriesMerges.mergeFirst _ _ _ _ _ hmerge)
  obtain ⟨w, d₂', s₂', hmerge', hmerged⟩ := exec_mergeFirst env d₁ fun _ _ => read_of_beforeMerges hbefore
  obtain ⟨hplans, rfl, rfl⟩ := exec_inj hmerge' hmerge
  rw [hbefore.merges] at hmerged
  have hkept := keptHome_of_merges hbefore hmerged hmade.daemonSeq hall hseq hlookup hlive hpolicy hstays
  have hread : view.tgidCohort.lookup tgid = some c := by
    rw [hbefore.tgidCohort, lookup_tgidsSeen, hlookup]
  have hend : KeptHome tgid c policy.homeLlc d' s' := by
    refine applySplits_invariant (n := maxCohorts) ?_ ?_ ?_ hkept hsplits
    . intro plan hplan d s s' hmem honce hlt h
      rw [hplans] at hplan
      exact h.split honce (cohort_of_split hread hplan) hmem hlt
    . rw [hmade.daemonSeq]
      exact hids
    . omega
  exact hend.kept

end Tick

end Daemon
