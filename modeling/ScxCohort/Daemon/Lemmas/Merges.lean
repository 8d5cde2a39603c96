import ScxCohort.Daemon.Lemmas.Regroup

/-!
This module contains the merges of one tick as a whole: which plans they can be, and what is left of the
mapping once they have been carried out, in whatever order that is.
-/

namespace Daemon

section Plans

-- The larger one of two cohorts takes in the other one, and no cohort is in two plans.
structure PairsUp (cohortSizes : HashTable CohortId UInt64) (plans : List MergePlan) : Prop where
  distinct : ∀ plan ∈ plans, plan.into ≠ plan.src
  larger : ∀ plan ∈ plans, sizeIn cohortSizes plan.src ≤ sizeIn cohortSizes plan.into
  once : plans.Pairwise fun a b =>
    a.into ≠ b.into ∧ a.into ≠ b.src ∧ a.src ≠ b.into ∧ a.src ≠ b.src

theorem pairsUp_merges (o : IterOrder) (w : WakeGraph) (T : HashTable Tgid CohortId)
    (cohortSizes : HashTable CohortId UInt64)
    : PairsUp cohortSizes (w.merges o T cohortSizes).1 := by
  have hmatching := matching_merges (S := T) o w cohortSizes
  refine ⟨fun _ hplan => hmatching.distinct hplan, larger_merges o w cohortSizes, ?_⟩
  apply (List.nodup_flatMap.mp hmatching.nodup).2.imp
  intro a b hdisjoint
  unfold Function.onFun at hdisjoint
  simp only [List.disjoint_cons_left, List.mem_cons, List.not_mem_nil, or_false, not_or] at hdisjoint
  exact ⟨hdisjoint.1.1, hdisjoint.1.2, hdisjoint.2.1.1, hdisjoint.2.1.2⟩

end Plans

section AnyOrder

variable {T : HashTable Tgid CohortId} {plans plans' : List MergePlan} {s : Maps}

-- What the plans make of the mapping.
structure Retargeted (T : HashTable Tgid CohortId) (plans : List MergePlan)
    (m : Tgid → Option CohortId) : Prop where
  moved : ∀ plan ∈ plans, ∀ tgid, T.lookup tgid = some plan.src → m tgid = some plan.into
  kept : ∀ tgid, (∀ plan ∈ plans, T.lookup tgid ≠ some plan.src) → m tgid = T.lookup tgid

theorem Retargeted.perm {m : Tgid → Option CohortId} (h : Retargeted T plans m)
    (hperm : plans'.Perm plans)
    : Retargeted T plans' m := by
  constructor
  . intro plan hplan
    exact h.moved plan (hperm.mem_iff.mp hplan)
  . intro tgid hnone
    apply h.kept
    intro plan hplan
    exact hnone plan (hperm.mem_iff.mpr hplan)

theorem Retargeted.unique {m m' : Tgid → Option CohortId} (h : Retargeted T plans m)
    (h' : Retargeted T plans m')
    : m = m' := by
  funext tgid
  by_cases hmoved : ∃ plan ∈ plans, T.lookup tgid = some plan.src
  . obtain ⟨plan, hplan, hlookup⟩ := hmoved
    rw [h.moved plan hplan tgid hlookup, h'.moved plan hplan tgid hlookup]
  . have hkept : ∀ plan ∈ plans, T.lookup tgid ≠ some plan.src :=
      fun plan hplan heq => hmoved ⟨plan, hplan, heq⟩
    rw [h.kept tgid hkept, h'.kept tgid hkept]

-- The map in the kernel is the mapping that the plans were made from, and its cohorts exist.
structure StoredAs (T : HashTable Tgid CohortId) (s : Maps) : Prop where
  tgids : ∀ tgid, s.tgidCohort.lookup tgid = T.lookup tgid
  exist : ∀ id ∈ T.values, id ∈ s.cohortCounters

theorem StoredAs.mergeable (h : StoredAs T s) (hmatching : Matching T plans) {plan : MergePlan}
    (hplan : plan ∈ plans)
    : mergeable plan s :=
  ⟨h.exist _ (hmatching.used_into hplan), h.exist _ (hmatching.used_src hplan)⟩

theorem MergedAll.retargeted {s' : Maps} (h : MergedAll plans s s') (hstored : StoredAs T s)
    (hmatching : Matching T plans)
    : Retargeted T plans (s'.tgidCohort.lookup ·) := by
  constructor
  . intro plan hplan tgid hlookup
    rw [h.tgids, hstored.tgids, hlookup, Option.map_some]
    cases absorber_cases plans s plan.src with
    | inl hstays => exact absurd (hstored.mergeable hmatching hplan) (hstays.2 plan hplan rfl)
    | inr hmoves =>
      obtain ⟨p, hp, hsrc, _, habsorber⟩ := hmoves
      rw [habsorber, hmatching.src_inj hp hplan hsrc]
  . intro tgid hnone
    rw [h.tgids, hstored.tgids]
    cases hlookup : T.lookup tgid with
    | none => rfl
    | some id =>
      rw [Option.map_some, absorber_eq_self]
      intro plan hplan hsrc
      apply hnone plan hplan
      rw [hlookup, hsrc]

theorem exec_applyMerges_stored (env : TickEnv) (hmatching : Matching T plans)
    (hstored : StoredAs T s) (d : Scheduler)
    : ∃ d' s', exec (plans.forM (applyMerge env T)) d s = (.ok (⟨⟩, d'), s')
        ∧ Retargeted T plans (s'.tgidCohort.lookup ·) := by
  have hagrees : Agrees T plans s := by
    apply agrees_of_read
    intro tgid id hlookup
    rw [← hstored.tgids, hlookup]
  obtain ⟨d', s', hexec, hmerged⟩ := exec_applyMerges env plans hagrees hmatching d
  exact ⟨d', s', hexec, hmerged.retargeted hstored hmatching⟩

def retargetMap (T : HashTable Tgid CohortId) (plans : List MergePlan) (tgid : Tgid)
    : Option CohortId :=
  (T.lookup tgid).map fun id => ((plans.find? fun plan => plan.src = id).map (·.into)).getD id

theorem retargeted_retargetMap (hmatching : Matching T plans)
    : Retargeted T plans (retargetMap T plans) := by
  constructor
  . intro plan hplan tgid hlookup
    unfold retargetMap
    rw [hlookup, Option.map_some]
    cases hfind : plans.find? fun p => p.src = plan.src with
    | none =>
      have hne := List.find?_eq_none.mp hfind plan hplan
      simp at hne
    | some p =>
      have hsrc : p.src = plan.src := by simpa using List.find?_some hfind
      rw [hmatching.src_inj (List.mem_of_find?_eq_some hfind) hplan hsrc]
      rfl
  . intro tgid hnone
    unfold retargetMap
    cases hlookup : T.lookup tgid with
    | none => rfl
    | some id =>
      have hfind : plans.find? (fun p => p.src = id) = none := by
        rw [List.find?_eq_none]
        intro plan hplan hsrc
        apply hnone plan hplan
        rw [hlookup, of_decide_eq_true hsrc]
      rw [Option.map_some, hfind]
      rfl

theorem merges_in_any_order (o : IterOrder) (w : WakeGraph) (T : HashTable Tgid CohortId)
    (cohortSizes : HashTable CohortId UInt64)
    : PairsUp cohortSizes (w.merges o T cohortSizes).1
        ∧ ∃ m, Retargeted T (w.merges o T cohortSizes).1 m
          ∧ ∀ (plans : List MergePlan) (env : TickEnv) (d : Scheduler) (s : Maps),
            plans.Perm (w.merges o T cohortSizes).1 → StoredAs T s
            → ∃ d' s', exec (plans.forM (applyMerge env T)) d s = (.ok (⟨⟩, d'), s')
              ∧ ∀ tgid, s'.tgidCohort.lookup tgid = m tgid := by
  have hmatching := matching_merges (S := T) o w cohortSizes
  have hmap := retargeted_retargetMap hmatching
  refine ⟨pairsUp_merges o w T cohortSizes, _, hmap, ?_⟩
  intro plans env d s hperm hstored
  obtain ⟨d', s', hexec, hretargeted⟩ :=
    exec_applyMerges_stored env (hmatching.perm hperm) hstored d
  refine ⟨d', s', hexec, ?_⟩
  intro tgid
  exact congrFun (hretargeted.unique (hmap.perm hperm)) tgid

-- Three cohorts in a row, and a pair beside them.
def contested : WakeGraph :=
  let st : EdgeState := { rate := 900, inst := 900, overTicks := 2 }
  { edges := .ofList [((10, 20), st), ((20, 30), st), ((40, 50), st)] }

def contestedTgids : HashTable Tgid CohortId :=
  .ofList [(10, 1), (20, 2), (21, 2), (30, 3), (40, 4), (50, 5)]

def contestedSizes : HashTable CohortId UInt64 := .ofList [(1, 1), (2, 2), (3, 5), (4, 1), (5, 1)]

def contestedMaps : Maps :=
  { tgidCohort := ⟨contestedTgids, by decide⟩
    cohortCounters := ⟨.ofList [(1, {}), (2, {}), (3, {}), (4, {}), (5, {})], by decide⟩ }

def contestedDaemon : Scheduler := { llcCpus := [] }

theorem contested_in_reverse
    : ∃ d' s', exec ([⟨3, 2⟩, ⟨4, 5⟩].forM (applyMerge {} contestedTgids)) contestedDaemon contestedMaps
          = (.ok (⟨⟩, d'), s')
        ∧ s'.tgidCohort.lookup 10 = some 1 ∧ s'.tgidCohort.lookup 21 = some 3
        ∧ s'.tgidCohort.lookup 50 = some 4 := by
  obtain ⟨_, m, hmap, hall⟩ := merges_in_any_order .id contested contestedTgids contestedSizes
  have hplans : (contested.merges .id contestedTgids contestedSizes).1 = [⟨4, 5⟩, ⟨3, 2⟩] := by
    decide +kernel
  rw [hplans] at hmap hall
  have hexist : ∀ id ∈ contestedTgids.values, id ∈ contestedMaps.cohortCounters := by
    rw [← List.forall_iff_forall_mem]
    decide +kernel
  obtain ⟨d', s', hexec, htgids⟩ := hall [⟨3, 2⟩, ⟨4, 5⟩] {} contestedDaemon contestedMaps
    (List.Perm.swap _ _ _) ⟨fun _ => rfl, hexist⟩
  refine ⟨d', s', hexec, ?_, ?_, ?_⟩
  . rw [htgids, hmap.kept 10 (by decide +kernel)]
    decide +kernel
  . rw [htgids, hmap.moved ⟨3, 2⟩ (by decide) 21 (by decide +kernel)]
  . rw [htgids, hmap.moved ⟨4, 5⟩ (by decide) 50 (by decide +kernel)]

end AnyOrder

end Daemon
