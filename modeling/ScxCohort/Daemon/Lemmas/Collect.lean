import ScxCohort.Daemon.Lemmas.Regroup

/-!
This module contains what the two collectors delete. A cohort goes only when two scans in a row have
found it dead and both scans were good; a thread group goes after two scans of any kind.
-/

namespace Daemon

section Cohorts

-- One call of `snapshot_cohorts`: the lists it is given and the maps it finds.
structure Scan where
  env : TickEnv
  tasks : List TaskSnapshot
  tgidCohort : HashTable Tgid CohortId
  daemon : Scheduler
  maps : Maps
  length_lt : tasks.length < 2 ^ 64

namespace Scan

-- The call, with the cohorts that the call before has found dead.
def call (c : Scan) (dead : Finset CohortId)
    : Except MapErr (List CohortSnapshot × Scheduler) × Maps :=
  exec (snapshotCohorts c.env c.tasks c.tgidCohort) { c.daemon with deadCohorts := dead } c.maps

def deadAfter (c : Scan) (dead : Finset CohortId) : Finset CohortId :=
  match (c.call dead).1 with
  | .ok (_, d) => d.deadCohorts
  | .error _ => dead

-- The daemon starts with no cohort found dead.
def deadAfterAll (calls : List Scan) : Finset CohortId := calls.foldl (fun dead c => c.deadAfter dead) ∅

-- The cohort counts as dead in a good scan.
structure FoundDead (c : Scan) (id : CohortId) : Prop where
  counters : id ∈ c.maps.cohortCounters
  noTask : ∀ t ∈ c.tasks, t.cohortId ≠ id
  noTgid : ∀ tgid, c.tgidCohort.lookup tgid ≠ some id
  nonempty : c.tasks ≠ []

def InUse (c : Scan) (id : CohortId) : Prop :=
  (∃ t ∈ c.tasks, t.cohortId = id) ∨ ∃ tgid, c.tgidCohort.lookup tgid = some id

def Deletes (c : Scan) (dead : Finset CohortId) (id : CohortId) : Prop :=
  (id ∈ c.maps.cohortCounters ∧ id ∉ (c.call dead).2.cohortCounters)
    ∨ (id ∈ c.maps.cohortPolicy ∧ id ∉ (c.call dead).2.cohortPolicy)

-- What the call may delete, and what it has to return.
structure Careful (last : Option Scan) (dead : Finset CohortId) (c : Scan) : Prop where
  twice : ∀ id, c.Deletes dead id → c.FoundDead id ∧ ∃ p ∈ last, p.FoundDead id
  listed : ∃ cohorts d, (c.call dead).1 = .ok (cohorts, d)
    ∧ ∀ id ∈ c.maps.cohortCounters, c.InUse id → (cohorts.map (·.id)).count id = 1

variable {c : Scan} {dead : Finset CohortId} {id : CohortId}

theorem unused_iff (c : Scan) (id : CohortId)
    : unused c.tasks c.tgidCohort.values id = true ↔ ¬ c.InUse id := by
  have hcount : ((taskCounts c.tasks).lookup id).getD 0 = 0 ↔ ¬ ∃ t ∈ c.tasks, t.cohortId = id := by
    have hlt : c.tasks.countP (·.cohortId = id) < 2 ^ 64 :=
      Nat.lt_of_le_of_lt List.countP_le_length c.length_lt
    rw [lookup_taskCounts, ← UInt64.toNat_inj, UInt64.toNat_ofNat', Nat.mod_eq_of_lt hlt]
    show c.tasks.countP (·.cohortId = id) = 0 ↔ _
    rw [List.countP_eq_zero]
    simp
  unfold unused InUse
  rw [decide_eq_true_eq, hcount, not_or, HashTable.mem_values]

theorem foundDead_iff
    : c.FoundDead id
        ↔
      id ∈ c.maps.cohortCounters ∧ unused c.tasks c.tgidCohort.values id = true ∧ c.tasks ≠ [] := by
  rw [unused_iff]
  unfold InUse
  simp only [not_or, not_exists, not_and]
  constructor
  . intro h
    exact ⟨h.counters, ⟨h.noTask, h.noTgid⟩, h.nonempty⟩
  . intro h
    exact ⟨h.1, h.2.1.1, h.2.1.2, h.2.2⟩

theorem mem_deadAfter : id ∈ c.deadAfter dead ↔ c.FoundDead id ∧ id ∉ dead := by
  unfold deadAfter call
  rw [exec_snapshotCohorts]
  unfold scanned scanIn
  dsimp only
  rw [mem_scanCohorts_deadNow, BoundedMap.mem_order_items, foundDead_iff]
  tauto

theorem foundDead_of_deletes (h : c.Deletes dead id) : c.FoundDead id ∧ id ∈ dead := by
  have hgone : id
      ∈ (scanIn c.env c.tasks c.tgidCohort { c.daemon with deadCohorts := dead } c.maps).dead := by
    unfold Deletes call at h
    rw [exec_snapshotCohorts] at h
    unfold dropCohorts at h
    simp only [BoundedMap.mem_iff_lookup, BoundedMap.lookup_foldl_delete] at h
    by_contra hkept
    simp only [if_neg hkept] at h
    tauto
  unfold scanIn at hgone
  rw [mem_scanCohorts_dead, BoundedMap.mem_order_items] at hgone
  exact ⟨foundDead_iff.mpr ⟨hgone.1, hgone.2.1, hgone.2.2.1⟩, hgone.2.2.2⟩

theorem count_listed (h : c.InUse id) (hmem : id ∈ c.maps.cohortCounters)
    : ((scanIn c.env c.tasks c.tgidCohort { c.daemon with deadCohorts := dead } c.maps).out.map
        (·.id)).count id = 1 := by
  have hids : ∀ l : List (CohortId × CohortCounters), ∀ d policies,
      ((l.filter fun e => !unused c.tasks c.tgidCohort.values e.1).map
        (snapshotOf d c.tasks policies)).map (·.id)
        = (l.map (·.1)).filter fun id => !unused c.tasks c.tgidCohort.values id := by
    intro l d policies
    rw [List.map_map, List.filter_map]
    rfl
  have hused : unused c.tasks c.tgidCohort.values id = false := by
    rw [Bool.eq_false_iff]
    intro hunused
    exact (unused_iff c id).mp hunused h
  unfold scanIn
  rw [scanCohorts_out, hids, List.count_filter (by rw [hused]; rfl)]
  apply List.count_eq_one_of_mem
  . rw [((c.env.order.perm _).map _).nodup_iff]
    exact HashTable.nodup_items _
  . exact BoundedMap.mem_order_items.mpr hmem

-- The set holds what the last call has found dead, so that being in it is the first sighting.
theorem foundDead_of_mem (calls : List Scan) (h : id ∈ deadAfterAll calls)
    : ∃ p ∈ calls.getLast?, p.FoundDead id := by
  induction calls using List.reverseRecOn with
  | nil => exact absurd h (Finset.notMem_empty id)
  | append_singleton calls c _ =>
    unfold deadAfterAll at h
    rw [List.foldl_append, List.foldl_cons, List.foldl_nil, mem_deadAfter] at h
    refine ⟨c, ?_, h.1⟩
    rw [List.getLast?_append_of_ne_nil _ (List.cons_ne_nil c []), List.getLast?_singleton]
    rfl

theorem two_sightings (calls : List Scan) (c : Scan)
    : Careful calls.getLast? (deadAfterAll calls) c := by
  constructor
  . intro id h
    obtain ⟨hdead, hmem⟩ := foundDead_of_deletes h
    exact ⟨hdead, foundDead_of_mem calls hmem⟩
  . unfold call
    rw [exec_snapshotCohorts]
    refine ⟨_, _, rfl, ?_⟩
    intro id hmem huse
    exact count_listed huse hmem

end Scan

end Cohorts

section Kept

structure KeptTgids (s s' : Maps) : Prop where
  tgids : ∀ tgid ∈ s.tgidCohort, tgid ∈ s'.tgidCohort

structure KeptEntries (s s' : Maps) : Prop extends KeptTgids s s' where
  policy : ∀ id ∈ s.cohortPolicy, id ∈ s'.cohortPolicy
  counters : ∀ id ∈ s.cohortCounters, id ∈ s'.cohortCounters

namespace KeptTgids

theorem trans (a b c : Maps) (h : KeptTgids a b) (h' : KeptTgids b c) : KeptTgids a c :=
  ⟨fun tgid hmem => h'.tgids tgid (h.tgids tgid hmem)⟩

theorem keepsDrops : KeepsDrops KeptTgids where
  refl := fun _ => ⟨fun _ h => h⟩
  policy := fun _ _ _ _ => ⟨fun _ h => h⟩
  counters := fun _ _ _ _ => ⟨fun _ h => h⟩
  tgid := fun _ _ _ _ => ⟨fun _ h => BoundedMap.mem_updateD_of_mem h _ _ _⟩
  spill := fun _ _ => ⟨fun _ h => h⟩
  edges := fun _ _ => ⟨fun _ h => h⟩
  dropPolicy := fun _ _ => ⟨fun _ h => h⟩
  dropCounters := fun _ _ => ⟨fun _ h => h⟩

end KeptTgids

namespace KeptEntries

theorem refl (s : Maps) : KeptEntries s s := ⟨⟨fun _ h => h⟩, fun _ h => h, fun _ h => h⟩

theorem trans (a b c : Maps) (h : KeptEntries a b) (h' : KeptEntries b c) : KeptEntries a c :=
  ⟨KeptTgids.trans _ _ _ h.toKeptTgids h'.toKeptTgids, fun id hmem => h'.policy id (h.policy id hmem),
    fun id hmem => h'.counters id (h.counters id hmem)⟩

theorem keepsUpdates : KeepsUpdates KeptEntries where
  refl := refl
  policy := fun _ _ _ _ => ⟨⟨fun _ h => h⟩, fun _ h => BoundedMap.mem_updateD_of_mem h _ _ _, fun _ h => h⟩
  counters := fun _ _ _ _ =>
    ⟨⟨fun _ h => h⟩, fun _ h => h, fun _ h => BoundedMap.mem_updateD_of_mem h _ _ _⟩
  tgid := fun _ _ _ _ => ⟨⟨fun _ h => BoundedMap.mem_updateD_of_mem h _ _ _⟩, fun _ h => h, fun _ h => h⟩
  spill := fun _ _ => ⟨⟨fun _ h => h⟩, fun _ h => h, fun _ h => h⟩
  edges := fun _ _ => ⟨⟨fun _ h => h⟩, fun _ h => h, fun _ h => h⟩

end KeptEntries

variable {env : TickEnv} {d d₁ : Scheduler} {s s₁ : Maps} {view : TickView}

-- What a tick does once it has looked around deletes no thread group.
theorem keptTgids_of_survey (h : exec (survey env) d s = (.ok (view, d₁), s₁))
    : KeptTgids s₁ (exec (tick env) d s).2 := by
  unfold tick
  rw [place_eq, bind_assoc, exec_bind_ok h]
  have hrest : Keeps KeptTgids (moveAndSpill env view >>= fun view => do
      discoverRelationships env view.cohorts view.tasks view.tgidCohort
      return (view.cohorts, view.llcs)) := by
    apply keeps_bind KeptTgids.keepsDrops.moveAndSpill
    intro view
    apply keeps_bind KeptTgids.keepsDrops.discoverRelationships
    intro _
    exact keeps_pure
  exact hrest.exec KeptTgids.keepsDrops.refl KeptTgids.trans _ _

theorem lapsed_of_lost {tgid : Tgid} (hmem : tgid ∈ s.tgidCohort)
    (hlost : tgid ∉ (exec (tick env) d s).2.tgidCohort)
    : lapsed env d s tgid := by
  obtain ⟨view, d₁, s₁, hexec, hsurvey⟩ := exec_survey env d s
  by_contra hkept
  apply hlost
  apply (keptTgids_of_survey hexec).tgids
  rw [BoundedMap.mem_iff_lookup, hsurvey.tgids, if_neg hkept]
  exact BoundedMap.mem_iff_lookup.mp hmem

-- The wake graph and what it is fed with are left alone until merges and splits are looked for.
structure SameGraph (d : Scheduler) (s : Maps) (d' : Scheduler) (s' : Maps) : Prop where
  wakeGraph : d'.wakeGraph = d.wakeGraph
  intervalNs : d'.intervalNs = d.intervalNs
  sampleMult : d'.sampleMult = d.sampleMult
  wakeEdges : s'.wakeEdges = s.wakeEdges

namespace SameGraph

theorem trans (d₁ : Scheduler) (s₁ : Maps) (d₂ : Scheduler) (s₂ : Maps) (d₃ : Scheduler) (s₃ : Maps)
    (h : SameGraph d₁ s₁ d₂ s₂) (h' : SameGraph d₂ s₂ d₃ s₃)
    : SameGraph d₁ s₁ d₃ s₃ :=
  ⟨h'.wakeGraph.trans h.wakeGraph, h'.intervalNs.trans h.intervalNs, h'.sampleMult.trans h.sampleMult,
    h'.wakeEdges.trans h.wakeEdges⟩

theorem carriesPlace : CarriesPlace SameGraph where
  refl := fun _ _ => ⟨rfl, rfl, rfl, rfl⟩
  trans := trans
  dropPolicy := fun _ _ _ => ⟨rfl, rfl, rfl, rfl⟩
  dropCounters := fun _ _ _ => ⟨rfl, rfl, rfl, rfl⟩
  dropTgid := fun _ _ _ => ⟨rfl, rfl, rfl, rfl⟩
  note := fun _ _ _ _ _ _ _ _ => ⟨rfl, rfl, rfl, rfl⟩
  setPolicy := fun _ _ _ _ => ⟨rfl, rfl, rfl, rfl⟩
  rules := fun _ _ _ _ => ⟨rfl, rfl, rfl, rfl⟩
  moved := fun _ _ _ => ⟨rfl, rfl, rfl, rfl⟩
  spill := fun _ _ _ => ⟨rfl, rfl, rfl, rfl⟩
  spilled := fun _ _ _ => ⟨rfl, rfl, rfl, rfl⟩

theorem graphSeen {d d' : Scheduler} {s s' : Maps} (h : SameGraph d s d' s')
    : graphSeen env d' s' = graphSeen env d s := by
  unfold Daemon.graphSeen edgesSeen
  rw [h.wakeGraph, h.intervalNs, h.sampleMult, h.wakeEdges]

end SameGraph

theorem merges_of_sizes {o : IterOrder} {w : WakeGraph} {T : HashTable Tgid CohortId}
    {sizes sizes' : HashTable CohortId UInt64}
    (h : ∀ id, (sizes.lookup id).getD 0 = (sizes'.lookup id).getD 0)
    : w.merges o T sizes = w.merges o T sizes' := by
  have hedge : WakeGraph.mergeEdge w.cfg T sizes = WakeGraph.mergeEdge w.cfg T sizes' := by
    funext m e
    unfold WakeGraph.mergeEdge
    simp only [h]
  unfold WakeGraph.merges
  rw [hedge]

-- The merges that a tick plans when it has seen no task, and so counts none in any cohort.
def emptyMerges (env : TickEnv) (d : Scheduler) (s : Maps) : List MergePlan :=
  ((graphSeen env d s).merges env.order (tgidsSeen env s) ∅).1

theorem exec_applyMerges_skip {T : HashTable Tgid CohortId} {plans : List MergePlan}
    (h : ∀ plan ∈ plans, ¬ mergeable plan s)
    : exec (plans.forM (applyMerge env T)) d s = (.ok (⟨⟩, d), s) := by
  induction plans with
  | nil => rfl
  | cons plan plans ih =>
    rw [exec_forM_cons_ok (exec_applyMerge_skip (h plan List.mem_cons_self))]
    apply ih
    intro plan' hplan'
    exact h plan' (List.mem_cons_of_mem _ hplan')

theorem keptEntries_place (hempty : tasksSeen env d s = [])
    (hlapsed : ∀ tgid ∈ d.deadTgids, tgid ∉ s.tgidCohort)
    : KeptEntries s (exec (place env) d s).2 := by
  obtain ⟨view, d₁, s₁, hexec, hsurvey⟩ := exec_survey env d s
  have hkept : ∀ id, ¬ collected env d s id := by
    intro id hid
    exact hid.2.2.1 hempty
  rw [place_eq]
  apply exec_bind_kept KeptEntries.trans
  . rw [hexec]
    refine ⟨⟨?_⟩, ?_, ?_⟩
    . intro tgid hmem
      rw [BoundedMap.mem_iff_lookup, hsurvey.tgids, if_neg]
      . exact BoundedMap.mem_iff_lookup.mp hmem
      . intro hlapse
        exact hlapsed tgid hlapse.2 hmem
    . intro id hmem
      obtain ⟨policy, hpolicy⟩ := BoundedMap.mem_iff_lookup.mp hmem
      rw [BoundedMap.mem_iff_lookup, hsurvey.policy, if_neg (hkept id)]
      unfold ruledPolicy
      rw [hpolicy]
      split
      . exact ⟨_, rfl⟩
      . exact ⟨_, rfl⟩
    . intro id hmem
      rw [BoundedMap.mem_iff_lookup, hsurvey.counters, if_neg (hkept id)]
      exact BoundedMap.mem_iff_lookup.mp hmem
  . intro view' d' s' _
    have hrest : Keeps KeptEntries (moveAndSpill env view') := KeptEntries.keepsUpdates.moveAndSpill
    exact hrest.exec KeptEntries.refl KeptEntries.trans _ _

theorem sizes_of_empty (hempty : tasksSeen env d s = []) {s' : Maps} (h : Surveyed env d s view d₁ s')
    (id : CohortId)
    : ((HashTable.ofList (view.cohorts.map fun c => (c.id, c.nrTasks))).lookup id).getD 0
        =
      ((∅ : HashTable CohortId UInt64).lookup id).getD 0 := by
  cases hlookup : (HashTable.ofList (view.cohorts.map fun c => (c.id, c.nrTasks))).lookup id with
  | none => rfl
  | some n =>
    have hmem := HashTable.mem_of_lookup_ofList hlookup
    rw [List.mem_map] at hmem
    obtain ⟨c, hc, heq⟩ := hmem
    rw [Prod.mk.injEq] at heq
    rw [Option.getD_some, ← heq.2, (h.cohorts c hc).2, hempty, lookup_taskCounts]
    rfl

theorem keptEntries_tick (hempty : tasksSeen env d s = [])
    (hlapsed : ∀ tgid ∈ d.deadTgids, tgid ∉ s.tgidCohort)
    (hmerges : ∀ plan ∈ emptyMerges env d s, ¬ mergeable plan s)
    : KeptEntries s (exec (tick env) d s).2 := by
  unfold tick
  apply exec_bind_kept KeptEntries.trans (keptEntries_place hempty hlapsed)
  intro view d₂ s₂ hplace
  obtain ⟨d₁, s₁, _, _, hexec, _⟩ := exec_place_inv hplace
  have hsurvey := surveyed_of_exec hexec
  have hgraph := SameGraph.carriesPlace.place _ _ _ _ _ hplace
  have hmade := NoneMade.carriesPlace.place _ _ _ _ _ hplace
  apply exec_bind_kept KeptEntries.trans
  . unfold discoverRelationships
    rw [exec_bind_ok (exec_observeEdges _ _ _), exec_bind_ok (exec_planMerges _ _ _ _ _)]
    dsimp only
    rw [merges_of_sizes (sizes_of_empty hempty hsurvey), hsurvey.tgidCohort, hgraph.graphSeen]
    have hskip : ∀ plan ∈ emptyMerges env d s, ¬ mergeable plan { s₂ with wakeEdges := ∅ } := by
      intro plan hplan hmergeable
      apply hmerges plan hplan
      exact ⟨hmade.counters _ hmergeable.1, hmade.counters _ hmergeable.2⟩
    unfold emptyMerges at hskip
    rw [exec_bind_ok (exec_applyMerges_skip hskip)]
    have hedges : KeptEntries s₂ { s₂ with wakeEdges := ∅ } := KeptEntries.keepsUpdates.edges _ _
    apply KeptEntries.trans _ _ _ hedges
    have hrest : Keeps KeptEntries (do
        let splits ← planSplits env (cohortTgids env.order
          (HashTable.ofList (view.cohorts.map fun c => (c.id, c.nrTasks))) view.tasks (tgidsSeen env s))
        splits.forM applySplit) := by
      apply keeps_bind KeepsUpdates.planSplits
      intro splits
      apply keeps_forM
      intro plan
      exact KeptEntries.keepsUpdates.applySplit
    exact hrest.exec KeptEntries.refl KeptEntries.trans _ _
  . intro _ d₃ s₃ _
    rw [exec_pure]
    exact KeptEntries.refl s₃

end Kept

section Run

-- What the collectors have noted is left alone by the rest of the tick.
structure SameDead (d : Scheduler) (_ : Maps) (d' : Scheduler) (_ : Maps) : Prop where
  cohorts : d'.deadCohorts = d.deadCohorts
  tgids : d'.deadTgids = d.deadTgids

namespace SameDead

theorem refl (d : Scheduler) (s : Maps) : SameDead d s d s := ⟨rfl, rfl⟩

theorem trans (d₁ : Scheduler) (s₁ : Maps) (d₂ : Scheduler) (s₂ : Maps) (d₃ : Scheduler) (s₃ : Maps)
    (h : SameDead d₁ s₁ d₂ s₂) (h' : SameDead d₂ s₂ d₃ s₃)
    : SameDead d₁ s₁ d₃ s₃ :=
  ⟨h'.cohorts.trans h.cohorts, h'.tgids.trans h.tgids⟩

theorem carriesChanges : CarriesChanges SameDead where
  refl := refl
  trans := trans
  balancer := fun _ _ _ => ⟨rfl, rfl⟩
  setPolicy := fun _ _ _ _ => ⟨rfl, rfl⟩
  moved := fun _ _ _ => ⟨rfl, rfl⟩
  spill := fun _ _ _ => ⟨rfl, rfl⟩
  spilled := fun _ _ _ => ⟨rfl, rfl⟩
  graph := fun _ _ _ => ⟨rfl, rfl⟩
  edges := fun _ _ _ => ⟨rfl, rfl⟩
  merge := fun _ _ _ _ _ _ => ⟨rfl, rfl⟩
  split := fun _ _ _ _ _ => ⟨rfl, rfl⟩

end SameDead

variable {env : TickEnv} {d d' : Scheduler} {s s' : Maps} {r : List CohortSnapshot × List LlcLoad}

-- As far as dead cohorts are concerned, ticks are calls that take over from each other.
theorem scan_of_tick (h : exec (tick env) d s = (.ok (r, d'), s'))
    : ∃ c : Scan, c.tasks = tasksSeen env d s ∧ c.tgidCohort = tgidsSeen env s ∧ c.maps = s
        ∧ d'.deadCohorts = c.deadAfter d.deadCohorts := by
  obtain ⟨view, d₁, s₁, hexec, hdead⟩ := SameDead.carriesChanges.afterSurvey h
  have hlength : (tasksSeen env d s).length < 2 ^ 64 := by
    unfold tasksSeen HashTable.items
    rw [List.length_map, (env.order.perm _).length_eq, List.length_map]
    exact Nat.lt_of_le_of_lt s.taskStats.size_le (by decide)
  refine ⟨⟨env, tasksSeen env d s, tgidsSeen env s, d, s, hlength⟩, rfl, rfl, rfl, ?_⟩
  ext id
  rw [hdead.cohorts, (surveyed_of_exec hexec).deadCohorts, Scan.mem_deadAfter, Scan.foundDead_iff]
  tauto

-- A tick, with the maps it finds.
structure Visit where
  env : TickEnv
  maps : Maps

-- What a tick has read: the tasks, and the thread groups that have an entry.
structure Sight where
  tasks : List TaskSnapshot
  tgids : BoundedMap 65536 Tgid CohortId

def Visit.sight (v : Visit) (d : Scheduler) : Sight := ⟨tasksSeen v.env d v.maps, v.maps.tgidCohort⟩

def Sight.Absent (x : Sight) (tgid : Tgid) : Prop := tgid ∈ x.tgids ∧ ∀ t ∈ x.tasks, t.tgid ≠ tgid

-- The ticks of a daemon, from its state and what its last tick has read. A tick that fails ends it.
def AlongTicks (P : Scheduler → Option Sight → Visit → Prop)
    : Scheduler → Option Sight → List Visit → Prop
  | _, _, [] => True
  | d, last, v :: vs =>
    P d last v
      ∧ ∀ r d' s', exec (tick v.env) d v.maps = (.ok (r, d'), s')
        → AlongTicks P d' (some (v.sight d)) vs

-- An empty scan deletes nothing, and a thread group is deleted only after two good scans without it.
structure Spares (d : Scheduler) (last : Option Sight) (v : Visit) : Prop where
  empty : (v.sight d).tasks = [] → KeptEntries v.maps (exec (tick v.env) d v.maps).2
  twice : ∀ tgid ∈ v.maps.tgidCohort, tgid ∉ (exec (tick v.env) d v.maps).2.tgidCohort
    → ((v.sight d).tasks ≠ [] ∧ (v.sight d).Absent tgid)
      ∧ ∃ x ∈ last, x.tasks ≠ [] ∧ x.Absent tgid

structure NothingDue (d : Scheduler) (last : Option Sight) (v : Visit) : Prop where
  tgids : (v.sight d).tasks = [] ∨ (∃ x ∈ last, x.tasks = [])
    → ∀ tgid ∈ d.deadTgids, tgid ∈ v.maps.tgidCohort → ∃ t ∈ (v.sight d).tasks, t.tgid = tgid
  merges : (v.sight d).tasks = [] → ∀ plan ∈ emptyMerges v.env d v.maps, ¬ mergeable plan v.maps

-- A thread group that is noted as dead had no task when the last tick looked.
def NotedAbsent (d : Scheduler) (last : Option Sight) : Prop :=
  ∀ tgid ∈ d.deadTgids, ∃ x ∈ last, x.Absent tgid

theorem notedAbsent_next {v : Visit} (h : exec (tick v.env) d v.maps = (.ok (r, d'), s'))
    : NotedAbsent d' (some (v.sight d)) := by
  obtain ⟨view, d₁, s₁, hexec, hdead⟩ := SameDead.carriesChanges.afterSurvey h
  intro tgid hmem
  rw [hdead.tgids, (surveyed_of_exec hexec).deadTgids] at hmem
  refine ⟨v.sight d, rfl, hmem.1, ?_⟩
  intro t ht heq
  apply hmem.2.1
  rw [← heq]
  exact List.mem_map_of_mem ht

theorem spares_of_nothingDue {last : Option Sight} {v : Visit} (hnoted : NotedAbsent d last)
    (h : NothingDue d last v)
    : Spares d last v := by
  constructor
  . intro hempty
    apply keptEntries_tick hempty _ (h.merges hempty)
    intro tgid hdead hmem
    obtain ⟨t, ht, _⟩ := h.tgids (.inl hempty) tgid hdead hmem
    rw [hempty] at ht
    contradiction
  . intro tgid hmem hlost
    have hlapsed := lapsed_of_lost hmem hlost
    have habsent : ∀ t ∈ (v.sight d).tasks, t.tgid ≠ tgid := by
      intro t ht heq
      apply hlapsed.1
      rw [← heq]
      exact List.mem_map_of_mem ht
    have hgood : ¬ ((v.sight d).tasks = [] ∨ ∃ x ∈ last, x.tasks = []) := by
      intro hbad
      obtain ⟨t, ht, heq⟩ := h.tgids hbad tgid hlapsed.2 hmem
      exact habsent t ht heq
    rw [not_or] at hgood
    obtain ⟨x, hx, hnot⟩ := hnoted tgid hlapsed.2
    refine ⟨⟨hgood.1, hmem, habsent⟩, x, hx, ?_, hnot⟩
    intro hempty
    exact hgood.2 ⟨x, hx, hempty⟩

theorem spares_along (vs : List Visit) {last : Option Sight} (hnoted : NotedAbsent d last)
    (h : AlongTicks NothingDue d last vs)
    : AlongTicks Spares d last vs := by
  induction vs generalizing d last with
  | nil => trivial
  | cons v vs ih =>
    refine ⟨spares_of_nothingDue hnoted h.1, ?_⟩
    intro r d' s' hexec
    exact ih (notedAbsent_next hexec) (h.2 r d' s' hexec)

theorem empty_scan_spares (d : Scheduler) (hdead : d.deadTgids = ∅) (vs : List Visit)
    (h : AlongTicks NothingDue d none vs)
    : AlongTicks Spares d none vs := by
  apply spares_along vs _ h
  intro tgid hmem
  rw [hdead] at hmem
  exact absurd hmem (Finset.notMem_empty tgid)

section Gone

def process (id : UInt32) : TaskStruct := { tid := id.toNat, pid := id, tgid := id }

def bothHere : Maps :=
  Bpf.run {} (Bpf.attached {})
    [.initTask (process 10) false none true, .initTask (process 20) false none true]

-- Process 10 exits, then 20 as well. Both are still mapped.
def oneGone : Maps := Bpf.step {} bothHere (.exitTask (process 10))

def bothGone : Maps := Bpf.step {} oneGone (.exitTask (process 20))

def idleDaemon : Scheduler := { llcCpus := [(0, 1)] }

theorem sight_oneGone (d : Scheduler) : ((⟨{}, oneGone⟩ : Visit).sight d).tasks ≠ [] := by
  have hitems : oneGone.taskStats.table.items ≠ [] := by decide +kernel
  intro hempty
  exact hitems (List.map_eq_nil_iff.mp hempty)

theorem nothingDue_oneGone (d : Scheduler) {last : Option Sight} (hlast : ∀ x ∈ last, x.tasks ≠ [])
    : NothingDue d last ⟨{}, oneGone⟩ := by
  constructor
  . intro hbad
    cases hbad with
    | inl hempty => exact absurd hempty (sight_oneGone d)
    | inr hempty =>
      obtain ⟨x, hx, hempty⟩ := hempty
      exact absurd hempty (hlast x hx)
  . intro hempty
    exact absurd hempty (sight_oneGone d)

theorem seen_bothHere (d : Scheduler) {tgid : Tgid} (h : tgid ∈ bothHere.tgidCohort)
    : ∃ t ∈ ((⟨{}, bothHere⟩ : Visit).sight d).tasks, t.tgid = tgid := by
  have htgids : ((⟨{}, bothHere⟩ : Visit).sight d).tasks.map (·.tgid)
      = bothHere.taskStats.table.items.map (·.2.tgid) := by
    unfold Visit.sight tasksSeen
    rw [List.map_map]
    rfl
  have hall : (bothHere.tgidCohort.table.keys.all
      (· ∈ bothHere.taskStats.table.items.map (·.2.tgid))) = true := by
    decide +kernel
  have hmem := of_decide_eq_true (List.all_eq_true.mp hall tgid h)
  rw [← htgids] at hmem
  exact List.mem_map.mp hmem

theorem sight_bothHere (d : Scheduler) : ((⟨{}, bothHere⟩ : Visit).sight d).tasks ≠ [] := by
  have hmem : 10 ∈ bothHere.tgidCohort := by decide +kernel
  obtain ⟨t, ht, _⟩ := seen_bothHere d hmem
  exact List.ne_nil_of_mem ht

theorem nothingDue_bothHere (d : Scheduler) (last : Option Sight)
    : NothingDue d last ⟨{}, bothHere⟩ := by
  constructor
  . intro _ tgid _ hmem
    exact seen_bothHere d hmem
  . intro hempty
    exact absurd hempty (sight_bothHere d)

theorem sight_bothGone (d : Scheduler) : ((⟨{}, bothGone⟩ : Visit).sight d).tasks = [] := by
  have hitems : bothGone.taskStats.table.items = [] := by decide +kernel
  exact List.map_eq_nil_iff.mpr hitems

-- Everything is seen, then nothing, then everything again, and then twice only process 20.
theorem empty_scan_between_spares
    : (bothGone.tgidCohort.lookup 10).isSome = true
      ∧ AlongTicks Spares idleDaemon none
          [⟨{}, bothHere⟩, ⟨{}, bothGone⟩, ⟨{}, bothHere⟩, ⟨{}, oneGone⟩, ⟨{}, oneGone⟩] := by
  refine ⟨by decide +kernel, ?_⟩
  apply empty_scan_spares _ rfl
  refine ⟨nothingDue_bothHere _ _, ?_⟩
  intro r₁ d₁ s₁ h₁
  have hgone : NothingDue d₁ (some ((⟨{}, bothHere⟩ : Visit).sight idleDaemon)) ⟨{}, bothGone⟩ := by
    constructor
    . intro _ tgid hdead _
      obtain ⟨x, hx, habsent⟩ := notedAbsent_next h₁ tgid hdead
      obtain rfl := Option.mem_some_iff.mp hx
      obtain ⟨t, ht, heq⟩ := seen_bothHere idleDaemon habsent.1
      exact absurd heq (habsent.2 t ht)
    . intro _
      have hnone : (exec (tick {}) idleDaemon bothHere).1.toOption.map
          (fun r => (emptyMerges {} r.2 bothGone).length) = some 0 := by
        decide +kernel
      have hexec : exec (tick {}) idleDaemon bothHere = (.ok (r₁, d₁), s₁) := h₁
      rw [hexec] at hnone
      have hnil : emptyMerges {} d₁ bothGone = [] := List.length_eq_zero_iff.mp (Option.some.inj hnone)
      dsimp only
      rw [hnil]
      intro plan hplan
      contradiction
  refine ⟨hgone, ?_⟩
  intro r₂ d₂ s₂ _
  refine ⟨nothingDue_bothHere _ _, ?_⟩
  intro r₃ d₃ s₃ _
  refine ⟨nothingDue_oneGone d₃ ?_, ?_⟩
  . intro x hx
    obtain rfl := Option.mem_some_iff.mp hx
    exact sight_bothHere d₂
  . intro r₄ d₄ s₄ _
    refine ⟨nothingDue_oneGone d₄ ?_, fun _ _ _ _ => trivial⟩
    intro x hx
    obtain rfl := Option.mem_some_iff.mp hx
    exact sight_oneGone _

def tickAgain (d : Scheduler) (s : Maps) : Option Maps :=
  match (exec (tick {}) d s).1 with
  | .ok (_, d') => some (exec (tick {}) d' s).2
  | .error _ => none

theorem two_empty_scans_not_spared
    : ¬ AlongTicks Spares idleDaemon none [⟨{}, bothGone⟩, ⟨{}, bothGone⟩] := by
  intro h
  have hlost : (tickAgain idleDaemon bothGone).map (·.tgidCohort.lookup 10) = some none := by
    decide +kernel
  have hmem : 10 ∈ bothGone.tgidCohort := by decide +kernel
  unfold tickAgain at hlost
  cases hexec : exec (tick {}) idleDaemon bothGone with
  | mk res s' =>
    rw [hexec] at hlost
    cases res with
    | error e => contradiction
    | ok res =>
      obtain ⟨hsecond, _⟩ := h.2 res.1 res.2 s' hexec
      have hkept := (hsecond.empty (sight_bothGone res.2)).tgids 10 hmem
      simp only [Option.map_some, Option.some.injEq] at hlost
      exact BoundedMap.lookup_eq_none.mp hlost hkept

end Gone

end Run

end Daemon
