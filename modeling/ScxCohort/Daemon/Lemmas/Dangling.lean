import ScxCohort.Bpf.Lemmas.Lineage
import ScxCohort.Daemon.Lemmas.Fork
import ScxCohort.Daemon.Lemmas.Holds
import ScxCohort.Daemon.Lemmas.Plans

/-!
This module contains when every thread group has a cohort that exists, however callbacks and the
daemon's ticks interleave. The daemon deletes a cohort when nothing it read at the start of the tick
refers to it any more, which does not account for what has been entered or taken up since.
-/

namespace Daemon

open Bpf

section Terms

-- What callbacks do between two operations of the daemon.
structure Interferes (s : Maps) (entered : List CohortId) (s' : Maps) (entered' : List CohortId)
    : Prop where
  keys : KeysGrow s s'
  entered : ∀ id ∈ entered, id ∈ entered'
  tgid : ∀ tgid id, s'.tgidCohort.lookup tgid = some id
    → s.tgidCohort.lookup tgid = some id ∨ id ∈ entered'
  noDangling : NoDangling s → NoDangling s'

theorem interferes_refl (s : Maps) (entered : List CohortId) : Interferes s entered s entered :=
  ⟨KeysGrow.refl s, fun _ h => h, fun _ _ h => .inl h, fun h => h⟩

theorem interferes_trans (s₁ : Maps) (c₁ : List CohortId) (s₂ : Maps) (c₂ : List CohortId)
    (s₃ : Maps) (c₃ : List CohortId) (h : Interferes s₁ c₁ s₂ c₂) (h' : Interferes s₂ c₂ s₃ c₃)
    : Interferes s₁ c₁ s₃ c₃ := by
  constructor
  . exact h.keys.trans h'.keys
  . intro id hid
    exact h'.entered id (h.entered id hid)
  . intro tgid id hlookup
    cases h'.tgid tgid id hlookup with
    | inr hentered => exact .inr hentered
    | inl hlookup =>
      cases h.tgid tgid id hlookup with
      | inl hlookup => exact .inl hlookup
      | inr hentered => exact .inr (h'.entered id hentered)
  . intro hs
    exact h'.noDangling (h.noDangling hs)

-- The daemon may not delete a cohort that has been entered since it read `tgid_cohort`.
def terms : Proc.Terms Op Maps (List CohortId) where
  rely := Interferes
  allows := fun _ s entered s' => ∀ id ∈ World.removedBy s s', id ∉ entered
  guar := fun _ s' => NoDangling s'
  note := fun op _ _ => World.noteRead op
  refl := interferes_refl
  trans := interferes_trans

-- `N` is what the daemon has accounted for in `tgid_cohort`, `K` are cohorts it knows to exist.
structure Tracks (N : Tgid → CohortId → Prop) (K : CohortId → Prop) (s : Maps)
    (entered : List CohortId) : Prop where
  noDangling : NoDangling s
  known : ∀ tgid id, s.tgidCohort.lookup tgid = some id → N tgid id ∨ id ∈ entered
  cohort : ∀ id, K id → CohortExists s id

variable {N : Tgid → CohortId → Prop} {K : CohortId → Prop}

theorem stable_tracks : terms.Stable (Tracks N K) := by
  intro s c s' c' hrely h
  constructor
  . exact hrely.noDangling h.noDangling
  . intro tgid id hlookup
    cases hrely.tgid tgid id hlookup with
    | inr hentered => exact .inr hentered
    | inl hlookup =>
      cases h.known tgid id hlookup with
      | inl hn => exact .inl hn
      | inr hentered => exact .inr (hrely.entered id hentered)
  . intro id hid
    exact hrely.keys.exists_of (h.cohort id hid)

theorem Tracks.mono {N' : Tgid → CohortId → Prop} {K' : CohortId → Prop} {s : Maps}
    {c : List CohortId} (h : Tracks N K s c) (hN : ∀ tgid id, N tgid id → N' tgid id)
    (hK : ∀ id, K' id → K id)
    : Tracks N' K' s c := by
  refine ⟨h.noDangling, ?_, fun id hid => h.cohort id (hK id hid)⟩
  intro tgid id hlookup
  cases h.known tgid id hlookup with
  | inl hn => exact .inl (hN tgid id hn)
  | inr hentered => exact .inr hentered

-- The daemon has not read `tgid_cohort` yet, or does not look back at it any more.
def Settled (K : CohortId → Prop) : Maps → List CohortId → Prop := Tracks (fun _ _ => True) K

theorem settled_iff {s : Maps} {c : List CohortId}
    : Settled K s c ↔ NoDangling s ∧ ∀ id, K id → CohortExists s id := by
  constructor
  . intro h
    exact ⟨h.noDangling, h.cohort⟩
  . intro h
    exact ⟨h.1, fun _ _ _ => .inl trivial, h.2⟩

end Terms

section Quiet

-- The read of `tgid_cohort` aside, an operation that writes neither it nor a cohort's existence.
structure QuietOp (op : Op) (s s' : Maps) : Prop where
  op : op ≠ (.tgidCohort, .batch)
  tgid : s'.tgidCohort = s.tgidCohort
  policy : ∀ id, id ∈ s'.cohortPolicy ↔ id ∈ s.cohortPolicy
  counters : ∀ id, id ∈ s'.cohortCounters ↔ id ∈ s.cohortCounters

theorem QuietOp.grows {op : Op} {s s' : Maps} (h : QuietOp op s s') : Grows s s' :=
  ⟨⟨fun id => (h.policy id).mpr, fun id => (h.counters id).mpr⟩, h.tgid⟩

theorem QuietOp.same {op : Op} {s s' : Maps} (hop : op ≠ (.tgidCohort, .batch))
    (ht : s'.tgidCohort = s.tgidCohort) (hp : s'.cohortPolicy = s.cohortPolicy)
    (hc : s'.cohortCounters = s.cohortCounters)
    : QuietOp op s s' := by
  refine ⟨hop, ht, ?_, ?_⟩
  . intro id
    rw [hp]
  . intro id
    rw [hc]

theorem QuietOp.tracks {N : Tgid → CohortId → Prop} {K : CohortId → Prop} {op : Op} {s s' : Maps}
    {c : List CohortId} (h : QuietOp op s s') (hs : Tracks N K s c)
    : Tracks N K s' (World.noteRead op c) := by
  unfold World.noteRead
  rw [if_neg h.op]
  constructor
  . exact h.grows.noDangling hs.noDangling
  . intro tgid id hlookup
    rw [h.tgid] at hlookup
    exact hs.known tgid id hlookup
  . intro id hid
    exact h.grows.keys.exists_of (hs.cohort id hid)

-- A program all of whose operations are quiet keeps what the daemon knows.
def Quiet {α : Type} (p : DaemonM α) : Prop :=
  ∀ N K, Holds terms (Tracks N K) p (fun _ => Tracks N K)

variable {α β : Type}

theorem quiet_pure {a : α} : Quiet (pure a : DaemonM α) :=
  fun _ _ => holds_pure stable_tracks fun _ _ h => h

theorem quiet_get : Quiet (get : DaemonM Scheduler) := fun _ _ => holds_get stable_tracks

theorem quiet_set {d : Scheduler} : Quiet (set d : DaemonM PUnit) :=
  fun _ _ => holds_set stable_tracks

theorem quiet_modify {f : Scheduler → Scheduler} : Quiet (modify f : DaemonM PUnit) :=
  fun _ _ => holds_modify stable_tracks

theorem quiet_bind {p : DaemonM α} {f : α → DaemonM β} (hp : Quiet p) (hf : ∀ a, Quiet (f a))
    : Quiet (p >>= f) :=
  fun N K => holds_bind (hp N K) fun a => hf a N K

theorem quiet_forM {f : β → DaemonM PUnit} {l : List β} (hf : ∀ b, Quiet (f b))
    : Quiet (l.forM f) :=
  fun N K => holds_forM_inv stable_tracks fun b _ => hf b N K

theorem quiet_attempt {l : Op} {f : Maps → α × Maps} (h : ∀ s, QuietOp l s (f s).2)
    : Quiet (attempt (.atomic l f)) := by
  intro N K
  apply holds_attempt stable_tracks (fun _ => stable_tracks)
  intro s c hs _
  exact ⟨(h s).grows.noDangling hs.noDangling, (h s).tracks hs⟩

theorem quiet_require {l : Op} {f : Maps → Except MapErr α × Maps} (h : ∀ s, QuietOp l s (f s).2)
    : Quiet (require (.atomic l f)) := by
  intro N K
  apply holds_require stable_tracks (fun _ => stable_tracks)
  intro s c hs _
  exact ⟨(h s).grows.noDangling hs.noDangling, fun _ _ => (h s).tracks hs⟩

theorem quiet_load {m : MapName} {f : Maps → β} : Quiet (attempt (load m f)) := by
  apply quiet_attempt
  intro s
  exact QuietOp.same (by simp) rfl rfl rfl

theorem quiet_batch {κ ν : Type} {o : IterOrder} {m : MapName} {table : Maps → HashTable κ ν}
    (hm : m ≠ .tgidCohort)
    : Quiet (batch o m table) := by
  apply quiet_attempt
  intro s
  exact QuietOp.same (by simp [hm]) rfl rfl rfl

theorem quiet_requireUpdate {m : MapName} {upd : Maps → Except MapErr Maps} {f : Maps → Maps}
    (hrun : ∀ s, ((tryUpdate m upd).run s).2 = f s) (h : ∀ s, QuietOp (m, .update) s (f s))
    : Quiet (require (tryUpdate m upd)) := by
  apply quiet_require
  intro s
  show QuietOp (m, .update) s ((tryUpdate m upd).run s).2
  rw [hrun]
  exact h s

theorem quiet_setPolicy {id : CohortId} {policy : CohortPolicy}
    : Quiet (require (updatePolicy id policy .exist)) := by
  apply quiet_requireUpdate (fun s => run_updatePolicy s id .exist policy)
  intro s
  exact ⟨by simp, rfl, fun _ => BoundedMap.mem_updateD_exist, fun _ => Iff.rfl⟩

variable {env : TickEnv}

theorem quiet_snapshotTasks : Quiet (snapshotTasks env) := by
  apply quiet_bind (quiet_batch (by decide))
  intro entries
  apply quiet_bind quiet_get
  intro d
  apply quiet_bind quiet_set
  intro _
  exact quiet_pure

theorem quiet_pinCohort {cohort : CohortId} {ccd : UInt32} : Quiet (pinCohort cohort ccd) := by
  apply quiet_bind quiet_load
  intro policy
  cases policy with
  | none => exact quiet_pure
  | some policy =>
    apply quiet_bind quiet_get
    intro d
    dsimp only
    split
    . exact quiet_setPolicy
    . exact quiet_pure

theorem quiet_applyRules {tasks : List TaskSnapshot} : Quiet (applyRules env tasks) := by
  apply quiet_bind quiet_get
  intro d
  split
  . exact quiet_pure
  . apply quiet_bind quiet_set
    intro _
    apply quiet_forM
    intro pin
    exact quiet_pinCohort

theorem quiet_readLlcLoads {tickNs : UInt64} (llcs : List (LlcId × UInt64))
    : Quiet (readLlcLoads tickNs llcs) := by
  induction llcs with
  | nil => exact quiet_pure
  | cons llc rest ih =>
    apply quiet_bind quiet_load
    intro cur
    apply quiet_bind quiet_get
    intro d
    apply quiet_bind quiet_modify
    intro _
    apply quiet_bind ih
    intro out
    exact quiet_pure

theorem quiet_llcLoads : Quiet llcLoads := by
  apply quiet_bind quiet_get
  intro d
  exact quiet_readLlcLoads _

theorem quiet_planMoves {llcs : List LlcLoad} {cohorts : List CohortSnapshot}
    : Quiet (planMoves env llcs cohorts) := by
  apply quiet_bind quiet_get
  intro d
  apply quiet_bind quiet_set
  intro _
  exact quiet_pure

theorem quiet_apply {decisions : List Decision} : Quiet (apply decisions) := by
  apply quiet_forM
  intro decision
  cases decision with
  | moveCohort id toLlc =>
    apply quiet_bind quiet_load
    intro policy
    cases policy with
    | none => exact quiet_pure
    | some policy =>
      apply quiet_bind quiet_setPolicy
      intro _
      exact quiet_modify

theorem quiet_applySpills {desired : Spills} : Quiet (applySpills env desired) := by
  apply quiet_bind quiet_get
  intro d
  apply quiet_bind
  . apply quiet_forM
    intro e
    unfold setSpill
    split
    . apply quiet_requireUpdate (fun s => run_updateSpill s e.1 e.2)
      intro s
      exact QuietOp.same (by simp) rfl rfl rfl
    . exact quiet_pure
  . intro _
    apply quiet_bind
    . apply quiet_forM
      intro pid
      unfold unsetSpill
      split
      . apply quiet_attempt
        intro s
        exact QuietOp.same (by simp) rfl rfl rfl
      . exact quiet_pure
    . intro _
      exact quiet_modify

theorem quiet_observeEdges : Quiet (observeEdges env) := by
  apply quiet_bind
  . apply quiet_bind
    . apply quiet_attempt
      intro s
      exact QuietOp.same (by simp) rfl rfl rfl
    . intro entries
      exact quiet_pure
  . intro deltas
    exact quiet_modify

theorem quiet_planSplits {groups : HashTable CohortId WakeGraph.Members}
    : Quiet (planSplits env groups) := by
  apply quiet_bind quiet_get
  intro d
  apply quiet_bind quiet_set
  intro _
  exact quiet_pure

end Quiet

section Delete

variable {N : Tgid → CohortId → Prop} {K : CohortId → Prop} {id : CohortId} {env : TickEnv}

-- Cohort `id`, if it exists, ceases to.
structure Drops (id : CohortId) (s s' : Maps) : Prop where
  tgid : s'.tgidCohort = s.tgidCohort
  policy : ∀ id', id' ≠ id → id' ∈ s.cohortPolicy → id' ∈ s'.cohortPolicy
  counters : ∀ id', id' ≠ id → id' ∈ s.cohortCounters → id' ∈ s'.cohortCounters
  removed : CohortExists s id → id ∈ World.removedBy s s'

theorem drops_counters (s : Maps) (id : CohortId)
    : Drops id s { s with cohortCounters := s.cohortCounters.delete id } := by
  refine ⟨rfl, fun _ _ h => h, ?_, ?_⟩
  . intro id' hne hid'
    rw [BoundedMap.mem_delete]
    exact ⟨hne, hid'⟩
  . intro hid
    unfold World.removedBy
    rw [List.mem_append, List.mem_filter, List.mem_filter]
    right
    simp [BoundedMap.mem_keys, BoundedMap.mem_delete, hid.counters]

theorem drops_policy (s : Maps) (id : CohortId)
    : Drops id s { s with cohortPolicy := s.cohortPolicy.delete id } := by
  refine ⟨rfl, ?_, fun _ _ h => h, ?_⟩
  . intro id' hne hid'
    rw [BoundedMap.mem_delete]
    exact ⟨hne, hid'⟩
  . intro hid
    unfold World.removedBy
    rw [List.mem_append, List.mem_filter, List.mem_filter]
    left
    simp [BoundedMap.mem_keys, BoundedMap.mem_delete, hid.policy]

theorem Drops.exists_of {s s' : Maps} (h : Drops id s s') {id' : CohortId} (hne : id' ≠ id)
    (hid' : CohortExists s id')
    : CohortExists s' id' :=
  ⟨h.policy id' hne hid'.policy, h.counters id' hne hid'.counters⟩

theorem Drops.tracks {s s' : Maps} {c : List CohortId} (h : Drops id s s') (hs : Tracks N K s c)
    (hN : ∀ tgid, ¬ N tgid id) (hK : ¬ K id) (hallows : ∀ id ∈ World.removedBy s s', id ∉ c)
    : Tracks N K s' c := by
  constructor
  . intro tgid id' hlookup
    rw [h.tgid] at hlookup
    have hid' := hs.noDangling tgid id' hlookup
    apply h.exists_of _ hid'
    -- A reference to `id` would be one that was entered after the read, but these may not be deleted.
    rintro rfl
    cases hs.known tgid id' hlookup with
    | inl hn => exact hN tgid hn
    | inr hentered => exact hallows id' (h.removed hid') hentered
  . intro tgid id' hlookup
    rw [h.tgid] at hlookup
    exact hs.known tgid id' hlookup
  . intro id' hid'
    apply h.exists_of _ (hs.cohort id' hid')
    rintro rfl
    exact hK hid'

theorem holds_deleteCohort (hN : ∀ tgid, ¬ N tgid id) (hK : ¬ K id)
    : Holds terms (Tracks N K) (deleteCohort id) (fun _ => Tracks N K) := by
  apply holds_bind
  . apply holds_attempt stable_tracks (fun _ => stable_tracks)
    intro s c hs hallows
    have htracks := (drops_counters s id).tracks hs hN hK hallows
    exact ⟨htracks.noDangling, htracks⟩
  . intro _
    apply holds_attempt stable_tracks (fun _ => stable_tracks)
    intro s c hs hallows
    have htracks := (drops_policy s id).tracks hs hN hK hallows
    exact ⟨htracks.noDangling, htracks⟩

theorem holds_deleteTgidCohort {tgid : Tgid}
    : Holds terms (Tracks N K) (attempt (Bpf.deleteTgidCohort tgid)) (fun _ => Tracks N K) := by
  apply holds_attempt stable_tracks (fun _ => stable_tracks)
  intro s c hs _
  have hlookup : ∀ tgid' id, (s.tgidCohort.delete tgid).lookup tgid' = some id
      → s.tgidCohort.lookup tgid' = some id := by
    intro tgid' id h
    rw [BoundedMap.lookup_delete] at h
    split at h
    . contradiction
    . exact h
  have htracks : Tracks N K { s with tgidCohort := s.tgidCohort.delete tgid } c := by
    constructor
    . intro tgid' id h
      have hid := hs.noDangling tgid' id (hlookup tgid' id h)
      exact ⟨hid.policy, hid.counters⟩
    . intro tgid' id h
      exact hs.known tgid' id (hlookup tgid' id h)
    . intro id hid
      exact ⟨(hs.cohort id hid).policy, (hs.cohort id hid).counters⟩
  exact ⟨htracks.noDangling, htracks⟩

theorem holds_gcTgidMap {tgidCohort : HashTable Tgid CohortId} {tasks : List TaskSnapshot}
    : Holds terms (Tracks N K) (gcTgidMap env tgidCohort tasks) (fun _ => Tracks N K) := by
  apply holds_bind (quiet_get N K)
  intro d
  apply holds_bind
  . apply holds_forM_inv stable_tracks
    intro tgid _
    exact holds_deleteTgidCohort
  . intro _
    exact quiet_set N K

end Delete

section Snapshot

variable {env : TickEnv} {tasks : List TaskSnapshot}

def Reads (S : HashTable Tgid CohortId) : Maps → List CohortId → Prop :=
  Tracks (fun tgid id => S.lookup tgid = some id) (fun id => id ∈ S.values)

theorem holds_snapshotTgidCohort
    : Holds terms (Settled fun _ => False) (snapshotTgidCohort env) Reads := by
  apply holds_bind
    (Q := fun entries s c => Reads (HashTable.ofList entries) s c)
  . apply holds_attempt stable_tracks (fun _ => stable_tracks)
    intro s c hs _
    refine ⟨hs.noDangling, hs.noDangling, ?_, ?_⟩
    . intro tgid id hlookup
      left
      dsimp only
      rw [HashTable.lookup_ofList_items]
      exact hlookup
    . intro id hid
      rw [HashTable.mem_values] at hid
      obtain ⟨tgid, hlookup⟩ := hid
      rw [HashTable.lookup_ofList_items] at hlookup
      exact hs.noDangling tgid id hlookup
  . intro entries
    exact holds_pure stable_tracks fun _ _ h => h

theorem holds_snapshotCohorts {S : HashTable Tgid CohortId}
    : Holds terms (Reads S) (snapshotCohorts env tasks S) (fun _ => Reads S) := by
  apply holds_bind (quiet_batch (by decide) _ _)
  intro policies
  apply holds_bind (quiet_batch (by decide) _ _)
  intro counters
  apply holds_bind (quiet_get _ _)
  intro d
  apply holds_bind
  . apply holds_forM_inv stable_tracks
    intro id hid
    have hunused := ((mem_scanCohorts_dead d tasks S.values (HashTable.ofList policies)).mp hid).2.1
    have hreferenced : id ∉ S.values := by
      simp only [unused, decide_eq_true_eq] at hunused
      exact hunused.2
    apply holds_deleteCohort _ hreferenced
    intro tgid hlookup
    apply hreferenced
    rw [HashTable.mem_values]
    exact ⟨tgid, hlookup⟩
  . intro _
    apply holds_bind (quiet_set _ _)
    intro _
    exact quiet_pure _ _

theorem holds_survey
    : Holds terms (Settled fun _ => False) (survey env) (fun view => Reads view.tgidCohort) := by
  apply holds_bind (quiet_snapshotTasks _ _)
  intro tasks
  apply holds_bind holds_snapshotTgidCohort
  intro S
  apply holds_bind (quiet_applyRules _ _)
  intro _
  apply holds_bind holds_snapshotCohorts
  intro cohorts
  apply holds_bind holds_gcTgidMap
  intro _
  apply holds_bind (quiet_llcLoads _ _)
  intro llcs
  exact holds_pure stable_tracks fun _ _ h => h

theorem holds_place
    : Holds terms (Settled fun _ => False) (place env) (fun view => Reads view.tgidCohort) := by
  apply holds_bind holds_survey
  intro view
  apply holds_bind (quiet_planMoves _ _)
  intro decisions
  apply holds_bind (quiet_apply _ _)
  intro _
  apply holds_bind (quiet_get _ _)
  intro d
  apply holds_bind (quiet_applySpills _ _)
  intro _
  exact holds_pure stable_tracks fun _ _ h => h

end Snapshot

section Merge

variable {S : HashTable Tgid CohortId}

-- Until a plan is carried out, the thread groups of its source are those that were read.
def Awaits (S : HashTable Tgid CohortId) (plans : List MergePlan) (tgid : Tgid) (id : CohortId)
    : Prop :=
  ∀ plan ∈ plans, id = plan.src → S.lookup tgid = some id

def IsTarget (plans : List MergePlan) (id : CohortId) : Prop := ∃ plan ∈ plans, id = plan.into

def Merging (S : HashTable Tgid CohortId) (plans : List MergePlan) (s : Maps)
    (entered : List CohortId) : Prop :=
  Matching S plans ∧ Tracks (Awaits S plans) (IsTarget plans) s entered

theorem stable_merging {plans : List MergePlan} : terms.Stable (Merging S plans) :=
  stable_given stable_tracks

theorem Reads.merging {plans : List MergePlan} {s : Maps} {c : List CohortId} (h : Reads S s c)
    (hplans : Matching S plans)
    : Merging S plans s c := by
  refine ⟨hplans, h.mono ?_ ?_⟩
  . intro tgid id hlookup plan _ _
    exact hlookup
  . rintro id ⟨plan, hplan, rfl⟩
    exact hplans.used_into hplan

theorem holds_planMerges {env : TickEnv} {sizes : HashTable CohortId UInt64}
    : Holds terms (Reads S) (planMerges env S sizes) (Merging S) := by
  apply holds_bind (quiet_get _ _)
  intro d
  apply holds_bind (quiet_set _ _)
  intro _
  refine holds_pure stable_tracks ?_
  intro s c h
  exact Reads.merging h (matching_merges env.order d.wakeGraph sizes)

-- While the thread groups of `src` are moved, `es` are those still to be looked at.
def Leaving (src : CohortId) (N : Tgid → CohortId → Prop) (es : List (Tgid × CohortId)) (tgid : Tgid)
    (id : CohortId) : Prop :=
  (id = src → (tgid, id) ∈ es) ∧ N tgid id

variable {N : Tgid → CohortId → Prop} {K : CohortId → Prop} {plan : MergePlan}

theorem Leaving.tail {src : CohortId} {e : Tgid × CohortId} {es : List (Tgid × CohortId)} {tgid : Tgid}
    {id : CohortId} (h : Leaving src N (e :: es) tgid id) (hne : (tgid, src) ≠ e)
    : Leaving src N es tgid id := by
  refine ⟨?_, h.2⟩
  intro hid
  cases List.mem_cons.mp (h.1 hid) with
  | inl heq =>
    rw [hid] at heq
    exact absurd heq hne
  | inr hmem => exact hmem

theorem Tracks.retarget {e : Tgid × CohortId} {es : List (Tgid × CohortId)} {s : Maps}
    {c : List CohortId} (h : Tracks (Leaving plan.src N (e :: es)) K s c)
    (hne : plan.into ≠ plan.src) (hN : ∀ tgid, N tgid plan.into) (hK : K plan.into)
    : Tracks (Leaving plan.src N es) K
        { s with tgidCohort := s.tgidCohort.updateD e.1 plan.into .exist } c := by
  refine ⟨h.noDangling.setTgid (h.cohort _ hK) e.1 .exist, ?_, ?_⟩
  . intro tgid id hlookup
    by_cases htgid : tgid = e.1
    . rw [htgid] at hlookup ⊢
      dsimp only at hlookup
      rw [BoundedMap.lookup_updateD_exist, Option.map_eq_some_iff] at hlookup
      obtain ⟨_, _, rfl⟩ := hlookup
      exact .inl ⟨fun heq => absurd heq hne, hN e.1⟩
    . dsimp only at hlookup
      rw [BoundedMap.lookup_updateD_ne _ _ _ htgid] at hlookup
      cases h.known tgid id hlookup with
      | inr hentered => exact .inr hentered
      | inl hleaving =>
        left
        apply hleaving.tail
        rintro rfl
        exact htgid rfl
  . intro id hid
    exact ⟨(h.cohort id hid).policy, (h.cohort id hid).counters⟩

theorem holds_retarget {e : Tgid × CohortId} {es : List (Tgid × CohortId)}
    (hne : plan.into ≠ plan.src) (hN : ∀ tgid, N tgid plan.into) (hK : K plan.into)
    : Holds terms (Tracks (Leaving plan.src N (e :: es)) K) (retarget plan e)
        (fun _ => Tracks (Leaving plan.src N es) K) := by
  unfold retarget
  split
  . apply holds_bind
    . apply holds_attemptUpdate (fun s => run_updateTgidCohort s plan.into .exist e.1) stable_tracks
        stable_tracks
      intro s c hs _
      have htracks := hs.retarget hne hN hK
      exact ⟨htracks.noDangling, htracks⟩
    . intro _
      exact quiet_pure _ _
  . next hsrc =>
    refine holds_pure stable_tracks ?_
    intro s c hs
    refine hs.mono ?_ fun _ h => h
    intro tgid id hleaving
    apply hleaving.tail
    rintro rfl
    exact hsrc rfl

variable {env : TickEnv} {rest : List MergePlan}

theorem Awaits.tail {tgid : Tgid} {id : CohortId} (h : Awaits S (plan :: rest) tgid id)
    : Awaits S rest tgid id :=
  fun p hp => h p (List.mem_cons_of_mem _ hp)

theorem IsTarget.cons {id : CohortId} (h : IsTarget rest id) : IsTarget (plan :: rest) id := by
  obtain ⟨p, hp, rfl⟩ := h
  exact ⟨p, List.mem_cons_of_mem _ hp, rfl⟩

theorem Matching.awaits_into (h : Matching S (plan :: rest)) (tgid : Tgid)
    : Awaits S rest tgid plan.into := by
  intro p hp heq
  exact absurd heq ((List.pairwise_cons.mp h.apart).1 p hp).2.1

theorem Matching.not_target_src (h : Matching S (plan :: rest))
    : ¬ IsTarget (plan :: rest) plan.src := by
  rintro ⟨p, hp, heq⟩
  cases List.mem_cons.mp hp with
  | inl hplan =>
    rw [hplan] at heq
    exact h.distinct List.mem_cons_self heq.symm
  | inr hp => exact ((List.pairwise_cons.mp h.apart).1 p hp).1 heq

theorem holds_carryOut (h : Matching S (plan :: rest))
    : Holds terms (Tracks (Awaits S (plan :: rest)) (IsTarget (plan :: rest)))
        (do
          (env.order.order S.items).forM (retarget plan)
          deleteCohort plan.src
          modify fun d =>
            { d with prevLoadSum := d.prevLoadSum.erase plan.src, nrMerges := d.nrMerges + 1 })
        (fun _ => Tracks (Awaits S rest) (IsTarget (plan :: rest))) := by
  have hleave : Holds terms (Tracks (Leaving plan.src (Awaits S rest) (env.order.order S.items))
        (IsTarget (plan :: rest)))
      ((env.order.order S.items).forM (retarget plan))
      (fun _ => Tracks (Leaving plan.src (Awaits S rest) []) (IsTarget (plan :: rest))) := by
    apply holds_forM (I := fun es => Tracks (Leaving plan.src (Awaits S rest) es) (IsTarget (plan :: rest)))
    . exact stable_tracks
    . intro e es
      exact holds_retarget (h.distinct List.mem_cons_self) h.awaits_into
        ⟨plan, List.mem_cons_self, rfl⟩
  apply holds_bind (hleave.mono _ fun _ _ _ hs => hs)
  . intro _
    apply holds_bind
    . apply holds_deleteCohort _ h.not_target_src
      intro tgid hleaving
      exact List.not_mem_nil (hleaving.1 rfl)
    . intro _
      refine Holds.mono (quiet_modify _ _) (fun _ _ hs => hs) ?_
      intro _ s c hs
      exact hs.mono (fun _ _ hleaving => hleaving.2) fun _ hid => hid
  . intro s c hs
    refine hs.mono ?_ fun _ hid => hid
    intro tgid id hawaits
    refine ⟨?_, hawaits.tail⟩
    intro hid
    rw [IterOrder.mem_order, HashTable.mem_items]
    exact hawaits plan List.mem_cons_self hid

theorem holds_applyMerge
    : Holds terms (Merging S (plan :: rest)) (applyMerge env S plan) (fun _ => Merging S rest) := by
  apply holds_given
  intro hmatching
  have hskip : Holds terms (Tracks (Awaits S (plan :: rest)) (IsTarget (plan :: rest)))
      (pure ⟨⟩ : DaemonM PUnit) (fun _ => Tracks (Awaits S rest) (IsTarget (plan :: rest))) := by
    refine holds_pure stable_tracks ?_
    intro s c hs
    exact hs.mono (fun _ _ hawaits => hawaits.tail) fun _ hid => hid
  have happly : Holds terms (Tracks (Awaits S (plan :: rest)) (IsTarget (plan :: rest)))
      (applyMerge env S plan) (fun _ => Tracks (Awaits S rest) (IsTarget (plan :: rest))) := by
    apply holds_bind (quiet_load _ _)
    intro into
    cases into with
    | none => exact hskip
    | some _ =>
      apply holds_bind (quiet_load _ _)
      intro src
      cases src with
      | none => exact hskip
      | some _ => exact holds_carryOut hmatching
  apply happly.mono fun _ _ hs => hs
  intro _ s c hs
  exact ⟨hmatching.tail, hs.mono (fun _ _ hawaits => hawaits) fun _ hid => hid.cons⟩

end Merge

section Split

variable {env : TickEnv} {id : CohortId} {α : Type}

-- A cohort that is being made.
def HasPolicy (id : CohortId) (s : Maps) (_ : List CohortId) : Prop :=
  NoDangling s ∧ id ∈ s.cohortPolicy

theorem stable_hasPolicy : terms.Stable (HasPolicy id) := by
  intro s c s' c' hrely h
  exact ⟨hrely.noDangling h.1, hrely.keys.policy id h.2⟩

theorem holds_makePolicy {policy : CohortPolicy}
    : Holds terms (Settled fun _ => False) (require (updatePolicy id policy .noExist))
        (fun _ => HasPolicy id) := by
  apply holds_requireUpdate stable_tracks stable_hasPolicy
  . intro s c hs
    exact hs.noDangling
  . intro s s' c hs hupd _
    cases hm : s.cohortPolicy.update id policy .noExist with
    | error e => simp [hm] at hupd
    | ok m =>
      simp only [hm] at hupd
      cases hupd
      have hmem := BoundedMap.mem_update_ok hm
      have hgrows : Grows s { s with cohortPolicy := m } :=
        Grows.policy fun id' h => (hmem id').mpr (.inr h)
      have hdangling := hgrows.noDangling hs.noDangling
      exact ⟨hdangling, hdangling, (hmem id).mpr (.inl rfl)⟩

theorem holds_makeCounters {counters : CohortCounters}
    : Holds terms (HasPolicy id) (require (updateCounters id counters .noExist))
        (fun _ => Settled fun id' => id' = id) := by
  apply holds_requireUpdate stable_hasPolicy stable_tracks
  . intro s c hs
    exact hs.1
  . intro s s' c hs hupd _
    cases hm : s.cohortCounters.update id counters .noExist with
    | error e => simp [hm] at hupd
    | ok m =>
      simp only [hm] at hupd
      cases hupd
      have hmem := BoundedMap.mem_update_ok hm
      have hgrows : Grows s { s with cohortCounters := m } :=
        Grows.counters fun id' h => (hmem id').mpr (.inr h)
      have hdangling := hgrows.noDangling hs.1
      refine ⟨hdangling, settled_iff.mpr ⟨hdangling, ?_⟩⟩
      rintro id' rfl
      exact ⟨hs.2, (hmem id').mpr (.inl rfl)⟩

theorem holds_splitTgid {tgid : Tgid}
    : Holds terms (Settled fun id' => id' = id) (splitTgid id tgid)
        (fun _ => Settled fun id' => id' = id) := by
  apply holds_bind (quiet_load _ _)
  intro old
  cases old with
  | none => exact quiet_pure _ _
  | some _ =>
    apply holds_requireUpdate stable_tracks stable_tracks
    . intro s c hs
      exact hs.noDangling
    . intro s s' c hs hupd _
      cases hm : s.tgidCohort.update tgid id .exist with
      | error e => simp [hm] at hupd
      | ok m =>
        simp only [hm] at hupd
        cases hupd
        have hset := hs.noDangling.setTgid (hs.cohort id rfl) tgid .exist
        unfold BoundedMap.updateD at hset
        rw [hm] at hset
        refine ⟨hset, settled_iff.mpr ⟨hset, ?_⟩⟩
        intro id' hid'
        exact ⟨(hs.cohort id' hid').policy, (hs.cohort id' hid').counters⟩

theorem holds_applySplit {plan : SplitPlan}
    : Holds terms (Settled fun _ => False) (applySplit plan) (fun _ => Settled fun _ => False) := by
  apply holds_bind (quiet_load _ _)
  intro oldPolicy
  cases oldPolicy with
  | none => exact quiet_pure _ _
  | some oldPolicy =>
    apply holds_bind (quiet_get _ _)
    intro d
    apply holds_bind (quiet_modify _ _)
    intro _
    apply holds_bind holds_makePolicy
    intro _
    apply holds_bind holds_makeCounters
    intro _
    apply holds_bind
    . apply holds_forM_inv stable_tracks
      intro tgid _
      exact holds_splitTgid
    . intro _
      refine Holds.mono (quiet_modify _ _) (fun _ _ hs => hs) ?_
      intro _ s c hs
      exact hs.mono (fun _ _ _ => trivial) fun _ hid => hid.elim

theorem holds_discoverRelationships {cohorts : List CohortSnapshot} {tasks : List TaskSnapshot}
    {S : HashTable Tgid CohortId}
    : Holds terms (Reads S) (discoverRelationships env cohorts tasks S)
        (fun _ => Settled fun _ => False) := by
  apply holds_bind (quiet_observeEdges _ _)
  intro _
  apply holds_bind holds_planMerges
  intro merges
  have hmerge : Holds terms (Merging S merges) (merges.forM (applyMerge env S))
      (fun _ => Settled fun _ => False) := by
    refine Holds.mono (holds_forM merges stable_merging fun plan rest => holds_applyMerge)
      (fun _ _ hs => hs) ?_
    intro _ s c hs
    exact hs.2.mono (fun _ _ _ => trivial) fun _ hid => hid.elim
  apply holds_bind hmerge
  intro _
  apply holds_bind (quiet_planSplits _ _)
  intro splits
  apply holds_forM_inv stable_tracks
  intro plan _
  exact holds_applySplit

theorem holds_tick
    : Holds terms (Settled fun _ => False) (tick env) (fun _ => Settled fun _ => False) := by
  apply holds_bind holds_place
  intro view
  apply holds_bind holds_discoverRelationships
  intro _
  exact quiet_pure _ _

end Split

end Daemon

namespace World

open Bpf

def roomy (w : World) (_ : Turn) : Bool :=
  w.maps.cohortPolicy.size < maxCohorts ∧ w.maps.cohortCounters.size < maxCohorts
    ∧ w.maps.tgidCohort.size < 65536 ∧ w.maps.taskStats.size < 65536
    ∧ w.maps.spillTasks.size < 8192

-- A fork takes up a cohort that exists, and the daemon deletes none that a fork under way has taken up
-- or that was entered after the daemon read `tgid_cohort`.
def heeds (w : World) : Turn → Bool
  | .callback i =>
    match w.callbacks[i]? with
    | none => true
    | some cb =>
      match cb.prog.step? w.maps with
      | none => true
      | some (op, _, _) => (copiedBy cb.event op w.maps).all fun id =>
          id ∈ w.maps.cohortPolicy ∧ id ∈ w.maps.cohortCounters
  | .daemon =>
    match w.daemon.step? w.maps with
    | none => true
    | some (_, _, s) => (removedBy w.maps s).all fun id =>
        id ∉ w.entered ∧ ∀ cb ∈ w.callbacks, id ∉ cb.held
  | _ => true

structure Sound (w : World) : Prop where
  noDangling : NoDangling w.maps
  daemon : w.daemon.Safe Daemon.terms (fun _ _ _ => True) w.maps w.entered
  callbacks : ∀ cb ∈ w.callbacks,
    cb.prog.Safe (forkTerms cb.event) (fun _ _ _ => True) w.maps cb.held

variable {g : Globals} {w : World}

theorem mem_enteredBy {s s' : Maps} {tgid : Tgid} {id : CohortId}
    (h : s'.tgidCohort.lookup tgid = some id)
    : s.tgidCohort.lookup tgid = some id ∨ id ∈ enteredBy s s' := by
  by_cases hold : s.tgidCohort.lookup tgid = some id
  . exact .inl hold
  . right
    unfold enteredBy
    rw [List.mem_map]
    refine ⟨(tgid, id), ?_, rfl⟩
    rw [List.mem_filter]
    exact ⟨HashTable.mem_items.mpr h, decide_eq_true hold⟩

theorem Sound.call (h : Sound w) (e : Event) : Sound (next g w (.call e)) := by
  unfold next
  dsimp only
  split
  . next he =>
    refine ⟨h.noDangling, h.daemon, ?_⟩
    intro cb hcb
    rw [List.mem_append, List.mem_singleton] at hcb
    cases hcb with
    | inl hcb => exact h.callbacks cb hcb
    | inr hcb =>
      rw [hcb]
      exact safe_prog he h.noDangling
  . exact h

theorem Sound.callback (h : Sound w) (i : Nat) (hroom : roomy w (.callback i) = true)
    (hheeds : heeds w (.callback i) = true)
    : Sound (next g w (.callback i)) := by
  unfold next
  unfold heeds at hheeds
  dsimp only at hheeds ⊢
  cases hcb : w.callbacks[i]? with
  | none => exact h
  | some cb =>
    simp only [hcb] at hheeds ⊢
    cases hstep : cb.prog.step? w.maps with
    | none => exact h
    | some next =>
      obtain ⟨op, p, s⟩ := next
      simp only [hstep, List.all_eq_true, decide_eq_true_eq] at hheeds ⊢
      have hroom := decide_eq_true_iff.mp hroom
      obtain ⟨⟨hkeys, hdangling⟩, hsafe⟩ := (h.callbacks cb (List.mem_of_getElem? hcb)).step hstep
        ⟨fun id hid => ⟨(hheeds id hid).1, (hheeds id hid).2⟩, hroom.1, hroom.2.1⟩
      refine ⟨hdangling, ?_, ?_⟩
      . apply h.daemon.rely
        refine ⟨hkeys, fun id hid => List.mem_append_left _ hid, ?_, fun _ => hdangling⟩
        intro tgid id hlookup
        cases mem_enteredBy hlookup with
        | inl hold => exact .inl hold
        | inr hentered => exact .inr (List.mem_append_right _ hentered)
      . intro cb' hcb'
        cases List.mem_or_eq_of_mem_set hcb' with
        | inl hcb' =>
          apply (h.callbacks cb' hcb').rely
          exact ⟨rfl, fun _ => hdangling, fun id _ => hkeys.policy id, fun id _ => hkeys.counters id⟩
        | inr heq =>
          rw [heq]
          exact hsafe

theorem Sound.beginTick (h : Sound w) (env : TickEnv) : Sound (next g w (.beginTick env)) := by
  unfold next
  dsimp only
  split
  . next view d hdone =>
    refine ⟨h.noDangling, ?_, h.callbacks⟩
    have hsettled : Daemon.Settled (fun _ => False) w.maps w.entered :=
      Daemon.settled_iff.mpr ⟨h.noDangling, fun _ hid => hid.elim⟩
    exact (Daemon.holds_tick d _ _ hsettled).mono fun _ _ _ _ => trivial
  . exact h

theorem kept_of_not_removed {s s' : Maps} {id : CohortId} (h : id ∉ removedBy s s')
    : (id ∈ s.cohortPolicy → id ∈ s'.cohortPolicy)
        ∧ (id ∈ s.cohortCounters → id ∈ s'.cohortCounters) := by
  unfold removedBy at h
  rw [List.mem_append, not_or, List.mem_filter, List.mem_filter] at h
  constructor
  . intro hid
    by_contra hnot
    exact h.1 ⟨hid, decide_eq_true hnot⟩
  . intro hid
    by_contra hnot
    exact h.2 ⟨hid, decide_eq_true hnot⟩

theorem Sound.daemonTurn (h : Sound w) (hheeds : heeds w .daemon = true)
    : Sound (next g w .daemon) := by
  unfold next
  unfold heeds at hheeds
  dsimp only at hheeds ⊢
  cases hstep : w.daemon.step? w.maps with
  | none => exact h
  | some next =>
    obtain ⟨op, p, s⟩ := next
    simp only [hstep, List.all_eq_true, decide_eq_true_eq] at hheeds ⊢
    obtain ⟨hdangling, hsafe⟩ := h.daemon.step hstep fun id hid => (hheeds id hid).1
    refine ⟨hdangling, hsafe, ?_⟩
    intro cb hcb
    apply (h.callbacks cb hcb).rely
    have hkept : ∀ id ∈ cb.held, id ∉ removedBy w.maps s := by
      intro id hid hremoved
      exact (hheeds id hremoved).2 cb hcb hid
    exact ⟨rfl, fun _ => hdangling, fun id hid => (kept_of_not_removed (hkept id hid)).1,
      fun id hid => (kept_of_not_removed (hkept id hid)).2⟩

theorem sound_next (h : Sound w) {t : Turn} (hroom : roomy w t = true) (hheeds : heeds w t = true)
    : Sound (next g w t) := by
  cases t with
  | call e => exact h.call e
  | callback i => exact h.callback i hroom hheeds
  | beginTick env => exact h.beginTick env
  | daemon => exact h.daemonTurn hheeds

theorem sound_run (h : Sound w) (turns : List Turn) (hroom : along g roomy w turns = true)
    (hheeds : along g heeds w turns = true)
    : Sound (run g w turns) := by
  induction turns generalizing w with
  | nil => exact h
  | cons t turns ih =>
    unfold along at hroom hheeds
    rw [Bool.and_eq_true] at hroom hheeds
    exact ih (sound_next h hroom.1 hheeds.1) hroom.2 hheeds.2

theorem sound_start (d : Scheduler) : Sound (start g d) := by
  refine ⟨?_, ?_, ?_⟩
  . intro tgid id hlookup
    have hempty := (cohorts_attached (g := g)).tgid tgid id hlookup
    omega
  . intro s c _
    trivial
  . intro cb hcb
    contradiction

theorem noDangling_of_heeded (d : Scheduler) (turns : List Turn)
    (hroom : along g roomy (start g d) turns = true)
    (hheeds : along g heeds (start g d) turns = true)
    : NoDangling (run g (start g d) turns).maps :=
  (sound_run (sound_start d) turns hroom hheeds).noDangling

section Merged

-- Any sampled traffic merges two cohorts.
def eager : Scheduler :=
  { llcCpus := [(0, 1)], wakeGraph := { cfg := { mergeWakesPerSec := 1 } } }

def complete (steps i : Nat) (e : Event) : List Turn :=
  .call e :: List.replicate steps (.callback i)

-- One of eight wakeups is sampled.
def wakeups (i : Nat) : List Turn :=
  (List.range 8).flatMap fun k => complete 3 (i + k) (.selectCpu shell 0 { waker := some builder })

def wholeTick : List Turn := .beginTick {} :: List.replicate 12 .daemon

-- `builder` wakes `shell` until the cohort of `builder` is merged into that of `shell`.
def mergedTurns : List Turn :=
  complete 14 0 (.initTask shell false none true) ++ complete 14 1 (.initTask builder false none true)
    ++ wakeups 2 ++ wholeTick ++ wakeups 10 ++ wholeTick ++ wakeups 18 ++ wholeTick

def forkTurns (parent : TaskStruct) : List Turn :=
  complete 12 26 (.initTask compiler true (some parent) true)

theorem fork_after_merge_noDangling
    : along {} roomy (start {} eager) (mergedTurns ++ forkTurns shell) = true
        ∧ along {} heeds (start {} eager) (mergedTurns ++ forkTurns shell) = true
        ∧ NoDangling (run {} (start {} eager) (mergedTurns ++ forkTurns shell)).maps := by
  have hroom : along {} roomy (start {} eager) (mergedTurns ++ forkTurns shell) = true := by
    decide +kernel
  have hheeds : along {} heeds (start {} eager) (mergedTurns ++ forkTurns shell) = true := by
    decide +kernel
  exact ⟨hroom, hheeds, noDangling_of_heeded _ _ hroom hheeds⟩

theorem stale_fork_dangles
    : along {} roomy (start {} eager) (mergedTurns ++ forkTurns builder) = true
        ∧ (run {} (start {} eager) (mergedTurns ++ forkTurns builder)).atRest = true
        ∧ ¬ NoDangling (run {} (start {} eager) (mergedTurns ++ forkTurns builder)).maps := by
  refine ⟨by decide +kernel, by decide +kernel, ?_⟩
  intro h
  have hlookup : (run {} (start {} eager)
      (mergedTurns ++ forkTurns builder)).maps.tgidCohort.lookup 30 = some 2 := by
    decide +kernel
  have hpolicy : 2 ∉ (run {} (start {} eager)
      (mergedTurns ++ forkTurns builder)).maps.cohortPolicy := by
    decide +kernel
  exact hpolicy (h 30 2 hlookup).policy

end Merged

end World
