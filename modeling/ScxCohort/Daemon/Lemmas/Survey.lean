import ScxCohort.Bpf.Lemmas.Frame
import ScxCohort.Daemon.Lemmas.Exec

/-!
This module contains what a tick finds out when it looks around: the tasks it sees and the cohorts it
reports.
-/

namespace Daemon

-- The tasks that `snapshot_tasks` returns.
def tasksSeen (env : TickEnv) (d : Scheduler) (s : Maps) : List TaskSnapshot :=
  (env.order.order s.taskStats.table.items).map (taskSnapshot d.prevRuntime)

theorem mem_tasksSeen {env : TickEnv} {d : Scheduler} {s : Maps} {t : TaskSnapshot}
    (ht : t ∈ tasksSeen env d s)
    : ∃ ts, s.taskStats.lookup t.pid = some ts ∧ t.cohortId = ts.cohortId := by
  unfold tasksSeen at ht
  rw [List.mem_map] at ht
  obtain ⟨e, he, rfl⟩ := ht
  rw [IterOrder.mem_order] at he
  exact ⟨e.2, HashTable.mem_items.mp he, rfl⟩

-- What `snapshot_tasks` remembers for the next time.
def runtimesSeen (env : TickEnv) (s : Maps) : HashTable Pid (UInt64 × UInt64) :=
  HashTable.ofList ((env.order.order s.taskStats.table.items).map fun e =>
    (e.1, (e.2.runtimeSum, e.2.runtimeHomeSum)))

theorem exec_snapshotTasks (env : TickEnv) (d : Scheduler) (s : Maps)
    : exec (snapshotTasks env) d s
        =
      (.ok (tasksSeen env d s, { d with prevRuntime := runtimesSeen env s }), s) := rfl

-- What `snapshot_tgid_cohort` returns.
def tgidsSeen (env : TickEnv) (s : Maps) : HashTable Tgid CohortId :=
  HashTable.ofList (env.order.order s.tgidCohort.table.items)

theorem lookup_tgidsSeen (env : TickEnv) (s : Maps) (tgid : Tgid)
    : (tgidsSeen env s).lookup tgid = s.tgidCohort.lookup tgid :=
  HashTable.lookup_ofList_items _ _ _

theorem exec_snapshotTgidCohort (env : TickEnv) (d : Scheduler) (s : Maps)
    : exec (snapshotTgidCohort env) d s = (.ok (tgidsSeen env s, d), s) := rfl

section Rules

theorem exec_updatePolicy (id : CohortId) (policy : CohortPolicy) (flag : UpdateFlag) (d : Scheduler)
    (s : Maps)
    : exec (require (Bpf.updatePolicy id policy flag)) d s
        =
      match s.cohortPolicy.update id policy flag with
      | .ok m => (.ok (⟨⟩, d), { s with cohortPolicy := m })
      | .error e => (.error e, s) := by
  rw [exec_require]
  cases hm : s.cohortPolicy.update id policy flag with
  | ok m =>
    have hrun : (Bpf.updatePolicy id policy flag).run s = (.ok ⟨⟩, { s with cohortPolicy := m }) := by
      apply Bpf.run_tryUpdate_ok
      rw [hm]
      rfl
    rw [hrun]
    rfl
  | error e =>
    have hrun : (Bpf.updatePolicy id policy flag).run s = (.error e, s) := by
      apply Bpf.run_tryUpdate_error
      rw [hm]
      rfl
    rw [hrun]
    rfl

-- The policy of a cohort that a rule pins to `home`.
def pinPolicy (home : LlcId) (policy : CohortPolicy) : CohortPolicy :=
  if policy.flags &&& cohortPinned = 0 ∨ policy.homeLlc ≠ home then
    { flags := policy.flags ||| cohortPinned, homeLlc := home }
  else
    policy

theorem exec_pinCohort (cohort : CohortId) (ccd : UInt32) (d : Scheduler) (s : Maps)
    : ∃ m, exec (pinCohort cohort ccd) d s = (.ok (⟨⟩, d), { s with cohortPolicy := m })
        ∧ ∀ id, m.lookup id
            = if id = cohort then (s.cohortPolicy.lookup id).map (pinPolicy (wantHome d ccd))
              else s.cohortPolicy.lookup id := by
  unfold pinCohort
  rw [exec_bind_ok (exec_attempt _ _ _), Bpf.run_lookupPolicy]
  dsimp only
  cases hlookup : s.cohortPolicy.lookup cohort with
  | none =>
    refine ⟨s.cohortPolicy, rfl, ?_⟩
    intro id
    split
    . next heq =>
      rw [heq, hlookup]
      rfl
    . rfl
  | some policy =>
    dsimp only
    rw [exec_bind_ok (exec_get _ _)]
    unfold pinPolicy
    split
    . next hpin =>
      obtain ⟨m, hm⟩ := BoundedMap.update_exist_of_mem
        (BoundedMap.mem_iff_lookup.mpr ⟨policy, hlookup⟩)
        { flags := policy.flags ||| cohortPinned, homeLlc := wantHome d ccd }
      rw [exec_updatePolicy, hm]
      refine ⟨m, rfl, ?_⟩
      intro id
      rw [BoundedMap.lookup_update_ok hm]
      split
      . next heq =>
        rw [heq, hlookup, Option.map_some, if_pos hpin]
      . rfl
    . next hpin =>
      refine ⟨s.cohortPolicy, rfl, ?_⟩
      intro id
      split
      . next heq =>
        rw [heq, hlookup, Option.map_some, if_neg hpin]
      . rfl

theorem exec_pinCohorts {pins : List (CohortId × UInt32)} (hnodup : (pins.map (·.1)).Nodup)
    (d : Scheduler) (s : Maps)
    : ∃ m, exec (pins.forM fun pin => pinCohort pin.1 pin.2) d s
          = (.ok (⟨⟩, d), { s with cohortPolicy := m })
        ∧ (∀ id, id ∉ pins.map (·.1) → m.lookup id = s.cohortPolicy.lookup id)
        ∧ ∀ pin ∈ pins, m.lookup pin.1
            = (s.cohortPolicy.lookup pin.1).map (pinPolicy (wantHome d pin.2)) := by
  induction pins generalizing s with
  | nil => exact ⟨s.cohortPolicy, rfl, fun _ _ => rfl, by simp⟩
  | cons pin pins ih =>
    rw [List.map_cons, List.nodup_cons] at hnodup
    obtain ⟨m₁, h₁, hlookup₁⟩ := exec_pinCohort pin.1 pin.2 d s
    obtain ⟨m, hexec, hother, hpinned⟩ := ih hnodup.2 { s with cohortPolicy := m₁ }
    refine ⟨m, ?_, ?_, ?_⟩
    . have hcons : exec ((pin :: pins).forM fun pin => pinCohort pin.1 pin.2) d s
          = exec (pins.forM fun pin => pinCohort pin.1 pin.2) d { s with cohortPolicy := m₁ } :=
        exec_bind_ok h₁
      rw [hcons]
      exact hexec
    . intro id hid
      rw [List.map_cons, List.mem_cons, not_or] at hid
      rw [hother id hid.2, hlookup₁, if_neg hid.1]
    . intro pin' hpin'
      cases List.mem_cons.mp hpin' with
      | inl heq => rw [heq, hother pin.1 hnodup.1, hlookup₁, if_pos rfl]
      | inr hmem =>
        have hne : pin'.1 ≠ pin.1 := by
          intro heq
          apply hnodup.1
          rw [← heq]
          exact List.mem_map_of_mem hmem
        rw [hpinned pin' hmem, hlookup₁, if_neg hne]

-- The cohorts that the rules pin, with the CCDs they name.
def pinsSeen (env : TickEnv) (tasks : List TaskSnapshot) (d : Scheduler) : HashTable CohortId UInt32 :=
  if d.config.rules.isEmpty then ∅ else (collectRules env tasks d).pins

-- A cohort's policy once the rules have been applied.
def ruledPolicy (env : TickEnv) (tasks : List TaskSnapshot) (d : Scheduler) (s : Maps) (id : CohortId)
    : Option CohortPolicy :=
  match (pinsSeen env tasks d).lookup id with
  | some ccd => (s.cohortPolicy.lookup id).map (pinPolicy (wantHome d ccd))
  | none => s.cohortPolicy.lookup id

-- The residency overrides once the rules have been applied.
def overridesSeen (env : TickEnv) (tasks : List TaskSnapshot) (d : Scheduler)
    : HashTable CohortId UInt64 :=
  if d.config.rules.isEmpty then d.residencyOverrides else (collectRules env tasks d).overrides

theorem exec_applyRules (env : TickEnv) (tasks : List TaskSnapshot) (d : Scheduler) (s : Maps)
    : ∃ cache m, exec (applyRules env tasks) d s
          = (.ok (⟨⟩, { d with cgroupCache := cache, residencyOverrides := overridesSeen env tasks d }),
              { s with cohortPolicy := m })
        ∧ ∀ id, m.lookup id = ruledPolicy env tasks d s id := by
  unfold applyRules ruledPolicy pinsSeen overridesSeen
  rw [exec_bind_ok (exec_get _ _)]
  by_cases hrules : d.config.rules.isEmpty = true
  . rw [if_pos hrules, if_pos hrules, if_pos hrules]
    exact ⟨d.cgroupCache, s.cohortPolicy, rfl, fun _ => rfl⟩
  . rw [if_neg hrules, if_neg hrules, if_neg hrules, exec_bind_ok (exec_set _ _ _)]
    have hnodup : ((env.order.order (collectRules env tasks d).pins.items).map (·.1)).Nodup := by
      rw [((env.order.perm _).map _).nodup_iff]
      exact HashTable.nodup_items _
    obtain ⟨m, hexec, hother, hpinned⟩ := exec_pinCohorts hnodup
      { d with
        cgroupCache := (collectRules env tasks d).cgroupCache
        residencyOverrides := (collectRules env tasks d).overrides } s
    refine ⟨_, m, hexec, ?_⟩
    intro id
    cases hpin : (collectRules env tasks d).pins.lookup id with
    | some ccd =>
      apply hpinned (id, ccd)
      rw [IterOrder.mem_order]
      exact HashTable.mem_items.mpr hpin
    | none =>
      apply hother
      intro hmem
      rw [List.mem_map] at hmem
      obtain ⟨e, he, rfl⟩ := hmem
      rw [IterOrder.mem_order] at he
      have hsome : (collectRules env tasks d).pins.lookup e.1 = some e.2 := HashTable.mem_items.mp he
      rw [hpin] at hsome
      contradiction

end Rules

section Cohorts

variable (d : Scheduler) (tasks : List TaskSnapshot) (referenced : List CohortId)
  (policies : HashTable CohortId CohortPolicy)

theorem lookup_taskCounts (tasks : List TaskSnapshot) (id : CohortId)
    : ((taskCounts tasks).lookup id).getD 0 = UInt64.ofNat (tasks.countP (·.cohortId = id)) := by
  unfold taskCounts
  rw [HashTable.lookup_foldl_count]
  simp

-- No task has the cohort and no thread group is mapped to it.
def unused (id : CohortId) : Bool :=
  ((taskCounts tasks).lookup id).getD 0 = 0 ∧ id ∉ referenced

def snapshotOf (e : CohortId × CohortCounters) : CohortSnapshot :=
  cohortSnapshot d (((taskCounts tasks).lookup e.1).getD 0) policies e

def scanCohorts (l : List (CohortId × CohortCounters)) : CohortScan :=
  l.foldl (scanCohort d tasks referenced policies) {}

-- What the scan of one more entry adds.
theorem scanCohort_out (scan : CohortScan) (e : CohortId × CohortCounters)
    : (scanCohort d tasks referenced policies scan e).out
        =
      scan.out ++ if unused tasks referenced e.1 then [] else [snapshotOf d tasks policies e] := by
  unfold scanCohort unused snapshotOf
  dsimp only
  split
  . next h =>
    rw [if_pos (decide_eq_true h), List.append_nil]
    split
    . rfl
    . split <;> rfl
  . next h =>
    rw [if_neg]
    rw [decide_eq_true_eq]
    exact h

theorem scanCohort_dead (scan : CohortScan) (e : CohortId × CohortCounters)
    : (scanCohort d tasks referenced policies scan e).dead
        =
      scan.dead
        ++ if unused tasks referenced e.1 ∧ tasks ≠ [] ∧ e.1 ∈ d.deadCohorts then [e.1] else [] := by
  unfold scanCohort unused
  dsimp only
  split
  . next h =>
    split
    . next hempty =>
      rw [List.isEmpty_iff] at hempty
      simp [hempty]
    . next hne =>
      rw [List.isEmpty_iff] at hne
      split
      . next hdead => rw [if_pos ⟨decide_eq_true h, hne, hdead⟩]
      . next hdead =>
        rw [if_neg, List.append_nil]
        intro hall
        exact hdead hall.2.2
  . next h =>
    rw [if_neg, List.append_nil]
    intro hall
    exact h (of_decide_eq_true hall.1)

theorem mem_scanCohort_deadNow (scan : CohortScan) (e : CohortId × CohortCounters) (id : CohortId)
    : id ∈ (scanCohort d tasks referenced policies scan e).deadNow
        ↔
      id ∈ scan.deadNow
        ∨ id = e.1 ∧ unused tasks referenced id ∧ tasks ≠ [] ∧ id ∉ d.deadCohorts := by
  unfold scanCohort unused
  dsimp only
  split
  . next h =>
    split
    . next hempty =>
      rw [List.isEmpty_iff] at hempty
      simp [hempty]
    . next hne =>
      rw [List.isEmpty_iff] at hne
      split
      . next hdead =>
        constructor
        . exact .inl
        . intro hall
          cases hall with
          | inl hmem => exact hmem
          | inr hall =>
            obtain ⟨rfl, _, _, hnot⟩ := hall
            exact absurd hdead hnot
      . next hdead =>
        rw [Finset.mem_insert]
        constructor
        . intro hall
          cases hall with
          | inl heq =>
            rw [heq]
            exact .inr ⟨rfl, decide_eq_true h, hne, hdead⟩
          | inr hmem => exact .inl hmem
        . intro hall
          cases hall with
          | inl hmem => exact .inr hmem
          | inr hall => exact .inl hall.1
  . next h =>
    constructor
    . exact .inl
    . intro hall
      cases hall with
      | inl hmem => exact hmem
      | inr hall =>
        obtain ⟨rfl, hunused, _⟩ := hall
        exact absurd (of_decide_eq_true hunused) h

theorem scanCohorts_out (l : List (CohortId × CohortCounters))
    : (scanCohorts d tasks referenced policies l).out
        =
      (l.filter fun e => !unused tasks referenced e.1).map (snapshotOf d tasks policies) := by
  unfold scanCohorts
  induction l using List.reverseRecOn with
  | nil => rfl
  | append_singleton l e ih =>
    rw [List.foldl_append, List.foldl_cons, List.foldl_nil, scanCohort_out, ih, List.filter_append,
      List.map_append]
    cases hunused : unused tasks referenced e.1 <;> simp [hunused]

theorem mem_scanCohorts_dead {l : List (CohortId × CohortCounters)} {id : CohortId}
    : id ∈ (scanCohorts d tasks referenced policies l).dead
        ↔
      id ∈ l.map (·.1) ∧ unused tasks referenced id ∧ tasks ≠ [] ∧ id ∈ d.deadCohorts := by
  unfold scanCohorts
  induction l using List.reverseRecOn with
  | nil => simp
  | append_singleton l e ih =>
    rw [List.foldl_append, List.foldl_cons, List.foldl_nil, scanCohort_dead, List.mem_append, ih,
      List.map_append, List.mem_append]
    have hlast : id ∈ (if unused tasks referenced e.1 ∧ tasks ≠ [] ∧ e.1 ∈ d.deadCohorts
          then [e.1] else [])
        ↔ id ∈ [e].map (·.1) ∧ unused tasks referenced id ∧ tasks ≠ [] ∧ id ∈ d.deadCohorts := by
      rw [List.map_singleton, List.mem_singleton]
      split
      . next h =>
        rw [List.mem_singleton]
        constructor
        . intro heq
          rw [heq]
          exact ⟨rfl, h⟩
        . exact And.left
      . next h =>
        constructor
        . intro hmem
          exact absurd hmem List.not_mem_nil
        . intro hall
          obtain ⟨rfl, hall⟩ := hall
          exact absurd hall h
    rw [hlast, or_and_right]

theorem mem_scanCohorts_deadNow {l : List (CohortId × CohortCounters)} {id : CohortId}
    : id ∈ (scanCohorts d tasks referenced policies l).deadNow
        ↔
      id ∈ l.map (·.1) ∧ unused tasks referenced id ∧ tasks ≠ [] ∧ id ∉ d.deadCohorts := by
  unfold scanCohorts
  induction l using List.reverseRecOn with
  | nil => simp
  | append_singleton l e ih =>
    rw [List.foldl_append, List.foldl_cons, List.foldl_nil, mem_scanCohort_deadNow, ih,
      List.map_append, List.mem_append, List.map_singleton, List.mem_singleton, or_and_right]

def dropCohorts (ids : List CohortId) (s : Maps) : Maps :=
  { s with
    cohortCounters := ids.foldl (fun m id => m.delete id) s.cohortCounters
    cohortPolicy := ids.foldl (fun m id => m.delete id) s.cohortPolicy }

theorem exec_deleteCohort (id : CohortId) (d : Scheduler) (s : Maps)
    : exec (deleteCohort id) d s = (.ok (⟨⟩, d), dropCohorts [id] s) := by
  unfold deleteCohort
  rw [exec_bind_ok (exec_attempt _ _ _), exec_attempt]
  rfl

theorem exec_deleteCohorts (ids : List CohortId) (d : Scheduler) (s : Maps)
    : exec (ids.forM deleteCohort) d s = (.ok (⟨⟩, d), dropCohorts ids s) := by
  induction ids generalizing s with
  | nil => rfl
  | cons id ids ih =>
    rw [exec_forM_cons_ok (exec_deleteCohort id d s), ih]
    rfl

-- What `snapshot_cohorts` finds out in the state it is called in.
def scanIn (env : TickEnv) (tasks : List TaskSnapshot) (tgidCohort : HashTable Tgid CohortId)
    (d : Scheduler) (s : Maps) : CohortScan :=
  scanCohorts d tasks tgidCohort.values
    (HashTable.ofList (env.order.order s.cohortPolicy.table.items))
    (env.order.order s.cohortCounters.table.items)

def scanned (scan : CohortScan) (d : Scheduler) : Scheduler :=
  { d with
    deadCohorts := scan.deadNow
    prevLoadSum := scan.seen
    balancer := d.balancer.retainCohorts fun id => id ∈ scan.out.map fun c => c.id }

theorem exec_snapshotCohorts (env : TickEnv) (tasks : List TaskSnapshot)
    (tgidCohort : HashTable Tgid CohortId) (d : Scheduler) (s : Maps)
    : exec (snapshotCohorts env tasks tgidCohort) d s
        =
      (.ok ((scanIn env tasks tgidCohort d s).out, scanned (scanIn env tasks tgidCohort d s) d),
        dropCohorts (scanIn env tasks tgidCohort d s).dead s) := by
  have hpolicies : exec (batch env.order .cohortPolicy (·.cohortPolicy.table)) d s
      = (.ok (env.order.order s.cohortPolicy.table.items, d), s) := rfl
  have hcounters : exec (batch env.order .cohortCounters (·.cohortCounters.table)) d s
      = (.ok (env.order.order s.cohortCounters.table.items, d), s) := rfl
  unfold snapshotCohorts
  rw [exec_bind_ok hpolicies, exec_bind_ok hcounters, exec_bind_ok (exec_get _ _),
    exec_bind_ok (exec_deleteCohorts _ _ _), exec_bind_ok (exec_set _ _ _), exec_pure]
  rfl

theorem mem_snapshotCohorts {env : TickEnv} {tasks : List TaskSnapshot}
    {tgidCohort : HashTable Tgid CohortId} {d d' : Scheduler} {s s' : Maps}
    {cohorts : List CohortSnapshot}
    (h : exec (snapshotCohorts env tasks tgidCohort) d s = (.ok (cohorts, d'), s'))
    {c : CohortSnapshot} (hc : c ∈ cohorts)
    : ∃ counters, s.cohortCounters.lookup c.id = some counters
        ∧ c = cohortSnapshot d (((taskCounts tasks).lookup c.id).getD 0)
            (HashTable.ofList (env.order.order s.cohortPolicy.table.items)) (c.id, counters) := by
  obtain ⟨rfl, _, _⟩ := exec_inj h (exec_snapshotCohorts ..)
  unfold scanIn at hc
  rw [scanCohorts_out, List.mem_map] at hc
  obtain ⟨e, he, rfl⟩ := hc
  have hmem := (List.mem_filter.mp he).1
  rw [IterOrder.mem_order] at hmem
  exact ⟨e.2, HashTable.mem_items.mp hmem, rfl⟩

end Cohorts

section Tgids

-- The thread groups that have an entry and no task.
def staleTgids (env : TickEnv) (T : HashTable Tgid CohortId) (tasks : List TaskSnapshot) : List Tgid :=
  (env.order.order T.keys).filter fun tgid => tgid ∉ tasks.map (·.tgid)

theorem mem_staleTgids {env : TickEnv} {T : HashTable Tgid CohortId} {tasks : List TaskSnapshot}
    {tgid : Tgid}
    : tgid ∈ staleTgids env T tasks ↔ tgid ∈ T ∧ tgid ∉ tasks.map (·.tgid) := by
  unfold staleTgids
  rw [List.mem_filter, IterOrder.mem_order, decide_eq_true_eq]
  exact Iff.rfl

theorem exec_deleteTgids (tgids : List Tgid) (d : Scheduler) (s : Maps)
    : exec (tgids.forM fun tgid => attempt (Bpf.deleteTgidCohort tgid)) d s
        =
      (.ok (⟨⟩, d), { s with tgidCohort := tgids.foldl (fun m tgid => m.delete tgid) s.tgidCohort }) := by
  induction tgids generalizing s with
  | nil => rfl
  | cons tgid tgids ih =>
    have hstep : exec (attempt (Bpf.deleteTgidCohort tgid)) d s
        = (.ok (⟨⟩, d), { s with tgidCohort := s.tgidCohort.delete tgid }) := rfl
    rw [exec_forM_cons_ok hstep, ih]
    rfl

theorem exec_gcTgidMap (env : TickEnv) (T : HashTable Tgid CohortId) (tasks : List TaskSnapshot)
    (d : Scheduler) (s : Maps)
    : exec (gcTgidMap env T tasks) d s
        =
      (.ok (⟨⟩,
          { d with
            deadTgids := ((staleTgids env T tasks).filter fun tgid => tgid ∉ d.deadTgids).toFinset }),
        { s with
          tgidCohort := ((staleTgids env T tasks).filter fun tgid => tgid ∈ d.deadTgids).foldl
            (fun m tgid => m.delete tgid) s.tgidCohort }) := by
  unfold gcTgidMap
  rw [exec_bind_ok (exec_get _ _), exec_bind_ok (exec_deleteTgids _ _ _), exec_set]
  rfl

end Tgids

section Loads

def readLoad (s : Maps) (llc : LlcId) : UInt64 := if llc.toNat < maxLlcs then s.llcLoad llc else 0

-- The growth of an LLC's load since the daemon's last look at it, if there was one.
def executedSince (s : Maps) (prev : HashTable LlcId UInt64) (llc : LlcId) : UInt64 :=
  (readLoad s llc).saturatingSub ((prev.lookup llc).getD (readLoad s llc))

def llcReports (s : Maps) (tickNs : UInt64)
    : HashTable LlcId UInt64 → List (LlcId × UInt64) → List LlcLoad
  | _, [] => []
  | prev, (llc, cpus) :: rest =>
    { llc := llc, loadNs := executedSince s prev llc, capacityNs := cpus * tickNs }
      :: llcReports s tickNs (prev.insert llc (readLoad s llc)) rest

def remembered (s : Maps) (prev : HashTable LlcId UInt64) (cpus : List (LlcId × UInt64))
    : HashTable LlcId UInt64 :=
  cpus.foldl (fun prev e => prev.insert e.1 (readLoad s e.1)) prev

theorem exec_readLlcLoads (tickNs : UInt64) (cpus : List (LlcId × UInt64)) (d : Scheduler) (s : Maps)
    : exec (readLlcLoads tickNs cpus) d s
        =
      (.ok (llcReports s tickNs d.prevLlcLoad cpus,
        { d with prevLlcLoad := remembered s d.prevLlcLoad cpus }), s) := by
  induction cpus generalizing d with
  | nil => rfl
  | cons cpu cpus ih =>
    obtain ⟨llc, n⟩ := cpu
    have hread : exec (attempt (Bpf.load .llcLoad fun s =>
        if llc.toNat < maxLlcs then s.llcLoad llc else 0)) d s = (.ok (readLoad s llc, d), s) := rfl
    unfold readLlcLoads
    rw [exec_bind_ok hread, exec_bind_ok (exec_get _ _), exec_bind_ok (exec_modify _ _ _),
      exec_bind_ok (ih _)]
    rfl

theorem exec_llcLoads (d : Scheduler) (s : Maps)
    : exec llcLoads d s
        =
      (.ok (llcReports s d.intervalNs d.prevLlcLoad d.llcCpus,
        { d with prevLlcLoad := remembered s d.prevLlcLoad d.llcCpus }), s) := by
  unfold llcLoads
  rw [exec_bind_ok (exec_get _ _), exec_readLlcLoads]

end Loads

section Survey

-- Dead for the second time in a row.
def collected (env : TickEnv) (d : Scheduler) (s : Maps) (id : CohortId) : Prop :=
  id ∈ s.cohortCounters ∧ unused (tasksSeen env d s) (tgidsSeen env s).values id
    ∧ tasksSeen env d s ≠ [] ∧ id ∈ d.deadCohorts

instance (env : TickEnv) (d : Scheduler) (s : Maps) (id : CohortId)
    : Decidable (collected env d s id) :=
  inferInstanceAs (Decidable (_ ∧ _))

def lapsed (env : TickEnv) (d : Scheduler) (s : Maps) (tgid : Tgid) : Prop :=
  tgid ∉ (tasksSeen env d s).map (·.tgid) ∧ tgid ∈ d.deadTgids

instance (env : TickEnv) (d : Scheduler) (s : Maps) (tgid : Tgid)
    : Decidable (lapsed env d s tgid) :=
  inferInstanceAs (Decidable (_ ∧ _))

structure Surveyed (env : TickEnv) (d : Scheduler) (s : Maps) (view : TickView) (d' : Scheduler)
    (s' : Maps) : Prop where
  tasks : view.tasks = tasksSeen env d s
  tgidCohort : view.tgidCohort = tgidsSeen env s
  cohorts : ∀ c ∈ view.cohorts, c.id ∈ s.cohortCounters
    ∧ c.nrTasks = ((taskCounts (tasksSeen env d s)).lookup c.id).getD 0
  listed : ∀ c ∈ view.cohorts, ∀ policy, ruledPolicy env (tasksSeen env d s) d s c.id = some policy
    → c.homeLlc = policy.homeLlc ∧ c.pinned = decide (policy.flags &&& cohortPinned ≠ 0)
  policy : ∀ id, s'.cohortPolicy.lookup id
    = if collected env d s id then none else ruledPolicy env (tasksSeen env d s) d s id
  counters : ∀ id, s'.cohortCounters.lookup id
    = if collected env d s id then none else s.cohortCounters.lookup id
  tgids : ∀ tgid, s'.tgidCohort.lookup tgid
    = if lapsed env d s tgid then none else s.tgidCohort.lookup tgid
  deadCohorts : ∀ id, id ∈ d'.deadCohorts
    ↔ id ∈ s.cohortCounters ∧ unused (tasksSeen env d s) (tgidsSeen env s).values id
      ∧ tasksSeen env d s ≠ [] ∧ id ∉ d.deadCohorts
  deadTgids : ∀ tgid, tgid ∈ d'.deadTgids
    ↔ tgid ∈ s.tgidCohort ∧ tgid ∉ (tasksSeen env d s).map (·.tgid) ∧ tgid ∉ d.deadTgids

theorem mem_tgidsSeen {env : TickEnv} {s : Maps} {tgid : Tgid}
    : tgid ∈ tgidsSeen env s ↔ tgid ∈ s.tgidCohort := by
  rw [BoundedMap.mem_iff_lookup, ← lookup_tgidsSeen env, ← Option.isSome_iff_exists]
  exact AList.lookup_isSome.symm

-- Nothing in the survey can fail while nothing interferes.
theorem exec_survey (env : TickEnv) (d : Scheduler) (s : Maps)
    : ∃ view d' s', exec (survey env) d s = (.ok (view, d'), s') ∧ Surveyed env d s view d' s' := by
  unfold survey
  rw [exec_bind_ok (exec_snapshotTasks _ _ _), exec_bind_ok (exec_snapshotTgidCohort _ _ _)]
  generalize runtimesSeen env s = runtime
  obtain ⟨cache, m, hrules, hpolicy⟩ := exec_applyRules env (tasksSeen env d s)
    { d with prevRuntime := runtime } s
  rw [exec_bind_ok hrules, exec_bind_ok (exec_snapshotCohorts _ _ _ _ _),
    exec_bind_ok (exec_gcTgidMap _ _ _ _ _), exec_bind_ok (exec_llcLoads _ _)]
  clear hrules
  generalize overridesSeen env (tasksSeen env d s) { d with prevRuntime := runtime } = overrides
  generalize hd₁ : ({ d with
    prevRuntime := runtime, cgroupCache := cache, residencyOverrides := overrides } : Scheduler) = d₁
  generalize hs₁ : ({ s with cohortPolicy := m } : Maps) = s₁
  have hkeys : ∀ id, id ∈ (env.order.order s₁.cohortCounters.table.items).map (·.1)
      ↔ id ∈ s.cohortCounters := by
    intro id
    rw [BoundedMap.mem_order_items, ← hs₁]
  have hdead : ∀ id, id ∈ (scanIn env (tasksSeen env d s) (tgidsSeen env s) d₁ s₁).dead
      ↔ collected env d s id := by
    intro id
    unfold scanIn collected
    rw [mem_scanCohorts_dead, hkeys, ← hd₁]
  refine ⟨_, _, _, rfl, rfl, rfl, ?_, ?_, ?_, ?_, ?_, ?_, ?_⟩
  . intro c hc
    obtain ⟨counters, hcounters, heq⟩ := mem_snapshotCohorts (exec_snapshotCohorts _ _ _ _ _) hc
    rw [← hs₁] at hcounters
    refine ⟨BoundedMap.mem_iff_lookup.mpr ⟨counters, hcounters⟩, ?_⟩
    rw [heq]
    rfl
  . intro c hc policy hruled
    obtain ⟨counters, _, heq⟩ := mem_snapshotCohorts (exec_snapshotCohorts _ _ _ _ _) hc
    have hread : (HashTable.ofList (env.order.order s₁.cohortPolicy.table.items)).lookup c.id
        = some policy := by
      rw [HashTable.lookup_ofList_items, ← hs₁]
      exact (hpolicy c.id).trans hruled
    rw [heq]
    unfold cohortSnapshot
    rw [hread]
    exact ⟨rfl, rfl⟩
  . intro id
    unfold dropCohorts
    dsimp only
    rw [BoundedMap.lookup_foldl_delete]
    apply if_congr (hdead id) rfl
    rw [← hs₁]
    exact hpolicy id
  . intro id
    unfold dropCohorts
    dsimp only
    rw [BoundedMap.lookup_foldl_delete]
    apply if_congr (hdead id) rfl
    rw [← hs₁]
  . intro tgid
    unfold dropCohorts scanned
    dsimp only
    rw [BoundedMap.lookup_foldl_delete, ← hs₁, ← hd₁]
    by_cases hmem : tgid ∈ s.tgidCohort
    . apply if_congr _ rfl rfl
      unfold lapsed
      rw [List.mem_filter, mem_staleTgids, decide_eq_true_eq, mem_tgidsSeen]
      simp only [hmem, true_and]
    . rw [BoundedMap.lookup_eq_none.mpr hmem, ite_self, ite_self]
  . intro id
    unfold scanned scanIn
    dsimp only
    rw [mem_scanCohorts_deadNow, hkeys, ← hd₁]
  . intro tgid
    unfold scanned
    dsimp only
    rw [List.mem_toFinset, List.mem_filter, mem_staleTgids, mem_tgidsSeen, decide_eq_true_eq, ← hd₁,
      and_assoc]

theorem exec_planMoves (env : TickEnv) (llcs : List LlcLoad) (cohorts : List CohortSnapshot)
    (d : Scheduler) (s : Maps)
    : exec (planMoves env llcs cohorts) d s
        =
      (.ok ((d.balancer.plan env.nowMs llcs cohorts).1,
        { d with balancer := (d.balancer.plan env.nowMs llcs cohorts).2 }), s) := rfl

theorem exec_place_inv {env : TickEnv} {d d' : Scheduler} {s s' : Maps} {view : TickView}
    (h : exec (place env) d s = (.ok (view, d'), s'))
    : ∃ d₁ s₁ d₂ s₂, exec (survey env) d s = (.ok (view, d₁), s₁)
        ∧ exec (apply (d₁.balancer.plan env.nowMs view.llcs view.cohorts).1)
            { d₁ with balancer := (d₁.balancer.plan env.nowMs view.llcs view.cohorts).2 } s₁
          = (.ok (⟨⟩, d₂), s₂)
        ∧ exec (applySpills env
              (planSpills d₂.spillCfg view.llcs view.tasks d₂.currentSpills view.cohorts)) d₂ s₂
          = (.ok (⟨⟩, d'), s') := by
  unfold place at h
  obtain ⟨view', d₁, s₁, h₁, h⟩ := exec_bind_inv h
  rw [exec_bind_ok (exec_planMoves _ _ _ _ _)] at h
  obtain ⟨_, d₂, s₂, h₂, h⟩ := exec_bind_inv h
  rw [exec_bind_ok (exec_get _ _)] at h
  obtain ⟨_, d₃, s₃, h₃, h⟩ := exec_bind_inv h
  obtain ⟨rfl, rfl, rfl⟩ := exec_inj h (exec_pure ..)
  exact ⟨d₁, s₁, d₂, s₂, h₁, h₂, h₃⟩

theorem surveyed_of_exec {env : TickEnv} {d d' : Scheduler} {s s' : Maps} {view : TickView}
    (h : exec (survey env) d s = (.ok (view, d'), s'))
    : Surveyed env d s view d' s' := by
  obtain ⟨view', d₁, s₁, hexec, hsurvey⟩ := exec_survey env d s
  obtain ⟨rfl, rfl, rfl⟩ := exec_inj hexec h
  exact hsurvey

end Survey

end Daemon
