import ScxCohort.Daemon.Lemmas.Pin

/-!
This module contains what the rules make of a list of tasks: for every cohort the last pin and the
greatest residency that the first matching rules of its tasks name.
-/

namespace Daemon

section Matching

variable (env : TickEnv) (d : Scheduler)

-- The first rule that matches a task.
def ruleOf (t : TaskSnapshot) : Option Rule :=
  d.config.matchTask t.comm (cgroupOf env d.cgroupCache t.tgid).1

def residencyOf (t : TaskSnapshot) : Option UInt64 := (ruleOf env d t).bind (·.minCcdResidencyMs)

theorem pinOf_eq (t : TaskSnapshot) : pinOf env d t = (ruleOf env d t).bind (·.pinCcd) := rfl

-- What the tasks of a cohort ask for, in the order of the tasks.
def asked {α : Type} (f : TaskSnapshot → Option α) (tasks : List TaskSnapshot) (id : CohortId)
    : List α :=
  (tasks.filter (·.cohortId = id)).filterMap f

def pinsAsked (tasks : List TaskSnapshot) (id : CohortId) : List UInt32 := asked (pinOf env d) tasks id

def residenciesAsked (tasks : List TaskSnapshot) (id : CohortId) : List UInt64 :=
  asked (residencyOf env d) tasks id

end Matching

section Asked

variable {α : Type} {f : TaskSnapshot → Option α} {tasks tasks' : List TaskSnapshot} {id : CohortId}

theorem asked_cons (t : TaskSnapshot)
    : asked f (t :: tasks) id
        =
      if t.cohortId = id then (f t).toList ++ asked f tasks id else asked f tasks id := by
  unfold asked
  rw [List.filter_cons]
  simp only [decide_eq_true_eq]
  split
  . rw [List.filterMap_cons]
    cases f t <;> rfl
  . rfl

theorem mem_asked {a : α} : a ∈ asked f tasks id ↔ ∃ t ∈ tasks, t.cohortId = id ∧ f t = some a := by
  unfold asked
  simp only [List.mem_filterMap, List.mem_filter, decide_eq_true_eq]
  constructor
  . rintro ⟨t, ⟨ht, hid⟩, ha⟩
    exact ⟨t, ht, hid, ha⟩
  . rintro ⟨t, ht, hid, ha⟩
    exact ⟨t, ⟨ht, hid⟩, ha⟩

theorem asked_ne_nil : asked f tasks id ≠ [] ↔ ∃ t ∈ tasks, t.cohortId = id ∧ ∃ a, f t = some a := by
  constructor
  . intro hne
    obtain ⟨a, ha⟩ := List.exists_mem_of_ne_nil _ hne
    obtain ⟨t, ht, hid, hf⟩ := mem_asked.mp ha
    exact ⟨t, ht, hid, a, hf⟩
  . rintro ⟨t, ht, hid, a, hf⟩
    exact List.ne_nil_of_mem (mem_asked.mpr ⟨t, ht, hid, hf⟩)

theorem asked_perm (h : tasks'.Perm tasks) : (asked f tasks' id).Perm (asked f tasks id) :=
  (h.filter _).filterMap _

theorem asked_eq_nil (h : ∀ t, f t = none) : asked f tasks id = [] := by
  apply List.filterMap_eq_nil_iff.mpr
  intro t _
  exact h t

-- What the last task asks for comes last.
theorem getLast?_asked {t : TaskSnapshot} {a : α} (hid : t.cohortId = id) (ha : f t = some a)
    : (asked f (tasks ++ [t]) id).getLast? = some a := by
  unfold asked
  simp [List.filter_append, hid, ha]

end Asked

section Cache

variable {env : TickEnv} {cache : HashTable Tgid (List Char)}

theorem cgroupOf_fst (tgid : Tgid)
    : (cgroupOf env cache tgid).1
        =
      (cache.lookup tgid).getD (((env.procCgroup tgid).map cgroupPath).getD []) := by
  unfold cgroupOf
  split
  . next path hpath => rw [hpath, Option.getD_some]
  . next hnone => rw [hnone, Option.getD_none]

-- Looking one process up does not change what another one's path is.
theorem cgroupOf_cached (a b : Tgid)
    : (cgroupOf env (cgroupOf env cache a).2 b).1 = (cgroupOf env cache b).1 := by
  rw [cgroupOf_fst, cgroupOf_fst]
  unfold cgroupOf
  cases ha : cache.lookup a with
  | some path => rfl
  | none =>
    dsimp only
    rw [HashTable.lookup_insert_eq]
    split
    . next heq =>
      rw [heq, ha]
      rfl
    . rfl

theorem cgroupOf_retain {tgids : List Tgid} {tgid : Tgid} (h : tgid ∈ tgids)
    : (cgroupOf env (cache.retain fun tgid _ => tgid ∈ tgids) tgid).1 = (cgroupOf env cache tgid).1 := by
  rw [cgroupOf_fst, cgroupOf_fst, HashTable.lookup_retain]
  cases hlookup : cache.lookup tgid with
  | some path => simp [Option.filter, h]
  | none => rfl

end Cache

section Collect

variable {env : TickEnv} {d : Scheduler} {fx : RuleEffects} {t : TaskSnapshot}

-- The paths that the cache of `fx` leads to are those the call started with.
def Cached (env : TickEnv) (d : Scheduler) (fx : RuleEffects) (tasks : List TaskSnapshot) : Prop :=
  ∀ t ∈ tasks, (cgroupOf env fx.cgroupCache t.tgid).1 = (cgroupOf env d.cgroupCache t.tgid).1

def raise (v : Option UInt64) (ms : UInt64) : Option UInt64 := some (max (v.getD ms) ms)

theorem cgroupCache_ruleEffects
    : (ruleEffects d.config env fx t).cgroupCache = (cgroupOf env fx.cgroupCache t.tgid).2 := by
  unfold ruleEffects
  dsimp only
  split <;> rfl

theorem cached_ruleEffects {tasks : List TaskSnapshot} (h : Cached env d fx (t :: tasks))
    : Cached env d (ruleEffects d.config env fx t) tasks := by
  intro t' ht'
  rw [cgroupCache_ruleEffects, cgroupOf_cached]
  exact h t' (List.mem_cons_of_mem _ ht')

theorem lookup_pins_ruleEffects (h : (cgroupOf env fx.cgroupCache t.tgid).1
      = (cgroupOf env d.cgroupCache t.tgid).1) (id : CohortId)
    : (ruleEffects d.config env fx t).pins.lookup id
        =
      if t.cohortId = id then (pinOf env d t).or (fx.pins.lookup id) else fx.pins.lookup id := by
  unfold ruleEffects pinOf
  rw [← h]
  dsimp only
  cases d.config.matchTask t.comm (cgroupOf env fx.cgroupCache t.tgid).1 with
  | none => simp
  | some rule =>
    cases hpin : rule.pinCcd with
    | none => simp [hpin]
    | some ccd =>
      simp only [HashTable.lookup_insert_eq, Option.bind_some, hpin, Option.some_or]
      by_cases heq : t.cohortId = id
      . rw [if_pos heq, if_pos heq.symm]
      . rw [if_neg heq, if_neg (Ne.symm heq)]

theorem lookup_overrides_ruleEffects (h : (cgroupOf env fx.cgroupCache t.tgid).1
      = (cgroupOf env d.cgroupCache t.tgid).1) (id : CohortId)
    : (ruleEffects d.config env fx t).overrides.lookup id
        =
      if t.cohortId = id then
        (residencyOf env d t).toList.foldl raise (fx.overrides.lookup id)
      else
        fx.overrides.lookup id := by
  unfold ruleEffects residencyOf ruleOf
  rw [← h]
  dsimp only
  cases d.config.matchTask t.comm (cgroupOf env fx.cgroupCache t.tgid).1 with
  | none => simp
  | some rule =>
    cases hms : rule.minCcdResidencyMs with
    | none => simp [hms]
    | some ms =>
      simp only [HashTable.lookup_upsert, Option.bind_some, hms]
      by_cases heq : t.cohortId = id
      . rw [if_pos heq, if_pos heq.symm, heq]
        rfl
      . rw [if_neg heq, if_neg (Ne.symm heq)]

theorem lookup_pins_foldRules (tasks : List TaskSnapshot) (h : Cached env d fx tasks) (id : CohortId)
    : (tasks.foldl (ruleEffects d.config env) fx).pins.lookup id
        =
      (pinsAsked env d tasks id).getLast?.or (fx.pins.lookup id) := by
  induction tasks generalizing fx with
  | nil => rfl
  | cons t tasks ih =>
    rw [List.foldl_cons, ih (cached_ruleEffects h), lookup_pins_ruleEffects (h t List.mem_cons_self)]
    unfold pinsAsked
    rw [asked_cons]
    split
    . cases pinOf env d t with
      | none => rfl
      | some ccd =>
        rw [Option.toList_some, List.singleton_append, List.getLast?_cons, Option.some_or, Option.some_or]
        cases (asked (pinOf env d) tasks id).getLast? <;> rfl
    . rfl

theorem lookup_overrides_foldRules (tasks : List TaskSnapshot) (h : Cached env d fx tasks)
    (id : CohortId)
    : (tasks.foldl (ruleEffects d.config env) fx).overrides.lookup id
        =
      (residenciesAsked env d tasks id).foldl raise (fx.overrides.lookup id) := by
  induction tasks generalizing fx with
  | nil => rfl
  | cons t tasks ih =>
    rw [List.foldl_cons, ih (cached_ruleEffects h),
      lookup_overrides_ruleEffects (h t List.mem_cons_self)]
    unfold residenciesAsked
    rw [asked_cons]
    split
    . rw [List.foldl_append]
    . rfl

theorem cached_start (env : TickEnv) (d : Scheduler) (tasks : List TaskSnapshot)
    : Cached env d { cgroupCache := d.cgroupCache.retain fun tgid _ => tgid ∈ tasks.map (·.tgid) }
        tasks := by
  intro t ht
  apply cgroupOf_retain
  exact List.mem_map_of_mem ht

end Collect

section Effects

variable {env : TickEnv} {d : Scheduler} {tasks tasks' : List TaskSnapshot} {id : CohortId}

theorem ruleOf_of_isEmpty (h : d.config.rules.isEmpty = true) (t : TaskSnapshot)
    : ruleOf env d t = none := by
  unfold ruleOf Config.matchTask
  rw [List.isEmpty_iff.mp h]
  rfl

theorem lookup_pinsSeen (tasks : List TaskSnapshot) (id : CohortId)
    : (pinsSeen env tasks d).lookup id = (pinsAsked env d tasks id).getLast? := by
  unfold pinsSeen
  split
  . next hempty =>
    have hasked : pinsAsked env d tasks id = [] := by
      apply asked_eq_nil
      intro t
      rw [pinOf_eq, ruleOf_of_isEmpty hempty]
      rfl
    rw [hasked]
    rfl
  . unfold collectRules
    rw [lookup_pins_foldRules tasks (cached_start env d tasks)]
    apply Option.or_none

theorem lookup_overridesSeen (tasks : List TaskSnapshot) (id : CohortId)
    : (overridesSeen env tasks d).lookup id
        =
      if d.config.rules.isEmpty then
        d.residencyOverrides.lookup id
      else
        (residenciesAsked env d tasks id).foldl raise none := by
  unfold overridesSeen
  split
  . rfl
  . unfold collectRules
    rw [lookup_overrides_foldRules tasks (cached_start env d tasks)]
    rfl

theorem raise_comm (v : Option UInt64) (a b : UInt64) : raise (raise v a) b = raise (raise v b) a := by
  have htoNat : ∀ a b : UInt64, (max a b).toNat = max a.toNat b.toNat := by
    intro a b
    show (if a ≤ b then b else a).toNat = _
    rw [Nat.max_def]
    split
    . next h => rw [if_pos (UInt64.le_iff_toNat_le.mp h)]
    . next h => rw [if_neg (h ∘ UInt64.le_iff_toNat_le.mpr)]
  unfold raise
  simp only [Option.getD_some, Option.some.injEq]
  apply UInt64.toNat.inj
  rw [htoNat, htoNat, htoNat, htoNat]
  cases v with
  | none =>
    simp only [Option.getD_none]
    omega
  | some v =>
    simp only [Option.getD_some]
    omega

theorem residencies_of_perm (h : tasks'.Perm tasks)
    : (residenciesAsked env d tasks' id).foldl raise none
        =
      (residenciesAsked env d tasks id).foldl raise none := by
  apply List.Perm.foldl_eq'
  . exact asked_perm h
  . intro a _ b _ v
    exact raise_comm v a b

end Effects

section Order

variable {env : TickEnv} {d : Scheduler} {s : Maps} {tasks tasks' : List TaskSnapshot}

-- One outcome, in whatever order the tasks and the pins come.
def Orderless (env : TickEnv) (d : Scheduler) (s : Maps) (tasks : List TaskSnapshot) : Prop :=
  ∃ (policies : CohortId → Option CohortPolicy) (overrides : CohortId → Option UInt64),
    ∀ tasks', tasks'.Perm tasks → ∀ o : IterOrder, ∃ d' s',
      exec (applyRules { env with order := o } tasks') d s = (.ok (⟨⟩, d'), s')
        ∧ (∀ id, s'.cohortPolicy.lookup id = policies id)
        ∧ ∀ id, d'.residencyOverrides.lookup id = overrides id

-- No two tasks ask for different homes of one cohort that has a policy.
def Agreed (env : TickEnv) (d : Scheduler) (s : Maps) (tasks : List TaskSnapshot) : Prop :=
  ∀ t ∈ tasks, ∀ t' ∈ tasks, t'.cohortId = t.cohortId → t.cohortId ∈ s.cohortPolicy
    → ∀ ccd ccd', pinOf env d t = some ccd → pinOf env d t' = some ccd'
    → wantHome d ccd' = wantHome d ccd

theorem ruledPolicy_of_perm (hagreed : Agreed env d s tasks) (h : tasks'.Perm tasks) (id : CohortId)
    : ruledPolicy env tasks' d s id = ruledPolicy env tasks d s id := by
  unfold ruledPolicy
  rw [lookup_pinsSeen, lookup_pinsSeen]
  cases hlast : (pinsAsked env d tasks id).getLast? with
  | none =>
    have hasked := List.getLast?_eq_none_iff.mp hlast
    have hperm : (pinsAsked env d tasks' id).Perm (pinsAsked env d tasks id) := asked_perm h
    rw [hasked] at hperm
    rw [hperm.eq_nil]
    rfl
  | some ccd =>
    cases hlast' : (pinsAsked env d tasks' id).getLast? with
    | none =>
      have hasked := List.getLast?_eq_none_iff.mp hlast'
      have hperm : (pinsAsked env d tasks' id).Perm (pinsAsked env d tasks id) := asked_perm h
      rw [hasked] at hperm
      rw [hperm.symm.eq_nil] at hlast
      contradiction
    | some ccd' =>
      obtain ⟨t, ht, hid, hpin⟩ := mem_asked.mp (List.mem_of_getLast? hlast)
      obtain ⟨t', ht', hid', hpin'⟩ := mem_asked.mp (List.mem_of_getLast? hlast')
      dsimp only
      cases hpolicy : s.cohortPolicy.lookup id with
      | none => rfl
      | some policy =>
        have hmem : t.cohortId ∈ s.cohortPolicy := by
          rw [hid]
          exact BoundedMap.mem_iff_lookup.mpr ⟨policy, hpolicy⟩
        rw [hagreed t ht t' (h.mem_iff.mp ht') (hid'.trans hid.symm) hmem ccd ccd' hpin hpin']

theorem orderless_of_agreed (hagreed : Agreed env d s tasks) : Orderless env d s tasks := by
  refine ⟨ruledPolicy env tasks d s, fun id => (overridesSeen env tasks d).lookup id, ?_⟩
  intro tasks' h o
  obtain ⟨cache, m, hexec, hpolicy⟩ := exec_applyRules { env with order := o } tasks' d s
  refine ⟨_, _, hexec, ?_, ?_⟩
  . intro id
    dsimp only
    rw [hpolicy]
    exact ruledPolicy_of_perm hagreed h id
  . intro id
    dsimp only
    rw [lookup_overridesSeen, lookup_overridesSeen]
    split
    . rfl
    . exact residencies_of_perm h

-- With a task at the end of the list, its cohort goes where its rule says.
theorem ruledPolicy_last {t : TaskSnapshot} {ccd : UInt32} {policy : CohortPolicy}
    (hpin : pinOf env d t = some ccd) (hpolicy : s.cohortPolicy.lookup t.cohortId = some policy)
    : ruledPolicy env (tasks ++ [t]) d s t.cohortId = some (pinPolicy (wantHome d ccd) policy) := by
  unfold ruledPolicy
  have hlast : (pinsAsked env d (tasks ++ [t]) t.cohortId).getLast? = some ccd := getLast?_asked rfl hpin
  rw [lookup_pinsSeen, hlast, hpolicy]
  rfl

theorem agreed_of_orderless (h : Orderless env d s tasks) : Agreed env d s tasks := by
  obtain ⟨policies, overrides, hall⟩ := h
  have hhome : ∀ t ∈ tasks, ∀ ccd policy, pinOf env d t = some ccd
      → s.cohortPolicy.lookup t.cohortId = some policy
      → policies t.cohortId = some (pinPolicy (wantHome d ccd) policy) := by
    intro t ht ccd policy hpin hpolicy
    have hperm : (tasks.erase t ++ [t]).Perm tasks :=
      (List.perm_append_singleton t _).trans (List.perm_cons_erase ht).symm
    obtain ⟨d', s', hexec, hpolicies, _⟩ := hall _ hperm env.order
    obtain ⟨_, m, hexec', hruled⟩ := exec_applyRules env (tasks.erase t ++ [t]) d s
    rw [hexec, Prod.mk.injEq] at hexec'
    rw [← hpolicies, hexec'.2]
    dsimp only
    rw [hruled, ruledPolicy_last hpin hpolicy]
  intro t ht t' ht' hid hmem ccd ccd' hpin hpin'
  obtain ⟨policy, hpolicy⟩ := BoundedMap.mem_iff_lookup.mp hmem
  have h₁ := hhome t ht ccd policy hpin hpolicy
  rw [← hid] at hpolicy h₁
  have h₂ := hhome t' ht' ccd' policy hpin' hpolicy
  rw [h₁, Option.some.injEq] at h₂
  rw [← homeLlc_pinPolicy (wantHome d ccd) policy, h₂, homeLlc_pinPolicy]

theorem rules_in_any_order_iff (env : TickEnv) (d : Scheduler) (s : Maps) (tasks : List TaskSnapshot)
    : Orderless env d s tasks ↔ Agreed env d s tasks :=
  ⟨agreed_of_orderless, orderless_of_agreed⟩

-- Two rules that name different CCDs, and a cohort with a task for each.
def rivals : Scheduler :=
  { llcCpus := [(0, 1), (1, 1)]
    config := { rules := [
      { comms := some ["game".toList], pinCcd := some 0 },
      { comms := some ["encoder".toList], pinCcd := some 1 }] } }

def streaming : List TaskSnapshot :=
  [{ pid := 10, tgid := 10, cohortId := 1, dutyNs := 0, homeNs := 0, comm := "game".toList },
    { pid := 20, tgid := 20, cohortId := 1, dutyNs := 0, homeNs := 0, comm := "encoder".toList }]

theorem streaming_not_orderless
    : ¬ Orderless {} rivals { cohortPolicy := BoundedMap.updateD .empty 1 {} .any } streaming := by
  intro h
  have hagreed := agreed_of_orderless h _ List.mem_cons_self _ (List.mem_cons_of_mem _ List.mem_cons_self)
  have hhomes := hagreed rfl (by decide +kernel) 0 1 (by decide +kernel) (by decide +kernel)
  revert hhomes
  decide +kernel

end Order

section Lifetime

-- The tick up to the point where the rules have been applied.
def ruleTick (env : TickEnv) : DaemonM (List TaskSnapshot × HashTable Tgid CohortId) := do
  let tasks ← snapshotTasks env
  let tgidCohort ← snapshotTgidCohort env
  applyRules env tasks
  return (tasks, tgidCohort)

theorem survey_eq_ruleTick (env : TickEnv)
    : survey env
        =
      do
        let (tasks, tgidCohort) ← ruleTick env
        let cohorts ← snapshotCohorts env tasks tgidCohort
        gcTgidMap env tgidCohort tasks
        let llcs ← llcLoads
        return ⟨tasks, tgidCohort, cohorts, llcs⟩ := by
  unfold survey ruleTick
  simp only [bind_assoc, pure_bind]

variable {env : TickEnv} {d d' : Scheduler} {s s' : Maps} {w : Pins} {g : Globals}

-- A cohort is pinned exactly when the first matching rule of one of its tasks pins it, and has a
-- residency of its own exactly when the first matching rule of one of its tasks gives it one.
structure Follows (env : TickEnv) (d : Scheduler) (tasks : List TaskSnapshot) (d' : Scheduler)
    (s' : Maps) : Prop where
  pinned : ∀ id policy, s'.cohortPolicy.lookup id = some policy
    → (policy.flags &&& cohortPinned ≠ 0
        ↔ ∃ t ∈ tasks, t.cohortId = id ∧ ∃ ccd, pinOf env d t = some ccd)
  resident : ∀ id policy, s'.cohortPolicy.lookup id = some policy
    → (id ∈ d'.residencyOverrides
        ↔ ∃ t ∈ tasks, t.cohortId = id ∧ ∃ ms, residencyOf env d t = some ms)

namespace Pins

-- After the rules of every tick.
def RulesFollow (w : Pins) : PinTurn → Prop
  | .callback _ => True
  | .tick env =>
    ∀ d, w.daemon = some d → ∀ tasks tgidCohort d' s',
      exec (ruleTick env) d w.maps = (.ok ((tasks, tgidCohort), d'), s') → Follows env d tasks d' s'

-- Every cohort that is pinned already has a task that asks for it.
def stillAsked (w : Pins) : PinTurn → Bool
  | .callback _ => true
  | .tick env =>
    w.daemon.all fun d => w.maps.cohortPolicy.table.items.all fun e =>
      e.2.flags &&& cohortPinned = 0
        || (tasksSeen env d w.maps).any fun t => t.cohortId = e.1 && (pinOf env d t).isSome

end Pins

theorem flags_pinPolicy (home : LlcId) (policy : CohortPolicy)
    : (pinPolicy home policy).flags &&& cohortPinned ≠ 0 := by
  have hset : (policy.flags ||| 1) &&& 1 = 1 := by
    apply UInt32.toNat.inj
    simp
  unfold pinPolicy cohortPinned
  split
  . rw [hset]
    decide
  . next h =>
    rw [not_or] at h
    exact h.1

theorem isSome_foldl_raise {l : List UInt64} : (l.foldl raise none).isSome = true ↔ l ≠ [] := by
  have hsome : ∀ v : UInt64, (l.foldl raise (some v)).isSome = true := by
    induction l with
    | nil => exact fun _ => rfl
    | cons ms l ih => exact fun v => ih _
  cases l with
  | nil => simp
  | cons ms l =>
    simp only [ne_eq, reduceCtorEq, not_false_eq_true, iff_true]
    exact hsome ms

-- The policies the rules leave.
theorem pinned_ruledPolicy_iff {tasks : List TaskSnapshot}
    : (∀ id policy, ruledPolicy env tasks d s id = some policy
        → (policy.flags &&& cohortPinned ≠ 0 ↔ pinsAsked env d tasks id ≠ []))
        ↔
      ∀ id policy, s.cohortPolicy.lookup id = some policy
        → policy.flags &&& cohortPinned = 0 ∨ pinsAsked env d tasks id ≠ [] := by
  unfold ruledPolicy
  constructor
  . intro h id policy hpolicy
    have hid := h id
    rw [lookup_pinsSeen] at hid
    cases hlast : (pinsAsked env d tasks id).getLast? with
    | none =>
      rw [hlast] at hid
      by_cases hzero : policy.flags &&& cohortPinned = 0
      . exact .inl hzero
      . exact .inr ((hid policy hpolicy).mp hzero)
    | some ccd =>
      right
      intro hnil
      rw [hnil] at hlast
      contradiction
  . intro h id policy hpolicy
    rw [lookup_pinsSeen] at hpolicy
    cases hlast : (pinsAsked env d tasks id).getLast? with
    | none =>
      rw [hlast] at hpolicy
      have hnil := List.getLast?_eq_none_iff.mp hlast
      have hzero := h id policy hpolicy
      rw [hnil] at hzero ⊢
      simpa using hzero
    | some ccd =>
      rw [hlast] at hpolicy
      obtain ⟨old, _, rfl⟩ := Option.map_eq_some_iff.mp hpolicy
      have hne : pinsAsked env d tasks id ≠ [] := by
        intro hnil
        rw [hnil] at hlast
        contradiction
      exact iff_of_true (flags_pinPolicy _ _) hne

-- A daemon without rules has no overrides.
def WithoutRules (d : Scheduler) : Prop := d.config.rules.isEmpty = true → d.residencyOverrides = ∅

theorem mem_overridesSeen_iff {tasks : List TaskSnapshot} {id : CohortId} (h : WithoutRules d)
    : id ∈ overridesSeen env tasks d ↔ residenciesAsked env d tasks id ≠ [] := by
  rw [← AList.lookup_isSome, lookup_overridesSeen]
  split
  . next hempty =>
    have hnil : residenciesAsked env d tasks id = [] := by
      apply asked_eq_nil
      intro t
      unfold residencyOf
      rw [ruleOf_of_isEmpty hempty]
      rfl
    rw [h hempty, hnil]
    simp
  . exact isSome_foldl_raise

theorem exec_ruleTick (env : TickEnv) (d : Scheduler) (s : Maps)
    : ∃ runtime cache m, exec (ruleTick env) d s
          = (.ok ((tasksSeen env d s, tgidsSeen env s),
              { d with
                prevRuntime := runtime, cgroupCache := cache
                residencyOverrides := overridesSeen env (tasksSeen env d s) d }),
              { s with cohortPolicy := m })
        ∧ ∀ id, m.lookup id = ruledPolicy env (tasksSeen env d s) d s id := by
  unfold ruleTick
  rw [exec_bind_ok (exec_snapshotTasks _ _ _), exec_bind_ok (exec_snapshotTgidCohort _ _ _)]
  generalize runtimesSeen env s = runtime
  obtain ⟨cache, m, hexec, hpolicy⟩ := exec_applyRules env (tasksSeen env d s)
    { d with prevRuntime := runtime } s
  rw [exec_bind_ok hexec]
  exact ⟨runtime, cache, m, rfl, hpolicy⟩

namespace Pins

theorem rulesFollow_iff (h : ∀ d, w.daemon = some d → WithoutRules d) (t : PinTurn)
    : w.RulesFollow t ↔ w.stillAsked t = true := by
  cases t with
  | callback e => simp [RulesFollow, stillAsked]
  | tick env =>
    unfold RulesFollow stillAsked
    dsimp only
    cases hd : w.daemon with
    | none => simp
    | some d =>
      obtain ⟨runtime, cache, m, hexec, hpolicy⟩ := exec_ruleTick env d w.maps
      have hstill : (∀ id policy, w.maps.cohortPolicy.lookup id = some policy
            → policy.flags &&& cohortPinned = 0 ∨ pinsAsked env d (tasksSeen env d w.maps) id ≠ [])
          ↔ (w.maps.cohortPolicy.table.items.all fun e => e.2.flags &&& cohortPinned = 0
              || (tasksSeen env d w.maps).any fun t => t.cohortId = e.1 && (pinOf env d t).isSome)
            = true := by
        simp only [List.all_eq_true, Bool.or_eq_true, decide_eq_true_eq, List.any_eq_true,
          Bool.and_eq_true, Option.isSome_iff_exists, pinsAsked, asked_ne_nil]
        constructor
        . intro hall e he
          exact hall e.1 e.2 (HashTable.mem_items.mp he)
        . intro hall id policy hlookup
          exact hall (id, policy) (HashTable.mem_items.mpr hlookup)
      rw [Option.all_some, ← hstill, ← pinned_ruledPolicy_iff]
      constructor
      . intro hfollows id policy hlookup
        have hpinned := (hfollows d rfl _ _ _ _ hexec).pinned id policy
        rw [← asked_ne_nil] at hpinned
        apply hpinned
        rw [hpolicy]
        exact hlookup
      . intro hpinned d₀ hd₀ tasks tgidCohort d' s' hexec'
        obtain rfl := Option.some.inj hd₀
        rw [hexec, Prod.mk.injEq, Except.ok.injEq, Prod.mk.injEq, Prod.mk.injEq] at hexec'
        obtain ⟨⟨⟨rfl, _⟩, rfl⟩, rfl⟩ := hexec'
        constructor
        . intro id policy hlookup
          rw [← asked_ne_nil]
          apply hpinned
          rw [← hpolicy]
          exact hlookup
        . intro id policy _
          rw [← asked_ne_nil]
          exact mem_overridesSeen_iff (h d hd)

end Pins

-- With no rules, nothing touches the overrides.
def KeepsRules (d : Scheduler) (_ : Maps) (d' : Scheduler) (_ : Maps) : Prop :=
  d'.config = d.config ∧ (d.config.rules.isEmpty = true → d'.residencyOverrides = d.residencyOverrides)

namespace KeepsRules

theorem refl (d : Scheduler) (s : Maps) : KeepsRules d s d s := ⟨rfl, fun _ => rfl⟩

theorem trans (d₁ : Scheduler) (s₁ : Maps) (d₂ : Scheduler) (s₂ : Maps) (d₃ : Scheduler) (s₃ : Maps)
    (h : KeepsRules d₁ s₁ d₂ s₂) (h' : KeepsRules d₂ s₂ d₃ s₃)
    : KeepsRules d₁ s₁ d₃ s₃ := by
  refine ⟨h'.1.trans h.1, ?_⟩
  intro hempty
  rw [h'.2 (by rw [h.1]; exact hempty), h.2 hempty]

theorem carriesSnapshots : CarriesSnapshots KeepsRules where
  refl := refl
  trans := trans
  dropPolicy := fun _ _ _ => ⟨rfl, fun _ => rfl⟩
  dropCounters := fun _ _ _ => ⟨rfl, fun _ => rfl⟩
  dropTgid := fun _ _ _ => ⟨rfl, fun _ => rfl⟩
  note := fun _ _ _ _ _ _ _ _ => ⟨rfl, fun _ => rfl⟩

theorem carriesChanges : CarriesChanges KeepsRules where
  refl := refl
  trans := trans
  balancer := fun _ _ _ => ⟨rfl, fun _ => rfl⟩
  setPolicy := fun _ _ _ _ => ⟨rfl, fun _ => rfl⟩
  moved := fun _ _ _ => ⟨rfl, fun _ => rfl⟩
  spill := fun _ _ _ => ⟨rfl, fun _ => rfl⟩
  spilled := fun _ _ _ => ⟨rfl, fun _ => rfl⟩
  graph := fun _ _ _ => ⟨rfl, fun _ => rfl⟩
  edges := fun _ _ _ => ⟨rfl, fun _ => rfl⟩
  merge := fun _ _ _ _ _ _ => ⟨rfl, fun _ => rfl⟩
  split := fun _ _ _ _ _ => ⟨rfl, fun _ => rfl⟩

theorem ruleTick : Carries KeepsRules (ruleTick env) := by
  intro d s a d' s' h
  obtain ⟨runtime, cache, m, hexec, _⟩ := exec_ruleTick env d s
  obtain ⟨_, rfl, rfl⟩ := exec_inj h hexec
  refine ⟨rfl, ?_⟩
  intro hempty
  dsimp only
  unfold overridesSeen
  rw [if_pos hempty]

theorem survey : Carries KeepsRules (survey env) := by
  rw [survey_eq_ruleTick]
  apply carries_bind trans ruleTick
  intro seen
  apply carries_bind trans carriesSnapshots.snapshotCohorts
  intro cohorts
  apply carries_bind trans carriesSnapshots.gcTgidMap
  intro _
  apply carries_bind trans carriesSnapshots.llcLoads
  intro llcs
  exact carries_pure refl

theorem of_tick {r : List CohortSnapshot × List LlcLoad}
    (h : exec (tick env) d s = (.ok (r, d'), s'))
    : KeepsRules d s d' s' := by
  obtain ⟨view, d₁, s₁, hsurvey, hrest⟩ := carriesChanges.afterSurvey h
  exact trans _ _ _ _ _ _ (survey _ _ _ _ _ hsurvey) hrest

end KeepsRules

namespace Pins

theorem withoutRules_next (h : ∀ d, w.daemon = some d → WithoutRules d) (t : PinTurn)
    : ∀ d, (w.next g t).daemon = some d → WithoutRules d := by
  cases t with
  | callback e =>
    unfold next
    dsimp only
    split <;> exact h
  | tick env =>
    unfold next
    dsimp only
    cases hd : w.daemon with
    | none =>
      intro d hd'
      dsimp only at hd'
      rw [hd] at hd'
      contradiction
    | some d =>
      dsimp only
      split
      . next r d' s' hexec =>
        intro d'' hd''
        obtain rfl := Option.some.inj hd''
        have hkeeps := KeepsRules.of_tick hexec
        intro hempty
        rw [hkeeps.1] at hempty
        rw [hkeeps.2 hempty]
        exact h d hd hempty
      . intro d'' hd''
        contradiction

theorem throughout_rulesFollow_iff (ts : List PinTurn) (h : ∀ d, w.daemon = some d → WithoutRules d)
    : Streak.Throughout (next g) RulesFollow w ts
        ↔
      Streak.Throughout (next g) (fun w t => w.stillAsked t = true) w ts := by
  apply Streak.throughout_congr (I := fun w => ∀ d, w.daemon = some d → WithoutRules d)
    (R := fun _ _ => True)
  . intro w t h _
    exact rulesFollow_iff h t
  . intro w t h _ _
    exact withoutRules_next h t
  . exact h
  . exact Streak.throughout_of_forall fun _ _ => trivial

theorem withoutRules_start (g : Globals) (d : Scheduler)
    : ∀ d', (start g { d with residencyOverrides := ∅ }).daemon = some d' → WithoutRules d' := by
  intro d' hd' _
  rw [← Option.some.inj hd']

end Pins

-- In every run, for a daemon that starts without overrides.
theorem pins_follow_iff (g : Globals) (d : Scheduler) (ts : List PinTurn)
    : Streak.Throughout (Pins.next g) Pins.RulesFollow (.start g { d with residencyOverrides := ∅ }) ts
        ↔
      Streak.Throughout (Pins.next g) (fun w t => w.stillAsked t = true)
        (.start g { d with residencyOverrides := ∅ }) ts :=
  Pins.throughout_rulesFollow_iff ts (Pins.withoutRules_start g d)

-- The game exits, and a helper it has started runs on in its cohort.
def gameOver : List PinTurn :=
  [.callback (.initTask game false none true),
    .callback (.initTask (helper 20) true (some game) true), .tick {},
    .callback (.exitTask game), .tick {}]

theorem gameOver_still_pinned
    : ¬ Streak.Throughout (Pins.next twoCcds) Pins.RulesFollow
        (.start twoCcds { pinGame with residencyOverrides := ∅ }) gameOver := by
  rw [Pins.throughout_rulesFollow_iff gameOver (Pins.withoutRules_start _ _)]
  decide +kernel

end Lifetime

end Daemon
