import ScxCohort.Daemon.Lemmas.Spill
import ScxCohort.Daemon.System

/-!
This module contains what the planned spills are as a function of the spills before: each task is
decided by its own cohort alone, so that a plan can be compared with the plan made from it. Between two
plans the daemon syncs the spill map write by write, with wakeups in between.
-/

section Lookup

variable {cfg : SpillCfg} {llcs : List LlcLoad} {tasks : List TaskSnapshot} {current : Spills}
  {cohorts : List CohortSnapshot}

theorem lookup_planCohortSpills_or (desired : Spills) (c : CohortSnapshot) (pid : Pid)
    : (planCohortSpills cfg llcs tasks current desired c).lookup pid
        =
      ((planCohortSpills cfg llcs tasks current ∅ c).lookup pid).or (desired.lookup pid) := by
  have hkeep : (keepSpilled tasks current c desired).lookup pid
      = ((keepSpilled tasks current c ∅).lookup pid).or (desired.lookup pid) := by
    rw [lookup_keepSpilled_eq, lookup_keepSpilled_eq]
    split
    . next hmem =>
      obtain ⟨v, hv⟩ := Option.isSome_iff_exists.mp
        (AList.lookup_isSome.mpr (mem_alreadySpilled.mp hmem).1)
      rw [hv, Option.some_or]
    . rw [AList.lookup_empty, Option.none_or]
  unfold planCohortSpills
  split
  . dsimp only
    split
    . rw [AList.lookup_empty, Option.none_or]
    . split
      . exact hkeep
      . rw [lookup_growSpills_eq, lookup_growSpills_eq, hkeep]
        split
        . rw [Option.some_or]
        . rfl
  . rw [AList.lookup_empty, Option.none_or]

-- A task is decided by its own cohort.
theorem lookup_planSpills {t : TaskSnapshot} {c : CohortSnapshot} (hllcs : 2 ≤ llcs.length)
    (hcohorts : (cohorts.map (·.id)).Nodup) (htasks : (tasks.map (·.pid)).Nodup) (ht : t ∈ tasks)
    (hc : c ∈ cohorts) (hid : t.cohortId = c.id)
    : (planSpills cfg llcs tasks current cohorts).lookup t.pid
        =
      (planCohortSpills cfg llcs tasks current ∅ c).lookup t.pid := by
  have hother : ∀ c', c'.id ≠ c.id
      → (planCohortSpills cfg llcs tasks current ∅ c').lookup t.pid = none := by
    intro c' hne
    rw [Option.eq_none_iff_forall_ne_some]
    intro llc hlookup
    cases lookup_planCohortSpills hlookup with
    | inl h =>
      rw [AList.lookup_empty] at h
      contradiction
    | inr hplanned =>
      obtain ⟨t', ht', hpid, hid'⟩ := hplanned.task
      have heq := List.inj_on_of_nodup_map htasks ht' ht hpid
      rw [heq, hid] at hid'
      exact hne hid'.symm
  have hfold : ∀ (l : List CohortSnapshot) (desired : Spills), (l.map (·.id)).Nodup
      → (∀ c' ∈ l, c'.id = c.id → c' = c)
      → (l.foldl (planCohortSpills cfg llcs tasks current) desired).lookup t.pid
          = if c.id ∈ l.map (·.id) then
              ((planCohortSpills cfg llcs tasks current ∅ c).lookup t.pid).or (desired.lookup t.pid)
            else
              desired.lookup t.pid := by
    intro l
    induction l with
    | nil =>
      intro desired _ _
      rfl
    | cons c' l ih =>
      intro desired hnodup hsame
      rw [List.map_cons, List.nodup_cons] at hnodup
      rw [List.foldl_cons, ih _ hnodup.2 (fun c'' hc'' => hsame c'' (List.mem_cons_of_mem _ hc'')),
        lookup_planCohortSpills_or desired c', List.map_cons]
      by_cases heq : c'.id = c.id
      . rw [hsame c' List.mem_cons_self heq] at hnodup ⊢
        rw [if_neg hnodup.1, if_pos List.mem_cons_self]
      . rw [hother c' heq, Option.none_or]
        simp only [List.mem_cons, Ne.symm heq, false_or]
  have hsame : ∀ c' ∈ cohorts, c'.id = c.id → c' = c :=
    fun c' hc' heq => List.inj_on_of_nodup_map hcohorts hc' hc heq
  unfold planSpills
  rw [if_neg (Nat.not_lt.mpr hllcs), hfold _ _ hcohorts hsame, if_pos (List.mem_map_of_mem hc),
    AList.lookup_empty, Option.or_none]

theorem lookup_planSpills_none {pid : Pid}
    (h : ∀ t ∈ tasks, t.pid = pid → ∀ c ∈ cohorts, t.cohortId ≠ c.id)
    : (planSpills cfg llcs tasks current cohorts).lookup pid = none := by
  rw [Option.eq_none_iff_forall_ne_some]
  intro llc hlookup
  obtain ⟨c, hc, hplanned⟩ := planned_of_lookup hlookup
  obtain ⟨t, ht, hpid, hid⟩ := hplanned.task
  exact h t ht hpid c hc hid

end Lookup

section Growth

variable {cfg : SpillCfg} {llcs : List LlcLoad} {tasks : List TaskSnapshot} {current : Spills}
  {cohorts : List CohortSnapshot}

def shedBy (ts : List TaskSnapshot) : UInt64 := ts.foldl (fun shed t => shed + max t.dutyNs 1) 0

-- The load over the high mark, for a cohort whose spills grow.
def excessOf (cfg : SpillCfg) (llcs : List LlcLoad) (c : CohortSnapshot) : Option UInt64 :=
  match (spillCapacity llcs).lookup c.homeLlc, spillTarget llcs c with
  | some cap, some _ =>
    if c.loadNs < lowMark cfg cap ∨ c.loadNs < highMark cfg cap then
      none
    else
      some (c.loadNs - highMark cfg cap)
  | _, _ => none

-- Whichever cold member comes next, those before it do not make up for the excess.
def spent (cfg : SpillCfg) (llcs : List LlcLoad) (tasks : List TaskSnapshot) (current : Spills)
    (c : CohortSnapshot) : Bool :=
  let cold := coldMembers cfg tasks current c
  (excessOf cfg llcs c).all fun excess =>
    excess = 0 ∨ ∀ n < cold.length, shedBy (cold.take n) < excess

def Settled (cfg : SpillCfg) (llcs : List LlcLoad) (tasks : List TaskSnapshot) (current : Spills)
    (cohorts : List CohortSnapshot) : Prop :=
  let out := planSpills cfg llcs tasks current cohorts
  ∀ pid, (planSpills cfg llcs tasks out cohorts).lookup pid = out.lookup pid

theorem taken_prefix (excess shed : UInt64) (members : List TaskSnapshot)
    : ∃ rest, members = taken excess shed members ++ rest := by
  induction members generalizing shed with
  | nil => exact ⟨[], rfl⟩
  | cons t members ih =>
    unfold taken
    split
    . exact ⟨t :: members, rfl⟩
    . obtain ⟨rest, hrest⟩ := ih (shed + max t.dutyNs 1)
      refine ⟨rest, ?_⟩
      rw [List.cons_append, ← hrest]

theorem taken_eq_self {excess shed : UInt64} {members : List TaskSnapshot}
    : taken excess shed members = members
        ↔
      ∀ n < members.length,
        (members.take n).foldl (fun shed t => shed + max t.dutyNs 1) shed < excess := by
  induction members generalizing shed with
  | nil => simp [taken]
  | cons t members ih =>
    unfold taken
    split
    . next hge =>
      constructor
      . intro h
        contradiction
      . intro h
        have hlt := h 0 (Nat.zero_lt_succ _)
        exact absurd hlt (UInt64.not_lt.mpr hge)
    . next hlt =>
      rw [List.cons.injEq, ih]
      constructor
      . intro h n hn
        cases n with
        | zero => exact UInt64.not_le.mp hlt
        | succ n => exact h.2 n (Nat.lt_of_succ_lt_succ hn)
      . intro h
        exact ⟨rfl, fun n hn => h (n + 1) (Nat.succ_lt_succ hn)⟩

theorem mem_coldMembers {c : CohortSnapshot} {t : TaskSnapshot}
    : t ∈ coldMembers cfg tasks current c
        ↔
      t ∈ tasks ∧ t.cohortId = c.id ∧ t.pid ∉ current
        ∧ t.dutyNs < cfg.tickNs * cfg.coldMaxPct / 100 := by
  unfold coldMembers
  simp only [List.mem_insertionSort, List.mem_filter, decide_eq_true_eq, mem_alreadySpilled]
  constructor
  . intro h
    obtain ⟨ht, hid, hnot, hcold⟩ := h
    exact ⟨ht, hid, fun hmem => hnot ⟨hmem, t, ht, rfl, hid⟩, hcold⟩
  . intro h
    obtain ⟨ht, hid, hnot, hcold⟩ := h
    exact ⟨ht, hid, fun hmem => hnot hmem.1, hcold⟩

theorem nodup_coldMembers (cfg : SpillCfg) (current : Spills) (htasks : (tasks.map (·.pid)).Nodup)
    (c : CohortSnapshot)
    : ((coldMembers cfg tasks current c).map (·.pid)).Nodup := by
  unfold coldMembers
  rw [((List.perm_insertionSort _ _).map _).nodup_iff]
  exact htasks.sublist (List.filter_sublist.map _)

-- What a cohort keeps of the spills `cur` before it lets them grow.
def keptOf (tasks : List TaskSnapshot) (cur : Spills) (c : CohortSnapshot) (pid : Pid)
    : Option LlcId :=
  if pid ∈ alreadySpilled tasks cur c then cur.lookup pid else none

theorem planCohortSpills_of {c : CohortSnapshot} {cap : UInt64} {target : LlcId}
    (hcap : (spillCapacity llcs).lookup c.homeLlc = some cap)
    (htarget : spillTarget llcs c = some target) (cur desired : Spills)
    : planCohortSpills cfg llcs tasks cur desired c
        =
      if c.loadNs < lowMark cfg cap then
        desired
      else if c.loadNs < highMark cfg cap then
        keepSpilled tasks cur c desired
      else
        growSpills target (c.loadNs - highMark cfg cap) (keepSpilled tasks cur c desired) 0
          (coldMembers cfg tasks cur c) := by
  unfold planCohortSpills
  rw [hcap, htarget]
  rfl

theorem lookup_of_excess (tasks : List TaskSnapshot) {c : CohortSnapshot} {excess : UInt64}
    (h : excessOf cfg llcs c = some excess)
    : ∃ target, ∀ cur pid, (planCohortSpills cfg llcs tasks cur ∅ c).lookup pid
        = if pid ∈ (taken excess 0 (coldMembers cfg tasks cur c)).map (·.pid) then
            some target
          else
            keptOf tasks cur c pid := by
  unfold excessOf at h
  split at h
  . next cap target hcap htarget =>
    rw [Option.ite_none_left_eq_some, not_or, Option.some.injEq] at h
    refine ⟨target, ?_⟩
    intro cur pid
    rw [planCohortSpills_of hcap htarget, if_neg h.1.1, if_neg h.1.2, lookup_growSpills_eq,
      lookup_keepSpilled_eq, ← h.2]
    rfl
  . contradiction

theorem lookup_of_no_excess (tasks : List TaskSnapshot) {c : CohortSnapshot}
    (h : excessOf cfg llcs c = none)
    : (∀ cur pid, (planCohortSpills cfg llcs tasks cur ∅ c).lookup pid = none)
      ∨ (∀ cur pid, (planCohortSpills cfg llcs tasks cur ∅ c).lookup pid = keptOf tasks cur c pid) := by
  unfold excessOf at h
  split at h
  . next cap target hcap htarget =>
    by_cases hlow : c.loadNs < lowMark cfg cap
    . left
      intro cur pid
      rw [planCohortSpills_of hcap htarget, if_pos hlow, AList.lookup_empty]
    . have hhigh : c.loadNs < highMark cfg cap := by
        by_contra hhigh
        rw [if_neg (not_or.mpr ⟨hlow, hhigh⟩)] at h
        contradiction
      right
      intro cur pid
      rw [planCohortSpills_of hcap htarget, if_neg hlow, if_pos hhigh, lookup_keepSpilled_eq]
      rfl
  . next hnone =>
    left
    intro cur pid
    unfold planCohortSpills
    split
    . next cap target hcap htarget => exact absurd htarget (hnone cap target hcap)
    . rw [AList.lookup_empty]

theorem keptOf_eq_lookup {t : TaskSnapshot} {c : CohortSnapshot} (ht : t ∈ tasks)
    (hid : t.cohortId = c.id) (cur : Spills)
    : keptOf tasks cur c t.pid = cur.lookup t.pid := by
  unfold keptOf
  split
  . rfl
  . next hnot =>
    symm
    rw [AList.lookup_eq_none]
    intro hmem
    exact hnot (mem_alreadySpilled.mpr ⟨hmem, t, ht, rfl, hid⟩)

theorem spent_iff {c : CohortSnapshot} {excess : UInt64} (h : excessOf cfg llcs c = some excess)
    : spent cfg llcs tasks current c = true
        ↔
      excess = 0 ∨ taken excess 0 (coldMembers cfg tasks current c)
        = coldMembers cfg tasks current c := by
  unfold spent
  rw [h, Option.all_some, decide_eq_true_eq, taken_eq_self]
  rfl

theorem two_le_of_marks {c : CohortSnapshot} {cap : UInt64} {target : LlcId}
    (hcap : (spillCapacity llcs).lookup c.homeLlc = some cap)
    (htarget : spillTarget llcs c = some target)
    : 2 ≤ llcs.length := by
  have hhome := HashTable.mem_of_lookup_ofList hcap
  obtain ⟨l, hl, heq⟩ := List.mem_map.mp hhome
  have hne := spillTarget_ne htarget
  unfold spillTarget at htarget
  obtain ⟨l', hl', heq'⟩ := Option.map_eq_some_iff.mp htarget
  have hmem := (List.mem_filter.mp (List.argmin_mem hl')).1
  have hdiff : l ≠ l' := by
    intro h
    rw [← heq', ← h] at hne
    exact hne (congrArg Prod.fst heq)
  match llcs, hl, hmem with
  | [a], hl, hmem =>
    rw [List.mem_singleton] at hl hmem
    rw [hl, hmem] at hdiff
    exact absurd rfl hdiff
  | a :: b :: rest, _, _ => exact Nat.le_add_left 2 rest.length

theorem two_le_of_excess {c : CohortSnapshot} {excess : UInt64}
    (h : excessOf cfg llcs c = some excess)
    : 2 ≤ llcs.length := by
  unfold excessOf at h
  split at h
  . next hcap htarget => exact two_le_of_marks hcap htarget
  . contradiction

-- A plan that took every cold member leaves none to the next one.
theorem taken_of_spent {c : CohortSnapshot} {excess : UInt64} {out : Spills}
    (h : excessOf cfg llcs c = some excess) (hspent : spent cfg llcs tasks current c = true)
    (hout : ∀ t ∈ tasks, t.cohortId = c.id
      → out.lookup t.pid = (planCohortSpills cfg llcs tasks current ∅ c).lookup t.pid)
    : taken excess 0 (coldMembers cfg tasks out c) = [] := by
  obtain ⟨target, hlookup⟩ := lookup_of_excess tasks h
  cases (spent_iff h).mp hspent with
  | inl hzero => rw [hzero, taken_zero]
  | inr hall =>
    rw [List.eq_nil_iff_forall_not_mem]
    intro t ht
    obtain ⟨htask, hid, hnot, hcold⟩ := mem_coldMembers.mp (mem_of_mem_taken ht)
    have hnone := AList.lookup_eq_none.mpr hnot
    rw [hout t htask hid, hlookup, hall, keptOf_eq_lookup htask hid] at hnone
    split at hnone
    . contradiction
    . next hmem =>
      apply hmem
      apply List.mem_map_of_mem
      exact mem_coldMembers.mpr ⟨htask, hid, AList.lookup_eq_none.mp hnone, hcold⟩

-- A cold member that the plan did not take is taken by the next one.
theorem spent_of_taken {c : CohortSnapshot} {excess : UInt64} {out : Spills}
    (h : excessOf cfg llcs c = some excess) (htasks : (tasks.map (·.pid)).Nodup)
    (hout : ∀ t ∈ tasks, t.cohortId = c.id
      → out.lookup t.pid = (planCohortSpills cfg llcs tasks current ∅ c).lookup t.pid)
    (htaken : taken excess 0 (coldMembers cfg tasks out c) = [])
    : spent cfg llcs tasks current c = true := by
  obtain ⟨target, hlookup⟩ := lookup_of_excess tasks h
  rw [spent_iff h]
  by_cases hzero : excess = 0
  . exact .inl hzero
  . right
    have hnil : coldMembers cfg tasks out c = [] := by
      cases hcold : coldMembers cfg tasks out c with
      | nil => rfl
      | cons t rest =>
        rw [hcold] at htaken
        unfold taken at htaken
        rw [if_neg] at htaken
        . contradiction
        . intro hle
          exact hzero (UInt64.le_antisymm hle (UInt64.le_iff_toNat_le.mpr (Nat.zero_le _)))
    obtain ⟨rest, hrest⟩ := taken_prefix excess 0 (coldMembers cfg tasks current c)
    cases rest with
    | nil =>
      rw [List.append_nil] at hrest
      exact hrest.symm
    | cons t rest =>
      have hmem : t ∈ coldMembers cfg tasks current c := by
        rw [hrest]
        simp
      obtain ⟨htask, hid, hnot, hcold⟩ := mem_coldMembers.mp hmem
      have hleft : t.pid ∉ (taken excess 0 (coldMembers cfg tasks current c)).map (·.pid) := by
        have hnodup := nodup_coldMembers cfg current htasks c
        rw [hrest, List.map_append, List.nodup_append] at hnodup
        intro hin
        exact hnodup.2.2 _ hin _ (by simp) rfl
      have hnone : out.lookup t.pid = none := by
        rw [hout t htask hid, hlookup, if_neg hleft, keptOf_eq_lookup htask hid]
        exact AList.lookup_eq_none.mpr hnot
      have hagain : t ∈ coldMembers cfg tasks out c :=
        mem_coldMembers.mpr ⟨htask, hid, AList.lookup_eq_none.mp hnone, hcold⟩
      rw [hnil] at hagain
      contradiction

theorem settled_iff_spent (cfg : SpillCfg) (llcs : List LlcLoad) (tasks : List TaskSnapshot)
    (current : Spills) (cohorts : List CohortSnapshot) (hcohorts : (cohorts.map (·.id)).Nodup)
    (htasks : (tasks.map (·.pid)).Nodup)
    : Settled cfg llcs tasks current cohorts
        ↔
      ∀ c ∈ cohorts, spent cfg llcs tasks current c = true := by
  unfold Settled
  dsimp only
  generalize hplan : planSpills cfg llcs tasks current cohorts = out
  have hout : 2 ≤ llcs.length → ∀ c ∈ cohorts, ∀ t ∈ tasks, t.cohortId = c.id
      → out.lookup t.pid = (planCohortSpills cfg llcs tasks current ∅ c).lookup t.pid := by
    intro hllcs c hc t ht hid
    rw [← hplan]
    exact lookup_planSpills hllcs hcohorts htasks ht hc hid
  constructor
  . intro h c hc
    cases hexcess : excessOf cfg llcs c with
    | none =>
      unfold spent
      rw [hexcess, Option.all_none]
    | some excess =>
      have hllcs := two_le_of_excess hexcess
      obtain ⟨target, hlookup⟩ := lookup_of_excess tasks hexcess
      apply spent_of_taken hexcess htasks (hout hllcs c hc)
      rw [List.eq_nil_iff_forall_not_mem]
      intro t htaken
      obtain ⟨ht, hid, hnot, _⟩ := mem_coldMembers.mp (mem_of_mem_taken htaken)
      have hsame := h t.pid
      rw [lookup_planSpills hllcs hcohorts htasks ht hc hid, hlookup,
        if_pos (List.mem_map_of_mem htaken), AList.lookup_eq_none.mpr hnot] at hsame
      contradiction
  . intro h pid
    by_cases hpid : ∀ t ∈ tasks, t.pid = pid → ∀ c ∈ cohorts, t.cohortId ≠ c.id
    . rw [← hplan, lookup_planSpills_none hpid, lookup_planSpills_none hpid]
    . simp only [not_forall, not_not] at hpid
      obtain ⟨t, ht, rfl, c, hc, hid⟩ := hpid
      by_cases hllcs : llcs.length < 2
      . rw [← hplan]
        unfold planSpills
        rw [if_pos hllcs, if_pos hllcs]
      . rw [Nat.not_lt] at hllcs
        rw [lookup_planSpills hllcs hcohorts htasks ht hc hid]
        cases hexcess : excessOf cfg llcs c with
        | none =>
          cases lookup_of_no_excess tasks hexcess with
          | inl hnone => rw [hnone, hout hllcs c hc t ht hid, hnone]
          | inr hkept => rw [hkept, keptOf_eq_lookup ht hid]
        | some excess =>
          obtain ⟨target, hlookup⟩ := lookup_of_excess tasks hexcess
          rw [hlookup, taken_of_spent hexcess (h c hc) (hout hllcs c hc), List.map_nil,
            if_neg List.not_mem_nil, keptOf_eq_lookup ht hid]

-- One cohort 1 ns over the high mark of its home, and cold members for a plan to shed it with.
def overHigh : List CohortSnapshot := [⟨1, 0, false, 2, 190000001, none⟩]

def evenLlcs : List LlcLoad := [⟨0, 190000001, 200000000⟩, ⟨1, 0, 200000000⟩]

def idleMember (pid : Pid) : TaskSnapshot := ⟨pid, 1, 1, 0, 0, []⟩

theorem one_cold_member_settled
    : Settled {} evenLlcs [idleMember 10] ∅ overHigh
      ∧ (planSpills {} evenLlcs [idleMember 10] ∅ overHigh).lookup 10 = some 1 := by
  constructor
  . apply (settled_iff_spent _ _ _ _ _ (by decide) (by decide)).mpr
    intro c hc
    rw [List.mem_singleton.mp hc]
    decide +kernel
  . decide +kernel

-- Task 10 makes up for the excess, and the next plan spills task 11 as well.
theorem idle_members_not_settled
    : (overHigh.map (·.id)).Nodup ∧ ([idleMember 10, idleMember 11].map (·.pid)).Nodup
      ∧ ({} : SpillCfg).lowPct ≤ ({} : SpillCfg).highPct
      ∧ ¬ Settled {} evenLlcs [idleMember 10, idleMember 11] ∅ overHigh := by
  refine ⟨by decide, by decide, by decide, ?_⟩
  intro h
  have hnow : (planSpills {} evenLlcs [idleMember 10, idleMember 11] ∅ overHigh).lookup 11 = none := by
    decide +kernel
  have hnext : (planSpills {} evenLlcs [idleMember 10, idleMember 11]
      (planSpills {} evenLlcs [idleMember 10, idleMember 11] ∅ overHigh) overHigh).lookup 11
        = some 1 := by
    decide +kernel
  have hsame := h 11
  rw [hnow, hnext] at hsame
  nomatch hsame

end Growth

namespace Bpf

section Callbacks

variable {g : Globals} {s : Maps}

-- Of all callbacks only `exit_task` writes to the spill map.
theorem spillTasks_callback {e : Event} (he : e.isCallback = true) (hexit : ∀ p, e ≠ .exitTask p)
    : (step g s e).spillTasks = s.spillTasks := by
  have hrefl : ∀ s : Maps, s.spillTasks = s.spillTasks := fun _ => rfl
  have htrans : ∀ a b c : Maps, b.spillTasks = a.spillTasks → c.spillTasks = b.spillTasks
      → c.spillTasks = a.spillTasks := fun _ _ _ h h' => h'.trans h
  have hqueues : KeepsQueues fun s s' => s'.spillTasks = s.spillTasks :=
    { refl := hrefl, stat := fun _ _ => rfl, sample := fun _ _ => rfl, edges := fun _ _ => rfl,
      headEnqTs := fun _ _ _ => rfl, queues := fun _ _ _ => rfl, idle := fun _ _ => rfl }
  have hcalls : KeepsCalls fun s s' => s'.spillTasks = s.spillTasks :=
    { hqueues with tctx := fun _ _ _ _ => rfl }
  have haccount : KeepsAccount fun s s' => s'.spillTasks = s.spillTasks :=
    { refl := hrefl, tctxErr := fun _ => rfl, account := fun _ _ _ _ => rfl,
      vtimeNow := fun _ _ _ => rfl, loadSum := fun _ _ _ => rfl, llcLoad := fun _ _ => rfl,
      runtime := fun _ _ _ _ => rfl }
  have hadmit : KeepsAdmit fun s s' => s'.spillTasks = s.spillTasks :=
    { refl := hrefl, tctxErr := fun _ => rfl, seq := fun _ _ _ => rfl,
      policy := fun _ _ _ _ _ _ => rfl, counters := fun _ _ _ _ _ _ => rfl,
      tgid := fun _ _ _ _ _ _ => rfl, nrTasks := fun _ _ _ => rfl, storage := fun _ _ _ => rfl,
      start := fun _ _ _ _ => rfl, taskStat := fun _ _ _ _ _ => rfl }
  have hwake : KeepsWake fun s s' => s'.spillTasks = s.spillTasks :=
    { refl := hrefl, tctxErr := fun _ => rfl, wake := fun _ _ _ _ => rfl }
  unfold step
  cases e with
  | initTask p fork parent alloc =>
    exact (keeps_ignore hadmit.cohortInitTask).run hrefl htrans s
  | exitTask p => exact absurd rfl (hexit p)
  | selectCpu p prevCpu env => exact (keeps_ignore hcalls.cohortSelectCpu).run hrefl htrans s
  | enqueue p now => exact hcalls.cohortEnqueue.run hrefl htrans s
  | dispatch cpu now => exact (keeps_ignore hqueues.cohortDispatch).run hrefl htrans s
  | runnable p now => exact hwake.cohortRunnable.run hrefl htrans s
  | running p now => exact haccount.cohortRunning.run hrefl htrans s
  | stopping p now => exact haccount.cohortStopping.run hrefl htrans s
  | _ => contradiction

theorem lookup_spillTasks_exitTask (p : TaskStruct) (pid : Pid)
    : (step g s (.exitTask p)).spillTasks.lookup pid
        =
      if pid = p.pid ∧ (s.taskCtxs p.tid).isSome then none else s.spillTasks.lookup pid := by
  have hkeeps : ∀ {α : Type} {q : BpfM α}, q.Keeps (fun s s' => s'.spillTasks = s.spillTasks)
      → (q.run s).2.spillTasks = s.spillTasks := by
    intro α q hq
    exact hq.run (fun _ => rfl) (fun _ _ _ h h' => h'.trans h) s
  have hresolve : KeepsResolve fun s s' => s'.spillTasks = s.spillTasks :=
    { refl := fun _ => rfl, tctxErr := fun _ => rfl, resolve := fun _ _ _ => rfl }
  have hcount : ∀ (id : CohortId) (f : UInt64 → UInt64) (s : Maps),
      ((countTask id f).run s).2.spillTasks = s.spillTasks := by
    intro id f s
    unfold countTask
    rw [Proc.run_bind, run_lookupCounters]
    dsimp only
    split
    . rfl
    . rfl
  simp only [step, Event.prog, cohortExitTask, Proc.run_bind, taskStorageGet, run_load]
  cases hc : s.taskCtxs p.tid with
  | none => simp
  | some c =>
    simp only [Option.map_some, Proc.run_bind, Proc.run_atomic, Option.isSome_some, and_true]
    rw [BoundedMap.lookup_delete, hcount, hkeeps hresolve.resolveCohort]

end Callbacks

end Bpf

namespace Daemon

-- What a tick plans its spills from.
structure SpillInput where
  llcs : List LlcLoad
  tasks : List TaskSnapshot
  cohorts : List CohortSnapshot
  twoLlcs : ∃ a ∈ llcs, ∃ b ∈ llcs, a.llc ≠ b.llc
  ids : (cohorts.map (·.id)).Nodup
  pids : (tasks.map (·.pid)).Nodup
  homes : ∀ c ∈ cohorts, c.homeLlc ∈ llcs.map (·.llc)

namespace SpillInput

-- The task is listed, and so is its cohort, with a load of at least the low mark's share of its home.
def Holds (i : SpillInput) (lowPct : UInt64) (pid : Pid) : Prop :=
  ∃ t ∈ i.tasks, t.pid = pid ∧ ∃ c ∈ i.cohorts, t.cohortId = c.id
    ∧ ∀ l ∈ i.llcs, l.llc = c.homeLlc
      → l.capacityNs.toNat * lowPct.toNat ≤ c.loadNs.toNat * 100

variable {i : SpillInput} {cfg : SpillCfg}

theorem two_le_llcs (i : SpillInput) : 2 ≤ i.llcs.length := by
  obtain ⟨a, ha, b, hb, hne⟩ := i.twoLlcs
  match i.llcs, ha, hb with
  | [l], ha, hb =>
    rw [List.mem_singleton] at ha hb
    rw [ha, hb] at hne
    exact absurd rfl hne
  | l :: l' :: rest, _, _ => exact Nat.le_add_left 2 rest.length

theorem exists_target (i : SpillInput) (c : CohortSnapshot)
    : ∃ target, spillTarget i.llcs c = some target := by
  obtain ⟨a, ha, b, hb, hne⟩ := i.twoLlcs
  have hother : ∃ l ∈ i.llcs, l.llc ≠ c.homeLlc := by
    by_cases h : a.llc = c.homeLlc
    . rw [h] at hne
      exact ⟨b, hb, Ne.symm hne⟩
    . exact ⟨a, ha, h⟩
  obtain ⟨l, hl, hne⟩ := hother
  unfold spillTarget
  cases hmin : (i.llcs.filter fun l => l.llc ≠ c.homeLlc).argmin (·.loadNs.toNat) with
  | some l' => exact ⟨l'.llc, rfl⟩
  | none =>
    rw [List.argmin_eq_none] at hmin
    have hmem : l ∈ i.llcs.filter fun l => l.llc ≠ c.homeLlc :=
      List.mem_filter.mpr ⟨hl, decide_eq_true hne⟩
    rw [hmin] at hmem
    contradiction

-- A product that wraps is smaller than it should be.
theorem lowMark_le {cap load : UInt64} (h : cap.toNat * cfg.lowPct.toNat ≤ load.toNat * 100)
    : lowMark cfg cap ≤ load := by
  have hmod := Nat.mod_le (cap.toNat * cfg.lowPct.toNat) (2 ^ 64)
  unfold lowMark
  rw [UInt64.le_iff_toNat_le, UInt64.toNat_div, UInt64.toNat_mul]
  have h100 : (100 : UInt64).toNat = 100 := rfl
  rw [h100]
  omega

theorem Holds.lookup {pid : Pid} {x : LlcId} {current : Spills} (h : i.Holds cfg.lowPct pid)
    (hcurrent : current.lookup pid = some x)
    : (planSpills cfg i.llcs i.tasks current i.cohorts).lookup pid = some x := by
  obtain ⟨t, ht, rfl, c, hc, hid, hload⟩ := h
  obtain ⟨target, htarget⟩ := i.exists_target c
  have hmem : c.homeLlc ∈ spillCapacity i.llcs := by
    unfold spillCapacity
    rw [HashTable.mem_ofList, List.map_map]
    exact i.homes c hc
  obtain ⟨cap, hcap⟩ := Option.isSome_iff_exists.mp (AList.lookup_isSome.mpr hmem)
  obtain ⟨l, hl, heq⟩ := List.mem_map.mp (HashTable.mem_of_lookup_ofList hcap)
  rw [Prod.mk.injEq] at heq
  have hlow := hload l hl heq.1
  rw [heq.2] at hlow
  have hmark : ¬ c.loadNs < lowMark cfg cap := UInt64.not_lt.mpr (lowMark_le hlow)
  have halready : t.pid ∈ alreadySpilled i.tasks current c := by
    rw [mem_alreadySpilled]
    exact ⟨AList.lookup_isSome.mp (by simp [hcurrent]), t, ht, rfl, hid⟩
  have hkeep : (keepSpilled i.tasks current c ∅).lookup t.pid = some x := by
    rw [lookup_keepSpilled_eq, if_pos halready, hcurrent]
  have hcold : ∀ excess : UInt64,
      t.pid ∉ (taken excess 0 (coldMembers cfg i.tasks current c)).map (·.pid) := by
    intro excess hin
    obtain ⟨t', ht', hpid⟩ := List.mem_map.mp hin
    have hnot := (mem_coldMembers.mp (mem_of_mem_taken ht')).2.2.1
    rw [hpid] at hnot
    exact hnot (mem_alreadySpilled.mp halready).1
  rw [lookup_planSpills i.two_le_llcs i.ids i.pids ht hc hid, planCohortSpills_of hcap htarget,
    if_neg hmark]
  split
  . exact hkeep
  . rw [lookup_growSpills_eq, if_neg (hcold _), hkeep]

end SpillInput

-- The part of a tick that plans and syncs the spills.
def spillTick (env : TickEnv) (i : SpillInput) : DaemonM PUnit := do
  let d ← get
  applySpills env (planSpills d.spillCfg i.llcs i.tasks d.currentSpills i.cohorts)

-- The maps, and what is left of a tick's sync.
structure SpillSync where
  maps : Maps
  daemon : BpfM (Except MapErr (PUnit × Scheduler))

inductive SpillTurn where
  | begin (env : TickEnv) (i : SpillInput)
  | write
  | call (e : Bpf.Event)

namespace SpillSync

def start (s : Maps) (d : Scheduler) : SpillSync := ⟨s, .ret (.ok (⟨⟩, d))⟩

-- A tick begins when the one before has returned `Ok`.
def idle? (w : SpillSync) : Option Scheduler :=
  match w.daemon with
  | .ret (.ok (_, d)) => some d
  | _ => none

def next (g : Globals) (w : SpillSync) : SpillTurn → SpillSync
  | .begin env i =>
    match w.idle? with
    | some d => { w with daemon := (spillTick env i d).run }
    | none => w
  | .write =>
    match w.daemon.step? w.maps with
    | some (_, p, s) => ⟨s, p⟩
    | none => w
  | .call e => if e.isCallback then { w with maps := Bpf.step g w.maps e } else w

def run (g : Globals) (w : SpillSync) (ts : List SpillTurn) : SpillSync := ts.foldl (next g) w

def Along (g : Globals) (P : SpillSync → SpillTurn → Prop) : SpillSync → List SpillTurn → Prop
  | _, [] => True
  | w, t :: ts => P w t ∧ Along g P (next g w t) ts

-- The task does not exit, and no tick begins that may bring it home.
def Kept (pid : Pid) (w : SpillSync) : SpillTurn → Prop
  | .begin _ i => ∀ d, w.idle? = some d → i.Holds d.spillCfg.lowPct pid
  | .write => True
  | .call e => ∀ p, e = .exitTask p → p.pid ≠ pid

-- The last write of `ts` enters `pid` into the spill map with target `x`.
def Enters (g : Globals) (w : SpillSync) (ts : List SpillTurn) (pid : Pid) (x : LlcId) : Prop :=
  (run g w ts).maps.spillTasks.lookup pid ≠ some x
    ∧ (run g w (ts ++ [.write])).maps.spillTasks.lookup pid = some x

def wakeupHome (g : Globals) (p : TaskStruct) : BpfM LlcId := do
  let tctx ← Bpf.lookupTaskCtx p
  Bpf.taskHomeLlc g p tctx

-- What a write towards `desired` may do to the spill map.
def Towards (desired : Spills) (s s' : Maps) : Prop :=
  ∀ pid x,
    (desired.lookup pid = some x → s.spillTasks.lookup pid = some x
      → s'.spillTasks.lookup pid = some x)
    ∧ (s'.spillTasks.lookup pid = some x
      → s.spillTasks.lookup pid = some x ∨ desired.lookup pid = some x)

-- A sync under way, or one that has ended.
structure Syncs (desired : Spills) (p : BpfM (Except MapErr (PUnit × Scheduler))) : Prop where
  writes : p.Keeps (Towards desired)
  ends : p.Returns fun r => ∀ a d, r = .ok (a, d) → d.currentSpills = desired

theorem towards_setSpill {desired current : Spills} {e : Pid × LlcId}
    (he : desired.lookup e.1 = some e.2)
    : Keeps (Towards desired) (setSpill current e) := by
  unfold setSpill
  split
  . apply keeps_require
    apply KeepsUpdates.tryUpdate (fun s => Bpf.run_updateSpill s e.1 e.2)
    intro s pid x
    dsimp only
    cases BoundedMap.lookup_updateD s.spillTasks e.1 e.2 .any pid with
    | inl hsame =>
      rw [hsame]
      exact ⟨fun _ h => h, .inl⟩
    | inr hnew =>
      rw [hnew.2, hnew.1, he]
      exact ⟨fun h _ => h, .inr⟩
  . exact keeps_pure

theorem towards_unsetSpill {desired : Spills} {pid : Pid}
    : Keeps (Towards desired) (unsetSpill desired pid) := by
  unfold unsetSpill
  split
  . next hnot =>
    apply keeps_attempt
    apply Proc.keeps_atomic
    intro s pid' x
    dsimp only
    rw [BoundedMap.lookup_delete]
    constructor
    . intro hdesired hs
      rw [if_neg, hs]
      intro heq
      rw [heq, AList.lookup_eq_none.mpr hnot] at hdesired
      contradiction
    . intro hs'
      split at hs'
      . contradiction
      . exact .inl hs'
  . exact keeps_pure

theorem syncs_applySpills (env : TickEnv) (desired : Spills) (d : Scheduler)
    : Syncs desired (applySpills env desired d).run := by
  constructor
  . have hkeeps : Keeps (Towards desired) (applySpills env desired) := by
      unfold applySpills
      apply keeps_bind keeps_get
      intro d
      apply keeps_bind
      . apply keeps_forM_mem
        intro e he
        rw [IterOrder.mem_order] at he
        exact towards_setSpill (HashTable.mem_items.mp he)
      . intro _
        apply keeps_bind
        . apply keeps_forM
          intro pid
          exact towards_unsetSpill
        . intro _
          exact keeps_modify
    exact hkeeps d
  . unfold applySpills
    apply returns_bind
    . intro d d₀
      apply returns_bind
      . intro _ d₁
        apply returns_bind
        . intro _ d₂ a d' heq
          simp only [Except.ok.injEq, Prod.mk.injEq] at heq
          rw [← heq.2]
        . simp
      . simp
    . simp

theorem run_append (g : Globals) (w : SpillSync) (ts ts' : List SpillTurn)
    : run g w (ts ++ ts') = run g (run g w ts) ts' := by
  unfold run
  rw [List.foldl_append]

theorem idle?_eq_some {w : SpillSync} {d : Scheduler} (h : w.idle? = some d)
    : w.daemon = .ret (.ok (⟨⟩, d)) := by
  unfold idle? at h
  split at h
  . next heq =>
    rw [heq]
    simp only [Option.some.injEq] at h
    rw [h]
  . contradiction

theorem Syncs.idle {w : SpillSync} {desired : Spills} {d : Scheduler} (h : Syncs desired w.daemon)
    (hidle : w.idle? = some d)
    : d.currentSpills = desired := by
  have hends := h.ends
  rw [idle?_eq_some hidle] at hends
  exact hends ⟨⟩ d rfl

variable {g : Globals} {w : SpillSync} {pid : Pid} {x : LlcId}

-- Whatever is under way, it syncs towards some set of spills.
theorem syncs_next (h : ∃ desired, Syncs desired w.daemon) (t : SpillTurn)
    : ∃ desired, Syncs desired (next g w t).daemon := by
  cases t with
  | begin env i =>
    unfold next
    dsimp only
    split
    . exact ⟨_, syncs_applySpills env _ _⟩
    . exact h
  | write =>
    obtain ⟨desired, hsyncs⟩ := h
    unfold next
    dsimp only
    split
    . next l p s hstep => exact ⟨desired, (hsyncs.writes.step hstep).2, hsyncs.ends.step hstep⟩
    . exact ⟨desired, hsyncs⟩
  | call e =>
    unfold next
    dsimp only
    split
    . exact h
    . exact h

theorem syncs_run (h : ∃ desired, Syncs desired w.daemon) (ts : List SpillTurn)
    : ∃ desired, Syncs desired (run g w ts).daemon := by
  induction ts generalizing w with
  | nil => exact h
  | cons t ts ih => exact ih (syncs_next h t)

-- The map has the task at `x`, and so has what the daemon syncs towards.
structure Spilled (w : SpillSync) (pid : Pid) (x : LlcId) : Prop where
  daemon : ∃ desired, Syncs desired w.daemon ∧ desired.lookup pid = some x
  entry : w.maps.spillTasks.lookup pid = some x

theorem spilled_of_enters (g : Globals) (h : ∃ desired, Syncs desired w.daemon)
    (hbefore : w.maps.spillTasks.lookup pid ≠ some x)
    (hafter : (next g w .write).maps.spillTasks.lookup pid = some x)
    : Spilled (next g w .write) pid x := by
  obtain ⟨desired, hsyncs⟩ := h
  unfold next at hafter ⊢
  dsimp only at hafter ⊢
  split at hafter
  . next l p s hstep =>
    obtain ⟨htowards, hrest⟩ := hsyncs.writes.step hstep
    refine ⟨⟨desired, ⟨hrest, hsyncs.ends.step hstep⟩, ?_⟩, hafter⟩
    cases (htowards pid x).2 hafter with
    | inl hsame => exact absurd hsame hbefore
    | inr hdesired => exact hdesired
  . exact absurd hafter hbefore

theorem spilled_next {t : SpillTurn} (h : Spilled w pid x) (hkept : Kept pid w t)
    : Spilled (next g w t) pid x := by
  obtain ⟨desired, hsyncs, hdesired⟩ := h.daemon
  cases t with
  | begin env i =>
    unfold next
    dsimp only
    split
    . next d hidle =>
      have hcurrent : d.currentSpills.lookup pid = some x := by
        rw [hsyncs.idle hidle]
        exact hdesired
      exact ⟨⟨_, syncs_applySpills env _ d, (hkept d hidle).lookup hcurrent⟩, h.entry⟩
    . exact h
  | write =>
    unfold next
    dsimp only
    split
    . next l p s hstep =>
      obtain ⟨htowards, hrest⟩ := hsyncs.writes.step hstep
      exact ⟨⟨desired, ⟨hrest, hsyncs.ends.step hstep⟩, hdesired⟩,
        (htowards pid x).1 hdesired h.entry⟩
    . exact h
  | call e =>
    unfold next
    dsimp only
    split
    . next he =>
      refine ⟨⟨desired, hsyncs, hdesired⟩, ?_⟩
      dsimp only
      by_cases hexit : ∃ p, e = .exitTask p
      . obtain ⟨p, rfl⟩ := hexit
        have hne := hkept p rfl
        rw [Bpf.lookup_spillTasks_exitTask, if_neg (fun h => hne h.1.symm)]
        exact h.entry
      . rw [Bpf.spillTasks_callback he (fun p heq => hexit ⟨p, heq⟩)]
        exact h.entry
    . exact h

theorem spilled_run (ts : List SpillTurn) (h : Spilled w pid x) (hkept : Along g (Kept pid) w ts)
    : Spilled (run g w ts) pid x := by
  induction ts generalizing w with
  | nil => exact h
  | cons t ts ih => exact ih (spilled_next h hkept.1) hkept.2

theorem wakeupHome_of_spilled {s : Maps} {p : TaskStruct} (hx : x < g.nrLlcs)
    (hctx : (s.taskCtxs p.tid).isSome = true) (hentry : s.spillTasks.lookup p.pid = some x)
    : ((wakeupHome g p).run s).1 = x := by
  obtain ⟨c, hc⟩ := Option.isSome_iff_exists.mp hctx
  simp [wakeupHome, Bpf.lookupTaskCtx, Bpf.taskStorageGet, hc, Bpf.taskHomeLlc, hentry, Bpf.safeLlc, hx]

-- From any maps and any spills the daemon may start with.
theorem spilled_stays_on_target (g : Globals) (s : Maps) (d : Scheduler) (p : TaskStruct) (x : LlcId)
    (pre post : List SpillTurn) (hx : x < g.nrLlcs)
    (henters : Enters g (start s d) pre p.pid x)
    (hkept : Along g (Kept p.pid) (run g (start s d) (pre ++ [.write])) post)
    (hctx : ((run g (start s d) (pre ++ .write :: post)).maps.taskCtxs p.tid).isSome = true)
    : ((wakeupHome g p).run (run g (start s d) (pre ++ .write :: post)).maps).1 = x := by
  have hstart : ∃ desired, Syncs desired (start s d).daemon := by
    refine ⟨d.currentSpills, trivial, ?_⟩
    intro a d' heq
    simp only [Except.ok.injEq, Prod.mk.injEq] at heq
    rw [← heq.2]
  have hspilled : Spilled (run g (start s d) (pre ++ [.write])) p.pid x := by
    have hafter := henters.2
    rw [run_append] at hafter ⊢
    exact spilled_of_enters g (syncs_run hstart pre) henters.1 hafter
  have hsplit : run g (start s d) (pre ++ .write :: post)
      = run g (run g (start s d) (pre ++ [.write])) post := by
    rw [← run_append, List.append_assoc, List.singleton_append]
  apply wakeupHome_of_spilled hx hctx
  rw [hsplit]
  exact (spilled_run post hspilled hkept).entry

section Idle

-- One task, which a load over the high mark spills, and which a load between the marks leaves spilled.
def oneIdle (c : CohortSnapshot) (hc : c.homeLlc = 0) : SpillInput where
  llcs := evenLlcs
  tasks := [idleMember 10]
  cohorts := [c]
  twoLlcs := ⟨⟨0, 190000001, 200000000⟩, by decide, ⟨1, 0, 200000000⟩, by decide, by decide⟩
  ids := by simp
  pids := by simp
  homes := by
    intro c' hc'
    rw [List.mem_singleton.mp hc', hc]
    decide

def high : SpillInput := oneIdle ⟨1, 0, false, 1, 190000001, none⟩ rfl

def between : SpillInput := oneIdle ⟨1, 0, false, 1, 150000000, none⟩ rfl

def idleTask : TaskStruct := { tid := 1, pid := 10, tgid := 1 }

def idleMaps : Maps := { taskCtxs := fun t => if t = 1 then some { cohortId := 1 } else none }

theorem idle_stays_on_target
    : ((wakeupHome { nrLlcs := 2 } idleTask).run (run { nrLlcs := 2 } (start idleMaps twoLlcs)
        ([.begin {} high] ++ .write :: [.call (.enqueue idleTask 0), .begin {} between, .write])).maps).1
      = 1 := by
  apply spilled_stays_on_target
  . decide
  . constructor
    . decide +kernel
    . decide +kernel
  . refine ⟨?_, ?_, trivial, trivial⟩
    . intro p heq
      contradiction
    . intro d hidle
      have hlow : ((next { nrLlcs := 2 } (run { nrLlcs := 2 } (start idleMaps twoLlcs)
          ([.begin {} high] ++ [.write])) (.call (.enqueue idleTask 0))).idle?.map
            fun d => d.spillCfg.lowPct) = some 75 := by
        decide +kernel
      rw [hidle, Option.map_some, Option.some.injEq] at hlow
      rw [hlow]
      refine ⟨idleMember 10, List.mem_cons_self, rfl, _, List.mem_cons_self, rfl, ?_⟩
      decide
  . decide +kernel

end Idle

end SpillSync

end Daemon
