import Mathlib.Algebra.BigOperators.Group.List.Basic
import ScxCohort.Daemon.Lemmas.Sticky
import ScxCohort.Lib.Streak

/-!
This module contains which members of a cohort the planned spills consist of: the coldest ones that make
up for the excess and no more, and those that were spilled before, whatever they do now.
-/

namespace Spill

section Taken

def charge (t : TaskSnapshot) : UInt64 := max t.dutyNs 1

def charged (ts : List TaskSnapshot) : UInt64 := (ts.map charge).sum

variable {excess shed : UInt64} {members pre : List TaskSnapshot} {last : TaskSnapshot}

theorem charged_cons (t : TaskSnapshot) (ts : List TaskSnapshot)
    : charged (t :: ts) = charge t + charged ts :=
  List.sum_cons

theorem toNat_charged {ts : List TaskSnapshot} (h : (ts.map fun t => (charge t).toNat).sum < 2 ^ 64)
    : (charged ts).toNat = (ts.map fun t => (charge t).toNat).sum := by
  induction ts with
  | nil => rfl
  | cons t ts ih =>
    rw [List.map_cons, List.sum_cons] at h ⊢
    rw [charged_cons, UInt64.toNat_add, ih (by omega), Nat.mod_eq_of_lt h]

theorem charged_erase {N : List TaskSnapshot} {t : TaskSnapshot} (hN : N = pre ++ [last]) (ht : t ∈ N)
    (hduty : t.dutyNs = last.dutyNs)
    : charged (N.erase t) = charged pre := by
  have herase : charge t + charged (N.erase t) = charged N := List.sum_map_erase charge ht
  have hall : charged N = charged pre + charge last := by
    unfold charged
    rw [hN, List.map_append, List.sum_append, List.map_singleton, List.sum_singleton]
  have hcharge : charge t = charge last := by
    unfold charge
    rw [hduty]
  rw [hall, ← hcharge, UInt64.add_comm (charged pre)] at herase
  exact add_left_cancel herase

theorem taken_enough (excess shed : UInt64) (members : List TaskSnapshot)
    : excess ≤ shed + charged (taken excess shed members)
      ∨ taken excess shed members = members := by
  induction members generalizing shed with
  | nil => exact .inr rfl
  | cons t members ih =>
    unfold taken
    split
    . next hge =>
      left
      show excess ≤ shed + 0
      rw [UInt64.add_zero]
      exact hge
    . cases ih (shed + max t.dutyNs 1) with
      | inl henough =>
        left
        rw [charged_cons, ← UInt64.add_assoc]
        exact henough
      | inr hall =>
        right
        rw [hall]

theorem taken_short (h : taken excess shed members = pre ++ [last])
    : shed + charged pre < excess := by
  induction members generalizing shed pre with
  | nil =>
    rw [taken] at h
    simp at h
  | cons t members ih =>
    unfold taken at h
    split at h
    . simp at h
    . next hlt =>
      cases pre with
      | nil =>
        show shed + 0 < excess
        rw [UInt64.add_zero]
        exact UInt64.not_le.mp hlt
      | cons t' pre =>
        rw [List.cons_append, List.cons.injEq] at h
        rw [charged_cons, ← UInt64.add_assoc, ← h.1]
        exact ih h.2

theorem pairwise_coldMembers (cfg : SpillCfg) (tasks : List TaskSnapshot) (current : Spills)
    (c : CohortSnapshot)
    : (coldMembers cfg tasks current c).Pairwise fun a b => a.dutyNs ≤ b.dutyNs := by
  have htotal : Std.Total fun a b : TaskSnapshot => a.dutyNs ≤ b.dutyNs :=
    ⟨fun a b => UInt64.le_total a.dutyNs b.dutyNs⟩
  have htrans : IsTrans TaskSnapshot fun a b => a.dutyNs ≤ b.dutyNs :=
    ⟨fun _ _ _ => UInt64.le_trans⟩
  exact List.pairwise_insertionSort _ _

end Taken

section Coldest

variable {cfg : SpillCfg} {llcs : List LlcLoad} {tasks : List TaskSnapshot} {current : Spills}
  {cohorts : List CohortSnapshot} {c : CohortSnapshot} {excess : UInt64}

def coldCeiling (cfg : SpillCfg) : UInt64 := cfg.tickNs * cfg.coldMaxPct / 100

-- A member that is cold enough and not spilled yet.
structure Candidate (cfg : SpillCfg) (tasks : List TaskSnapshot) (current : Spills)
    (c : CohortSnapshot) (t : TaskSnapshot) : Prop where
  listed : t ∈ tasks
  member : t.cohortId = c.id
  unspilled : t.pid ∉ current
  cold : t.dutyNs < coldCeiling cfg

-- The coldest candidates that make up for the excess together, and of which none can be spared.
structure LeastCold (cfg : SpillCfg) (tasks : List TaskSnapshot) (current : Spills)
    (c : CohortSnapshot) (excess : UInt64) (N : List TaskSnapshot) : Prop where
  nodup : N.Nodup
  candidate : ∀ t ∈ N, Candidate cfg tasks current c t
  coldest : ∀ t ∈ N, ∀ u, Candidate cfg tasks current c u → u ∉ N → t.dutyNs ≤ u.dutyNs
  enough : excess ≤ charged N ∨ ∀ u, Candidate cfg tasks current c u → u ∈ N
  least : ∀ t ∈ N, (∀ u ∈ N, u.dutyNs ≤ t.dutyNs) → charged (N.erase t) < excess
  exact : (N.map fun t => (charge t).toNat).sum < 2 ^ 64
    → (charged N).toNat = (N.map fun t => (charge t).toNat).sum

theorem candidate_iff {t : TaskSnapshot}
    : t ∈ coldMembers cfg tasks current c ↔ Candidate cfg tasks current c t := by
  rw [mem_coldMembers]
  constructor
  . rintro ⟨ht, hid, hnot, hcold⟩
    exact ⟨ht, hid, hnot, hcold⟩
  . intro h
    exact ⟨h.listed, h.member, h.unspilled, h.cold⟩

theorem leastCold_taken (cfg : SpillCfg) (current : Spills) (htasks : (tasks.map (·.pid)).Nodup)
    (c : CohortSnapshot) (excess : UInt64)
    : LeastCold cfg tasks current c excess (taken excess 0 (coldMembers cfg tasks current c)) := by
  have hsorted := pairwise_coldMembers cfg tasks current c
  have hnodup := (nodup_coldMembers cfg current htasks c).of_map
  have hmem : ∀ t, t ∈ coldMembers cfg tasks current c ↔ Candidate cfg tasks current c t :=
    fun _ => candidate_iff
  generalize coldMembers cfg tasks current c = cold at hsorted hnodup hmem
  obtain ⟨rest, hrest⟩ := taken_prefix excess 0 cold
  have henough := taken_enough excess 0 cold
  have hshort := @taken_short excess 0 cold
  generalize taken excess 0 cold = N at hrest henough hshort
  rw [hrest] at hsorted hnodup
  rw [List.pairwise_append] at hsorted
  constructor
  . exact hnodup.of_append_left
  . intro t ht
    rw [← hmem, hrest]
    exact List.mem_append_left _ ht
  . intro t ht u hu hnot
    rw [← hmem, hrest, List.mem_append] at hu
    exact hsorted.2.2 t ht u (hu.resolve_left hnot)
  . cases henough with
    | inl henough =>
      left
      rw [UInt64.zero_add] at henough
      exact henough
    | inr hall =>
      right
      intro u hu
      rw [hall, hmem]
      exact hu
  . -- The one that comes last is as hot as the hottest.
    intro t ht hhottest
    have hne : N ≠ [] := List.ne_nil_of_mem ht
    obtain ⟨pre, last, hN⟩ := (List.eq_nil_or_concat' N).resolve_left hne
    have hle : t.dutyNs ≤ last.dutyNs := by
      have hpairs := hsorted.1
      rw [hN, List.pairwise_append] at hpairs
      rw [hN, List.mem_append, List.mem_singleton] at ht
      cases ht with
      | inl ht => exact hpairs.2.2 t ht last (List.mem_singleton_self _)
      | inr heq =>
        rw [heq]
        exact UInt64.le_refl _
    have hlast : last ∈ N := by
      rw [hN]
      exact List.mem_append_right _ (List.mem_singleton_self _)
    have hlt := hshort hN
    rw [UInt64.zero_add] at hlt
    rw [charged_erase hN ht (UInt64.le_antisymm hle (hhottest last hlast))]
    exact hlt
  . exact toNat_charged

-- A least loaded LLC other than the home.
def LeastLoaded (llcs : List LlcLoad) (c : CohortSnapshot) (target : LlcId) : Prop :=
  ∃ l ∈ llcs, l.llc = target ∧ l.llc ≠ c.homeLlc
    ∧ ∀ l' ∈ llcs, l'.llc ≠ c.homeLlc → l.loadNs ≤ l'.loadNs

theorem leastLoaded_spillTarget {target : LlcId} (h : spillTarget llcs c = some target)
    : LeastLoaded llcs c target := by
  unfold spillTarget at h
  obtain ⟨l, hl, heq⟩ := Option.map_eq_some_iff.mp h
  have hmem := List.mem_filter.mp (List.argmin_mem hl)
  refine ⟨l, hmem.1, heq, of_decide_eq_true hmem.2, ?_⟩
  intro l' hl' hne
  rw [UInt64.le_iff_toNat_le]
  have hmem' : l' ∈ llcs.filter fun l => l.llc ≠ c.homeLlc :=
    List.mem_filter.mpr ⟨hl', decide_eq_true hne⟩
  exact List.le_of_mem_argmin (f := fun l : LlcLoad => l.loadNs.toNat) hmem' hl

theorem exists_spillTarget (h : ∃ l ∈ llcs, l.llc ≠ c.homeLlc)
    : ∃ target, spillTarget llcs c = some target := by
  obtain ⟨l, hl, hne⟩ := h
  unfold spillTarget
  cases hmin : (llcs.filter fun l => l.llc ≠ c.homeLlc).argmin (·.loadNs.toNat) with
  | some l' => exact ⟨l'.llc, rfl⟩
  | none =>
    rw [List.argmin_eq_none, List.filter_eq_nil_iff] at hmin
    exact absurd (decide_eq_true hne) (hmin l hl)

-- The part of the planned spills that is about the cohort.
structure SpillsOf (cfg : SpillCfg) (llcs : List LlcLoad) (tasks : List TaskSnapshot)
    (current : Spills) (c : CohortSnapshot) (cap : UInt64) (out : Spills) : Prop where
  below : c.loadNs < lowMark cfg cap → ∀ t ∈ tasks, t.cohortId = c.id → t.pid ∉ out
  sticky : lowMark cfg cap ≤ c.loadNs → c.loadNs < highMark cfg cap
    → ∀ t ∈ tasks, t.cohortId = c.id → out.lookup t.pid = current.lookup t.pid
  grown : lowMark cfg cap ≤ c.loadNs → highMark cfg cap ≤ c.loadNs
    → ∃ N target, LeastCold cfg tasks current c (c.loadNs - highMark cfg cap) N
      ∧ LeastLoaded llcs c target
      ∧ ∀ t ∈ tasks, t.cohortId = c.id
        → out.lookup t.pid = if t ∈ N then some target else current.lookup t.pid

theorem mem_map_pid {t : TaskSnapshot} {N : List TaskSnapshot} (htasks : (tasks.map (·.pid)).Nodup)
    (hN : ∀ t ∈ N, t ∈ tasks) (ht : t ∈ tasks)
    : t.pid ∈ N.map (·.pid) ↔ t ∈ N := by
  rw [List.mem_map]
  constructor
  . rintro ⟨u, hu, hpid⟩
    rw [← List.inj_on_of_nodup_map htasks (hN u hu) ht hpid]
    exact hu
  . intro ht
    exact ⟨t, ht, rfl⟩

theorem spillsOf_planSpills {cap : UInt64} (hcohorts : (cohorts.map (·.id)).Nodup)
    (htasks : (tasks.map (·.pid)).Nodup) (hc : c ∈ cohorts)
    (hcap : (spillCapacity llcs).lookup c.homeLlc = some cap)
    (hother : ∃ l ∈ llcs, l.llc ≠ c.homeLlc)
    : SpillsOf cfg llcs tasks current c cap (planSpills cfg llcs tasks current cohorts) := by
  obtain ⟨target, htarget⟩ := exists_spillTarget hother
  have hllcs := two_le_of_marks hcap htarget
  have hkept : ∀ t ∈ tasks, t.cohortId = c.id
      → (keepSpilled tasks current c ∅).lookup t.pid = current.lookup t.pid := by
    intro t ht hid
    rw [lookup_keepSpilled_eq]
    exact keptOf_eq_lookup ht hid current
  constructor
  . intro hlow t ht hid
    rw [← AList.lookup_eq_none, lookup_planSpills hllcs hcohorts htasks ht hc hid,
      planCohortSpills_of hcap htarget, if_pos hlow, AList.lookup_empty]
  . intro hlow hhigh t ht hid
    rw [lookup_planSpills hllcs hcohorts htasks ht hc hid, planCohortSpills_of hcap htarget,
      if_neg (UInt64.not_lt.mpr hlow), if_pos hhigh, hkept t ht hid]
  . intro hlow hhigh
    have hleast := leastCold_taken cfg current htasks c (c.loadNs - highMark cfg cap)
    refine ⟨_, target, hleast, leastLoaded_spillTarget htarget, ?_⟩
    intro t ht hid
    rw [lookup_planSpills hllcs hcohorts htasks ht hc hid, planCohortSpills_of hcap htarget,
      if_neg (UInt64.not_lt.mpr hlow), if_neg (UInt64.not_lt.mpr hhigh), lookup_growSpills_eq,
      hkept t ht hid]
    exact if_congr (mem_map_pid htasks (fun t ht => (hleast.candidate t ht).listed) ht) rfl rfl

-- The two worlds agree on the cohort's own tasks.
structure SameMembers (c : CohortSnapshot) (tasks : List TaskSnapshot) (current : Spills)
    (tasks' : List TaskSnapshot) (current' : Spills) : Prop where
  own : (tasks'.filter fun t => t.cohortId = c.id) = tasks.filter fun t => t.cohortId = c.id
  spilled : ∀ t ∈ tasks, t.cohortId = c.id → current'.lookup t.pid = current.lookup t.pid

variable {tasks' : List TaskSnapshot} {current' : Spills} {cohorts' : List CohortSnapshot}
  {t : TaskSnapshot}

theorem SameMembers.mem (h : SameMembers c tasks current tasks' current') (ht : t ∈ tasks)
    (hid : t.cohortId = c.id)
    : t ∈ tasks' := by
  have hmem : t ∈ tasks.filter fun t => t.cohortId = c.id :=
    List.mem_filter.mpr ⟨ht, decide_eq_true hid⟩
  rw [← h.own] at hmem
  exact (List.mem_filter.mp hmem).1

theorem coldMembers_eq (cfg : SpillCfg) (tasks : List TaskSnapshot) (current : Spills)
    (c : CohortSnapshot)
    : coldMembers cfg tasks current c
        =
      ((tasks.filter fun t => t.cohortId = c.id).filter fun t =>
        t.pid ∉ current ∧ t.dutyNs < coldCeiling cfg).insertionSort
          fun a b => a.dutyNs ≤ b.dutyNs := by
  unfold coldMembers
  dsimp only
  congr 1
  rw [List.filter_filter]
  apply List.filter_congr
  intro t ht
  by_cases hid : t.cohortId = c.id
  . have hsame : t.pid ∈ alreadySpilled tasks current c ↔ t.pid ∈ current := by
      rw [mem_alreadySpilled]
      exact ⟨And.left, fun hmem => ⟨hmem, t, ht, rfl, hid⟩⟩
    simp only [hid, hsame, true_and, decide_true, Bool.and_true]
    rfl
  . simp [hid]

theorem SameMembers.coldMembers (h : SameMembers c tasks current tasks' current')
    : coldMembers cfg tasks' current' c = coldMembers cfg tasks current c := by
  rw [coldMembers_eq, coldMembers_eq, h.own]
  congr 1
  apply List.filter_congr
  intro t ht
  rw [List.mem_filter, decide_eq_true_eq] at ht
  have hsame : t.pid ∉ current' ↔ t.pid ∉ current := by
    rw [← AList.lookup_eq_none, ← AList.lookup_eq_none, h.spilled t ht.1 ht.2]
  simp only [hsame]

theorem SameMembers.lookup (h : SameMembers c tasks current tasks' current') (ht : t ∈ tasks)
    (hid : t.cohortId = c.id)
    : (planCohortSpills cfg llcs tasks' current' ∅ c).lookup t.pid
        =
      (planCohortSpills cfg llcs tasks current ∅ c).lookup t.pid := by
  have hkept : (keepSpilled tasks' current' c ∅).lookup t.pid
      = (keepSpilled tasks current c ∅).lookup t.pid := by
    rw [lookup_keepSpilled_eq, lookup_keepSpilled_eq]
    exact (keptOf_eq_lookup (h.mem ht hid) hid current').trans
      ((h.spilled t ht hid).trans (keptOf_eq_lookup ht hid current).symm)
  unfold planCohortSpills
  split
  . dsimp only
    split
    . rfl
    . split
      . exact hkept
      . rw [lookup_growSpills_eq, lookup_growSpills_eq, h.coldMembers, hkept]
  . rfl

theorem planSpills_least_cold {cap : UInt64} (cfg : SpillCfg) (current : Spills)
    (hcohorts : (cohorts.map (·.id)).Nodup) (htasks : (tasks.map (·.pid)).Nodup) (hc : c ∈ cohorts)
    (hcap : (spillCapacity llcs).lookup c.homeLlc = some cap)
    (hother : ∃ l ∈ llcs, l.llc ≠ c.homeLlc)
    : SpillsOf cfg llcs tasks current c cap (planSpills cfg llcs tasks current cohorts)
        ∧ ∀ cohorts' tasks' current', (cohorts'.map (·.id)).Nodup → (tasks'.map (·.pid)).Nodup
          → c ∈ cohorts' → SameMembers c tasks current tasks' current'
          → ∀ t ∈ tasks, t.cohortId = c.id
            → (planSpills cfg llcs tasks' current' cohorts').lookup t.pid
                = (planSpills cfg llcs tasks current cohorts).lookup t.pid := by
  refine ⟨spillsOf_planSpills hcohorts htasks hc hcap hother, ?_⟩
  intro cohorts' tasks' current' hcohorts' htasks' hc' hsame t ht hid
  obtain ⟨target, htarget⟩ := exists_spillTarget hother
  have hllcs := two_le_of_marks hcap htarget
  rw [lookup_planSpills hllcs hcohorts htasks ht hc hid,
    lookup_planSpills hllcs hcohorts' htasks' (hsame.mem ht hid) hc' hid]
  exact hsame.lookup ht hid

def overloaded : CohortSnapshot :=
  { id := 1, homeLlc := 0, pinned := false, nrTasks := 4, loadNs := 200000000, residencyMs := none }

def llcPair : List LlcLoad :=
  [{ llc := 0, loadNs := 200000000, capacityNs := 200000000 },
    { llc := 1, loadNs := 0, capacityNs := 200000000 }]

def taskOf (pid : Pid) (dutyNs : UInt64) : TaskSnapshot :=
  { pid := pid, tgid := 10, cohortId := 1, dutyNs := dutyNs, homeNs := 0, comm := [] }

-- The two coldest of three cold members make up for 10 ms.
theorem two_coldest_spilled
    : let tasks := [taskOf 10 100000000, taskOf 11 8000000, taskOf 12 7000000, taskOf 13 9000000]
      SpillsOf {} llcPair tasks ∅ overloaded 200000000 (planSpills {} llcPair tasks ∅ [overloaded])
        ∧ (planSpills {} llcPair tasks ∅ [overloaded]).items = [(11, 1), (12, 1)] :=
  ⟨(planSpills_least_cold {} ∅ (by decide) (by decide) (List.mem_singleton_self _)
    (by decide +kernel) (by decide)).1, by decide +kernel⟩

end Coldest

section Hot

variable {cfg : SpillCfg} {llcs : List LlcLoad} {tasks : List TaskSnapshot} {current : Spills}
  {cohorts : List CohortSnapshot} {c : CohortSnapshot} {t : TaskSnapshot}

-- What one tick plans the spills from.
structure Snapshot where
  llcs : List LlcLoad
  cohorts : List CohortSnapshot
  tasks : List TaskSnapshot
  distinct : (tasks.map (·.pid)).Nodup

def nextSpills (cfg : SpillCfg) (current : Spills) (k : Snapshot) : Spills :=
  planSpills cfg k.llcs k.tasks current k.cohorts

def HotAtHome (cfg : SpillCfg) (current : Spills) (k : Snapshot) : Prop :=
  ∀ t ∈ k.tasks, coldCeiling cfg ≤ t.dutyNs → t.pid ∉ nextSpills cfg current k

-- The spilled members of such a cohort stay where they are.
def keepsSpilled (cfg : SpillCfg) (llcs : List LlcLoad) (c : CohortSnapshot) : Bool :=
  (spillTarget llcs c).isSome && staysSpilled cfg llcs c

def NoneHeated (cfg : SpillCfg) (current : Spills) (k : Snapshot) : Prop :=
  ∀ t ∈ k.tasks, coldCeiling cfg ≤ t.dutyNs → t.pid ∈ current
    → ∀ c ∈ k.cohorts, t.cohortId = c.id → keepsSpilled cfg k.llcs c = false

instance (k : Snapshot) : Decidable (HotAtHome cfg current k) :=
  inferInstanceAs (Decidable (∀ t ∈ k.tasks, _))

theorem mem_planSpills {pid : Pid}
    : pid ∈ planSpills cfg llcs tasks current cohorts
        ↔
      ∃ c ∈ cohorts, pid ∈ planCohortSpills cfg llcs tasks current ∅ c := by
  have hfold : ∀ (l : List CohortSnapshot) (desired : Spills),
      pid ∈ l.foldl (planCohortSpills cfg llcs tasks current) desired
        ↔ pid ∈ desired ∨ ∃ c ∈ l, pid ∈ planCohortSpills cfg llcs tasks current ∅ c := by
    intro l
    induction l with
    | nil => simp
    | cons c l ih =>
      intro desired
      have hstep : pid ∈ planCohortSpills cfg llcs tasks current desired c
          ↔ pid ∈ desired ∨ pid ∈ planCohortSpills cfg llcs tasks current ∅ c := by
        rw [← AList.lookup_isSome, lookup_planCohortSpills_or, Option.isSome_or, Bool.or_eq_true,
          AList.lookup_isSome, AList.lookup_isSome]
        exact or_comm
      rw [List.foldl_cons, ih, hstep, List.exists_mem_cons_iff, or_assoc]
  unfold planSpills
  split
  . next hllcs =>
    constructor
    . intro h
      exact absurd h (AList.notMem_empty _)
    . rintro ⟨c, _, hmem⟩
      unfold planCohortSpills at hmem
      split at hmem
      . next hcap htarget => exact absurd (two_le_of_marks hcap htarget) (Nat.not_le.mpr hllcs)
      . exact absurd hmem (AList.notMem_empty _)
  . rw [hfold]
    simp

-- A hot task is not chosen, but it is kept.
theorem hot_mem_planCohortSpills (htasks : (tasks.map (·.pid)).Nodup) (ht : t ∈ tasks)
    (hhot : coldCeiling cfg ≤ t.dutyNs)
    : t.pid ∈ planCohortSpills cfg llcs tasks current ∅ c
        ↔
      keepsSpilled cfg llcs c = true ∧ t.pid ∈ current ∧ t.cohortId = c.id := by
  have halready : t.pid ∈ alreadySpilled tasks current c ↔ t.pid ∈ current ∧ t.cohortId = c.id := by
    rw [mem_alreadySpilled]
    apply and_congr_right
    intro _
    constructor
    . rintro ⟨u, hu, hpid, hid⟩
      rw [← List.inj_on_of_nodup_map htasks hu ht hpid]
      exact hid
    . intro hid
      exact ⟨t, ht, rfl, hid⟩
  have hkept : t.pid ∈ keepSpilled tasks current c ∅ ↔ t.pid ∈ current ∧ t.cohortId = c.id := by
    rw [← halready, ← AList.lookup_isSome, lookup_keepSpilled_eq]
    split
    . next hmem => simp [hmem, AList.lookup_isSome, (mem_alreadySpilled.mp hmem).1]
    . next hnot => simp [hnot]
  have hnot : ∀ excess, t.pid ∉ (taken excess 0 (coldMembers cfg tasks current c)).map (·.pid) := by
    intro excess hmem
    obtain ⟨u, hu, hpid⟩ := List.mem_map.mp hmem
    have hcold := candidate_iff.mp (mem_of_mem_taken hu)
    rw [List.inj_on_of_nodup_map htasks hcold.listed ht hpid] at hcold
    exact absurd hcold.cold (UInt64.not_lt.mpr hhot)
  unfold keepsSpilled staysSpilled
  cases htarget : spillTarget llcs c with
  | none =>
    unfold planCohortSpills
    rw [htarget]
    simp
  | some target =>
    cases hcap : (spillCapacity llcs).lookup c.homeLlc with
    | none =>
      unfold planCohortSpills
      rw [hcap]
      simp
    | some cap =>
      rw [planCohortSpills_of hcap htarget, Option.isSome_some, Option.any_some, Bool.true_and,
        decide_eq_true_eq, ← UInt64.not_lt]
      split
      . next hlow => simp [hlow]
      . next hlow =>
        simp only [hlow, not_false_eq_true, true_and]
        split
        . exact hkept
        . rw [← hkept, ← AList.lookup_isSome, lookup_growSpills_eq, if_neg (hnot _),
            AList.lookup_isSome]

theorem hotAtHome_iff (current : Spills) (k : Snapshot)
    : HotAtHome cfg current k ↔ NoneHeated cfg current k := by
  have hmem : ∀ t ∈ k.tasks, coldCeiling cfg ≤ t.dutyNs
      → (t.pid ∉ nextSpills cfg current k
        ↔ (t.pid ∈ current → ∀ c ∈ k.cohorts, t.cohortId = c.id → keepsSpilled cfg k.llcs c = false)) := by
    intro t ht hhot
    unfold nextSpills
    rw [mem_planSpills]
    simp only [hot_mem_planCohortSpills k.distinct ht hhot]
    constructor
    . intro hnone hcurrent c hc hid
      rw [Bool.eq_false_iff]
      intro hkeeps
      exact hnone ⟨c, hc, hkeeps, hcurrent, hid⟩
    . rintro hnone ⟨c, hc, hkeeps, hcurrent, hid⟩
      rw [hnone hcurrent c hc hid] at hkeeps
      contradiction
  constructor
  . intro h t ht hhot
    exact (hmem t ht hhot).mp (h t ht hhot)
  . intro h t ht hhot
    exact (hmem t ht hhot).mpr (h t ht hhot)

theorem hot_stay_home_iff (cfg : SpillCfg) (ticks : List Snapshot)
    : Streak.Throughout (nextSpills cfg) (HotAtHome cfg) ∅ ticks
        ↔
      Streak.Throughout (nextSpills cfg) (NoneHeated cfg) ∅ ticks := by
  apply Streak.throughout_congr (I := fun _ => True) (R := fun _ _ => True)
  . intro current k _ _
    exact hotAtHome_iff current k
  . exact fun _ _ _ _ _ => trivial
  . trivial
  . exact Streak.throughout_of_forall fun _ _ => trivial

-- An idle member of an overloaded cohort is spilled, and wakes up.
theorem woken_member_stays_spilled
    : ¬ Streak.Throughout (nextSpills {}) (HotAtHome {}) ∅
        [⟨llcPair, [overloaded], [taskOf 10 0], by decide⟩,
          ⟨llcPair, [overloaded], [taskOf 10 200000000], by decide⟩] := by
  decide +kernel

end Hot

end Spill
