import ScxCohort.Bpf.Lemmas.Admit

/-!
This module contains how many cohorts the maps hold. `assign_cohort` does not look at the results of
its map updates, so the first thread group that asks for a fresh cohort in full maps is admitted to a
cohort that does not exist.
-/

namespace Bpf

structure InitCall where
  p : TaskStruct
  fork : Bool := false
  parent : Option TaskStruct := none
  alloc : Bool := true

variable (g : Globals)

namespace InitCall

def prog (call : InitCall) : BpfM Bool :=
  cohortInitTask g call.p call.fork call.parent call.alloc

def returnsZero (s : Maps) (call : InitCall) : Bool := ((call.prog g).run s).1

def step (s : Maps) (call : InitCall) : Maps := ((call.prog g).run s).2

-- The thread group has no cohort yet and there is none to inherit.
def asksFresh (s : Maps) (call : InitCall) : Bool :=
  (call.alloc || (s.taskCtxs call.p.tid).isSome)
    && (s.tgidCohort.lookup call.p.tgid).isNone
    && inheritedId (withStorage s call.p.tid) call.fork call.parent == cohortInvalid

end InitCall

def freshCalls : Maps → List InitCall → Nat
  | _, [] => 0
  | s, call :: calls =>
    (if call.asksFresh s then 1 else 0) + freshCalls (call.step g s) calls

structure CohortExists (s : Maps) (id : CohortId) : Prop where
  policy : id ∈ s.cohortPolicy
  counters : id ∈ s.cohortCounters

structure HasCohort (s : Maps) (p : TaskStruct) : Prop where
  tctx : ∃ c, s.taskCtxs p.tid = some c ∧ CohortExists s c.cohortId
  tgid : ∀ id, s.tgidCohort.lookup p.tgid = some id → CohortExists s id

-- Every call that returns 0 leaves its task in a cohort that exists.
def AllAdmitted : Maps → List InitCall → Prop
  | _, [] => True
  | s, call :: calls =>
    (call.returnsZero g s = true → HasCohort (call.step g s) call.p)
      ∧ AllAdmitted (call.step g s) calls

-- The cohorts `1, .., n` exist, no others, and every task and thread group is in one of them.
structure Cohorts (n : Nat) (s : Maps) : Prop where
  seq : s.cohortSeq.toNat = n
  policy : ∀ id, id ∈ s.cohortPolicy ↔ 1 ≤ id.toNat ∧ id.toNat ≤ n
  counters : ∀ id, id ∈ s.cohortCounters ↔ 1 ≤ id.toNat ∧ id.toNat ≤ n
  policySize : s.cohortPolicy.size = n
  countersSize : s.cohortCounters.size = n
  tctx : ∀ t c, s.taskCtxs t = some c → c.cohortId.toNat ≤ n
  tgid : ∀ tgid id, s.tgidCohort.lookup tgid = some id → 1 ≤ id.toNat ∧ id.toNat ≤ n

namespace Cohorts

variable {g} {n : Nat} {s : Maps}

theorem exists_iff (h : Cohorts n s) (id : CohortId)
    : CohortExists s id ↔ 1 ≤ id.toNat ∧ id.toNat ≤ n := by
  constructor
  . intro hid
    rw [← h.policy]
    exact hid.policy
  . intro hid
    constructor
    . rw [h.policy]
      exact hid
    . rw [h.counters]
      exact hid

theorem succ_seq (h : Cohorts n s) (hn : n ≤ maxCohorts) : (s.cohortSeq + 1).toNat = n + 1 := by
  have := h.seq
  unfold maxCohorts at hn
  rw [UInt64.toNat_add]
  simp only [UInt64.reduceToNat]
  omega

theorem fresh_not_mem (h : Cohorts n s) (hn : n ≤ maxCohorts)
    : s.cohortSeq + 1 ∉ s.cohortPolicy ∧ s.cohortSeq + 1 ∉ s.cohortCounters := by
  have := h.succ_seq hn
  rw [h.policy, h.counters]
  omega

theorem withStorage (h : Cohorts n s) (t : Tid) : Cohorts n (Bpf.withStorage s t) := by
  unfold Bpf.withStorage
  split
  . exact h
  . refine { h with tctx := ?_ }
    intro t' c hc
    simp only [Function.update_apply] at hc
    split at hc
    . simp only [Option.some.injEq] at hc
      subst hc
      apply Nat.zero_le
    . exact h.tctx t' c hc

theorem setTgid (h : Cohorts n s) {id : CohortId} (hid : 1 ≤ id.toNat ∧ id.toNat ≤ n) (tgid : Tgid)
    : Cohorts n { s with tgidCohort := s.tgidCohort.updateD tgid id .any } := by
  refine { h with tgid := ?_ }
  intro tgid' id' hlookup
  cases BoundedMap.lookup_updateD s.tgidCohort tgid id .any tgid' with
  | inl hold =>
    rw [hold] at hlookup
    exact h.tgid tgid' id' hlookup
  | inr hnew =>
    rw [hnew.2] at hlookup
    simp only [Option.some.injEq] at hlookup
    rw [← hlookup]
    exact hid

theorem fresh (h : Cohorts n s) (hn : n < maxCohorts) : Cohorts (n + 1) (withFreshCohort g s) := by
  have hseq := h.succ_seq (Nat.le_of_lt hn)
  obtain ⟨hpolicy, hcounters⟩ := h.fresh_not_mem (Nat.le_of_lt hn)
  obtain ⟨mp, hmp⟩ := BoundedMap.update_noExist_of_room hpolicy (by rw [h.policySize]; exact hn)
    ({ homeLlc := s.rrCtr % g.nrLlcs } : CohortPolicy)
  obtain ⟨mc, hmc⟩ := BoundedMap.update_noExist_of_room hcounters (by rw [h.countersSize]; exact hn)
    ({} : CohortCounters)
  have hrange : ∀ id : CohortId,
      (id = s.cohortSeq + 1 ∨ 1 ≤ id.toNat ∧ id.toNat ≤ n) ↔ 1 ≤ id.toNat ∧ id.toNat ≤ n + 1 := by
    intro id
    rw [← UInt64.toNat_inj, hseq]
    omega
  unfold withFreshCohort BoundedMap.updateD
  rw [hmp, hmc]
  constructor <;> dsimp only
  . exact hseq
  . intro id
    rw [BoundedMap.mem_update_ok hmp, h.policy, hrange]
  . intro id
    rw [BoundedMap.mem_update_ok hmc, h.counters, hrange]
  . rw [BoundedMap.size_update_ok hmp, if_neg hpolicy, h.policySize]
  . rw [BoundedMap.size_update_ok hmc, if_neg hcounters, h.countersSize]
  . intro t c hc
    have := h.tctx t c hc
    omega
  . intro tgid id hid
    have := h.tgid tgid id hid
    omega

theorem enroll (h : Cohorts n s) {id : CohortId} (hid : id.toNat ≤ n) (p : TaskStruct)
    : Cohorts n (Bpf.enroll g s p id) := by
  unfold Bpf.enroll
  constructor <;> dsimp only
  . exact h.seq
  . exact h.policy
  . intro id'
    rw [BoundedMap.mem_modify, h.counters]
  . exact h.policySize
  . rw [BoundedMap.size_modify, h.countersSize]
  . intro t c hc
    simp only [Function.update_apply] at hc
    split at hc
    . obtain ⟨c', _, rfl⟩ := Option.map_eq_some_iff.mp hc
      rw [startAt_cohortId]
      exact hid
    . exact h.tctx t c hc
  . exact h.tgid

theorem hasCohort_enroll (h : Cohorts n s) {id : CohortId} (hid : 1 ≤ id.toNat ∧ id.toNat ≤ n)
    (p : TaskStruct) (hp : (s.taskCtxs p.tid).isSome = true)
    : HasCohort (Bpf.enroll g s p id) p := by
  have h' := h.enroll (g := g) hid.2 p
  obtain ⟨c, hc⟩ := Option.isSome_iff_exists.mp hp
  constructor
  . refine ⟨startAt g s id { c with cohortId := id }, ?_, ?_⟩
    . simp [Bpf.enroll, hc]
    . rw [startAt_cohortId, h'.exists_iff]
      exact hid
  . intro id' hid'
    rw [h'.exists_iff]
    exact h'.tgid _ _ hid'

end Cohorts

section

variable {g} {n : Nat} {s : Maps} {call : InitCall}

theorem InitCall.step_of_fails (h : call.returnsZero g s = false) : call.step g s = s := by
  unfold InitCall.returnsZero InitCall.prog at h
  unfold InitCall.step InitCall.prog
  rw [run_cohortInitTask] at h ⊢
  split at h
  . contradiction
  . next hno => rw [if_neg hno]

theorem InitCall.step_of_returnsZero (h : call.returnsZero g s = true)
    : call.step g s = (admitted g s call.p call.fork call.parent).2 := by
  unfold InitCall.returnsZero InitCall.prog at h
  unfold InitCall.step InitCall.prog
  rw [run_cohortInitTask] at h ⊢
  split at h
  . next hyes => rw [if_pos hyes]
  . contradiction

theorem InitCall.asksFresh_iff
    : call.asksFresh s = true
        ↔
      call.returnsZero g s = true ∧ s.tgidCohort.lookup call.p.tgid = none
        ∧ inheritedId (withStorage s call.p.tid) call.fork call.parent = cohortInvalid := by
  unfold InitCall.asksFresh InitCall.returnsZero InitCall.prog
  rw [run_cohortInitTask]
  split
  . next h => simp [h]
  . next h => simp [h]

theorem inheritedId_le {fork : Bool} {parent : Option TaskStruct} (h : Cohorts n s)
    : (inheritedId s fork parent).toNat ≤ n := by
  unfold inheritedId
  split
  . split
    . next c hc => exact h.tctx _ c hc
    . apply Nat.zero_le
  . apply Nat.zero_le

-- A call that finds a cohort leaves the cohorts as they are.
theorem cohorts_step_kept (h : Cohorts n s) (hfresh : call.asksFresh s = false)
    : Cohorts n (call.step g s)
      ∧ (call.returnsZero g s = true → HasCohort (call.step g s) call.p) := by
  cases hret : call.returnsZero g s with
  | false =>
    rw [InitCall.step_of_fails hret]
    simp [h]
  | true =>
    rw [InitCall.step_of_returnsZero hret]
    have h₀ := h.withStorage call.p.tid
    have hsome := withStorage_isSome s call.p.tid
    unfold admitted assigned
    rw [withStorage_tgidCohort]
    cases hlookup : s.tgidCohort.lookup call.p.tgid with
    | some id =>
      have hid := h.tgid _ _ hlookup
      exact ⟨h₀.enroll hid.2 _, fun _ => h₀.hasCohort_enroll hid _ hsome⟩
    | none =>
      have hinherited : inheritedId (withStorage s call.p.tid) call.fork call.parent ≠ cohortInvalid := by
        intro heq
        have : call.asksFresh s = true := InitCall.asksFresh_iff.mpr ⟨hret, hlookup, heq⟩
        rw [hfresh] at this
        contradiction
      have hid : 1 ≤ (inheritedId (withStorage s call.p.tid) call.fork call.parent).toNat
          ∧ (inheritedId (withStorage s call.p.tid) call.fork call.parent).toNat ≤ n := by
        constructor
        . rw [ne_eq, ← UInt64.toNat_inj] at hinherited
          unfold cohortInvalid at hinherited
          rw [UInt64.toNat_zero] at hinherited
          omega
        . apply inheritedId_le h₀
      dsimp only
      rw [if_neg hinherited]
      have h₁ := h₀.setTgid hid call.p.tgid
      rw [withStorage_tgidCohort] at h₁
      exact ⟨h₁.enroll hid.2 _, fun _ => h₁.hasCohort_enroll hid _ hsome⟩

theorem step_fresh (hfresh : call.asksFresh s = true)
    : call.step g s
        =
      enroll g
        { withFreshCohort g (withStorage s call.p.tid) with
          tgidCohort :=
            s.tgidCohort.updateD call.p.tgid ((withStorage s call.p.tid).cohortSeq + 1) .any }
        call.p ((withStorage s call.p.tid).cohortSeq + 1) := by
  obtain ⟨hret, hlookup, hinherited⟩ := InitCall.asksFresh_iff.mp hfresh
  rw [InitCall.step_of_returnsZero hret]
  unfold admitted assigned
  rw [withStorage_tgidCohort, hlookup]
  dsimp only
  rw [if_pos hinherited]

-- While there is room, a call that asks for a fresh cohort gets one.
theorem cohorts_step_fresh (h : Cohorts n s) (hn : n < maxCohorts)
    (hfresh : call.asksFresh s = true)
    : Cohorts (n + 1) (call.step g s) ∧ HasCohort (call.step g s) call.p := by
  rw [step_fresh hfresh]
  have h₀ := h.withStorage call.p.tid
  have hsome := withStorage_isSome s call.p.tid
  have hseq := h₀.succ_seq (Nat.le_of_lt hn)
  have hid : 1 ≤ ((withStorage s call.p.tid).cohortSeq + 1).toNat
      ∧ ((withStorage s call.p.tid).cohortSeq + 1).toNat ≤ n + 1 := by
    omega
  have h₁ := (h₀.fresh (g := g) hn).setTgid hid call.p.tgid
  have htgid : (withFreshCohort g (withStorage s call.p.tid)).tgidCohort = s.tgidCohort := by
    rw [← withStorage_tgidCohort s call.p.tid]
    rfl
  rw [htgid] at h₁
  exact ⟨h₁.enroll hid.2 _, h₁.hasCohort_enroll hid _ hsome⟩

-- In full maps it gets the id of a cohort that neither map has.
theorem not_hasCohort_step_full (h : Cohorts maxCohorts s) (hfresh : call.asksFresh s = true)
    : call.returnsZero g s = true ∧ ¬ HasCohort (call.step g s) call.p := by
  refine ⟨(InitCall.asksFresh_iff.mp hfresh).1, ?_⟩
  rw [step_fresh hfresh]
  intro hhas
  have h₀ := h.withStorage call.p.tid
  obtain ⟨c, hc, hexists⟩ := hhas.tctx
  have hpolicy := (h₀.fresh_not_mem (Nat.le_refl _)).1
  have hfull : maxCohorts ≤ (withStorage s call.p.tid).cohortPolicy.size := by
    rw [h₀.policySize]
  simp only [enroll, Function.update_self] at hc
  obtain ⟨c', _, rfl⟩ := Option.map_eq_some_iff.mp hc
  have hmem := hexists.policy
  rw [startAt_cohortId] at hmem
  obtain ⟨e, he⟩ := BoundedMap.update_of_full hpolicy hfull
    ({ homeLlc := (withStorage s call.p.tid).rrCtr % g.nrLlcs } : CohortPolicy) .noExist
  simp only [enroll, withFreshCohort, BoundedMap.updateD, he] at hmem
  exact hpolicy hmem

end

theorem cohorts_attached : Cohorts 0 (attached g) := by
  rw [attached_eq]
  unfold attachedUpTo
  constructor <;> dsimp only
  . rfl
  . intro id
    simp only [BoundedMap.not_mem_empty, false_iff]
    omega
  . intro id
    simp only [BoundedMap.not_mem_empty, false_iff]
    omega
  . rfl
  . rfl
  . intro t c hc
    contradiction
  . intro tgid id hid
    rw [BoundedMap.lookup_empty] at hid
    contradiction

theorem allAdmitted_iff_of_cohorts {n : Nat} {s : Maps} (calls : List InitCall) (h : Cohorts n s)
    (hn : n ≤ maxCohorts)
    : AllAdmitted g s calls ↔ n + freshCalls g s calls ≤ maxCohorts := by
  induction calls generalizing n s with
  | nil =>
    simp only [AllAdmitted, freshCalls, true_iff]
    exact hn
  | cons call calls ih =>
    unfold AllAdmitted freshCalls
    cases hfresh : call.asksFresh s with
    | false =>
      obtain ⟨hstep, hhas⟩ := cohorts_step_kept (g := g) h hfresh
      rw [ih hstep hn]
      simpa using fun _ => hhas
    | true =>
      rw [if_pos rfl]
      by_cases hroom : n < maxCohorts
      . obtain ⟨hstep, hhas⟩ := cohorts_step_fresh (g := g) h hroom hfresh
        rw [ih hstep hroom]
        simp only [hhas, implies_true, true_and]
        omega
      . have heq : n = maxCohorts := by omega
        subst heq
        obtain ⟨hret, hno⟩ := not_hasCohort_step_full (g := g) h hfresh
        constructor
        . intro hall
          exact absurd (hall.1 hret) hno
        . intro hle
          omega

theorem allAdmitted_iff (calls : List InitCall)
    : AllAdmitted g (attached g) calls ↔ freshCalls g (attached g) calls ≤ maxCohorts := by
  rw [allAdmitted_iff_of_cohorts g calls (cohorts_attached g) (Nat.zero_le _), Nat.zero_add]

-- As long as there is room, every call that asks for a fresh cohort adds one.
theorem cohorts_calls {n : Nat} {s : Maps} (calls : List InitCall) (h : Cohorts n s)
    (hn : n + freshCalls g s calls ≤ maxCohorts)
    : Cohorts (n + freshCalls g s calls) (calls.foldl (InitCall.step g) s) := by
  induction calls generalizing n s with
  | nil => exact h
  | cons call calls ih =>
    unfold freshCalls at hn ⊢
    rw [List.foldl_cons]
    cases hfresh : call.asksFresh s with
    | false =>
      simp only [hfresh, Bool.false_eq_true, if_false, Nat.zero_add] at hn ⊢
      exact ih (cohorts_step_kept (g := g) h hfresh).1 hn
    | true =>
      simp only [hfresh, if_true] at hn ⊢
      have hroom : n < maxCohorts := by omega
      have hstep := (cohorts_step_fresh (g := g) h hroom hfresh).1
      rw [← Nat.add_assoc] at hn ⊢
      exact ih hstep hn

section Attach

-- Attaching admits the existing thread groups one by one, without a parent.
def attachCall (i : Nat) : InitCall :=
  { p := { tid := i, pid := UInt32.ofNat i, tgid := UInt32.ofNat i } }

theorem asksFresh_attachCall {s : Maps} {i : Nat} (h : UInt32.ofNat i ∉ s.tgidCohort)
    : (attachCall i).asksFresh s = true := by
  have hnone := BoundedMap.lookup_eq_none.mpr h
  simp [InitCall.asksFresh, attachCall, inheritedId, hnone]

theorem mem_step_attachCall {s : Maps} {i : Nat} {tgid : Tgid}
    (h : UInt32.ofNat i ∉ s.tgidCohort) (hne : tgid ≠ UInt32.ofNat i) (htgid : tgid ∉ s.tgidCohort)
    : tgid ∉ ((attachCall i).step g s).tgidCohort := by
  rw [step_fresh (asksFresh_attachCall h)]
  rw [← BoundedMap.lookup_eq_none] at htgid ⊢
  simp only [enroll, attachCall]
  rw [BoundedMap.lookup_updateD_ne _ _ _ hne]
  exact htgid

theorem freshCalls_attach (s : Maps) (is : List Nat) (hnodup : (is.map UInt32.ofNat).Nodup)
    (hnew : ∀ i ∈ is, UInt32.ofNat i ∉ s.tgidCohort)
    : freshCalls g s (is.map attachCall) = is.length := by
  induction is generalizing s with
  | nil => rfl
  | cons i is ih =>
    rw [List.map_cons, List.nodup_cons] at hnodup
    have hi := hnew i List.mem_cons_self
    rw [List.map_cons, freshCalls, if_pos (asksFresh_attachCall hi), ih _ hnodup.2]
    . rw [List.length_cons]
      omega
    . intro j hj
      apply mem_step_attachCall g hi
      . intro heq
        apply hnodup.1
        rw [← heq]
        exact List.mem_map_of_mem hj
      . apply hnew
        exact List.mem_cons_of_mem _ hj

theorem nodup_map_ofNat {is : List Nat} (hnodup : is.Nodup) (hlt : ∀ i ∈ is, i < 2 ^ 32)
    : (is.map UInt32.ofNat).Nodup := by
  apply List.Nodup.map_on _ hnodup
  intro i hi j hj heq
  have hi' := hlt i hi
  have hj' := hlt j hj
  have := UInt32.toNat_inj.mpr heq
  simp only [UInt32.toNat_ofNat'] at this
  omega

-- One thread group more than there are slots for cohorts.
theorem attach_not_allAdmitted : ¬ AllAdmitted {} (attached {}) ((List.range 1025).map attachCall) := by
  rw [allAdmitted_iff_of_cohorts {} _ (cohorts_attached {}) (Nat.zero_le _), freshCalls_attach]
  . rw [List.length_range]
    decide
  . apply nodup_map_ofNat List.nodup_range
    intro i hi
    rw [List.mem_range] at hi
    omega
  . rw [attached_eq]
    simp [attachedUpTo]

end Attach

end Bpf
