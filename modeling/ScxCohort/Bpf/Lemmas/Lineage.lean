import ScxCohort.Bpf.Lemmas.Admit

/-!
This module contains what a forked process inherits. The cohort of the parent is held twice, in
`tgid_cohort` and in the parent's task context; `assign_cohort` reads the latter, and it reads it only
when no earlier process has left an entry for the child's tgid.
-/

namespace Bpf

variable (g : Globals)

-- The fork of a new thread group by a task whose own thread group is in cohort `m`.
structure Forks (s : Maps) (p q : TaskStruct) (m : CohortId) : Prop where
  tid : p.tid ≠ q.tid
  tgid : p.tgid ≠ q.tgid
  parent : s.tgidCohort.lookup q.tgid = some m

structure InCohort (s : Maps) (p : TaskStruct) (m : CohortId) : Prop where
  tctx : ∃ c, s.taskCtxs p.tid = some c ∧ c.cohortId = m
  tgid : s.tgidCohort.lookup p.tgid = some m

def cachedCohort (s : Maps) (q : TaskStruct) : CohortId :=
  match s.taskCtxs q.tid with
  | some c => c.cohortId
  | none => cohortInvalid

-- Either the parent's context is up to date, or it has no cohort and the next fresh id is `m`.
def CacheAgrees (s : Maps) (q : TaskStruct) (m : CohortId) : Prop :=
  if cachedCohort s q = cohortInvalid then s.cohortSeq + 1 = m else cachedCohort s q = m

def LineageKept (s : Maps) (p q : TaskStruct) (m : CohortId) : Prop :=
  match s.tgidCohort.lookup p.tgid with
  | some id => id = m
  | none => CacheAgrees s q m ∧ s.tgidCohort.size < 65536

-- A property of the forks that return 0, of the state before each of them and the state after it.
def AtForks (P : Maps → Maps → TaskStruct → TaskStruct → CohortId → Prop)
    : Maps → List Event → Prop
  | _, [] => True
  | s, e :: es =>
    (∀ p q m alloc, e = .initTask p true (some q) alloc → Forks s p q m
      → ((cohortInitTask g p true (some q) alloc).run s).1 = true → P s (step g s e) p q m)
      ∧ AtForks P (step g s e) es

def ForksInherit (s : Maps) (es : List Event) : Prop :=
  AtForks g (fun _ s' p _ m => InCohort s' p m) s es

def ForksCovered (s : Maps) (es : List Event) : Prop :=
  AtForks g (fun s _ p q m => LineageKept s p q m) s es

variable {g}

theorem inCohort_enroll {s : Maps} {p : TaskStruct} {id m : CohortId}
    (hp : (s.taskCtxs p.tid).isSome = true)
    : InCohort (enroll g s p id) p m ↔ id = m ∧ s.tgidCohort.lookup p.tgid = some m := by
  obtain ⟨c, hc⟩ := Option.isSome_iff_exists.mp hp
  have htctx : (enroll g s p id).taskCtxs p.tid = some (startAt g s id { c with cohortId := id }) := by
    simp [enroll, hc]
  constructor
  . intro h
    obtain ⟨c', hc', heq⟩ := h.tctx
    rw [htctx, Option.some.injEq] at hc'
    rw [← hc', startAt_cohortId] at heq
    exact ⟨heq, h.tgid⟩
  . intro h
    refine ⟨⟨_, htctx, ?_⟩, h.2⟩
    rw [startAt_cohortId]
    exact h.1

theorem inheritedId_withStorage {s : Maps} {t : Tid} {q : TaskStruct} (h : t ≠ q.tid)
    : inheritedId (withStorage s t) true (some q) = cachedCohort s q := by
  have htctx : (withStorage s t).taskCtxs q.tid = s.taskCtxs q.tid := by
    unfold withStorage
    split
    . rfl
    . apply Function.update_of_ne (Ne.symm h)
  exact congrArg
    (fun c : Option TaskCtx =>
      match c with
      | some c => c.cohortId
      | none => cohortInvalid)
    htctx

theorem inherits_iff {s : Maps} {p q : TaskStruct} {m : CohortId} (h : Forks s p q m)
    : InCohort (admitted g s p true (some q)).2 p m ↔ LineageKept s p q m := by
  have hsome := withStorage_isSome s p.tid
  unfold admitted assigned LineageKept
  rw [withStorage_tgidCohort, inheritedId_withStorage h.tid]
  cases hlookup : s.tgidCohort.lookup p.tgid with
  | some id =>
    rw [inCohort_enroll hsome, withStorage_tgidCohort, hlookup]
    simp
  | none =>
    have hnew := BoundedMap.lookup_eq_none.mp hlookup
    have hseq : (withStorage s p.tid).cohortSeq = s.cohortSeq := by
      unfold withStorage
      split <;> rfl
    unfold CacheAgrees
    dsimp only
    split
    . rw [inCohort_enroll]
      . rw [BoundedMap.lookup_updateD_new hnew, hseq]
        by_cases hroom : s.tgidCohort.size < 65536 <;> simp [hroom]
      . exact hsome
    . rw [inCohort_enroll]
      . rw [BoundedMap.lookup_updateD_new hnew]
        by_cases hroom : s.tgidCohort.size < 65536 <;> simp [hroom]
      . exact hsome

theorem forksInherit_iff (s : Maps) (es : List Event)
    : ForksInherit g s es ↔ ForksCovered g s es := by
  unfold ForksInherit ForksCovered
  induction es generalizing s with
  | nil => rfl
  | cons e es ih =>
    unfold AtForks
    rw [ih]
    apply and_congr_left
    intro _
    apply forall₄_congr
    intro p q m alloc
    apply forall₃_congr
    intro he hforks hzero
    rw [he, step_initTask_of_returnsZero hzero]
    apply inherits_iff hforks

section StaleCache

def shell : TaskStruct := { tid := 1, pid := 10, tgid := 10 }

def builder : TaskStruct := { tid := 2, pid := 20, tgid := 20 }

def compiler : TaskStruct := { tid := 3, pid := 30, tgid := 30 }

-- The daemon merges the builder's cohort 2 into cohort 1; the builder forks before its next wakeup.
theorem stale_cache_not_forksInherit
    : ¬ ForksInherit {} (attached {})
        [.initTask shell false none true, .initTask builder false none true,
          .setTgid 20 1 .exist, .dropCounters 2, .dropPolicy 2,
          .initTask compiler true (some builder) true] := by
  intro h
  have hfork := h.2.2.2.2.2.1 compiler builder 1 true rfl
    ⟨by decide, by decide, by decide +kernel⟩ (by decide +kernel)
  have htgid := hfork.tgid
  revert htgid
  decide +kernel

end StaleCache

end Bpf
