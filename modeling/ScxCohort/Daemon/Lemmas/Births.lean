import ScxCohort.Daemon.Lemmas.Orderly

/-!
This module contains what callbacks make while others interfere with them: a cohort has a number that the
callback has drawn from `cohort_seq`, and every callback draws its own.
-/

namespace World

open Bpf

-- The number that a callback has drawn, until it has been used for a policy, and for counters.
structure Pending where
  policy : Option CohortId := none
  counters : Option CohortId := none

def enterPending (op : Op) (s s' : Maps) (c : Pending) : Pending :=
  if op = (.counters, .write) then
    if s'.cohortSeq = s.cohortSeq then c else ⟨some s'.cohortSeq, some s'.cohortSeq⟩
  else if op = (.cohortPolicy, .update) then
    { c with policy := none }
  else if op = (.cohortCounters, .update) then
    { c with counters := none }
  else
    c

-- A number is drawn, or at most used up.
inductive Counts (x y : Maps × Pending) : Prop where
  | kept (seq : y.1.cohortSeq = x.1.cohortSeq)
    (policy : ∀ id, y.2.policy = some id → x.2.policy = some id)
    (counters : ∀ id, y.2.counters = some id → x.2.counters = some id)
  | drawn (seq : y.1.cohortSeq = x.1.cohortSeq + 1) (held : y.2 = ⟨some y.1.cohortSeq, some y.1.cohortSeq⟩)

structure Bears (real : LlcId → Prop) (x y : Maps × Pending) : Prop where
  keys : KeysGrow x.1 y.1
  tgids : ∀ tgid, tgid ∈ x.1.tgidCohort → tgid ∈ y.1.tgidCohort
  policy : ∀ id, id ∈ y.1.cohortPolicy
    → id ∈ x.1.cohortPolicy ∨ x.2.policy = some id ∧ y.2.policy = none
  counters : ∀ id, id ∈ y.1.cohortCounters
    → id ∈ x.1.cohortCounters ∨ x.2.counters = some id ∧ y.2.counters = none
  counts : Counts x y
  homed : Homed real x.1 → Homed real y.1

-- Nobody else touches what a callback has drawn.
def birthTerms (real : LlcId → Prop) : Proc.Terms Op (Maps × Pending) Unit where
  rely := fun x _ y _ => y.2 = x.2
  allows := fun _ _ _ _ => True
  guar := Bears real
  note := fun _ _ _ _ => ()
  refl := fun _ _ => rfl
  trans := by
    intro x _ y _ z _ h h'
    rw [h', h]

section Childless

-- What an operation does that makes no cohort.
structure Childless (real : LlcId → Prop) (s s' : Maps) : Prop where
  policy : ∀ id, id ∈ s'.cohortPolicy ↔ id ∈ s.cohortPolicy
  counters : ∀ id, id ∈ s'.cohortCounters ↔ id ∈ s.cohortCounters
  tgids : ∀ tgid, tgid ∈ s.tgidCohort → tgid ∈ s'.tgidCohort
  seq : s'.cohortSeq = s.cohortSeq
  homed : Homed real s → Homed real s'

variable {real : LlcId → Prop}

theorem Childless.same {s s' : Maps} (hp : s'.cohortPolicy = s.cohortPolicy)
    (hc : ∀ id, id ∈ s'.cohortCounters ↔ id ∈ s.cohortCounters) (ht : s'.tgidCohort = s.tgidCohort)
    (hseq : s'.cohortSeq = s.cohortSeq) (hs : s'.spillTasks = s.spillTasks)
    : Childless real s s' := by
  refine ⟨?_, hc, ?_, hseq, fun h => h.same hp hs⟩
  . intro id
    rw [hp]
  . intro tgid
    rw [ht]
    exact fun h => h

theorem Childless.of_eq {s s' : Maps} (hp : s'.cohortPolicy = s.cohortPolicy)
    (hc : s'.cohortCounters = s.cohortCounters) (ht : s'.tgidCohort = s.tgidCohort)
    (hseq : s'.cohortSeq = s.cohortSeq) (hs : s'.spillTasks = s.spillTasks)
    : Childless real s s' := by
  apply Childless.same hp _ ht hseq hs
  intro id
  rw [hc]

theorem Childless.refl (s : Maps) : Childless real s s := Childless.of_eq rfl rfl rfl rfl rfl

theorem Childless.modify (s : Maps) (id : CohortId) (f : CohortCounters → CohortCounters)
    : Childless real s { s with cohortCounters := s.cohortCounters.modify id f } :=
  Childless.same rfl (fun id' => BoundedMap.mem_modify _ _ _ id') rfl rfl rfl

theorem Childless.dropSpill (s : Maps) (pid : Pid)
    : Childless real s { s with spillTasks := s.spillTasks.delete pid } :=
  ⟨fun _ => Iff.rfl, fun _ => Iff.rfl, fun _ h => h, rfl, (Daemon.calm_dropSpill s pid).homed⟩

theorem Childless.keepsRuntime : KeepsRuntime (Childless real) where
  refl := Childless.refl
  stat := fun _ _ => Childless.of_eq rfl rfl rfl rfl rfl
  tctx := fun _ _ _ _ => Childless.of_eq rfl rfl rfl rfl rfl
  headEnqTs := fun _ _ _ => Childless.of_eq rfl rfl rfl rfl rfl
  queues := fun _ _ _ => Childless.of_eq rfl rfl rfl rfl rfl
  idle := fun _ _ => Childless.of_eq rfl rfl rfl rfl rfl
  sample := fun _ _ => Childless.of_eq rfl rfl rfl rfl rfl
  edges := fun _ _ => Childless.of_eq rfl rfl rfl rfl rfl
  wake := fun _ _ _ _ => Childless.of_eq rfl rfl rfl rfl rfl
  nrTasks := fun s id _ => Childless.modify s id _
  dropTaskStat := fun _ _ => Childless.of_eq rfl rfl rfl rfl rfl
  dropSpill := Childless.dropSpill
  anyTctx := fun _ _ _ => Childless.of_eq rfl rfl rfl rfl rfl
  vtimeNow := fun _ _ _ => Childless.of_eq rfl rfl rfl rfl rfl
  anyCounters := Childless.modify
  llcLoad := fun _ _ => Childless.of_eq rfl rfl rfl rfl rfl
  anyTaskStat := fun _ _ _ => Childless.of_eq rfl rfl rfl rfl rfl

theorem Childless.bears {op : Op} {x : Maps × Pending} {s' : Maps} (h : Childless real x.1 s')
    : Bears real x (s', enterPending op x.1 s' x.2) := by
  refine ⟨⟨fun id => (h.policy id).mpr, fun id => (h.counters id).mpr⟩, h.tgids,
    fun id hid => .inl ((h.policy id).mp hid), fun id hid => .inl ((h.counters id).mp hid), ?_, h.homed⟩
  apply Counts.kept h.seq
  . intro id hid
    unfold enterPending at hid
    rw [if_pos h.seq] at hid
    split at hid
    . exact hid
    . split at hid
      . contradiction
      . split at hid <;> exact hid
  . intro id hid
    unfold enterPending at hid
    rw [if_pos h.seq] at hid
    split at hid
    . exact hid
    . split at hid
      . exact hid
      . split at hid
        . contradiction
        . exact hid

variable {α : Type}

def Holding (c : Pending) (x : Maps × Pending) (_ : Unit) : Prop := x.2 = c

theorem stable_holding {c : Pending} : (birthTerms real).Stable (Holding c) := by
  intro x _ y _ hrely h
  exact hrely.trans h

theorem stable_true : (birthTerms real).Stable fun _ _ => True := fun _ _ _ _ _ _ => trivial

theorem safe_of_childless {p : BpfM α} (hp : p.Keeps (Childless real)) (x : Maps × Pending)
    : (Proc.record enterPending p).Safe (birthTerms real) (fun _ _ _ => True) x () := by
  apply Proc.safe_of_keeps hp.record stable_true _ trivial
  rintro _ y _ ⟨s', c⟩ ⟨op, h, heq⟩ _
  dsimp only at h heq
  subst heq
  exact ⟨h.bears, trivial⟩

end Childless

section Admission

variable {g : Globals} {p : TaskStruct} {fork : Bool} {parent : Option TaskStruct} {alloc : Bool}

theorem safe_pureBirth {real : LlcId → Prop} {α : Type} (a : α) (x : Maps × Pending)
    : (Proc.record enterPending (pure a : BpfM α)).Safe (birthTerms real) (fun _ _ _ => True) x () :=
  safe_of_childless (Proc.keeps_pure a) x

theorem keeps_drawRr {real : LlcId → Prop}
    : (Proc.atomic (MapName.counters, Access.write) fun s : Maps =>
    (s.rrCtr, { s with rrCtr := s.rrCtr + 1 })).Keeps (Childless real) := by
  apply Proc.keeps_atomic
  intro s
  exact Childless.of_eq rfl rfl rfl rfl rfl

theorem safe_drawNumber {real : LlcId → Prop} (x : Maps × Pending)
    : (Proc.record enterPending (Proc.atomic (MapName.counters, Access.write) fun s : Maps =>
        (s.cohortSeq, { s with cohortSeq := s.cohortSeq + 1 }))).Safe (birthTerms real)
        (fun seq => Holding ⟨some (seq + 1), some (seq + 1)⟩) x () := by
  rw [Proc.record_atomic]
  apply Proc.safe_atomic stable_true (fun _ => stable_holding) _ trivial
  intro x _ _ _
  have hseq : x.1.cohortSeq + 1 ≠ x.1.cohortSeq := by
    intro heq
    simp at heq
  have hheld : enterPending (.counters, .write) x.1 { x.1 with cohortSeq := x.1.cohortSeq + 1 } x.2
      = ⟨some (x.1.cohortSeq + 1), some (x.1.cohortSeq + 1)⟩ := by
    unfold enterPending
    rw [if_pos rfl, if_neg hseq]
  refine ⟨⟨KeysGrow.same rfl rfl, fun _ h => h, fun _ h => .inl h, fun _ h => .inl h, .drawn rfl hheld,
    fun h => h.same rfl rfl⟩, hheld⟩

theorem safe_recordUpdate {real : LlcId → Prop} {m : MapName} {upd : Maps → Except MapErr Maps}
    {f : Maps → Maps}
    {c c' : Pending} (hrun : ∀ s, ((tryUpdate m upd).run s).2 = f s)
    (h : ∀ x : Maps × Pending, x.2 = c
      → Bears real x (f x.1, c') ∧ enterPending (m, .update) x.1 (f x.1) x.2 = c')
    {x : Maps × Pending} (hx : Holding c x ())
    : (Proc.record enterPending (tryUpdate m upd)).Safe (birthTerms real) (fun _ => Holding c') x () := by
  apply Proc.safe_atomic stable_holding (fun _ => stable_holding) _ hx
  intro x _ hx _
  have hrun := hrun x.1
  unfold tryUpdate at hrun
  rw [Proc.run_atomic] at hrun
  dsimp only
  rw [hrun]
  obtain ⟨hbears, hheld⟩ := h x hx
  rw [hheld]
  exact ⟨hbears, rfl⟩

theorem safe_usePolicy {real : LlcId → Prop} {id : CohortId} {policy : CohortPolicy}
    (hhome : real policy.homeLlc)
    {x : Maps × Pending} (hx : Holding ⟨some id, some id⟩ x ())
    : (Proc.record enterPending (updatePolicy id policy .noExist)).Safe (birthTerms real)
        (fun _ => Holding ⟨none, some id⟩) x () := by
  apply safe_recordUpdate (fun s => run_updatePolicy s id .noExist policy) _ hx
  intro x hx
  refine ⟨⟨?_, fun _ h => h, ?_, fun _ h => .inl h, ?_, fun h => h.setPolicy _ hhome .noExist⟩, ?_⟩
  . exact ⟨fun _ h => BoundedMap.mem_updateD_of_mem h _ _ _, fun _ h => h⟩
  . intro id' hid'
    cases BoundedMap.mem_of_mem_updateD hid' with
    | inl heq =>
      rw [heq, hx]
      exact .inr ⟨rfl, rfl⟩
    | inr hold => exact .inl hold
  . refine .kept rfl ?_ ?_
    . intro id' h
      contradiction
    . intro id' h
      rw [hx]
      exact h
  . rw [hx]
    rfl

theorem safe_useCounters {real : LlcId → Prop} {id : CohortId} {counters : CohortCounters}
    {x : Maps × Pending}
    (hx : Holding ⟨none, some id⟩ x ())
    : (Proc.record enterPending (updateCounters id counters .noExist)).Safe (birthTerms real)
        (fun _ => Holding {}) x () := by
  apply safe_recordUpdate (fun s => run_updateCounters s id .noExist counters) _ hx
  intro x hx
  refine ⟨⟨?_, fun _ h => h, fun _ h => .inl h, ?_, ?_, fun h => h.same rfl rfl⟩, ?_⟩
  . exact ⟨fun _ h => h, fun _ h => BoundedMap.mem_updateD_of_mem h _ _ _⟩
  . intro id' hid'
    cases BoundedMap.mem_of_mem_updateD hid' with
    | inl heq =>
      rw [heq, hx]
      exact .inr ⟨rfl, rfl⟩
    | inr hold => exact .inl hold
  . refine .kept rfl ?_ ?_
    . intro id' h
      contradiction
    . intro id' h
      contradiction
  . rw [hx]
    rfl

theorem keeps_enterTgid {real : LlcId → Prop} {tgid : Tgid} {id : CohortId}
    : (updateTgidCohort tgid id .any).Keeps (Childless real) := by
  apply Proc.keeps_atomic
  intro s
  show Childless real s ((updateTgidCohort tgid id .any).run s).2
  rw [run_updateTgidCohort]
  exact ⟨fun _ => Iff.rfl, fun _ => Iff.rfl, fun _ h => BoundedMap.mem_updateD_of_mem h _ _ _, rfl,
    fun h => h.same rfl rfl⟩

theorem keeps_inherit {real : LlcId → Prop} : (inheritedCohort fork parent).Keeps (Childless real) := by
  unfold inheritedCohort
  split
  . apply Proc.keeps_bind (keeps_load Childless.refl)
    intro ptctx
    split
    . apply Proc.keeps_bind (keeps_load Childless.refl)
      intro _
      trivial
    . trivial
  . trivial

theorem keeps_enroll {real : LlcId → Prop} {id : CohortId}
    : (do
        modifyTctx p.tid fun c => { c with cohortId := id }
        countTask id (· + 1)
        startVtime g p.tid id
        let _ ← updateTaskStat p.pid { tgid := p.tgid, cohortId := id, comm := p.comm } : BpfM PUnit).Keeps
        (Childless real) := by
  apply Proc.keeps_bind Childless.keepsRuntime.modifyTctx
  intro _
  apply Proc.keeps_bind Childless.keepsRuntime.exits.countTask
  intro _
  apply Proc.keeps_bind Childless.keepsRuntime.startVtime
  intro _
  apply Proc.keeps_bind
  . apply Proc.keeps_atomic
    intro s
    show Childless real s ((updateTaskStat _ _).run s).2
    rw [run_updateTaskStat]
    exact Childless.of_eq rfl rfl rfl rfl rfl
  . intro _
    trivial

theorem keeps_taskStorage {real : LlcId → Prop}
    : (taskStorageCreate p alloc).Keeps (Childless real) := by
  apply Proc.keeps_atomic
  intro s
  split
  . exact Childless.refl s
  . split <;> exact Childless.of_eq rfl rfl rfl rfl rfl

variable {real : LlcId → Prop} (hfresh : ∀ rr, real (rr % g.nrLlcs))

include hfresh

theorem safe_freshBirth (x : Maps × Pending)
    : (Proc.record enterPending (freshCohort g)).Safe (birthTerms real) (fun _ _ _ => True) x () := by
  unfold freshCohort
  rw [Proc.record_bind]
  apply (safe_of_childless keeps_drawRr x).bind
  intro rr x _ _
  rw [Proc.record_bind]
  apply (safe_drawNumber x).bind
  intro seq x _ hx
  dsimp only
  rw [Proc.record_bind]
  apply (safe_usePolicy (hfresh rr) hx).bind
  intro _ x _ hx
  rw [Proc.record_bind]
  apply (safe_useCounters hx).bind
  intro _ x _ _
  exact safe_pureBirth _ x

theorem safe_assignBirth (x : Maps × Pending)
    : (Proc.record enterPending (assignCohort g p fork parent)).Safe (birthTerms real)
        (fun _ _ _ => True) x () := by
  unfold assignCohort
  rw [Proc.record_bind]
  apply (safe_of_childless (keeps_load Childless.refl) x).bind
  intro idp x _ _
  cases idp with
  | some id => exact safe_pureBirth _ x
  | none =>
    dsimp only
    rw [Proc.record_bind]
    apply (safe_of_childless keeps_inherit x).bind
    intro inherited x _ _
    have hid : (Proc.record enterPending (orFreshCohort g inherited)).Safe (birthTerms real)
        (fun _ _ _ => True) x () := by
      unfold orFreshCohort
      split
      . exact safe_freshBirth hfresh x
      . exact safe_pureBirth _ x
    rw [Proc.record_bind]
    apply hid.bind
    intro id x _ _
    rw [Proc.record_bind]
    apply (safe_of_childless keeps_enterTgid x).bind
    intro _ x _ _
    exact safe_pureBirth _ x

theorem safe_admitBirth (x : Maps × Pending)
    : (Proc.record enterPending (admitTask g p fork parent)).Safe (birthTerms real)
        (fun _ _ _ => True) x () := by
  unfold admitTask
  rw [Proc.record_bind]
  apply (safe_assignBirth hfresh x).bind
  intro id x _ _
  exact safe_of_childless keeps_enroll x

theorem safe_initBirth (x : Maps × Pending)
    : (Proc.record enterPending (cohortInitTask g p fork parent alloc)).Safe (birthTerms real)
        (fun _ _ _ => True) x () := by
  unfold cohortInitTask
  rw [Proc.record_bind]
  apply (safe_of_childless keeps_taskStorage x).bind
  intro t x _ _
  cases t with
  | none => exact safe_pureBirth _ x
  | some t =>
    dsimp only
    rw [Proc.record_bind]
    apply (safe_admitBirth hfresh x).bind
    intro _ x _ _
    exact safe_pureBirth _ x

theorem safe_birth {e : Event} (he : e.isCallback = true) (x : Maps × Pending)
    : (Proc.record enterPending (e.prog g)).Safe (birthTerms real) (fun _ _ _ => True) x () := by
  have hruntime : KeepsRuntime (Childless real) := Childless.keepsRuntime
  cases e with
  | initTask p fork parent alloc =>
    unfold Event.prog ignore
    rw [Proc.record_bind]
    apply (safe_initBirth hfresh x).bind
    intro _ x _ _
    exact safe_pureBirth _ x
  | running p now => exact safe_of_childless hruntime.account.cohortRunning x
  | stopping p now => exact safe_of_childless hruntime.account.cohortStopping x
  | exitTask p => exact safe_of_childless hruntime.cohortExitTask x
  | selectCpu p prevCpu env => exact safe_of_childless (keeps_ignore hruntime.calls.cohortSelectCpu) x
  | enqueue p now => exact safe_of_childless hruntime.calls.cohortEnqueue x
  | dispatch cpu now => exact safe_of_childless (keeps_ignore hruntime.cohortDispatch) x
  | runnable p now => exact safe_of_childless hruntime.cohortRunnable x
  | _ => contradiction

end Admission

end World
