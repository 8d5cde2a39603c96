import ScxCohort.Bpf.Lemmas.Frontier

/-!
This module contains the steal gate of `cohort_dispatch`. The one time stamp that each LLC keeps stands
for its whole queue: some task has been waiting there since, and nothing has been taken from it since.
-/

namespace Bpf

-- The callbacks that change the queues, and any change of everything else in between.
inductive QueueEvent where
  | enqueue (p : TaskStruct) (now : UInt64)
  | dispatch (cpu : Int) (now : UInt64) (move : MoveToLocal := firstQueued)
  | elsewhere (s' : Maps)

def headEnqTs (s : Maps) (l : LlcId) : UInt64 := (s.llcs l).headEnqTs

namespace QueueEvent

variable (g : Globals)

def step (s : Maps) : QueueEvent → Maps
  | .enqueue p now => Bpf.step g s (.enqueue p now)
  | .dispatch cpu now move => Bpf.step g s (.dispatch cpu now move)
  | .elsewhere s' =>
    { s' with dsqs := s.dsqs, llcs := fun l => { s'.llcs l with headEnqTs := headEnqTs s l } }

def run (s : Maps) (es : List QueueEvent) : Maps := es.foldl (step g) s

theorem run_append (s : Maps) (es es' : List QueueEvent)
    : run g s (es ++ es') = run g (run g s es) es' := by
  unfold run
  rw [List.foldl_append]

def time? : QueueEvent → Option UInt64
  | .enqueue _ now => some now
  | .dispatch _ now _ => some now
  | .elsewhere _ => none

def times (es : List QueueEvent) : List UInt64 := es.filterMap time?

end QueueEvent

section Enqueue

-- An entry is added to the queue of `l`, whose time stamp is renewed if that was empty.
structure Adds (s s' : Maps) (l : LlcId) (e : DsqEntry) : Prop where
  dsqs : s'.dsqs = Function.update s.dsqs l (dsqInsertVtime e (s.dsqs l))
  head : ∀ l', headEnqTs s' l' = if l' = l ∧ s.dsqs l = [] then e.enqAt else headEnqTs s l'

variable {g : Globals} {s : Maps} {p : TaskStruct} {now : UInt64}

theorem headEnqTs_refreshHead (llc : LlcId) (now : UInt64) (l : LlcId) (llcx : LlcCtx)
    : headEnqTs ((refreshHead llc (some llcx) now).run s).2 l
        =
      if l = llc ∧ s.dsqs llc = [] then now else headEnqTs s l := by
  unfold refreshHead
  rw [Proc.run_bind]
  by_cases hempty : s.dsqs llc = []
  . simp only [run_load, hempty, List.isEmpty_nil, Option.isSome_some, and_self, if_true, and_true]
    by_cases hl : l = llc
    . simp [headEnqTs, hl]
    . simp [headEnqTs, hl, Function.update_of_ne]
  . simp [hempty]

-- The LLC whose queue an enqueue chooses.
def chosenLlc (g : Globals) (s : Maps) (p : TaskStruct) : LlcId :=
  if (s.taskCtxs p.tid).isSome then effectiveLlc g s p else llcOfCpu g p.cpu

theorem adds_step_enqueue (hg : g.nrLlcs.toNat ≤ maxLlcs) (s : Maps) (p : TaskStruct) (now : UInt64)
    : ∃ key, Adds s (step g s (.enqueue p now)) (chosenLlc g s p) ⟨p.tid, key, now⟩ := by
  unfold chosenLlc
  cases hc : s.taskCtxs p.tid with
  | none =>
    have hl := llcOfCpu_lt g hg p.cpu
    refine ⟨_, dsqs_step_enqueue_none hc hl now, ?_⟩
    . intro l
      simp [step, Event.prog, cohortEnqueue, lookupTaskCtx, taskStorageGet, hc, enqueueBase,
        run_taskEffectiveLlc_none, lookupLlcCtx, hl, readTctx?, statInc]
      exact headEnqTs_refreshHead _ _ _ _
  | some c =>
    have hl := effectiveLlc_lt g hg s p
    refine ⟨_, dsqs_step_enqueue hc hl now, ?_⟩
    . intro l
      have hsame := samePlacement_effectiveLlc (g := g) (p := p) s
      obtain ⟨f, hf, heq⟩ := hsame.tctx p.tid
      rw [hc, Option.map_some] at heq
      simp [step, Event.prog, cohortEnqueue, run_lookupTaskCtx hc, run_enqueueBase hc hl, readTctx?, heq,
        statInc]
      have hhead := headEnqTs_refreshHead (s := ((taskEffectiveLlc g p (some p.tid)).run s).2)
        (effectiveLlc g s p) now l (s.llcs (effectiveLlc g s p))
      have hold : headEnqTs ((taskEffectiveLlc g p (some p.tid)).run s).2 l = headEnqTs s l := by
        unfold headEnqTs
        rw [hsame.llcs]
      rw [hsame.dsqs, hold] at hhead
      exact hhead

end Enqueue

section Dispatch

-- An entry of the queue of `l` is taken, and the time stamp of `l` renewed.
structure Takes (s s' : Maps) (l : LlcId) (now : UInt64) : Prop where
  dsqs : ∃ i < (s.dsqs l).length, s'.dsqs = Function.update s.dsqs l ((s.dsqs l).eraseIdx i)
  head : ∀ l', headEnqTs s' l' = if l' = l then now else headEnqTs s l'

-- The helper moves a task whenever there is one.
def MoveToLocal.Eager (move : MoveToLocal) : Prop := ∀ l q, q ≠ [] → (move l q).isSome = true

variable {g : Globals} {s : Maps} {move : MoveToLocal} {cpu : Int} {now : UInt64} {l : LlcId}

theorem move_nil {q : List DsqEntry} (h : q = []) : move l q = none := by
  subst h
  cases move l [] with
  | none => rfl
  | some i => exact i.elim0

theorem run_dsqMoveToLocal_none (h : move l (s.dsqs l) = none) (cpu : Int)
    : (dsqMoveToLocal move l cpu).run s = (false, s) := by
  unfold dsqMoveToLocal
  rw [Proc.run_atomic, h]

theorem run_dsqMoveToLocal_some {i : Fin (s.dsqs l).length} (h : move l (s.dsqs l) = some i) (cpu : Int)
    : (dsqMoveToLocal move l cpu).run s
        =
      (true,
        { s with
          dsqs := Function.update s.dsqs l ((s.dsqs l).eraseIdx i)
          localDsq := ((s.dsqs l)[i].tid, cpu) :: s.localDsq }) := by
  unfold dsqMoveToLocal
  rw [Proc.run_atomic, h]

variable (g s now)

def gateOpen (l : LlcId) : Prop :=
  0 < (s.dsqs l).length ∧ (g.tunables.stealMin.toNat < (s.dsqs l).length
    ∨ now - headEnqTs s l > g.tunables.stealDelayNs)

variable (move)

-- All that a look at the LLCs `is` can end in.
def Steals (myLlc : LlcId) (is : List Nat) (r : Bool × Maps) : Prop :=
  (r = (false, s) ∧ ∀ i ∈ is, UInt32.ofNat i ≠ myLlc → gateOpen g s now (UInt32.ofNat i)
    → move (UInt32.ofNat i) (s.dsqs (UInt32.ofNat i)) = none)
    ∨ (r.1 = true ∧ ∃ l, l ≠ myLlc ∧ gateOpen g s now l ∧ Takes s r.2 l now)

variable {g s now move} {myLlc : LlcId} {i : Nat} {is : List Nat}

theorem run_stealFrom_own (hl : UInt32.ofNat i = l) (hmy : l = myLlc)
    : (stealFrom g move cpu myLlc now (i :: is)).run s = (stealFrom g move cpu myLlc now is).run s := by
  rw [stealFrom, hl]
  simp only [hmy, if_true]

theorem run_stealFrom_closed (hl : UInt32.ofNat i = l) (hmax : l.toNat < maxLlcs)
    (hclosed : ¬ gateOpen g s now l)
    : (stealFrom g move cpu myLlc now (i :: is)).run s = (stealFrom g move cpu myLlc now is).run s := by
  unfold gateOpen headEnqTs at hclosed
  rw [stealFrom, hl]
  dsimp only
  split
  . rfl
  . simp [lookupLlcCtx, hmax, hclosed]

-- An open gate is of no use where the helper moves nothing.
theorem run_stealFrom_refused (hl : UInt32.ofNat i = l) (hne : l ≠ myLlc) (hmax : l.toNat < maxLlcs)
    (hopen : gateOpen g s now l) (hnone : move l (s.dsqs l) = none)
    : (stealFrom g move cpu myLlc now (i :: is)).run s = (stealFrom g move cpu myLlc now is).run s := by
  have hmoved := run_dsqMoveToLocal_none hnone cpu
  unfold gateOpen headEnqTs at hopen
  rw [stealFrom, hl]
  simp [hne, lookupLlcCtx, hmax, hopen, hmoved]

theorem run_stealFrom_open (hl : UInt32.ofNat i = l) (hne : l ≠ myLlc) (hmax : l.toNat < maxLlcs)
    (hopen : gateOpen g s now l) (hmove : (move l (s.dsqs l)).isSome = true) (cpu : Int) (is : List Nat)
    : ∃ s', (stealFrom g move cpu myLlc now (i :: is)).run s = (true, s') ∧ Takes s s' l now := by
  obtain ⟨j, hj⟩ := Option.isSome_iff_exists.mp hmove
  have hmoved := run_dsqMoveToLocal_some hj cpu
  unfold gateOpen headEnqTs at hopen
  have hrun : (stealFrom g move cpu myLlc now (i :: is)).run s
      = (statInc .steal >>= fun _ => pure true).run
          ((modifyLlc l fun l => { l with headEnqTs := now }).run
            ((dsqMoveToLocal move l cpu).run s).2).2 := by
    rw [stealFrom, hl]
    simp [hne, lookupLlcCtx, hmax, hopen, hmoved]
  rw [hrun, hmoved]
  simp only [run_modifyLlc, Proc.run_bind, statInc, run_store, Proc.run_pure]
  refine ⟨_, rfl, ⟨j, j.isLt, rfl⟩, ?_⟩
  intro l'
  by_cases heq : l' = l
  . simp [headEnqTs, heq]
  . simp [headEnqTs, heq]

instance : Decidable (gateOpen g s now l) := inferInstanceAs (Decidable (_ ∧ _))

-- The loop takes a task from the first LLC whose gate is open and whose queue gives one.
theorem steals_stealFrom (his : ∀ i ∈ is, (UInt32.ofNat i).toNat < maxLlcs)
    : Steals g s move now myLlc is ((stealFrom g move cpu myLlc now is).run s) := by
  induction is with
  | nil =>
    left
    refine ⟨rfl, ?_⟩
    intro i hi
    contradiction
  | cons i is ih =>
    have hrest := ih fun j hj => his j (List.mem_cons_of_mem _ hj)
    have hi := his i List.mem_cons_self
    have hskip (hsame : (stealFrom g move cpu myLlc now (i :: is)).run s
        = (stealFrom g move cpu myLlc now is).run s)
        (hnone : UInt32.ofNat i ≠ myLlc → gateOpen g s now (UInt32.ofNat i)
          → move (UInt32.ofNat i) (s.dsqs (UInt32.ofNat i)) = none)
        : Steals g s move now myLlc (i :: is) ((stealFrom g move cpu myLlc now (i :: is)).run s) := by
      rw [hsame]
      cases hrest with
      | inl h =>
        left
        refine ⟨h.1, ?_⟩
        intro j hj
        rw [List.mem_cons] at hj
        cases hj with
        | inl heq =>
          rw [heq]
          exact hnone
        | inr hj => exact h.2 j hj
      | inr h => exact .inr h
    by_cases hmy : UInt32.ofNat i = myLlc
    . exact hskip (run_stealFrom_own rfl hmy) fun hne => absurd hmy hne
    . by_cases hopen : gateOpen g s now (UInt32.ofNat i)
      . cases hmove : move (UInt32.ofNat i) (s.dsqs (UInt32.ofNat i)) with
        | none => exact hskip (run_stealFrom_refused rfl hmy hi hopen hmove) fun _ _ => hmove
        | some j =>
          obtain ⟨s', hrun, htakes⟩ :=
            run_stealFrom_open rfl hmy hi hopen (Option.isSome_iff_exists.mpr ⟨j, hmove⟩)
            cpu is
          rw [hrun]
          exact .inr ⟨rfl, _, hmy, hopen, htakes⟩
      . exact hskip (run_stealFrom_closed rfl hi hopen) fun _ h => absurd h hopen

-- The loop goes past LLCs that give nothing.
theorem run_stealFrom_none (his : ∀ i ∈ is, (UInt32.ofNat i).toNat < maxLlcs)
    (hnone : ∀ i ∈ is, UInt32.ofNat i ≠ myLlc → gateOpen g s now (UInt32.ofNat i)
      → move (UInt32.ofNat i) (s.dsqs (UInt32.ofNat i)) = none)
    : (stealFrom g move cpu myLlc now is).run s = (false, s) := by
  induction is with
  | nil => rfl
  | cons i is ih =>
    have hi := his i List.mem_cons_self
    have hrest := ih (fun j hj => his j (List.mem_cons_of_mem _ hj))
      (fun j hj => hnone j (List.mem_cons_of_mem _ hj))
    by_cases hmy : UInt32.ofNat i = myLlc
    . rw [run_stealFrom_own rfl hmy, hrest]
    . by_cases hopen : gateOpen g s now (UInt32.ofNat i)
      . rw [run_stealFrom_refused rfl hmy hi hopen (hnone i List.mem_cons_self hmy hopen), hrest]
      . rw [run_stealFrom_closed rfl hi hopen, hrest]

theorem step_dispatch_own (hg : g.nrLlcs.toNat ≤ maxLlcs)
    (h : (move (llcOfCpu g cpu) (s.dsqs (llcOfCpu g cpu))).isSome = true)
    : Takes s (step g s (.dispatch cpu now move)) (llcOfCpu g cpu) now := by
  have hl := llcOfCpu_lt g hg cpu
  obtain ⟨i, hi⟩ := Option.isSome_iff_exists.mp h
  have hmoved := run_dsqMoveToLocal_some hi cpu
  refine ⟨⟨i, i.isLt, ?_⟩, ?_⟩
  . simp [step, Event.prog, ignore, cohortDispatch, lookupLlcCtx, hl, hmoved]
  . intro l
    by_cases heq : l = llcOfCpu g cpu
    . simp [step, Event.prog, ignore, cohortDispatch, lookupLlcCtx, hl, hmoved, headEnqTs, heq]
    . simp [step, Event.prog, ignore, cohortDispatch, lookupLlcCtx, hl, hmoved, headEnqTs, heq]

theorem step_dispatch_empty (h : move (llcOfCpu g cpu) (s.dsqs (llcOfCpu g cpu)) = none) (now : UInt64)
    : step g s (.dispatch cpu now move)
        =
      ((stealFrom g move cpu (llcOfCpu g cpu) now (List.range g.nrLlcs.toNat)).run s).2 := by
  simp [step, Event.prog, ignore, cohortDispatch, lookupLlcCtx, run_dsqMoveToLocal_none h]

theorem lt_maxLlcs_of_mem_range (hg : g.nrLlcs.toNat ≤ maxLlcs) {i : Nat}
    (hi : i ∈ List.range g.nrLlcs.toNat)
    : (UInt32.ofNat i).toNat < maxLlcs := by
  rw [List.mem_range] at hi
  rw [UInt32.toNat_ofNat']
  omega

theorem step_dispatch_steals (hg : g.nrLlcs.toNat ≤ maxLlcs)
    (h : move (llcOfCpu g cpu) (s.dsqs (llcOfCpu g cpu)) = none) (now : UInt64)
    : ∃ r, Steals g s move now (llcOfCpu g cpu) (List.range g.nrLlcs.toNat) r
        ∧ step g s (.dispatch cpu now move) = r.2 :=
  ⟨_, steals_stealFrom fun _ => lt_maxLlcs_of_mem_range hg, step_dispatch_empty h now⟩

end Dispatch

section Invariant

-- The time stamp of a queue in use is not before the arrival of some task that waits there.
structure Stamped (s : Maps) (clock : UInt64) : Prop where
  waiting : ∀ l, s.dsqs l ≠ [] → ∃ e ∈ s.dsqs l, e.enqAt ≤ headEnqTs s l
  entries : ∀ l, ∀ e ∈ s.dsqs l, e.enqAt ≤ clock
  head : ∀ l, headEnqTs s l ≤ clock

variable {g : Globals} {s s' : Maps} {clock now : UInt64} {l : LlcId}

theorem Stamped.later (h : Stamped s clock) (hle : clock ≤ now) : Stamped s now :=
  ⟨h.waiting, fun l e he => UInt64.le_trans (h.entries l e he) hle,
    fun l => UInt64.le_trans (h.head l) hle⟩

theorem Stamped.adds {e : DsqEntry} (h : Stamped s clock) (hadds : Adds s s' l e)
    (hnow : e.enqAt = clock)
    : Stamped s' clock := by
  refine ⟨?_, ?_, ?_⟩
  . intro l' hne
    rw [hadds.dsqs, Function.update_apply] at hne ⊢
    rw [hadds.head]
    by_cases hl : l' = l
    . rw [if_pos hl] at hne ⊢
      by_cases hempty : s.dsqs l = []
      . rw [if_pos ⟨hl, hempty⟩]
        refine ⟨e, ?_, UInt64.le_refl _⟩
        rw [mem_dsqInsertVtime]
        exact .inl rfl
      . rw [if_neg (by tauto)]
        obtain ⟨e', he', hle⟩ := h.waiting l hempty
        rw [hl]
        refine ⟨e', ?_, hle⟩
        rw [mem_dsqInsertVtime]
        exact .inr he'
    . rw [if_neg hl] at hne ⊢
      rw [if_neg (by tauto)]
      exact h.waiting l' hne
  . intro l' e' he'
    rw [hadds.dsqs, Function.update_apply] at he'
    split at he'
    . rw [mem_dsqInsertVtime] at he'
      cases he' with
      | inl heq =>
        rw [heq, hnow]
        apply UInt64.le_refl
      | inr he' => exact h.entries l e' he'
    . exact h.entries l' e' he'
  . intro l'
    rw [hadds.head]
    split
    . rw [hnow]
      apply UInt64.le_refl
    . exact h.head l'

theorem Stamped.takes (h : Stamped s clock) (htakes : Takes s s' l clock) : Stamped s' clock := by
  have hmem : ∀ l', ∀ e ∈ s'.dsqs l', e ∈ s.dsqs l' := by
    intro l' e he
    obtain ⟨i, _, hdsqs⟩ := htakes.dsqs
    rw [hdsqs, Function.update_apply] at he
    split at he
    . next hl =>
      rw [hl]
      exact List.mem_of_mem_eraseIdx he
    . exact he
  refine ⟨?_, ?_, ?_⟩
  . intro l' hne
    rw [htakes.head]
    split
    . obtain ⟨e, he⟩ := List.exists_mem_of_ne_nil _ hne
      exact ⟨e, he, h.entries l' e (hmem l' e he)⟩
    . next hl =>
      obtain ⟨i, _, hdsqs⟩ := htakes.dsqs
      rw [hdsqs, Function.update_of_ne hl] at hne ⊢
      exact h.waiting l' hne
  . intro l' e he
    exact h.entries l' e (hmem l' e he)
  . intro l'
    rw [htakes.head]
    split
    . apply UInt64.le_refl
    . exact h.head l'

-- All that one event does to the queues.
theorem queueEvent_cases (hg : g.nrLlcs.toNat ≤ maxLlcs) (s : Maps) (e : QueueEvent)
    : (s.dsqs = (e.step g s).dsqs ∧ ∀ l, headEnqTs (e.step g s) l = headEnqTs s l)
      ∨ (∃ now l entry, e.time? = some now ∧ entry.enqAt = now ∧ Adds s (e.step g s) l entry)
      ∨ (∃ now l, e.time? = some now ∧ Takes s (e.step g s) l now) := by
  cases e with
  | enqueue p now =>
    obtain ⟨key, hadds⟩ := adds_step_enqueue hg s p now
    exact .inr (.inl ⟨now, _, _, rfl, rfl, hadds⟩)
  | dispatch cpu now move =>
    cases hown : move (llcOfCpu g cpu) (s.dsqs (llcOfCpu g cpu)) with
    | none =>
      obtain ⟨r, hsteals, heq⟩ := step_dispatch_steals hg hown now
      cases hsteals with
      | inl h =>
        left
        unfold QueueEvent.step
        dsimp only
        rw [heq, h.1]
        exact ⟨rfl, fun _ => rfl⟩
      | inr h =>
        obtain ⟨_, l, _, _, htakes⟩ := h
        refine .inr (.inr ⟨now, l, rfl, ?_⟩)
        unfold QueueEvent.step
        dsimp only
        rw [heq]
        exact htakes
    | some i =>
      exact .inr (.inr ⟨now, _, rfl, step_dispatch_own hg (Option.isSome_iff_exists.mpr ⟨i, hown⟩)⟩)
  | elsewhere s' => exact .inl ⟨rfl, fun _ => rfl⟩

theorem stamped_step (hg : g.nrLlcs.toNat ≤ maxLlcs) {e : QueueEvent} (h : Stamped s clock)
    (htime : ∀ now, e.time? = some now → clock ≤ now)
    : Stamped (e.step g s) (e.time?.getD clock) := by
  have hclock : clock ≤ e.time?.getD clock := by
    cases hnow : e.time? with
    | none => apply UInt64.le_refl
    | some now => exact htime now hnow
  rcases queueEvent_cases hg s e with ⟨hdsqs, hhead⟩ | ⟨now, l, entry, hnow, hentry, hadds⟩
    | ⟨now, l, hnow, htakes⟩
  . have h' := h.later hclock
    refine ⟨?_, ?_, ?_⟩
    . intro l
      rw [← hdsqs, hhead]
      exact h'.waiting l
    . rw [← hdsqs]
      exact h'.entries
    . intro l
      rw [hhead]
      exact h'.head l
  . rw [hnow] at hclock ⊢
    exact (h.later hclock).adds hadds hentry
  . rw [hnow] at hclock ⊢
    exact (h.later hclock).takes htakes

theorem stamped_run (hg : g.nrLlcs.toNat ≤ maxLlcs) (es : List QueueEvent) (h : Stamped s clock)
    (hclock : (QueueEvent.times es).Pairwise (· ≤ ·)) (hstart : ∀ t ∈ QueueEvent.times es, clock ≤ t)
    (hend : ∀ t ∈ QueueEvent.times es, t ≤ now) (hle : clock ≤ now)
    : Stamped (QueueEvent.run g s es) now := by
  induction es generalizing s clock with
  | nil => exact h.later hle
  | cons e es ih =>
    unfold QueueEvent.times at hclock hstart hend
    rw [List.filterMap_cons] at hclock hstart hend
    have hstep := stamped_step hg h (e := e)
    cases htime : e.time? with
    | none =>
      simp only [htime] at hclock hstart hend hstep
      exact ih (hstep (by simp)) hclock hstart hend hle
    | some t =>
      simp only [htime] at hclock hstart hend hstep
      rw [List.pairwise_cons] at hclock
      apply ih (hstep _) hclock.2 hclock.1
      . intro t' ht'
        exact hend t' (List.mem_cons_of_mem _ ht')
      . exact hend t List.mem_cons_self
      . rintro t' ⟨⟩
        exact hstart t List.mem_cons_self

theorem stamped_attached (g : Globals) : Stamped (attached g) 0 := by
  rw [attached_eq]
  unfold attachedUpTo
  refine ⟨?_, ?_, ?_⟩
  . intro l hne
    exact absurd rfl hne
  . intro l e he
    contradiction
  . intro l
    unfold headEnqTs
    dsimp only
    split <;> apply UInt64.le_refl

end Invariant

section Exact

variable (g : Globals)

-- No event takes a task from the queue of `l`.
def Untouched (l : LlcId) : Maps → List QueueEvent → Prop
  | _, [] => True
  | s, e :: es => (s.dsqs l).length ≤ ((e.step g s).dsqs l).length ∧ Untouched l (e.step g s) es

-- From `since` on the queue of `l` has been in use and nothing has been taken from it.
def Rests (es : List QueueEvent) (l : LlcId) (since : UInt64) : Prop :=
  ∃ pre mid, es = pre ++ mid ∧ (∀ t ∈ QueueEvent.times pre, t ≤ since)
    ∧ (QueueEvent.run g (attached g) pre).dsqs l ≠ []
    ∧ Untouched g l (QueueEvent.run g (attached g) pre) mid

-- What the dispatch after `es` may take from another LLC, and when it has to take a task.
structure GateExact (es : List QueueEvent) (cpu : Int) (now : UInt64) (s s' : Maps) : Prop where
  sound : ∀ l, l ≠ llcOfCpu g cpu → (s'.dsqs l).length < (s.dsqs l).length
    → s.dsqs (llcOfCpu g cpu) = []
      ∧ (g.tunables.stealMin.toNat < (s.dsqs l).length
        ∨ ∃ e ∈ s.dsqs l, g.tunables.stealDelayNs.toNat < now.toNat - e.enqAt.toNat)
  complete : s.dsqs (llcOfCpu g cpu) = []
    → ∀ l, l ≠ llcOfCpu g cpu → l < g.nrLlcs
    → (g.tunables.stealMin.toNat < (s.dsqs l).length
      ∨ ∃ since, Rests g es l since ∧ g.tunables.stealDelayNs.toNat < now.toNat - since.toNat)
    → ∃ l', (s'.dsqs l').length < (s.dsqs l').length

variable {g} {s s' : Maps} {l : LlcId}

theorem Takes.length_lt {now : UInt64} (h : Takes s s' l now)
    : (s'.dsqs l).length < (s.dsqs l).length := by
  obtain ⟨i, hi, hdsqs⟩ := h.dsqs
  have := List.length_eraseIdx_add_one hi
  rw [hdsqs, Function.update_self]
  omega

theorem Takes.eq_of_length_lt {now : UInt64} {l' : LlcId} (h : Takes s s' l now)
    (hlt : (s'.dsqs l').length < (s.dsqs l').length)
    : l' = l := by
  by_contra hne
  obtain ⟨i, _, hdsqs⟩ := h.dsqs
  rw [hdsqs, Function.update_of_ne hne] at hlt
  omega

theorem headEnqTs_untouched (hg : g.nrLlcs.toNat ≤ maxLlcs) (es : List QueueEvent)
    (hne : s.dsqs l ≠ []) (h : Untouched g l s es)
    : headEnqTs (QueueEvent.run g s es) l = headEnqTs s l ∧ (QueueEvent.run g s es).dsqs l ≠ [] := by
  induction es generalizing s with
  | nil => exact ⟨rfl, hne⟩
  | cons e es ih =>
    obtain ⟨hlen, hrest⟩ := h
    have hne' : (e.step g s).dsqs l ≠ [] := by
      apply List.ne_nil_of_length_pos
      have := List.length_pos_of_ne_nil hne
      omega
    have hhead : headEnqTs (e.step g s) l = headEnqTs s l := by
      rcases queueEvent_cases hg s e with ⟨_, hhead⟩ | ⟨now, l', entry, _, _, hadds⟩
        | ⟨now, l', _, htakes⟩
      . exact hhead l
      . rw [hadds.head, if_neg]
        rintro ⟨rfl, hempty⟩
        exact hne hempty
      . rw [htakes.head, if_neg]
        rintro rfl
        have := htakes.length_lt
        omega
    rw [← hhead]
    exact ih hne' hrest

variable {es : List QueueEvent} {now : UInt64}

theorem head_le_of_rests (hg : g.nrLlcs.toNat ≤ maxLlcs)
    (hclock : (QueueEvent.times es).Pairwise (· ≤ ·)) {since : UInt64} (h : Rests g es l since)
    : headEnqTs (QueueEvent.run g (attached g) es) l ≤ since
      ∧ (QueueEvent.run g (attached g) es).dsqs l ≠ [] := by
  obtain ⟨pre, mid, rfl, hsince, hne, huntouched⟩ := h
  unfold QueueEvent.times at hclock
  rw [List.filterMap_append, List.pairwise_append] at hclock
  have hstamped := stamped_run hg pre (stamped_attached g) hclock.1
    (fun _ _ => UInt64.zero_le) hsince UInt64.zero_le
  have hmid := headEnqTs_untouched hg mid hne huntouched
  rw [QueueEvent.run_append, hmid.1]
  exact ⟨hstamped.head l, hmid.2⟩

theorem toNat_sub_lt_of_gate {a b d : UInt64} (hle : b ≤ a)
    : a - b > d ↔ d.toNat < a.toNat - b.toNat := by
  rw [GT.gt, UInt64.lt_iff_toNat_lt, UInt64.toNat_sub_of_le _ _ hle]

theorem gate_exact (hg : g.nrLlcs.toNat ≤ maxLlcs) (es : List QueueEvent) (cpu : Int) (now : UInt64)
    {move : MoveToLocal} (hmove : move.Eager)
    (hclock : (QueueEvent.times (es ++ [.dispatch cpu now move])).Pairwise (· ≤ ·))
    : GateExact g es cpu now (QueueEvent.run g (attached g) es)
        (step g (QueueEvent.run g (attached g) es) (.dispatch cpu now move)) := by
  unfold QueueEvent.times at hclock
  rw [List.filterMap_append, List.pairwise_append] at hclock
  have hnow : ∀ t ∈ QueueEvent.times es, t ≤ now := by
    intro t ht
    exact hclock.2.2 t ht now List.mem_cons_self
  have hstamped := stamped_run hg es (stamped_attached g) hclock.1 (fun _ _ => UInt64.zero_le) hnow
    UInt64.zero_le
  constructor
  . intro l hforeign hlt
    by_cases hown : (QueueEvent.run g (attached g) es).dsqs (llcOfCpu g cpu) = []
    . refine ⟨hown, ?_⟩
      have hnone : move (llcOfCpu g cpu) _ = none := move_nil hown
      obtain ⟨r, hsteals, heq⟩ := step_dispatch_steals hg hnone now
      rw [heq] at hlt
      cases hsteals with
      | inl h =>
        rw [h.1] at hlt
        exact absurd hlt (Nat.lt_irrefl _)
      | inr h =>
        obtain ⟨_, l', _, hopen, htakes⟩ := h
        rw [← htakes.eq_of_length_lt hlt] at hopen
        cases hopen.2 with
        | inl hmin => exact .inl hmin
        | inr hdelay =>
          right
          obtain ⟨e, he, hle⟩ := hstamped.waiting l (List.ne_nil_of_length_pos hopen.1)
          rw [toNat_sub_lt_of_gate (hstamped.head l)] at hdelay
          rw [UInt64.le_iff_toNat_le] at hle
          exact ⟨e, he, by omega⟩
    . exact absurd ((step_dispatch_own hg (hmove _ _ hown)).eq_of_length_lt hlt) hforeign
  . intro hown l hforeign hl hcause
    obtain ⟨r, hsteals, heq⟩ := step_dispatch_steals hg (move_nil hown) now
    have hopen : gateOpen g (QueueEvent.run g (attached g) es) now l := by
      cases hcause with
      | inl hmin => exact ⟨by omega, .inl hmin⟩
      | inr hrests =>
        obtain ⟨since, hrests, hdelay⟩ := hrests
        have hhead := head_le_of_rests hg hclock.1 hrests
        refine ⟨List.length_pos_of_ne_nil hhead.2, .inr ?_⟩
        rw [toNat_sub_lt_of_gate (hstamped.head l)]
        have := UInt64.le_iff_toNat_le.mp hhead.1
        omega
    rw [heq]
    cases hsteals with
    | inl h =>
      rw [UInt32.lt_iff_toNat_lt] at hl
      have hrefused := h.2 l.toNat (List.mem_range.mpr hl)
      rw [UInt32.ofNat_toNat] at hrefused
      have hgives := hmove l _ (List.ne_nil_of_length_pos hopen.1)
      rw [hrefused hforeign hopen] at hgives
      contradiction
    | inr h =>
      obtain ⟨_, l', _, _, htakes⟩ := h
      exact ⟨l', htakes.length_lt⟩

def stranger : TaskStruct := { tid := 1, pid := 1, tgid := 1, cpu := 1 }

theorem firstQueued_eager : firstQueued.Eager := by
  intro l q hq
  unfold firstQueued
  rw [dif_pos (List.length_pos_of_ne_nil hq)]
  rfl

theorem idle_cpu_steals
    : ∃ l, ((step twoLlcs (QueueEvent.run twoLlcs (attached twoLlcs) [.enqueue stranger 0])
          (.dispatch 0 600000)).dsqs l).length
        < ((QueueEvent.run twoLlcs (attached twoLlcs) [.enqueue stranger 0]).dsqs l).length := by
  have h := gate_exact (g := twoLlcs) (by decide) [.enqueue stranger 0] 0 600000 firstQueued_eager
    (by decide)
  apply h.complete (by decide +kernel) 1 (by decide) (by decide)
  right
  refine ⟨0, ⟨[.enqueue stranger 0], [], rfl, ?_, by decide +kernel, trivial⟩, by decide⟩
  simp [QueueEvent.times, QueueEvent.time?]

end Exact

end Bpf
