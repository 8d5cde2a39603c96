import Mathlib.Algebra.BigOperators.Group.Finset.Basic
import Mathlib.Algebra.Order.BigOperators.Group.Finset
import ScxCohort.Bpf.Lemmas.Admit
import ScxCohort.Daemon.Lemmas.Turns
import ScxCohort.Lib.Record

/-!
This module contains where a task is once it has been queued, however callbacks and the daemon's ticks
interleave: every enqueue queues it once, and it stays queued until a CPU takes it.
-/

namespace World

open Bpf

section Queued

variable (g : Globals) (t : Tid)

def waiting (q : List DsqEntry) : Nat := q.countP fun e => e.tid = t

-- How often the task waits in the queue of an LLC, or has been sent to a CPU.
def queued (s : Maps) : Nat :=
  ∑ i ∈ Finset.range g.nrLlcs.toNat, waiting t (s.dsqs (UInt32.ofNat i))
    + s.localDsq.countP fun e => e.1 = t

variable {g t}

-- A write to the queue of one LLC and to those of the CPUs changes the sum by what it changes there.
theorem queued_update (s s' : Maps) {llc : LlcId} {q : List DsqEntry} (hllc : llc < g.nrLlcs)
    (hdsqs : s'.dsqs = Function.update s.dsqs llc q)
    : queued g t s' + (waiting t (s.dsqs llc) + s.localDsq.countP fun e => e.1 = t)
        =
      queued g t s + (waiting t q + s'.localDsq.countP fun e => e.1 = t) := by
  have hmem : llc.toNat ∈ Finset.range g.nrLlcs.toNat := Finset.mem_range.mpr hllc
  have hof : UInt32.ofNat llc.toNat = llc := UInt32.ofNat_toNat
  have hrest : ∑ i ∈ (Finset.range g.nrLlcs.toNat).erase llc.toNat, waiting t (s'.dsqs (UInt32.ofNat i))
      = ∑ i ∈ (Finset.range g.nrLlcs.toNat).erase llc.toNat, waiting t (s.dsqs (UInt32.ofNat i)) := by
    apply Finset.sum_congr rfl
    intro i hi
    obtain ⟨hne, hi⟩ := Finset.mem_erase.mp hi
    rw [hdsqs, Function.update_of_ne]
    intro heq
    apply hne
    rw [← heq, UInt32.toNat_ofNat_of_lt']
    have := Finset.mem_range.mp hi
    have := g.nrLlcs.toNat_lt
    simp only [UInt32.size]
    omega
  unfold queued
  rw [← Finset.add_sum_erase _ _ hmem, ← Finset.add_sum_erase _ _ hmem, hrest, hof, hdsqs,
    Function.update_self]
  omega

theorem waiting_dsqInsertVtime (e : DsqEntry) (q : List DsqEntry)
    : waiting t (dsqInsertVtime e q) = waiting t q + if e.tid = t then 1 else 0 := by
  induction q with
  | nil => simp [dsqInsertVtime, waiting]
  | cons e' q ih =>
    unfold dsqInsertVtime
    split
    . simp [waiting, List.countP_cons]
    . unfold waiting at ih ⊢
      rw [List.countP_cons, List.countP_cons, ih]
      omega

theorem queued_insert (s : Maps) {llc : LlcId} (hllc : llc < g.nrLlcs) (e : DsqEntry)
    : queued g t { s with dsqs := Function.update s.dsqs llc (dsqInsertVtime e (s.dsqs llc)) }
        =
      queued g t s + if e.tid = t then 1 else 0 := by
  have hupd := queued_update (t := t) s
    { s with dsqs := Function.update s.dsqs llc (dsqInsertVtime e (s.dsqs llc)) } hllc rfl
  rw [waiting_dsqInsertVtime] at hupd
  dsimp only at hupd
  omega

theorem queued_insertLocal (s : Maps) (tid : Tid) (cpu : Int)
    : queued g t { s with localDsq := (tid, cpu) :: s.localDsq }
        =
      queued g t s + if tid = t then 1 else 0 := by
  unfold queued
  rw [List.countP_cons]
  simp only [decide_eq_true_eq]
  omega

end Queued

section Moves

-- What moves a task from one queue to the other, or no task at all.
def Conserves (g : Globals) (t : Tid) (s s' : Maps) : Prop := queued g t s' = queued g t s

variable {g : Globals} {t : Tid}

theorem conserves_refl (s : Maps) : Conserves g t s s := rfl

theorem conserves_placement : KeepsPlacement (Conserves g t) where
  refl := conserves_refl
  tctxErr := fun _ => rfl
  tctx := fun _ _ _ _ => rfl

theorem conserves_edges : KeepsEdges (Conserves g t) where
  refl := conserves_refl
  tctxErr := fun _ => rfl
  sample := fun _ _ => rfl
  edges := fun _ _ => rfl

theorem conserves_stat : KeepsStat (Conserves g t) where
  refl := conserves_refl
  tctxErr := fun _ => rfl
  stat := fun _ _ => rfl

theorem conserves_wake : KeepsWake (Conserves g t) where
  refl := conserves_refl
  tctxErr := fun _ => rfl
  wake := fun _ _ _ _ => rfl

theorem conserves_account : KeepsAccount (Conserves g t) where
  refl := conserves_refl
  tctxErr := fun _ => rfl
  account := fun _ _ _ _ => rfl
  vtimeNow := fun _ _ _ => rfl
  loadSum := fun _ _ _ => rfl
  llcLoad := fun _ _ => rfl
  runtime := fun _ _ _ _ => rfl

theorem conserves_exit : KeepsExit (Conserves g t) where
  refl := conserves_refl
  tctxErr := fun _ => rfl
  resolve := fun _ _ _ => rfl
  nrTasks := fun _ _ _ => rfl
  dropTaskStat := fun _ _ => rfl
  dropSpill := fun _ _ => rfl

theorem conserves_admit : KeepsAdmit (Conserves g t) where
  refl := conserves_refl
  tctxErr := fun _ => rfl
  seq := fun _ _ _ => rfl
  policy := fun _ _ _ _ _ _ => rfl
  counters := fun _ _ _ _ _ _ => rfl
  tgid := fun _ _ _ _ _ _ => rfl
  nrTasks := fun _ _ _ => rfl
  storage := fun _ _ _ => rfl
  start := fun _ _ _ _ => rfl
  taskStat := fun _ _ _ _ _ => rfl

theorem conserves_writes : Daemon.KeepsWrites (Conserves g t) where
  refl := conserves_refl
  policy := fun _ _ _ _ => rfl
  counters := fun _ _ _ _ => rfl
  tgid := fun _ _ _ _ => rfl
  spill := fun _ _ => rfl
  edges := fun _ _ => rfl
  dropPolicy := fun _ _ => rfl
  dropCounters := fun _ _ => rfl
  dropTgid := fun _ _ => rfl

theorem conserves_modifyLlc {llc : LlcId} {f : LlcCtx → LlcCtx}
    : (modifyLlc llc f).Keeps (Conserves g t) :=
  keeps_store fun _ => rfl

theorem conserves_refreshHead {llc : LlcId} {llcx : Option LlcCtx} {now : UInt64}
    : (refreshHead llc llcx now).Keeps (Conserves g t) := by
  apply Proc.keeps_bind conserves_stat.load
  intro queued
  split
  . exact conserves_modifyLlc
  . trivial

variable {move : MoveToLocal}

theorem conserves_moveToLocal {llc : LlcId} (hllc : llc < g.nrLlcs) (cpu : Int)
    : (dsqMoveToLocal move llc cpu).Keeps (Conserves g t) := by
  apply Proc.keeps_atomic
  intro s
  split
  . exact conserves_refl s
  . next i _ =>
    have hupd := queued_update (t := t) s
      { s with
        dsqs := Function.update s.dsqs llc ((s.dsqs llc).eraseIdx i)
        localDsq := ((s.dsqs llc)[i].tid, cpu) :: s.localDsq } hllc rfl
    have hcount := (List.getElem_cons_eraseIdx_perm i.isLt).countP_eq fun e => e.tid = t
    unfold waiting at hupd
    rw [List.countP_cons] at hupd hcount
    unfold Conserves
    dsimp only at hupd ⊢
    simp only [Fin.getElem_fin] at hupd ⊢
    omega

theorem conserves_steal {cpu : Int} {myLlc : LlcId} {now : UInt64} (is : List Nat)
    (his : ∀ i ∈ is, UInt32.ofNat i < g.nrLlcs)
    : (stealFrom g move cpu myLlc now is).Keeps (Conserves g t) := by
  induction is with
  | nil => trivial
  | cons i is ih =>
    have hrest := ih fun i' hi' => his i' (List.mem_cons_of_mem _ hi')
    unfold stealFrom
    dsimp only
    split
    . exact hrest
    . apply Proc.keeps_bind conserves_stat.load
      intro llcx
      split
      . exact hrest
      . apply Proc.keeps_bind conserves_stat.load
        intro queued
        split
        . apply Proc.keeps_bind (conserves_moveToLocal (his i List.mem_cons_self) cpu)
          intro moved
          split
          . apply Proc.keeps_bind conserves_modifyLlc
            intro _
            apply Proc.keeps_bind conserves_stat.statInc
            intro _
            trivial
          . exact hrest
        . exact hrest

variable (hpos : 0 < g.nrLlcs)

include hpos

theorem safeLlc_lt_nrLlcs (llc : LlcId) : safeLlc g llc < g.nrLlcs := by
  unfold safeLlc
  split
  . next h => exact h
  . exact hpos

theorem llcOfCpu_lt_nrLlcs (cpu : Int) : llcOfCpu g cpu < g.nrLlcs := by
  unfold llcOfCpu
  split
  . exact safeLlc_lt_nrLlcs hpos _
  . exact hpos

theorem conserves_dispatch (cpu : Int) (now : UInt64)
    : (cohortDispatch g move cpu now).Keeps (Conserves g t) := by
  unfold cohortDispatch
  apply Proc.keeps_bind conserves_stat.load
  intro llcx
  apply Proc.keeps_bind (conserves_moveToLocal (llcOfCpu_lt_nrLlcs hpos cpu) cpu)
  intro moved
  split
  . split
    . apply Proc.keeps_bind conserves_modifyLlc
      intro _
      trivial
    . trivial
  . apply conserves_steal
    intro i hi
    have hi := List.mem_range.mp hi
    rw [UInt32.lt_iff_toNat_lt, UInt32.toNat_ofNat_of_lt']
    . exact hi
    . have := g.nrLlcs.toNat_lt
      simp only [UInt32.size]
      omega

theorem returns_taskHomeLlc (p : TaskStruct) (tctx : Option Tid)
    : (taskHomeLlc g p tctx).Returns (· < g.nrLlcs) := by
  unfold taskHomeLlc
  split
  . exact llcOfCpu_lt_nrLlcs hpos p.cpu
  . apply Proc.returns_bind
    intro spill
    split
    . apply Proc.returns_bind
      intro _
      exact safeLlc_lt_nrLlcs hpos _
    . apply Proc.returns_bind
      intro _
      apply Proc.returns_bind
      intro id
      apply Proc.returns_bind
      intro policy
      apply Proc.returns_bind
      intro _
      cases policy with
      | none => exact llcOfCpu_lt_nrLlcs hpos p.cpu
      | some policy => exact safeLlc_lt_nrLlcs hpos policy.homeLlc

theorem returns_enqueueBase (p : TaskStruct) (tctx : Option Tid)
    : (enqueueBase g p tctx).Returns (fun base => base.1 < g.nrLlcs) := by
  have heffective : (taskEffectiveLlc g p tctx).Returns (· < g.nrLlcs) := by
    unfold taskEffectiveLlc
    apply (returns_taskHomeLlc hpos p tctx).bind
    intro home hhome
    apply Proc.returns_bind
    intro llcx
    split
    . exact hhome
    . split
      . show (if _ then llcOfCpu g p.cpu else home) < g.nrLlcs
        split
        . exact llcOfCpu_lt_nrLlcs hpos p.cpu
        . exact hhome
      . exact hhome
  unfold enqueueBase
  apply heffective.bind
  intro llc hllc
  apply Proc.returns_bind
  intro llcx
  apply Proc.returns_bind
  intro c
  exact hllc

end Moves

section Tally

variable {g : Globals} {t : Tid} {α : Type}

-- How often a callback has queued the task.
def tally (g : Globals) (t : Tid) (_ : Op) (s s' : Maps) (c : Nat) : Nat :=
  c + (queued g t s' - queued g t s)

-- Nobody else touches the tally of a callback, and no operation loses a task.
def tallyTerms (g : Globals) (t : Tid) : Proc.Terms Op (Maps × Nat) Unit where
  rely := fun x _ y _ => y.2 = x.2
  allows := fun _ _ _ _ => True
  guar := fun x y => queued g t y.1 + x.2 = queued g t x.1 + y.2
  note := fun _ _ _ _ => ()
  refl := fun _ _ => rfl
  trans := by
    intro x _ y _ z _ h h'
    rw [h', h]

def Counted (c : Nat) (x : Maps × Nat) (_ : Unit) : Prop := x.2 = c

theorem stable_counted {c : Nat} : (tallyTerms g t).Stable (Counted c) := by
  intro x _ y _ hrely h
  exact Eq.trans hrely h

theorem safe_of_conserves {p : BpfM α} (hp : p.Keeps (Conserves g t)) {c : Nat} {x : Maps × Nat}
    (hx : Counted c x ())
    : (Proc.record (tally g t) p).Safe (tallyTerms g t) (fun _ => Counted c) x () := by
  apply Proc.safe_of_keeps hp.record stable_counted _ hx
  rintro _ x _ ⟨s', c'⟩ ⟨op, hsame, hc⟩ hx
  dsimp only at hsame hc
  unfold tally at hc
  rw [show queued g t s' = queued g t x.1 from hsame, Nat.sub_self, Nat.add_zero] at hc
  subst hc
  constructor
  . show queued g t s' + x.2 = queued g t x.1 + x.2
    rw [show queued g t s' = queued g t x.1 from hsame]
  . exact hx

theorem safe_insert {m : MapName} {f : Maps → Maps} {k : Nat}
    (hf : ∀ s, queued g t (f s) = queued g t s + k)
    {x : Maps × Nat} (hx : Counted 0 x ())
    : (Proc.record (tally g t) (store m f)).Safe (tallyTerms g t) (fun _ => Counted k) x () := by
  apply Proc.safe_atomic stable_counted (fun _ => stable_counted) _ hx
  intro x _ hx _
  have hk : tally g t (m, .write) x.1 (f x.1) x.2 = k := by
    unfold tally
    rw [hf, show x.2 = 0 from hx]
    omega
  dsimp only
  rw [hk]
  refine ⟨?_, rfl⟩
  show queued g t (f x.1) + x.2 = queued g t x.1 + k
  rw [hf, show x.2 = 0 from hx, Nat.add_zero]

theorem safe_enqueue (hpos : 0 < g.nrLlcs) (p : TaskStruct) (now : UInt64) {x : Maps × Nat}
    (hx : Counted 0 x ())
    : (Proc.record (tally g t) (cohortEnqueue g p now)).Safe (tallyTerms g t)
        (fun _ => Counted (if p.tid = t then 1 else 0)) x () := by
  unfold cohortEnqueue
  rw [Proc.record_bind]
  apply (safe_of_conserves conserves_stat.lookupTaskCtx hx).bind
  intro tctx x _ hx
  rw [Proc.record_bind]
  apply ((safe_of_conserves conserves_placement.enqueueBase hx).returns
    (returns_enqueueBase hpos p tctx).record).bind
  intro ⟨llc, llcx, base⟩ x _ ⟨hllc, hx⟩
  rw [Proc.record_bind]
  apply (safe_of_conserves conserves_stat.readTctx? hx).bind
  intro c x _ hx
  dsimp only
  rw [Proc.record_bind]
  apply (safe_of_conserves conserves_refreshHead hx).bind
  intro _ x _ hx
  rw [Proc.record_bind]
  apply (safe_of_conserves conserves_stat.statInc hx).bind
  intro _ x _ hx
  apply safe_insert _ hx
  intro s
  exact queued_insert s hllc _

-- A wakeup sends its task to a CPU, or leaves it to an enqueue.
def AtMostOnce (p : TaskStruct) (t : Tid) (x : Maps × Nat) (_ : Unit) : Prop :=
  x.2 ≤ if p.tid = t then 1 else 0

theorem safe_unplaced {p : TaskStruct} {cpu : Int} {x : Maps × Nat} (hx : Counted 0 x ())
    : (Proc.record (tally g t) (return cpu)).Safe (tallyTerms g t) (fun _ => AtMostOnce p t) x () := by
  intro y _ hrely
  unfold AtMostOnce
  rw [show y.2 = x.2 from hrely, show x.2 = 0 from hx]
  exact Nat.zero_le _

theorem safe_sendTo {p : TaskStruct} {cpu cpu' : Int} {x : Maps × Nat} (hx : Counted 0 x ())
    : (Proc.record (tally g t) (do
        dsqInsertLocal p cpu
        return cpu')).Safe (tallyTerms g t) (fun _ => AtMostOnce p t) x () := by
  rw [Proc.record_bind]
  apply (safe_insert (fun s => queued_insertLocal s p.tid cpu) hx).bind
  intro _ x _ hx y _ hrely
  unfold AtMostOnce
  rw [show y.2 = x.2 from hrely, show x.2 = _ from hx]

theorem safe_place {p : TaskStruct} {idx : Stat} {cpu cpu' : Int} {x : Maps × Nat} (hx : Counted 0 x ())
    : (Proc.record (tally g t) (do
        statInc idx
        dsqInsertLocal p cpu
        return cpu')).Safe (tallyTerms g t) (fun _ => AtMostOnce p t) x () := by
  rw [Proc.record_bind]
  apply (safe_of_conserves conserves_stat.statInc hx).bind
  intro _ x _ hx
  exact safe_sendTo hx

theorem safe_claim {p : TaskStruct} {idx : Stat} {cpu : Int} {x : Maps × Nat} (hx : Counted 0 x ())
    : (Proc.record (tally g t) (do
        claimIdle cpu
        statInc idx
        dsqInsertLocal p cpu
        return cpu)).Safe (tallyTerms g t) (fun _ => AtMostOnce p t) x () := by
  rw [Proc.record_bind]
  have hclaim : (claimIdle cpu).Keeps (Conserves g t) := keeps_store fun _ => rfl
  apply (safe_of_conserves hclaim hx).bind
  intro _ x _ hx
  exact safe_place hx

theorem safe_ladder {p : TaskStruct} {prevCpu : Int} {homeMask : Finset Nat} {env : WakeEnv}
    {x : Maps × Nat}
    (hx : Counted 0 x ())
    : (Proc.record (tally g t) (idleLadder p prevCpu homeMask env)).Safe (tallyTerms g t)
        (fun _ => AtMostOnce p t) x () := by
  unfold idleLadder
  dsimp only
  split
  . exact safe_claim hx
  . split
    . exact safe_unplaced hx
    . split
      . exact safe_claim hx
      . split
        . exact safe_claim hx
        . split
          . exact safe_claim hx
          . rw [Proc.record_bind]
            apply (safe_of_conserves conserves_stat.statInc hx).bind
            intro _ x _ hx
            exact safe_unplaced hx

theorem safe_select (p : TaskStruct) (prevCpu : Int) (env : WakeEnv) {x : Maps × Nat}
    (hx : Counted 0 x ())
    : (Proc.record (tally g t) (cohortSelectCpu g p prevCpu env)).Safe (tallyTerms g t)
        (fun _ => AtMostOnce p t) x () := by
  unfold cohortSelectCpu
  rw [Proc.record_bind]
  apply (safe_of_conserves conserves_edges.recordWakeEdge hx).bind
  intro _ x _ hx
  split
  . exact safe_unplaced hx
  . rw [Proc.record_bind]
    apply (safe_of_conserves conserves_stat.lookupTaskCtx hx).bind
    intro tctx x _ hx
    rw [Proc.record_bind]
    apply (safe_of_conserves conserves_placement.taskHomeLlc hx).bind
    intro home x _ hx
    rw [Proc.record_bind]
    apply (safe_of_conserves conserves_stat.load hx).bind
    intro llcx x _ hx
    split
    . exact safe_unplaced hx
    . split
      . exact safe_unplaced hx
      . split
        . exact safe_unplaced hx
        . rw [Proc.record_bind]
          apply (safe_of_conserves (keeps_syncHandoff conserves_refl) hx).bind
          intro handoff x _ hx
          split
          . exact safe_place hx
          . exact safe_ladder hx

-- What a callback that has ended has queued.
def Tallied (t : Tid) (e : Event) (c : Nat) : Prop :=
  match e with
  | .enqueue p _ => c = if p.tid = t then 1 else 0
  | .selectCpu p _ _ => c ≤ if p.tid = t then 1 else 0
  | _ => c = 0

theorem safe_tallied (hpos : 0 < g.nrLlcs) {e : Event} (he : e.isCallback = true) (s : Maps)
    : (Proc.record (tally g t) (e.prog g)).Safe (tallyTerms g t) (fun _ x _ => Tallied t e x.2) (s, 0)
        () := by
  have hnone : ∀ p : BpfM PUnit, p.Keeps (Conserves g t)
      → (Proc.record (tally g t) p).Safe (tallyTerms g t) (fun _ x _ => x.2 = 0) (s, 0) () :=
    fun p hp => safe_of_conserves hp rfl
  cases e with
  | initTask p fork parent alloc => exact hnone _ (keeps_ignore conserves_admit.cohortInitTask)
  | exitTask p => exact hnone _ conserves_exit.cohortExitTask
  | dispatch cpu now => exact hnone _ (keeps_ignore (conserves_dispatch hpos cpu now))
  | runnable p now => exact hnone _ conserves_wake.cohortRunnable
  | running p now => exact hnone _ conserves_account.cohortRunning
  | stopping p now => exact hnone _ conserves_account.cohortStopping
  | enqueue p now => exact safe_enqueue hpos p now rfl
  | selectCpu p prevCpu env =>
    unfold Event.prog ignore
    rw [Proc.record_bind]
    apply (safe_select p prevCpu env (x := (s, 0)) rfl).bind
    intro _ x _ hx y _ hrely
    rw [show y.2 = x.2 from hrely]
    exact hx
  | _ => contradiction

end Tally

section Ledger

variable (g : Globals) (t : Tid)

def enqueues : Event → Bool
  | .enqueue p _ => p.tid = t
  | _ => false

def wakes : Event → Bool
  | .selectCpu p _ _ => p.tid = t
  | _ => false

def byWakeup (w : World) : Turn → Bool
  | .callback i => (w.callbacks[i]?).any fun cb => wakes t cb.event
  | _ => false

-- How often the turns of wakeups send the task to a CPU.
def direct : World → List Turn → Nat
  | _, [] => 0
  | w, turn :: turns =>
    (if byWakeup t w turn then queued g t (next g w turn).maps - queued g t w.maps else 0)
      + direct (next g w turn) turns

-- What every callback has queued so far.
structure Ledger (w : World) (cs : List (Callback × Nat)) : Prop where
  callbacks : cs.map (·.1) = w.callbacks
  safe : ∀ x ∈ cs, (Proc.record (tally g t) x.1.prog).Safe (tallyTerms g t)
    (fun _ y _ => Tallied t x.1.event y.2) (w.maps, x.2) ()
  daemon : w.daemon.Keeps (Conserves g t)
  total : queued g t w.maps = (cs.map (·.2)).sum

def byWakeups (cs : List (Callback × Nat)) : Nat :=
  (cs.map fun x => if wakes t x.1.event then x.2 else 0).sum

variable {g t} {w : World} {cs : List (Callback × Nat)}

theorem sum_map_set {α : Type 1} (f : α → Nat) {l : List α} {i : Nat} {x : α} (hx : l[i]? = some x)
    (y : α)
    : ((l.set i y).map f).sum + f x = (l.map f).sum + f y := by
  induction l generalizing i with
  | nil => contradiction
  | cons a l ih =>
    cases i with
    | zero =>
      rw [List.getElem?_cons_zero, Option.some.injEq] at hx
      subst hx
      simp only [List.set_cons_zero, List.map_cons, List.sum_cons]
      omega
    | succ i =>
      rw [List.getElem?_cons_succ] at hx
      have hrest := ih hx
      simp only [List.set_cons_succ, List.map_cons, List.sum_cons]
      omega

theorem Ledger.callback (h : Ledger g t w cs) (i : Nat)
    : ∃ cs', Ledger g t (next g w (.callback i)) cs'
        ∧ byWakeups t cs' = byWakeups t cs + direct g t w [.callback i] := by
  unfold direct direct
  cases next_callback_cases g w i with
  | inl hsame =>
    rw [hsame, Nat.sub_self, ite_self]
    exact ⟨cs, h, rfl⟩
  | inr hstep =>
    obtain ⟨cb, op, p, s, hcb, hstep, hnext⟩ := hstep
    have hcs : cs[i]?.map (·.1) = some cb := by
      rw [← hcb, ← h.callbacks, List.getElem?_map]
    obtain ⟨x, hx, rfl⟩ := Option.map_eq_some_iff.mp hcs
    obtain ⟨hguar, hsafe⟩ :=
      (h.safe x (List.mem_of_getElem? hx)).step (Proc.step?_record hstep x.2) trivial
    have hguar : queued g t s + x.2
        = queued g t w.maps + (x.2 + (queued g t s - queued g t w.maps)) := hguar
    let x' : Callback × Nat := ({ x.1 with held := noteTaken x.1.event op w.maps s x.1.held, prog := p },
      tally g t op w.maps s x.2)
    rw [hnext]
    refine ⟨cs.set i x', ⟨?_, ?_, h.daemon, ?_⟩, ?_⟩
    . rw [List.map_set, h.callbacks]
    . intro y hy
      cases List.mem_or_eq_of_mem_set hy with
      | inl hy => exact (h.safe y hy).rely rfl
      | inr heq =>
        rw [heq]
        exact hsafe
    . have hsum := sum_map_set (fun x : Callback × Nat => x.2) hx x'
      have htotal := h.total
      dsimp only [x', tally] at hsum ⊢
      omega
    . have hsum := sum_map_set (fun x : Callback × Nat => if wakes t x.1.event then x.2 else 0) hx x'
      have hby : byWakeup t w (.callback i) = wakes t x.1.event := by
        unfold byWakeup
        dsimp only
        rw [hcb]
        rfl
      rw [hby]
      unfold byWakeups
      dsimp only [x', tally] at hsum ⊢
      split at hsum
      . next hwakes =>
        rw [if_pos hwakes]
        omega
      . next hwakes =>
        rw [if_neg hwakes]
        omega

theorem Ledger.next (h : Ledger g t w cs) (hpos : 0 < g.nrLlcs) (turn : Turn)
    : ∃ cs', Ledger g t (next g w turn) cs' ∧ byWakeups t cs' = byWakeups t cs + direct g t w [turn] := by
  have hsame : (∀ i, turn ≠ .callback i) → direct g t w [turn] = 0 := by
    intro hturn
    cases turn with
    | callback i => exact absurd rfl (hturn i)
    | _ => rfl
  cases turn with
  | callback i => exact h.callback i
  | call e =>
    rw [hsame (by simp)]
    cases next_call_cases g w e with
    | inl hsame =>
      rw [hsame]
      exact ⟨cs, h, rfl⟩
    | inr hcall =>
      rw [hcall.2]
      refine ⟨cs ++ [({ event := e, prog := e.prog g }, 0)], ⟨?_, ?_, h.daemon, ?_⟩, ?_⟩
      . rw [List.map_append, h.callbacks]
        rfl
      . intro x hx
        rw [List.mem_append, List.mem_singleton] at hx
        cases hx with
        | inl hx => exact h.safe x hx
        | inr heq =>
          rw [heq]
          exact safe_tallied hpos hcall.1 w.maps
      . rw [List.map_append, List.sum_append]
        exact h.total
      . unfold byWakeups
        rw [List.map_append, List.sum_append]
        simp
  | beginTick env =>
    rw [hsame (by simp)]
    refine ⟨cs, ?_, rfl⟩
    cases next_beginTick_cases g w env with
    | inl hsame =>
      rw [hsame]
      exact h
    | inr hbegin =>
      obtain ⟨view, d, _, hbegin⟩ := hbegin
      rw [hbegin]
      exact ⟨h.callbacks, h.safe, conserves_writes.tick d, h.total⟩
  | daemon =>
    rw [hsame (by simp)]
    refine ⟨cs, ?_, rfl⟩
    cases next_daemon_cases g w with
    | inl hsame =>
      rw [hsame.1]
      exact h
    | inr hstep =>
      obtain ⟨op, p, s, hstep, hnext⟩ := hstep
      obtain ⟨hconserves, hdaemon⟩ := h.daemon.step hstep
      rw [hnext]
      refine ⟨h.callbacks, ?_, hdaemon, Eq.trans hconserves h.total⟩
      intro x hx
      exact (h.safe x hx).rely rfl

theorem direct_cons (turn : Turn) (turns : List Turn)
    : direct g t w (turn :: turns) = direct g t w [turn] + direct g t (World.next g w turn) turns := rfl

theorem ledger_run (h : Ledger g t w cs) (hpos : 0 < g.nrLlcs) (turns : List Turn)
    : ∃ cs', Ledger g t (run g w turns) cs' ∧ byWakeups t cs' = byWakeups t cs + direct g t w turns := by
  induction turns generalizing w cs with
  | nil => exact ⟨cs, h, rfl⟩
  | cons turn turns ih =>
    obtain ⟨cs₁, h₁, hdirect₁⟩ := h.next hpos turn
    obtain ⟨cs₂, h₂, hdirect₂⟩ := ih h₁
    refine ⟨cs₂, h₂, ?_⟩
    rw [direct_cons]
    omega

theorem ledger_start (d : Scheduler) : Ledger g t (start g d) [] := by
  refine ⟨rfl, ?_, trivial, ?_⟩
  . intro x hx
    contradiction
  . show queued g t (attached g) = 0
    rw [attached_eq]
    unfold queued waiting attachedUpTo
    simp

-- A callback that has ended has queued what `Tallied` says.
theorem Ledger.tallied (h : Ledger g t w cs) (hrest : w.atRest = true) {x : Callback × Nat} (hx : x ∈ cs)
    : Tallied t x.1.event x.2 := by
  unfold atRest at hrest
  rw [Bool.and_eq_true, List.all_eq_true] at hrest
  have hmem : x.1 ∈ w.callbacks := by
    rw [← h.callbacks]
    exact List.mem_map_of_mem hx
  have hdone := hrest.2 x.1 hmem
  have hsafe := h.safe x hx
  cases hprog : x.1.prog with
  | act l f k =>
    rw [hprog] at hdone
    contradiction
  | ret a =>
    rw [hprog] at hsafe
    exact hsafe (w.maps, x.2) () rfl

theorem sum_of_tallied (hcs : ∀ x ∈ cs, Tallied t x.1.event x.2)
    : (cs.map (·.2)).sum = (cs.map (·.1)).countP (fun cb => enqueues t cb.event) + byWakeups t cs
        ∧ byWakeups t cs ≤ (cs.map (·.1)).countP (fun cb => wakes t cb.event) := by
  induction cs with
  | nil => exact ⟨rfl, Nat.le_refl 0⟩
  | cons x cs ih =>
    obtain ⟨hsum, hle⟩ := ih fun y hy => hcs y (List.mem_cons_of_mem _ hy)
    have hx := hcs x List.mem_cons_self
    have hone : x.2 = (if enqueues t x.1.event then 1 else 0) + (if wakes t x.1.event then x.2 else 0)
        ∧ (if wakes t x.1.event then x.2 else 0) ≤ if wakes t x.1.event then 1 else 0 := by
      cases he : x.1.event with
      | enqueue p now =>
        rw [he] at hx
        unfold Tallied at hx
        simp [enqueues, wakes, hx]
      | selectCpu p prevCpu env =>
        rw [he] at hx
        unfold Tallied at hx
        by_cases htid : p.tid = t
        . simpa [enqueues, wakes, htid] using hx
        . simpa [enqueues, wakes, htid] using hx
      | _ =>
        rw [he] at hx
        unfold Tallied at hx
        simp [enqueues, wakes, hx]
    unfold byWakeups at hsum hle ⊢
    rw [List.map_cons, List.map_cons, List.map_cons, List.sum_cons, List.sum_cons, List.countP_cons,
      List.countP_cons]
    omega

-- Every enqueue of a task has queued it once, and whichever CPUs have taken tasks since, it is still
-- there.
theorem queued_at_rest (hpos : 0 < g.nrLlcs) (d : Scheduler) (turns : List Turn)
    (hrest : (run g (start g d) turns).atRest = true) (t : Tid)
    : queued g t (run g (start g d) turns).maps
          =
        (run g (start g d) turns).callbacks.countP (fun cb => enqueues t cb.event)
          + direct g t (start g d) turns
        ∧ direct g t (start g d) turns
          ≤ (run g (start g d) turns).callbacks.countP (fun cb => wakes t cb.event) := by
  obtain ⟨cs, h, hdirect⟩ := ledger_run (ledger_start d) hpos turns
  obtain ⟨hsum, hle⟩ := sum_of_tallied fun x hx => h.tallied hrest hx
  have hnone : byWakeups t [] = 0 := rfl
  rw [hnone, Nat.zero_add] at hdirect
  rw [h.callbacks, hdirect] at hsum hle
  exact ⟨h.total.trans hsum, hle⟩

def bothLlcs : Globals := { nrCpus := 2, nrLlcs := 2, cpuLlcId := fun cpu => if cpu = 1 then 1 else 0 }

def waker : TaskStruct := { tid := 1, pid := 1, tgid := 1, cpusPtr := {0, 1}, nrCpusAllowed := 2 }

def sleeper : TaskStruct := { tid := 2, pid := 2, tgid := 2, cpusPtr := {0, 1}, nrCpusAllowed := 2 }

def alternately (steps i j : Nat) : List Turn :=
  (List.replicate steps [Turn.callback i, Turn.callback j]).flatten

-- Two tasks are queued at once, two CPUs take one each, and one of the tasks is sent to an idle CPU
-- later on.
def crossed : List Turn :=
  [.call (.enqueue waker 0), .call (.enqueue sleeper 0)] ++ alternately 12 0 1
    ++ [.call (.dispatch 1 1000000), .call (.dispatch 0 1000000)] ++ alternately 12 2 3
    ++ .call (.selectCpu waker 0 { prevIdle := true }) :: List.replicate 12 (.callback 4)

theorem queued_crossed
    : queued bothLlcs 1 (run bothLlcs (start bothLlcs { llcCpus := [] }) crossed).maps = 1 + 1
        ∧ (run bothLlcs (start bothLlcs { llcCpus := [] }) crossed).maps.localDsq
          = [(1, 0), (2, 1), (1, 0)] := by
  have hrest : (run bothLlcs (start bothLlcs { llcCpus := [] }) crossed).atRest = true := by
    decide +kernel
  have h := queued_at_rest (by decide) { llcCpus := [] } crossed hrest 1
  refine ⟨?_, by decide +kernel⟩
  rw [h.1]
  decide +kernel

end Ledger

end World
