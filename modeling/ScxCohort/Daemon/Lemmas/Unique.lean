import ScxCohort.Daemon.Lemmas.Births
import ScxCohort.Daemon.Lemmas.Dangling
import ScxCohort.Daemon.Lemmas.FaceValue
import ScxCohort.Daemon.Lemmas.Turns

/-!
This module contains what holds of cohorts however callbacks and the daemon's ticks interleave: a number
is never used again after its cohort has been deleted, a home is an LLC of the machine, and a tick fails
only when there is no room in a map.
-/

namespace World

open Bpf Proc

section Unborn

-- The numbers that callbacks hold are apart from each other, and from those that have been used.
structure Unborn (held : Nat → Option CohortId) (used : CohortId → Prop) (seq : CohortId) : Prop where
  fresh : ∀ i id, held i = some id → ¬ used id ∧ id ≤ seq
  apart : ∀ i j id, held i = some id → held j = some id → i = j
  old : ∀ id, used id → id.toNat < 2 ^ 32 → id ≤ seq

variable {held held' : Nat → Option CohortId} {used used' : CohortId → Prop} {seq seq' : CohortId}
    {i : Nat}

-- At most the number that `i` holds comes into use, and `i` lets go of it.
theorem Unborn.kept (h : Unborn held used seq) (hothers : ∀ j, j ≠ i → held' j = held j)
    (hheld : ∀ id, held' i = some id → held i = some id)
    (hused : ∀ id, used' id → used id ∨ held i = some id ∧ held' i = none)
    : Unborn held' used' seq := by
  have hsub : ∀ j id, held' j = some id → held j = some id := by
    intro j id hj
    by_cases heq : j = i
    . rw [heq] at hj ⊢
      exact hheld id hj
    . rw [← hothers j heq]
      exact hj
  constructor
  . intro j id hj
    have hold := h.fresh j id (hsub j id hj)
    refine ⟨?_, hold.2⟩
    intro hid
    cases hused id hid with
    | inl hid => exact hold.1 hid
    | inr hid =>
      have heq := h.apart i j id hid.1 (hsub j id hj)
      rw [← heq, hid.2] at hj
      contradiction
  . intro j k id hj hk
    exact h.apart j k id (hsub j id hj) (hsub k id hk)
  . intro id hid hsmall
    cases hused id hid with
    | inl hid => exact h.old id hid hsmall
    | inr hid => exact (h.fresh i id hid.1).2

theorem Unborn.drawn (h : Unborn held used seq) (hroom : seq.toNat + 1 < 2 ^ 32)
    (hothers : ∀ j, j ≠ i → held' j = held j) (hheld : held' i = some (seq + 1))
    (hused : ∀ id, used' id → used id)
    : Unborn held' used' (seq + 1) := by
  have hseq : (seq + 1).toNat = seq.toNat + 1 := by
    rw [UInt64.toNat_add]
    simp only [UInt64.toNat_one]
    omega
  have hle : seq ≤ seq + 1 := by
    rw [UInt64.le_iff_toNat_le]
    omega
  have hnew : ∀ id, id ≤ seq → id ≠ seq + 1 := by
    intro id hid heq
    rw [heq, UInt64.le_iff_toNat_le] at hid
    omega
  constructor
  . intro j id hj
    by_cases heq : j = i
    . rw [heq, hheld, Option.some.injEq] at hj
      subst hj
      refine ⟨?_, UInt64.le_refl _⟩
      intro hid
      exact hnew _ (h.old _ (hused _ hid) (by omega)) rfl
    . rw [hothers j heq] at hj
      obtain ⟨hunused, hid⟩ := h.fresh j id hj
      exact ⟨fun hid => hunused (hused id hid), UInt64.le_trans hid hle⟩
  . intro j k id hj hk
    by_cases heqj : j = i
    . by_cases heqk : k = i
      . rw [heqj, heqk]
      . rw [heqj, hheld] at hj
        rw [hothers k heqk] at hk
        cases hj
        exact absurd rfl (hnew _ (h.fresh k _ hk).2)
    . rw [hothers j heqj] at hj
      by_cases heqk : k = i
      . rw [heqk, hheld] at hk
        cases hk
        exact absurd rfl (hnew _ (h.fresh j _ hj).2)
      . rw [hothers k heqk] at hk
        exact h.apart j k id hj hk
  . intro id hid hsmall
    exact UInt64.le_trans (h.old id (hused id hid) hsmall) hle

-- The numbers of the daemon are out of the reach of callbacks.
theorem Unborn.large (h : Unborn held used seq) (hroom : seq.toNat < 2 ^ 32)
    (hused : ∀ id, used' id → used id ∨ 2 ^ 32 ≤ id.toNat)
    : Unborn held used' seq := by
  constructor
  . intro j id hj
    obtain ⟨hunused, hle⟩ := h.fresh j id hj
    refine ⟨?_, hle⟩
    intro hid
    cases hused id hid with
    | inl hid => exact hunused hid
    | inr hlarge =>
      rw [UInt64.le_iff_toNat_le] at hle
      omega
  . exact h.apart
  . intro id hid hsmall
    cases hused id hid with
    | inl hid => exact h.old id hid hsmall
    | inr hlarge => omega

-- What the callback `i` holds after an operation of its, as `f` sees it.
theorem Unborn.callback {pend : Nat → Pending} {f : Pending → Option CohortId} {c : Pending}
    (h : Unborn (fun j => f (pend j)) used seq) (hroom : seq.toNat + 1 < 2 ^ 32)
    (hcounts : (seq' = seq ∧ ∀ id, f c = some id → f (pend i) = some id)
      ∨ seq' = seq + 1 ∧ f c = some seq')
    (hused : ∀ id, used' id → used id ∨ f (pend i) = some id ∧ f c = none)
    : Unborn (fun j => f (Function.update pend i c j)) used' seq' := by
  have hothers : ∀ j, j ≠ i → f (Function.update pend i c j) = f (pend j) := by
    intro j hj
    rw [Function.update_of_ne hj]
  have hself : f (Function.update pend i c i) = f c := by
    rw [Function.update_self]
  cases hcounts with
  | inl hkept =>
    rw [hkept.1]
    apply h.kept hothers
    . intro id hid
      rw [hself] at hid
      exact hkept.2 id hid
    . intro id hid
      rw [hself]
      exact hused id hid
  | inr hdrawn =>
    obtain ⟨rfl, hheld⟩ := hdrawn
    apply h.drawn hroom hothers
    . rw [hself]
      exact hheld
    . intro id hid
      cases hused id hid with
      | inl hid => exact hid
      | inr hid =>
        rw [hheld] at hid
        exact absurd hid.2 (by simp)

end Unborn

section Ordered

open Daemon

-- What a callback adds to the log of the daemon.
def meddle (s' : Maps) (log : Log) : Log :=
  { log with
    seen := fun id => log.seen id ∨ id ∈ s'.cohortPolicy
    counted := fun id => log.counted id ∨ id ∈ s'.cohortCounters }

variable {g : Globals} {real : LlcId → Prop} {L : List (LlcId × UInt64)} {w w' : World} {log log' : Log}
variable {pend : Nat → Pending}

structure Ordered (real : LlcId → Prop) (L : List (LlcId × UInt64)) (w : World) (log : Log)
    (pend : Nat → Pending) : Prop where
  daemon : (record (orderly real).note w.daemon).Safe (orderly real).terms
    (fun r x _ => (orderly real).Ends (fun _ => Sane L real) x r) (w.maps, log) ()
  callbacks : ∀ i cb, w.callbacks[i]? = some cb
    → (record enterPending cb.prog).Safe (birthTerms real) (fun _ _ _ => True) (w.maps, pend i) ()
  idle : ∀ i, w.callbacks[i]? = none → pend i = {}
  covers : log.Covers w.maps
  homed : Homed real w.maps
  policies : Unborn (fun i => (pend i).policy) log.seen w.maps.cohortSeq
  counters : Unborn (fun i => (pend i).counters) log.counted w.maps.cohortSeq

-- A cohort that comes to be has not been before. `k` is how many turns this has taken.
structure Grows (k : Nat) (w : World) (log : Log) (w' : World) (log' : Log) : Prop where
  turns : log'.turns ≤ log.turns + k
  seen : ∀ id, log.seen id → log'.seen id
  counted : ∀ id, log.counted id → log'.counted id
  policy : ∀ id, id ∈ w'.maps.cohortPolicy → id ∈ w.maps.cohortPolicy ∨ ¬ log.seen id
  counters : ∀ id, id ∈ w'.maps.cohortCounters → id ∈ w.maps.cohortCounters ∨ ¬ log.counted id

theorem Grows.same {k : Nat} (hmaps : w'.maps = w.maps) : Grows k w log w' log := by
  refine ⟨Nat.le_add_right _ _, fun _ h => h, fun _ h => h, ?_, ?_⟩
  . intro id hid
    rw [hmaps] at hid
    exact .inl hid
  . intro id hid
    rw [hmaps] at hid
    exact .inl hid

theorem Grows.trans {k k' : Nat} {w'' : World} {log'' : Log} (h : Grows k w log w' log')
    (h' : Grows k' w' log' w'' log'')
    : Grows (k + k') w log w'' log'' := by
  refine ⟨?_, fun id hid => h'.seen id (h.seen id hid),
    fun id hid => h'.counted id (h.counted id hid), ?_, ?_⟩
  . have hturns := h.turns
    have hturns' := h'.turns
    omega
  . intro id hid
    cases h'.policy id hid with
    | inl hid => exact h.policy id hid
    | inr hunseen => exact .inr fun hseen => hunseen (h.seen id hseen)
  . intro id hid
    cases h'.counters id hid with
    | inl hid => exact h.counters id hid
    | inr huncounted => exact .inr fun hcounted => huncounted (h.counted id hcounted)

-- Callbacks draw no number that the daemon could give out.
def fewDrawn (w : World) (_ : Turn) : Bool := w.maps.cohortSeq.toNat + 1 < 2 ^ 32

-- The first part of a step lemma: what a turn does to the maps, and to those who did not take it.
theorem Bears.meddles {i : Nat} {c : Pending} {s' : Maps} (hbears : Bears real (w.maps, pend i) (s', c))
    (h : Ordered real L w log pend) (hroom : w.maps.cohortSeq.toNat < 2 ^ 32)
    : Meddles real (w.maps, log) (s', meddle s' log) := by
  have hsmall : ∀ id, id ≤ w.maps.cohortSeq → id.toNat < 2 ^ 32 := by
    intro id hid
    rw [UInt64.le_iff_toNat_le] at hid
    omega
  refine ⟨hbears.keys, hbears.tgids, rfl, fun h => h, ?_, ?_, ?_, hbears.homed⟩
  . intro id hid
    cases hid with
    | inl hid => exact .inl hid
    | inr hmem =>
      cases hbears.policy id hmem with
      | inl hold => exact .inl (h.covers.1 id hold)
      | inr hheld => exact .inr (hsmall id (h.policies.fresh i id hheld.1).2)
  . intro id hid
    cases hid with
    | inl hid => exact .inl hid
    | inr hmem =>
      cases hbears.counters id hmem with
      | inl hold => exact .inl (h.covers.2 id hold)
      | inr hheld => exact .inr (hsmall id (h.counters.fresh i id hheld.1).2)
  . intro _
    exact ⟨fun _ h => .inr h, fun _ h => .inr h⟩

theorem Ordered.callback (h : Ordered real L w log pend) (i : Nat)
    (hroom : fewDrawn w (.callback i) = true)
    : ∃ log' pend', Ordered real L (next g w (.callback i)) log' pend'
        ∧ Grows 1 w log (next g w (.callback i)) log' := by
  have hroom := decide_eq_true_iff.mp hroom
  cases next_callback_cases g w i with
  | inl hsame =>
    rw [hsame]
    exact ⟨log, pend, h, Grows.same rfl⟩
  | inr hstep =>
    obtain ⟨cb, op, p, s, hcb, hstep, hnext⟩ := hstep
    rw [hnext]
    obtain ⟨hbears, hsafe⟩ := (h.callbacks i cb hcb).step (step?_record hstep (pend i)) trivial
    have hmeddles := hbears.meddles h (by omega)
    refine ⟨meddle s log, Function.update pend i (enterPending op w.maps s (pend i)), ?_, ?_⟩
    . refine ⟨h.daemon.rely hmeddles, ?_, ?_, hmeddles.covers h.covers, hbears.homed h.homed, ?_, ?_⟩
      . intro j cb' hcb'
        rw [List.getElem?_set] at hcb'
        split at hcb'
        . next heq =>
          subst heq
          split at hcb'
          . cases hcb'
            rw [Function.update_self]
            exact hsafe
          . contradiction
        . next hne =>
          rw [Function.update_of_ne (Ne.symm hne)]
          exact (h.callbacks j cb' hcb').rely rfl
      . intro j hj
        rw [List.getElem?_eq_none_iff, List.length_set, ← List.getElem?_eq_none_iff] at hj
        have hne : j ≠ i := by
          rintro rfl
          rw [hcb] at hj
          contradiction
        rw [Function.update_of_ne hne]
        exact h.idle j hj
      . apply h.policies.callback (f := (·.policy)) hroom
        . cases hbears.counts with
          | kept seq policy counters => exact .inl ⟨seq, policy⟩
          | drawn seq held => exact .inr ⟨seq, congrArg Pending.policy held⟩
        . intro id hid
          cases hid with
          | inl hid => exact .inl hid
          | inr hmem =>
            cases hbears.policy id hmem with
            | inl hold => exact .inl (h.covers.1 id hold)
            | inr hheld => exact .inr hheld
      . apply h.counters.callback (f := (·.counters)) hroom
        . cases hbears.counts with
          | kept seq policy counters => exact .inl ⟨seq, counters⟩
          | drawn seq held => exact .inr ⟨seq, congrArg Pending.counters held⟩
        . intro id hid
          cases hid with
          | inl hid => exact .inl hid
          | inr hmem =>
            cases hbears.counters id hmem with
            | inl hold => exact .inl (h.covers.2 id hold)
            | inr hheld => exact .inr hheld
    . refine ⟨Nat.le_succ _, fun _ h => .inl h, fun _ h => .inl h, ?_, ?_⟩
      . intro id hid
        cases hbears.policy id hid with
        | inl hold => exact .inl hold
        | inr hheld => exact .inr (h.policies.fresh i id hheld.1).1
      . intro id hid
        cases hbears.counters id hid with
        | inl hold => exact .inl hold
        | inr hheld => exact .inr (h.counters.fresh i id hheld.1).1

theorem Ordered.call (h : Ordered real L w log pend) (hfresh : ∀ rr, real (rr % g.nrLlcs)) (e : Event)
    : Ordered real L (next g w (.call e)) log pend := by
  cases next_call_cases g w e with
  | inl hsame =>
    rw [hsame]
    exact h
  | inr hcall =>
    rw [hcall.2]
    refine ⟨h.daemon, ?_, ?_, h.covers, h.homed, h.policies, h.counters⟩
    . intro i cb hcb
      rw [List.getElem?_append] at hcb
      split at hcb
      . exact h.callbacks i cb hcb
      . rw [List.getElem?_singleton] at hcb
        split at hcb
        . cases hcb
          exact safe_birth hfresh hcall.1 _
        . contradiction
    . intro i hi
      rw [List.getElem?_eq_none_iff, List.length_append] at hi
      apply h.idle
      rw [List.getElem?_eq_none_iff]
      omega

theorem Ordered.beginTick (h : Ordered real L w log pend) (hL : Layout L real) (env : TickEnv)
    : Ordered real L (next g w (.beginTick env)) log pend := by
  cases next_beginTick_cases g w env with
  | inl hsame =>
    rw [hsame]
    exact h
  | inr hbegin =>
    obtain ⟨view, d, hdone, hbegin⟩ := hbegin
    rw [hbegin]
    refine ⟨?_, h.callbacks, h.idle, h.covers, h.homed, h.policies, h.counters⟩
    have hdaemon := h.daemon
    rw [hdone] at hdaemon
    exact tidy_tick hL d _ (hdaemon _ () (Meddles.refl real _))

theorem Ordered.daemonTurn (h : Ordered real L w log pend) (hroom : fewDrawn w .daemon = true)
    (hturns : log.turns < 2 ^ 63)
    : ∃ log', Ordered real L (next g w .daemon) log' pend ∧ Grows 1 w log (next g w .daemon) log'
        ∧ (w.daemon.isDone = false → log'.full = Crowded w.maps) := by
  have hroom := decide_eq_true_iff.mp hroom
  cases next_daemon_cases g w with
  | inl hsame =>
    rw [hsame.1, hsame.2]
    exact ⟨log, h, Grows.same rfl, fun hrunning => by contradiction⟩
  | inr hstep =>
    obtain ⟨op, p, s, hstep, hnext⟩ := hstep
    rw [hnext]
    obtain ⟨hbehaves, hsafe⟩ := h.daemon.step (step?_record hstep log) hturns
    refine ⟨enterLog w.maps s log, ?_, ?_, fun _ => rfl⟩
    . refine ⟨hsafe, ?_, h.idle, Log.Covers.enter _ _, hbehaves.homed h.homed, ?_, ?_⟩
      . intro i cb hcb
        exact (h.callbacks i cb hcb).rely rfl
      . dsimp only
        rw [hbehaves.seq]
        apply h.policies.large (by omega)
        intro id hid
        cases hid with
        | inl hid => exact .inl hid
        | inr hmem =>
          cases hbehaves.policy id hmem with
          | inl hold => exact .inl (h.covers.1 id hold)
          | inr hnew => exact .inr hnew.2
      . dsimp only
        rw [hbehaves.seq]
        apply h.counters.large (by omega)
        intro id hid
        cases hid with
        | inl hid => exact .inl hid
        | inr hmem =>
          cases hbehaves.counters id hmem with
          | inl hold => exact .inl (h.covers.2 id hold)
          | inr hnew => exact .inr hnew.2
    . refine ⟨Nat.le_refl _, fun _ h => .inl h, fun _ h => .inl h, ?_, ?_⟩
      . intro id hid
        cases hbehaves.policy id hid with
        | inl hold => exact .inl hold
        | inr hnew => exact .inr hnew.1
      . intro id hid
        cases hbehaves.counters id hid with
        | inl hold => exact .inl hold
        | inr hnew => exact .inr hnew.1

theorem ordered_next (h : Ordered real L w log pend) (hfresh : ∀ rr, real (rr % g.nrLlcs))
    (hL : Layout L real) (t : Turn) (hroom : fewDrawn w t = true) (hturns : log.turns < 2 ^ 63)
    : ∃ log' pend', Ordered real L (next g w t) log' pend' ∧ Grows 1 w log (next g w t) log' := by
  cases t with
  | call e =>
    refine ⟨log, pend, h.call hfresh e, Grows.same ?_⟩
    cases next_call_cases g w e with
    | inl hsame => rw [hsame]
    | inr hcall => rw [hcall.2]
  | callback i => exact h.callback i hroom
  | beginTick env =>
    refine ⟨log, pend, h.beginTick hL env, Grows.same ?_⟩
    cases next_beginTick_cases g w env with
    | inl hsame => rw [hsame]
    | inr hbegin =>
      obtain ⟨view, d, _, hbegin⟩ := hbegin
      rw [hbegin]
  | daemon =>
    obtain ⟨log', hordered, hgrows, _⟩ := h.daemonTurn hroom hturns
    exact ⟨log', pend, hordered, hgrows⟩

theorem ordered_run (h : Ordered real L w log pend) (hfresh : ∀ rr, real (rr % g.nrLlcs))
    (hL : Layout L real) (turns : List Turn) (hroom : along g fewDrawn w turns = true)
    (hturns : log.turns + turns.length ≤ 2 ^ 63)
    : ∃ log' pend', Ordered real L (run g w turns) log' pend'
        ∧ Grows turns.length w log (run g w turns) log' := by
  induction turns generalizing w log pend with
  | nil => exact ⟨log, pend, h, Grows.same rfl⟩
  | cons t turns ih =>
    unfold along at hroom
    rw [Bool.and_eq_true] at hroom
    rw [List.length_cons] at hturns ⊢
    obtain ⟨log₁, pend₁, h₁, hgrows₁⟩ := ordered_next h hfresh hL t hroom.1 (by omega)
    have hturns₁ := hgrows₁.turns
    obtain ⟨log₂, pend₂, h₂, hgrows₂⟩ := ih h₁ hroom.2 (by omega)
    refine ⟨log₂, pend₂, h₂, ?_⟩
    rw [Nat.add_comm]
    exact hgrows₁.trans hgrows₂

theorem ordered_start {d : Scheduler} (hllcs : d.llcCpus = L) (hspills : d.currentSpills = ∅)
    (hseq : d.daemonSeq = 0)
    : Ordered real L (start g d) {} fun _ => {} := by
  have hattached := cohorts_attached (g := g)
  have hpolicy : ∀ id, id ∉ (attached g).cohortPolicy := by
    intro id hid
    have := (hattached.policy id).mp hid
    omega
  have hcounters : ∀ id, id ∉ (attached g).cohortCounters := by
    intro id hid
    have := (hattached.counters id).mp hid
    omega
  have hcovers : ({} : Log).Covers (attached g) :=
    ⟨fun id hid => absurd hid (hpolicy id), fun id hid => absurd hid (hcounters id)⟩
  have hhomed : Homed real (attached g) := by
    constructor
    . intro id policy hlookup
      exact absurd (BoundedMap.mem_iff_lookup.mpr ⟨policy, hlookup⟩) (hpolicy id)
    . intro pid llc hlookup
      rw [attached_eq] at hlookup
      contradiction
  refine ⟨?_, ?_, fun _ _ => rfl, hcovers, hhomed, ?_, ?_⟩
  . intro x _ hrely
    refine stable_sane d _ x hrely ⟨hllcs, ?_, ?_, ?_, hcovers, hhomed⟩
    . intro pid llc hlookup
      rw [hspills] at hlookup
      contradiction
    . rw [hseq]
      exact Nat.zero_le _
    . intro id hid
      cases hid <;> contradiction
  . intro i cb hcb
    contradiction
  . exact ⟨fun _ _ h => by contradiction, fun _ _ _ h => by contradiction, fun _ h => by contradiction⟩
  . exact ⟨fun _ _ h => by contradiction, fun _ _ _ h => by contradiction, fun _ h => by contradiction⟩

end Ordered

section Started

open Daemon

variable {g : Globals} {d : Scheduler} {opts : Opts} {config : FileConfig ℚ} {host : Host} {w : World}

theorem ordered_init (real : LlcId → Prop) (hinit : init opts config host = .ok (g, d))
    : Ordered real d.llcCpus (start g d) {} fun _ => {} := by
  obtain ⟨topo, _, _, _, hd⟩ := init_ok hinit
  exact ordered_start rfl (by rw [hd]; rfl) (by rw [hd]; rfl)

theorem layout_true {L : List (LlcId × UInt64)} : Layout L fun _ => True :=
  ⟨fun _ _ => trivial, fun _ => trivial⟩

-- Any sampled traffic merges two cohorts.
def quick : Opts := { mergeWakesPerSec := 1 }

theorem init_quick
    : init quick {} { topology := some twoCpus }
        =
      .ok (globals quick twoCpus, scheduler quick {} twoCpus) := rfl

def bothAdmitted : List Turn :=
  complete 14 0 (.initTask shell false none true) ++ complete 14 1 (.initTask builder false none true)

def longTick : List Turn := .beginTick {} :: List.replicate 16 .daemon

def bothMerged : List Turn := wakeups 2 ++ longTick ++ wakeups 10 ++ longTick ++ wakeups 18 ++ longTick

def thirdAdmitted : List Turn := complete 14 26 (.initTask compiler false none true)

theorem number_is_used_once (hinit : init opts config host = .ok (g, d))
    (before between after : List Turn)
    (hfew : along g fewDrawn (start g d) (before ++ between ++ after) = true)
    (hlength : (before ++ between ++ after).length < 2 ^ 63) (id : CohortId)
    : (id ∈ (run g (start g d) before).maps.cohortPolicy
          → id ∉ (run g (start g d) (before ++ between)).maps.cohortPolicy
          → id ∉ (run g (start g d) (before ++ between ++ after)).maps.cohortPolicy)
        ∧ (id ∈ (run g (start g d) before).maps.cohortCounters
          → id ∉ (run g (start g d) (before ++ between)).maps.cohortCounters
          → id ∉ (run g (start g d) (before ++ between ++ after)).maps.cohortCounters) := by
  rw [along_append, along_append, Bool.and_eq_true, Bool.and_eq_true] at hfew
  obtain ⟨⟨hfew₁, hfew₂⟩, hfew₃⟩ := hfew
  rw [List.length_append, List.length_append] at hlength
  obtain ⟨log₁, pend₁, h₁, hgrows₁⟩ := ordered_run (ordered_init (fun _ => True) hinit)
    (fun _ => trivial) layout_true before hfew₁ (by simp only; omega)
  have hturns₁ := hgrows₁.turns
  simp only at hturns₁
  obtain ⟨log₂, pend₂, h₂, hgrows₂⟩ :=
    ordered_run h₁ (fun _ => trivial) layout_true between hfew₂ (by omega)
  have hturns₂ := hgrows₂.turns
  rw [← run_append] at h₂ hgrows₂
  obtain ⟨log₃, pend₃, h₃, hgrows₃⟩ :=
    ordered_run h₂ (fun _ => trivial) layout_true after hfew₃ (by omega)
  rw [← run_append] at hgrows₃
  constructor
  . intro hwas hgone hagain
    cases hgrows₃.policy id hagain with
    | inl hid => exact hgone hid
    | inr hunseen => exact hunseen (hgrows₂.seen id (h₁.covers.1 id hwas))
  . intro hwas hgone hagain
    cases hgrows₃.counters id hagain with
    | inl hid => exact hgone hid
    | inr huncounted => exact huncounted (hgrows₂.counted id (h₁.covers.2 id hwas))

-- The second cohort is merged into the first one, and the task that comes after that is given a third
-- one.
theorem merged_number_is_used_once
    : 2 ∈ (run (globals quick twoCpus) (start (globals quick twoCpus) (scheduler quick {} twoCpus))
          bothAdmitted).maps.cohortPolicy
        ∧ 2 ∉ (run (globals quick twoCpus) (start (globals quick twoCpus) (scheduler quick {} twoCpus))
          (bothAdmitted ++ bothMerged)).maps.cohortPolicy
        ∧ 2 ∉ (run (globals quick twoCpus) (start (globals quick twoCpus) (scheduler quick {} twoCpus))
          (bothAdmitted ++ bothMerged ++ thirdAdmitted)).maps.cohortPolicy
        ∧ 3 ∈ (run (globals quick twoCpus) (start (globals quick twoCpus) (scheduler quick {} twoCpus))
          (bothAdmitted ++ bothMerged ++ thirdAdmitted)).maps.cohortPolicy := by
  have hwas : 2 ∈ (run (globals quick twoCpus) (start (globals quick twoCpus)
      (scheduler quick {} twoCpus)) bothAdmitted).maps.cohortPolicy := by
    decide +kernel
  have hgone : 2 ∉ (run (globals quick twoCpus) (start (globals quick twoCpus)
      (scheduler quick {} twoCpus)) (bothAdmitted ++ bothMerged)).maps.cohortPolicy := by
    decide +kernel
  have honce := number_is_used_once init_quick bothAdmitted bothMerged thirdAdmitted (by decide +kernel)
    (by decide +kernel) 2
  refine ⟨hwas, hgone, honce.1 hwas hgone, ?_⟩
  decide +kernel

-- The maps that the daemon inserts into have room when it takes a turn.
def vacant (w : World) : Turn → Bool
  | .daemon =>
    w.maps.cohortPolicy.size < maxCohorts ∧ w.maps.cohortCounters.size < maxCohorts
      ∧ w.maps.spillTasks.size < 8192
  | _ => true

def failed (w : World) : Bool :=
  match w.daemon with
  | .ret (.error _) => true
  | _ => false

theorem Ordered.fails_not {real : LlcId → Prop} {L : List (LlcId × UInt64)} {log : Log}
    {pend : Nat → Pending}
    (h : Ordered real L w log pend) (hroom : fewDrawn w .daemon = true) (hturns : log.turns < 2 ^ 63)
    (hvacant : vacant w .daemon = true) (hfailed : w.failed = false)
    : (next g w .daemon).failed = false := by
  obtain ⟨log', hordered, _, hfull⟩ := h.daemonTurn (g := g) hroom hturns
  cases next_daemon_cases g w with
  | inl hsame =>
    rw [hsame.1]
    exact hfailed
  | inr hstep =>
    obtain ⟨op, p, s, hstep, _⟩ := hstep
    have hdone : w.daemon.isDone = false := by
      cases hd : w.daemon with
      | ret r =>
        rw [hd] at hstep
        contradiction
      | act l f k => rfl
    by_contra hnot
    unfold failed at hnot
    split at hnot
    . next e he =>
      have hsafe := hordered.daemon
      rw [he] at hsafe
      have hcrowded := (hsafe _ () (Meddles.refl real _)).2
      dsimp only at hcrowded
      rw [hfull hdone] at hcrowded
      have hvacant := decide_eq_true_iff.mp hvacant
      unfold Crowded at hcrowded
      omega
    . exact hnot rfl

theorem failed_next {t : Turn} (ht : t ≠ .daemon) (hfailed : w.failed = false)
    : (next g w t).failed = false := by
  cases t with
  | call e =>
    cases next_call_cases g w e with
    | inl hsame =>
      rw [hsame]
      exact hfailed
    | inr hcall =>
      rw [hcall.2]
      exact hfailed
  | callback i =>
    cases next_callback_cases g w i with
    | inl hsame =>
      rw [hsame]
      exact hfailed
    | inr hstep =>
      obtain ⟨cb, op, p, s, _, _, hnext⟩ := hstep
      rw [hnext]
      exact hfailed
  | beginTick env =>
    cases next_beginTick_cases g w env with
    | inl hsame =>
      rw [hsame]
      exact hfailed
    | inr hbegin =>
      obtain ⟨view, d, _, hbegin⟩ := hbegin
      rw [hbegin]
      rfl
  | daemon => exact absurd rfl ht

theorem Ordered.run_fails_not {real : LlcId → Prop} {L : List (LlcId × UInt64)} {log : Log}
    {pend : Nat → Pending} (h : Ordered real L w log pend) (hfresh : ∀ rr, real (rr % g.nrLlcs))
    (hL : Layout L real) (turns : List Turn) (hfew : along g fewDrawn w turns = true)
    (hturns : log.turns + turns.length ≤ 2 ^ 63) (hvacant : along g vacant w turns = true)
    (hfailed : w.failed = false)
    : (run g w turns).failed = false := by
  induction turns generalizing w log pend with
  | nil => exact hfailed
  | cons t turns ih =>
    unfold along at hfew hvacant
    rw [Bool.and_eq_true] at hfew hvacant
    rw [List.length_cons] at hturns
    obtain ⟨log', pend', h', hgrows⟩ := ordered_next h hfresh hL t hfew.1 (by omega)
    have hturns' := hgrows.turns
    apply ih h' hfew.2 (by omega) hvacant.2
    by_cases ht : t = .daemon
    . subst ht
      exact h.fails_not hfew.1 (by omega) hvacant.1 hfailed
    . exact failed_next ht hfailed

-- The daemon does not end with an error as long as there is room.
theorem tick_does_not_fail (hinit : init opts config host = .ok (g, d)) (turns : List Turn)
    (hfew : along g fewDrawn (start g d) turns = true) (hlength : turns.length < 2 ^ 63)
    (hvacant : along g vacant (start g d) turns = true)
    : (run g (start g d) turns).failed = false :=
  (ordered_init _ hinit).run_fails_not (fun _ => trivial) layout_true turns hfew (by simp only; omega)
    hvacant rfl

theorem merging_does_not_fail
    : (run (globals quick twoCpus) (start (globals quick twoCpus) (scheduler quick {} twoCpus))
        (bothAdmitted ++ bothMerged)).failed = false :=
  tick_does_not_fail init_quick (bothAdmitted ++ bothMerged) (by decide +kernel) (by decide +kernel)
    (by decide +kernel)

end Started

end World
