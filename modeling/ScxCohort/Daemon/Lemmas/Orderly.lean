import ScxCohort.Daemon.Lemmas.BestMove
import ScxCohort.Daemon.Lemmas.Coldest
import ScxCohort.Daemon.Lemmas.Fork
import ScxCohort.Daemon.Lemmas.Meets

/-!
This module contains what a tick keeps in order while callbacks interfere with it: the number of a cohort
is given out once, a home is an LLC that there is, and an operation fails for want of room only.
-/

namespace Bpf

-- The LLCs that the maps send tasks to are real ones.
structure Homed (real : LlcId → Prop) (s : Maps) : Prop where
  policy : ∀ id policy, s.cohortPolicy.lookup id = some policy → real policy.homeLlc
  spill : ∀ pid llc, s.spillTasks.lookup pid = some llc → real llc

theorem Homed.same {real : LlcId → Prop} {s s' : Maps} (h : Homed real s)
    (hp : s'.cohortPolicy = s.cohortPolicy)
    (hs : s'.spillTasks = s.spillTasks)
    : Homed real s' := by
  constructor
  . rw [hp]
    exact h.policy
  . rw [hs]
    exact h.spill

theorem Homed.setPolicy {real : LlcId → Prop} {s : Maps} (h : Homed real s) (id : CohortId)
    {policy : CohortPolicy} (hhome : real policy.homeLlc) (flag : UpdateFlag)
    : Homed real { s with cohortPolicy := s.cohortPolicy.updateD id policy flag } := by
  refine ⟨?_, h.spill⟩
  intro id' policy' hlookup
  cases BoundedMap.lookup_updateD s.cohortPolicy id policy flag id' with
  | inl heq =>
    rw [heq] at hlookup
    exact h.policy id' policy' hlookup
  | inr heq =>
    rw [heq.2, Option.some.injEq] at hlookup
    rw [← hlookup]
    exact hhome

end Bpf

namespace Daemon

open Bpf Pact

-- What has been done so far: the cohorts that have had a policy, those that have had counters, and
-- whether there was a full map before the last operation of the daemon.
structure Log where
  turns : Nat := 0
  seen : CohortId → Prop := fun _ => False
  counted : CohortId → Prop := fun _ => False
  full : Prop := False

def Log.Covers (log : Log) (s : Maps) : Prop :=
  (∀ id, id ∈ s.cohortPolicy → log.seen id) ∧ ∀ id, id ∈ s.cohortCounters → log.counted id

def Crowded (s : Maps) : Prop :=
  maxCohorts ≤ s.cohortPolicy.size ∨ maxCohorts ≤ s.cohortCounters.size ∨ 8192 ≤ s.spillTasks.size

def enterLog (s s' : Maps) (log : Log) : Log where
  turns := log.turns + 1
  seen := fun id => log.seen id ∨ id ∈ s'.cohortPolicy
  counted := fun id => log.counted id ∨ id ∈ s'.cohortCounters
  full := Crowded s

theorem Log.Covers.enter {log : Log} (s s' : Maps) : (enterLog s s' log).Covers s' :=
  ⟨fun _ h => .inr h, fun _ h => .inr h⟩

-- Callbacks make cohorts with small numbers and delete none.
structure Meddles (real : LlcId → Prop) (x y : Maps × Log) : Prop where
  keys : KeysGrow x.1 y.1
  tgids : ∀ tgid, tgid ∈ x.1.tgidCohort → tgid ∈ y.1.tgidCohort
  turns : y.2.turns = x.2.turns
  full : x.2.full → y.2.full
  seen : ∀ id, y.2.seen id → x.2.seen id ∨ id.toNat < 2 ^ 32
  counted : ∀ id, y.2.counted id → x.2.counted id ∨ id.toNat < 2 ^ 32
  covers : x.2.Covers x.1 → y.2.Covers y.1
  homed : Homed real x.1 → Homed real y.1

theorem Meddles.refl (real : LlcId → Prop) (x : Maps × Log) : Meddles real x x where
  keys := KeysGrow.refl x.1
  tgids := fun _ h => h
  turns := rfl
  full := fun h => h
  seen := fun _ h => .inl h
  counted := fun _ h => .inl h
  covers := fun h => h
  homed := fun h => h

theorem Meddles.trans (real : LlcId → Prop) (x y z : Maps × Log) (h : Meddles real x y)
    (h' : Meddles real y z)
    : Meddles real x z where
  keys := h.keys.trans h'.keys
  tgids := fun tgid hmem => h'.tgids tgid (h.tgids tgid hmem)
  turns := by rw [h'.turns, h.turns]
  full := fun hfull => h'.full (h.full hfull)
  seen := by
    intro id hseen
    cases h'.seen id hseen with
    | inl hseen => exact h.seen id hseen
    | inr hsmall => exact .inr hsmall
  counted := by
    intro id hcounted
    cases h'.counted id hcounted with
    | inl hcounted => exact h.counted id hcounted
    | inr hsmall => exact .inr hsmall
  covers := fun hcovers => h'.covers (h.covers hcovers)
  homed := fun hhomed => h'.homed (h.homed hhomed)

-- A cohort that the daemon makes has a large number that no cohort has had before.
structure Behaves (real : LlcId → Prop) (x y : Maps × Log) : Prop where
  policy : ∀ id, id ∈ y.1.cohortPolicy → id ∈ x.1.cohortPolicy ∨ ¬ x.2.seen id ∧ 2 ^ 32 ≤ id.toNat
  counters : ∀ id, id ∈ y.1.cohortCounters
    → id ∈ x.1.cohortCounters ∨ ¬ x.2.counted id ∧ 2 ^ 32 ≤ id.toNat
  seq : y.1.cohortSeq = x.1.cohortSeq
  homed : Homed real x.1 → Homed real y.1

def orderly (real : LlcId → Prop) : Pact Log where
  note := fun _ => enterLog
  rely := Meddles real
  allows := fun x => x.2.turns < 2 ^ 63
  guar := Behaves real
  err := fun e x => e = .tooBig ∧ x.2.full
  refl := Meddles.refl real
  trans := Meddles.trans real
  errStable := fun _ _ _ hrely h => ⟨h.1, hrely.full h.2⟩

-- The LLCs that the daemon is given, and those that a pin may come down to, are real ones.
structure Layout (llcs : List (LlcId × UInt64)) (real : LlcId → Prop) : Prop where
  listed : ∀ e ∈ llcs, real e.1
  pinned : ∀ ccd, real (min ccd (UInt32.ofNat llcs.length - 1))

structure Sane (llcs : List (LlcId × UInt64)) (real : LlcId → Prop) (d : Scheduler) (x : Maps × Log)
    : Prop where
  llcs : d.llcCpus = llcs
  spills : ∀ pid llc, d.currentSpills.lookup pid = some llc → real llc
  seq : d.daemonSeq.toNat ≤ x.2.turns
  used : ∀ id, x.2.seen id ∨ x.2.counted id → id.toNat < 2 ^ 32 + d.daemonSeq.toNat
  covers : x.2.Covers x.1
  homed : Homed real x.1

variable {L : List (LlcId × UInt64)} {real : LlcId → Prop}

theorem stable_sane (d : Scheduler) : (orderly real).Stable (Sane L real d) := by
  intro x y hrely h
  refine ⟨h.llcs, h.spills, ?_, ?_, hrely.covers h.covers, hrely.homed h.homed⟩
  . rw [hrely.turns]
    exact h.seq
  . intro id hid
    have hold : (x.2.seen id ∨ x.2.counted id) ∨ id.toNat < 2 ^ 32 := by
      cases hid with
      | inl hseen =>
        cases hrely.seen id hseen with
        | inl hseen => exact .inl (.inl hseen)
        | inr hsmall => exact .inr hsmall
      | inr hcounted =>
        cases hrely.counted id hcounted with
        | inl hcounted => exact .inl (.inr hcounted)
        | inr hsmall => exact .inr hsmall
    cases hold with
    | inl hid => exact h.used id hid
    | inr hsmall => omega

theorem Sane.same {d d' : Scheduler} {x : Maps × Log} (h : Sane L real d x)
    (hllcs : d'.llcCpus = d.llcCpus)
    (hspills : d'.currentSpills = d.currentSpills) (hseq : d'.daemonSeq = d.daemonSeq)
    : Sane L real d' x := by
  refine ⟨?_, ?_, ?_, ?_, h.covers, h.homed⟩
  . rw [hllcs]
    exact h.llcs
  . rw [hspills]
    exact h.spills
  . rw [hseq]
    exact h.seq
  . rw [hseq]
    exact h.used

section Calm

-- An operation that makes no cohort.
structure Calm (real : LlcId → Prop) (s s' : Maps) : Prop where
  policy : ∀ id, id ∈ s'.cohortPolicy → id ∈ s.cohortPolicy
  counters : ∀ id, id ∈ s'.cohortCounters → id ∈ s.cohortCounters
  seq : s'.cohortSeq = s.cohortSeq
  homed : Homed real s → Homed real s'

theorem Calm.same {s s' : Maps} (hp : s'.cohortPolicy = s.cohortPolicy)
    (hc : s'.cohortCounters = s.cohortCounters) (hseq : s'.cohortSeq = s.cohortSeq)
    (hs : s'.spillTasks = s.spillTasks)
    : Calm real s s' := by
  refine ⟨?_, ?_, hseq, fun h => h.same hp hs⟩
  . intro id
    rw [hp]
    exact fun h => h
  . intro id
    rw [hc]
    exact fun h => h

variable {d : Scheduler} {x : Maps × Log} {s' : Maps}

theorem Calm.behaves (h : Calm real x.1 s') (log : Log) : Behaves real x (s', log) :=
  ⟨fun id hid => .inl (h.policy id hid), fun id hid => .inl (h.counters id hid), h.seq, h.homed⟩

theorem Sane.enter (hx : Sane L real d x)
    (hp : ∀ id, id ∈ s'.cohortPolicy → id ∈ x.1.cohortPolicy ∨ id.toNat < 2 ^ 32 + d.daemonSeq.toNat)
    (hc : ∀ id, id ∈ s'.cohortCounters → id ∈ x.1.cohortCounters ∨ id.toNat < 2 ^ 32 + d.daemonSeq.toNat)
    (hhomed : Homed real s')
    : Sane L real d (s', enterLog x.1 s' x.2) := by
  refine ⟨hx.llcs, hx.spills, Nat.le_succ_of_le hx.seq, ?_, Log.Covers.enter x.1 s', hhomed⟩
  intro id hid
  cases hid with
  | inl hseen =>
    cases hseen with
    | inl hseen => exact hx.used id (.inl hseen)
    | inr hmem =>
      cases hp id hmem with
      | inl hmem => exact hx.used id (.inl (hx.covers.1 id hmem))
      | inr hlt => exact hlt
  | inr hcounted =>
    cases hcounted with
    | inl hcounted => exact hx.used id (.inr hcounted)
    | inr hmem =>
      cases hc id hmem with
      | inl hmem => exact hx.used id (.inr (hx.covers.2 id hmem))
      | inr hlt => exact hlt

theorem Calm.sane (h : Calm real x.1 s') (hx : Sane L real d x)
    : Sane L real d (s', enterLog x.1 s' x.2) :=
  hx.enter (fun id hid => .inl (h.policy id hid)) (fun id hid => .inl (h.counters id hid))
    (h.homed hx.homed)

variable {α β : Type}

-- What a program starts with, it ends with.
def Tidy (L : List (LlcId × UInt64)) (real : LlcId → Prop) (p : DaemonM α) : Prop :=
  (orderly real).Meets (Sane L real) p (fun _ => Sane L real)

theorem tidy_pure {a : α} : Tidy L real (pure a) := meets_pure (fun _ => stable_sane) fun _ _ h => h

theorem tidy_bind {p : DaemonM α} {f : α → DaemonM β} (hp : Tidy L real p) (hf : ∀ a, Tidy L real (f a))
    : Tidy L real (p >>= f) :=
  meets_bind hp hf

theorem tidy_modify {f : Scheduler → Scheduler} (hllcs : ∀ d, (f d).llcCpus = d.llcCpus)
    (hspills : ∀ d, (f d).currentSpills = d.currentSpills) (hseq : ∀ d, (f d).daemonSeq = d.daemonSeq)
    : Tidy L real (modify f : DaemonM PUnit) := by
  apply meets_modify (fun _ => stable_sane)
  intro d x h
  exact h.same (hllcs d) (hspills d) (hseq d)

-- The daemon's state may be read and written back, but for what is kept of it.
theorem tidy_get_bind {f : Scheduler → DaemonM β}
    (hf : ∀ d, (orderly real).Meets (fun d' x => d' = d ∧ Sane L real d x) (f d) (fun _ => Sane L real))
    : Tidy L real (get >>= f) :=
  meets_get_bind stable_sane hf

theorem stable_read {d : Scheduler} (d' : Scheduler)
    : (orderly real).Stable fun x => d' = d ∧ Sane L real d x := by
  intro x y hrely h
  exact ⟨h.1, stable_sane d x y hrely h.2⟩

theorem meets_of_read {p : DaemonM α} {Q : α → Scheduler → Maps × Log → Prop}
    (hp : (orderly real).Meets (Sane L real) p Q) {d : Scheduler}
    : (orderly real).Meets (fun d' x => d' = d ∧ Sane L real d x) p Q := by
  apply hp.mono
  . intro d' x h
    rw [h.1]
    exact h.2
  . intro _ _ _ h
    exact h

theorem tidy_set_of_read {d d' : Scheduler} (hllcs : d'.llcCpus = d.llcCpus)
    (hspills : d'.currentSpills = d.currentSpills) (hseq : d'.daemonSeq = d.daemonSeq)
    : (orderly real).Meets (fun d₀ x => d₀ = d ∧ Sane L real d x) (set d' : DaemonM PUnit)
        (fun _ => Sane L real) := by
  apply meets_set (fun _ => stable_sane)
  intro d₀ x h
  exact h.2.same hllcs hspills hseq

theorem tidy_attempt {l : Op} {f : Maps → α × Maps} (h : ∀ s, Calm real s (f s).2)
    : Tidy L real (attempt (.atomic l f)) := by
  apply meets_attempt stable_sane (fun _ => stable_sane)
  intro d x hx _
  exact ⟨(h x.1).behaves _, (h x.1).sane hx⟩

-- The daemon's own state is as it was, whichever it was.
def Still (L : List (LlcId × UInt64)) (real : LlcId → Prop) (p : DaemonM PUnit) : Prop :=
  ∀ d, (orderly real).Meets (fun d' x => d' = d ∧ Sane L real d x) p
    (fun _ d' x => d' = d ∧ Sane L real d x)

theorem still_attempt {l : Op} {f : Maps → PUnit × Maps} (h : ∀ s, Calm real s (f s).2)
    : Still L real (attempt (.atomic l f)) := by
  intro d
  apply meets_attempt stable_read (fun _ => stable_read)
  intro d' x hx _
  exact ⟨(h x.1).behaves _, hx.1, (h x.1).sane hx.2⟩

theorem still_bind {p q : DaemonM PUnit} (hp : Still L real p) (hq : Still L real q)
    : Still L real (p >>= fun _ => q) :=
  fun d => meets_bind (hp d) fun _ => hq d

theorem still_forM {f : β → DaemonM PUnit} {l : List β} (hf : ∀ b, Still L real (f b))
    : Still L real (l.forM f) :=
  fun d => meets_forM stable_read fun b _ => hf b d

theorem Still.tidy {p : DaemonM PUnit} (h : Still L real p) : Tidy L real p := by
  intro d x hx
  apply (h d d x ⟨rfl, hx⟩).mono
  intro r y _ hr
  cases r with
  | error e => exact hr
  | ok r =>
    obtain ⟨heq, hy⟩ := hr
    show Sane L real r.2 y
    rw [heq]
    exact hy

theorem tidy_load {m : MapName} {f : Maps → α} : Tidy L real (attempt (load m f)) :=
  tidy_attempt fun _ => Calm.same rfl rfl rfl rfl

theorem tidy_batch {κ ν : Type} {o : IterOrder} {m : MapName} {table : Maps → HashTable κ ν}
    : Tidy L real (batch o m table) :=
  tidy_attempt fun _ => Calm.same rfl rfl rfl rfl

theorem tidy_forM {f : β → DaemonM PUnit} {l : List β} (hf : ∀ b ∈ l, Tidy L real (f b))
    : Tidy L real (l.forM f) :=
  meets_forM stable_sane hf

end Calm

section Survey

variable {env : TickEnv}

theorem tidy_snapshotTasks : Tidy L real (snapshotTasks env) := by
  apply tidy_bind tidy_batch
  intro entries
  apply tidy_get_bind
  intro d
  apply meets_bind (tidy_set_of_read (by rfl) (by rfl) (by rfl))
  intro _
  exact tidy_pure

theorem tidy_snapshotTgidCohort : Tidy L real (snapshotTgidCohort env) := by
  apply tidy_bind tidy_batch
  intro entries
  exact tidy_pure

-- A policy that has been looked up is there until the daemon deletes it.
theorem stable_hasPolicy_sane {id : CohortId} (d : Scheduler)
    : (orderly real).Stable fun x => Sane L real d x ∧ id ∈ x.1.cohortPolicy := by
  intro x y hrely h
  exact ⟨stable_sane d x y hrely h.1, hrely.keys.policy id h.2⟩

theorem meets_lookupPolicy {id : CohortId}
    : (orderly real).Meets (Sane L real) (attempt (Bpf.lookupPolicy id)) fun policy d x =>
        Sane L real d x ∧ ∀ p, policy = some p → real p.homeLlc ∧ id ∈ x.1.cohortPolicy := by
  apply meets_attempt stable_sane
  . intro policy d x y hrely h
    refine ⟨stable_sane d x y hrely h.1, ?_⟩
    intro p hp
    exact ⟨(h.2 p hp).1, hrely.keys.policy id (h.2 p hp).2⟩
  . intro d x hx _
    have hcalm : Calm real x.1 x.1 := Calm.same rfl rfl rfl rfl
    refine ⟨hcalm.behaves _, hcalm.sane hx, ?_⟩
    intro p hp
    exact ⟨hx.homed.policy id p hp, BoundedMap.mem_iff_lookup.mpr ⟨p, hp⟩⟩

theorem meets_setPolicy {id : CohortId} {policy : CohortPolicy} (hhome : real policy.homeLlc)
    : (orderly real).Meets (fun d x => Sane L real d x ∧ id ∈ x.1.cohortPolicy)
        (require (updatePolicy id policy .exist)) (fun _ => Sane L real) := by
  apply meets_requireUpdate (·.cohortPolicy) (fun s m => { s with cohortPolicy := m })
    stable_hasPolicy_sane (fun _ => stable_sane)
  . intro d x m hx _ hupd
    have hcalm : Calm real x.1 { x.1 with cohortPolicy := m } := by
      refine ⟨?_, fun _ h => h, rfl, ?_⟩
      . intro id' hmem
        cases (BoundedMap.mem_update_ok hupd id').mp hmem with
        | inl heq =>
          rw [heq]
          exact hx.2
        | inr hold => exact hold
      . intro h
        have hset := h.setPolicy id hhome .exist
        unfold BoundedMap.updateD at hset
        rw [hupd] at hset
        exact hset
    exact ⟨hcalm.behaves _, hcalm.sane hx.1⟩
  . intro d x e hx _ hupd
    obtain ⟨m, hok⟩ := BoundedMap.update_exist_of_mem hx.2 policy
    rw [hok] at hupd
    contradiction

variable (hL : Layout L real)

include hL

theorem real_wantHome {d : Scheduler} (hd : d.llcCpus = L) (ccd : UInt32) : real (wantHome d ccd) := by
  unfold wantHome
  rw [hd]
  exact hL.pinned ccd

theorem tidy_pinCohort {cohort : CohortId} {ccd : UInt32} : Tidy L real (pinCohort cohort ccd) := by
  apply meets_bind meets_lookupPolicy
  intro policy
  cases policy with
  | none => exact meets_pure (fun _ => stable_sane) fun _ _ h => h.1
  | some policy =>
    apply (meets_get_bind (R := fun _ => Sane L real) stable_hasPolicy_sane _).mono
      (fun d x h => ⟨h.1, (h.2 policy rfl).2⟩) fun _ _ _ h => h
    intro d
    dsimp only
    split
    . intro d' x h
      obtain ⟨rfl, hx⟩ := h
      exact meets_setPolicy (real_wantHome hL hx.1.llcs ccd) d' x hx
    . refine meets_pure (fun _ => stable_sane) ?_
      intro d' x h
      rw [h.1]
      exact h.2.1

theorem tidy_applyRules {tasks : List TaskSnapshot} : Tidy L real (applyRules env tasks) := by
  apply tidy_get_bind
  intro d
  split
  . exact meets_of_read tidy_pure
  . apply meets_bind (tidy_set_of_read (by rfl) (by rfl) (by rfl))
    intro _
    apply tidy_forM
    intro pin _
    exact tidy_pinCohort hL

omit hL

theorem calm_dropPolicy (s : Maps) (id : CohortId)
    : Calm real s { s with cohortPolicy := s.cohortPolicy.delete id } := by
  refine ⟨?_, fun _ h => h, rfl, ?_⟩
  . intro id' h
    exact (BoundedMap.mem_delete _ _ _).mp h |>.2
  . intro h
    refine ⟨?_, h.spill⟩
    intro id' policy hlookup
    rw [BoundedMap.lookup_delete] at hlookup
    split at hlookup
    . contradiction
    . exact h.policy id' policy hlookup

theorem calm_dropCounters (s : Maps) (id : CohortId)
    : Calm real s { s with cohortCounters := s.cohortCounters.delete id } := by
  refine ⟨fun _ h => h, ?_, rfl, fun h => h.same rfl rfl⟩
  intro id' h
  exact (BoundedMap.mem_delete _ _ _).mp h |>.2

theorem still_deleteCohort {id : CohortId} : Still L real (deleteCohort id) :=
  still_bind (still_attempt fun s => calm_dropCounters s id) (still_attempt fun s => calm_dropPolicy s id)

theorem tidy_snapshotCohorts {tasks : List TaskSnapshot} {tgidCohort : HashTable Tgid CohortId}
    : Tidy L real (snapshotCohorts env tasks tgidCohort) := by
  apply tidy_bind tidy_batch
  intro policies
  apply tidy_bind tidy_batch
  intro counters
  apply tidy_get_bind
  intro d
  apply meets_bind (still_forM (fun _ => still_deleteCohort) d)
  intro _
  apply meets_bind (tidy_set_of_read (by rfl) (by rfl) (by rfl))
  intro _
  exact tidy_pure

theorem tidy_gcTgidMap {tgidCohort : HashTable Tgid CohortId} {tasks : List TaskSnapshot}
    : Tidy L real (gcTgidMap env tgidCohort tasks) := by
  apply tidy_get_bind
  intro d
  apply meets_bind (still_forM (fun tgid => still_attempt fun s => Calm.same rfl rfl rfl rfl) d)
  intro _
  exact tidy_set_of_read rfl rfl rfl

-- The loads that are read are those of LLCs that the daemon knows of.
def Knows (real : LlcId → Prop) (llcs : List LlcLoad) : Prop := ∀ l ∈ llcs, real l.llc

theorem stable_knows {llcs : List LlcLoad} (d : Scheduler)
    : (orderly real).Stable fun x => Knows real llcs ∧ Sane L real d x := by
  intro x y hrely h
  exact ⟨h.1, stable_sane d x y hrely h.2⟩

theorem tidy_remember {llc : LlcId} {cur : UInt64}
    : Tidy L real (modify fun d => { d with prevLlcLoad := d.prevLlcLoad.insert llc cur }) :=
  tidy_modify (fun _ => rfl) (fun _ => rfl) fun _ => rfl

theorem meets_readLlcLoads (tickNs : UInt64) (cpus : List (LlcId × UInt64))
    (hcpus : ∀ e ∈ cpus, real e.1)
    : (orderly real).Meets (Sane L real) (readLlcLoads tickNs cpus) fun llcs d x =>
        Knows real llcs ∧ Sane L real d x := by
  induction cpus with
  | nil =>
    apply meets_pure fun _ => stable_knows
    intro d x h
    exact ⟨fun l hl => absurd hl List.not_mem_nil, h⟩
  | cons e rest ih =>
    have hrest := ih fun e' he' => hcpus e' (List.mem_cons_of_mem _ he')
    apply meets_bind tidy_load
    intro cur
    apply meets_get_bind stable_sane
    intro d
    apply meets_of_read
    apply meets_bind tidy_remember
    intro _
    apply meets_bind hrest
    intro out
    apply meets_pure fun _ => stable_knows
    intro d' x h
    refine ⟨?_, h.2⟩
    intro l hl
    cases List.mem_cons.mp hl with
    | inl heq =>
      rw [heq]
      exact hcpus e List.mem_cons_self
    | inr hmem => exact h.1 l hmem

theorem meets_llcLoads (hL : Layout L real)
    : (orderly real).Meets (Sane L real) llcLoads fun llcs d x => Knows real llcs ∧ Sane L real d x := by
  apply meets_get_bind stable_sane
  intro d d' x h
  obtain ⟨rfl, hx⟩ := h
  apply meets_readLlcLoads _ _ _ d' x hx
  rw [hx.llcs]
  exact hL.listed

theorem meets_survey (hL : Layout L real)
    : (orderly real).Meets (Sane L real) (survey env) fun view d x =>
        Knows real view.llcs ∧ Sane L real d x := by
  apply meets_bind tidy_snapshotTasks
  intro tasks
  apply meets_bind tidy_snapshotTgidCohort
  intro tgidCohort
  apply meets_bind (tidy_applyRules hL)
  intro _
  apply meets_bind tidy_snapshotCohorts
  intro cohorts
  apply meets_bind tidy_gcTgidMap
  intro _
  apply meets_bind (meets_llcLoads hL)
  intro llcs
  exact meets_pure (fun _ => stable_knows) fun _ _ h => h

end Survey

section Place

variable {env : TickEnv} {llcs : List LlcLoad}

theorem real_of_move {b : Balancer} {nowMs : UInt64} {cohorts : List CohortSnapshot} {id : CohortId}
    {toLlc : LlcId} (hllcs : Knows real llcs) (h : .moveCohort id toLlc ∈ (b.plan nowMs llcs cohorts).1)
    : real toLlc := by
  cases Balancer.plan_cases b nowMs llcs cohorts with
  | inl hnone =>
    obtain ⟨streak, hplan⟩ := hnone
    rw [hplan] at h
    contradiction
  | inr hmoves =>
    obtain ⟨max, min, c, hmoves, hplan⟩ := hmoves
    rw [hplan, List.mem_singleton, Decision.moveCohort.injEq] at h
    rw [h.2]
    exact hllcs min (Balancer.minLoad_spec hmoves.minLoad).1

theorem real_of_planned {d : Scheduler} {x : Maps × Log} {tasks : List TaskSnapshot}
    {cohorts : List CohortSnapshot} (hllcs : Knows real llcs) (hx : Sane L real d x) {pid : Pid}
    {llc : LlcId}
    (h : (planSpills d.spillCfg llcs tasks d.currentSpills cohorts).lookup pid = some llc)
    : real llc := by
  obtain ⟨c, _, hplanned⟩ := planned_of_lookup h
  cases hplanned.target with
  | inl hcurrent => exact hx.spills pid llc hcurrent
  | inr htarget =>
    obtain ⟨l, hl, rfl, _⟩ := Spill.leastLoaded_spillTarget htarget.1
    exact hllcs l hl

def Aims (real : LlcId → Prop) (decisions : List Decision) : Prop :=
  ∀ id toLlc, .moveCohort id toLlc ∈ decisions → real toLlc

theorem meets_planMoves {cohorts : List CohortSnapshot} (hllcs : Knows real llcs)
    : (orderly real).Meets (Sane L real) (planMoves env llcs cohorts) fun decisions d x =>
        Aims real decisions ∧ Sane L real d x := by
  have hstable : ∀ decisions d, (orderly real).Stable fun x => Aims real decisions ∧ Sane L real d x := by
    intro decisions d x y hrely h
    exact ⟨h.1, stable_sane d x y hrely h.2⟩
  apply meets_get_bind stable_sane
  intro d
  apply meets_bind (tidy_set_of_read (by rfl) (by rfl) (by rfl))
  intro _
  apply meets_pure hstable
  intro d' x h
  exact ⟨fun id toLlc hmem => real_of_move hllcs hmem, h⟩

theorem tidy_applyDecision {id : CohortId} {toLlc : LlcId} (h : real toLlc)
    : Tidy L real (applyDecision (.moveCohort id toLlc)) := by
  apply meets_bind meets_lookupPolicy
  intro policy
  cases policy with
  | none => exact meets_pure (fun _ => stable_sane) fun _ _ h => h.1
  | some policy =>
    apply (meets_bind (Q := fun _ => Sane L real) (meets_setPolicy _) _).mono
      (fun d x h => ⟨h.1, (h.2 policy rfl).2⟩) fun _ _ _ h => h
    . exact h
    . intro _
      exact tidy_modify (fun _ => rfl) (fun _ => rfl) fun _ => rfl

theorem tidy_apply {decisions : List Decision} (h : Aims real decisions)
    : Tidy L real (apply decisions) := by
  apply tidy_forM
  rintro ⟨id, toLlc⟩ hmem
  exact tidy_applyDecision (h id toLlc hmem)

theorem tidy_setSpill {current : Spills} {e : Pid × LlcId} (h : real e.2)
    : Tidy L real (setSpill current e) := by
  unfold setSpill
  split
  . apply meets_requireUpdate (·.spillTasks) (fun s m => { s with spillTasks := m })
      stable_sane (fun _ => stable_sane)
    . intro d x m hx _ hupd
      have hcalm : Calm real x.1 { x.1 with spillTasks := m } := by
        refine ⟨fun _ h => h, fun _ h => h, rfl, ?_⟩
        intro hhomed
        refine ⟨hhomed.policy, ?_⟩
        intro pid llc hlookup
        dsimp only at hlookup
        rw [BoundedMap.lookup_update_ok hupd] at hlookup
        split at hlookup
        . cases hlookup
          exact h
        . exact hhomed.spill pid llc hlookup
      exact ⟨hcalm.behaves _, hcalm.sane hx⟩
    . intro d x err hx _ hupd
      have hcalm : Calm real x.1 x.1 := Calm.same rfl rfl rfl rfl
      obtain ⟨herr, hfull⟩ := BoundedMap.tooBig_of_update_error hupd (by simp) (by simp)
      exact ⟨hcalm.behaves _, herr, .inr (.inr hfull)⟩
  . exact tidy_pure

theorem calm_dropSpill (s : Maps) (pid : Pid)
    : Calm real s { s with spillTasks := s.spillTasks.delete pid } := by
  refine ⟨fun _ h => h, fun _ h => h, rfl, ?_⟩
  intro h
  refine ⟨h.policy, ?_⟩
  intro pid' llc hlookup
  rw [BoundedMap.lookup_delete] at hlookup
  split at hlookup
  . contradiction
  . exact h.spill pid' llc hlookup

theorem tidy_unsetSpill {desired : Spills} {pid : Pid} : Tidy L real (unsetSpill desired pid) := by
  unfold unsetSpill
  split
  . exact tidy_attempt fun s => calm_dropSpill s pid
  . exact tidy_pure

theorem tidy_applySpills {desired : Spills} (h : ∀ pid llc, desired.lookup pid = some llc → real llc)
    : Tidy L real (applySpills env desired) := by
  apply tidy_get_bind
  intro d
  apply meets_of_read
  apply tidy_bind
  . apply tidy_forM
    intro e he
    rw [IterOrder.mem_order, HashTable.mem_items] at he
    exact tidy_setSpill (h e.1 e.2 he)
  . intro _
    apply tidy_bind (tidy_forM fun pid _ => tidy_unsetSpill)
    intro _
    apply meets_modify (fun _ => stable_sane)
    intro d' x hx
    exact ⟨hx.llcs, h, hx.seq, hx.used, hx.covers, hx.homed⟩

theorem tidy_place (hL : Layout L real) : Tidy L real (place env) := by
  apply meets_bind (meets_survey hL)
  intro view
  apply meets_given
  intro hllcs
  apply meets_bind (meets_planMoves hllcs)
  intro decisions
  apply meets_given
  intro hdecisions
  apply tidy_bind (tidy_apply hdecisions)
  intro _
  apply tidy_get_bind
  intro d d' x h
  obtain ⟨rfl, hx⟩ := h
  apply tidy_bind (tidy_applySpills fun pid llc => real_of_planned hllcs hx) (fun _ => tidy_pure) d' x hx

end Place

section Relationships

variable {env : TickEnv}

theorem tidy_observeEdges : Tidy L real (observeEdges env) := by
  apply tidy_bind
  . apply tidy_bind (tidy_attempt fun s => Calm.same rfl rfl rfl rfl)
    intro entries
    exact tidy_pure
  . intro deltas
    exact tidy_modify (fun _ => rfl) (fun _ => rfl) fun _ => rfl

theorem tidy_planMerges {tgidCohort : HashTable Tgid CohortId} {sizes : HashTable CohortId UInt64}
    : Tidy L real (planMerges env tgidCohort sizes) := by
  apply tidy_get_bind
  intro d
  apply meets_bind (tidy_set_of_read (by rfl) (by rfl) (by rfl))
  intro _
  exact tidy_pure

theorem tidy_planSplits {groups : HashTable CohortId WakeGraph.Members}
    : Tidy L real (planSplits env groups) := by
  apply tidy_get_bind
  intro d
  apply meets_bind (tidy_set_of_read (by rfl) (by rfl) (by rfl))
  intro _
  exact tidy_pure

theorem tidy_retarget {plan : MergePlan} {e : Tgid × CohortId} : Tidy L real (retarget plan e) := by
  unfold retarget
  split
  . apply tidy_bind
    . apply tidy_attempt
      intro s
      show Calm real s ((updateTgidCohort e.1 plan.into .exist).run s).2
      rw [run_updateTgidCohort]
      exact Calm.same rfl rfl rfl rfl
    . intro _
      exact tidy_pure
  . exact tidy_pure

theorem tidy_applyMerge {tgidCohort : HashTable Tgid CohortId} {plan : MergePlan}
    : Tidy L real (applyMerge env tgidCohort plan) := by
  apply tidy_bind tidy_load
  intro into
  cases into with
  | none => exact tidy_pure
  | some _ =>
    apply tidy_bind tidy_load
    intro src
    cases src with
    | none => exact tidy_pure
    | some _ =>
      apply tidy_bind (tidy_forM fun e _ => tidy_retarget)
      intro _
      apply tidy_bind still_deleteCohort.tidy
      intro _
      exact tidy_modify (fun _ => rfl) (fun _ => rfl) fun _ => rfl

-- A number that has been drawn for a cohort that is yet to be made.
structure Reserves (id : CohortId) (x : Maps × Log) : Prop where
  large : 2 ^ 32 ≤ id.toNat
  unseen : ¬ x.2.seen id
  uncounted : ¬ x.2.counted id

theorem stable_reserves {id : CohortId} : (orderly real).Stable (Reserves id) := by
  intro x y hrely h
  have hlarge := h.large
  refine ⟨hlarge, ?_, ?_⟩
  . intro hseen
    cases hrely.seen id hseen with
    | inl hseen => exact h.unseen hseen
    | inr hsmall => omega
  . intro hcounted
    cases hrely.counted id hcounted with
    | inl hcounted => exact h.uncounted hcounted
    | inr hsmall => omega

-- The daemon is about to draw the next number.
structure Draws (d : Scheduler) (x : Maps × Log) : Prop where
  seq : d.daemonSeq.toNat < x.2.turns
  turns : x.2.turns ≤ 2 ^ 63

theorem stable_draws (d : Scheduler) : (orderly real).Stable (Draws d) := by
  intro x y hrely h
  constructor
  . rw [hrely.turns]
    exact h.seq
  . rw [hrely.turns]
    exact h.turns

def nextId (d : Scheduler) : CohortId := daemonCohortBase + d.daemonSeq

theorem Draws.toNat_nextId {d : Scheduler} {x : Maps × Log} (h : Draws d x)
    : (nextId d).toNat = 2 ^ 32 + d.daemonSeq.toNat := by
  have hseq := h.seq
  have hturns := h.turns
  have hbase : daemonCohortBase.toNat = 2 ^ 32 := by decide
  unfold nextId
  rw [UInt64.toNat_add, hbase]
  omega

theorem Draws.reserves {d : Scheduler} {x : Maps × Log} (h : Draws d x) (hx : Sane L real d x)
    : Reserves (nextId d) x := by
  have hid := h.toNat_nextId
  refine ⟨by omega, ?_, ?_⟩
  . intro hseen
    have := hx.used _ (.inl hseen)
    omega
  . intro hcounted
    have := hx.used _ (.inr hcounted)
    omega

theorem Draws.sane {d : Scheduler} {x : Maps × Log} (h : Draws d x) (hx : Sane L real d x)
    : Sane L real { d with daemonSeq := d.daemonSeq + 1 } x
      ∧ (nextId d).toNat < 2 ^ 32 + (d.daemonSeq + 1).toNat := by
  have hseq := h.seq
  have hturns := h.turns
  have hid := h.toNat_nextId
  have hnext : (d.daemonSeq + 1).toNat = d.daemonSeq.toNat + 1 := by
    rw [UInt64.toNat_add]
    simp only [UInt64.toNat_one]
    omega
  refine ⟨⟨hx.llcs, hx.spills, ?_, ?_, hx.covers, hx.homed⟩, ?_⟩
  . dsimp only
    omega
  . intro id hused
    have := hx.used id hused
    dsimp only
    omega
  . omega

-- What the daemon knows of the number it has drawn, up to the policy and up to the counters.
structure Drawn (L : List (LlcId × UInt64)) (real : LlcId → Prop) (id : CohortId) (d : Scheduler)
    (x : Maps × Log)
    : Prop where
  sane : Sane L real d x
  reserves : Reserves id x
  lt : id.toNat < 2 ^ 32 + d.daemonSeq.toNat

structure Half (L : List (LlcId × UInt64)) (real : LlcId → Prop) (id : CohortId) (d : Scheduler)
    (x : Maps × Log)
    : Prop where
  sane : Sane L real d x
  large : 2 ^ 32 ≤ id.toNat
  uncounted : ¬ x.2.counted id
  lt : id.toNat < 2 ^ 32 + d.daemonSeq.toNat

theorem stable_drawn {id : CohortId} (d : Scheduler) : (orderly real).Stable (Drawn L real id d) := by
  intro x y hrely h
  exact ⟨stable_sane d x y hrely h.sane, stable_reserves x y hrely h.reserves, h.lt⟩

theorem stable_half {id : CohortId} (d : Scheduler) : (orderly real).Stable (Half L real id d) := by
  intro x y hrely h
  refine ⟨stable_sane d x y hrely h.sane, h.large, ?_, h.lt⟩
  intro hcounted
  have hlarge := h.large
  cases hrely.counted id hcounted with
  | inl hcounted => exact h.uncounted hcounted
  | inr hsmall => omega

theorem meets_makePolicy {id : CohortId} {policy : CohortPolicy} (hhome : real policy.homeLlc)
    : (orderly real).Meets (Drawn L real id) (require (updatePolicy id policy .noExist))
        (fun _ => Half L real id) := by
  apply meets_requireUpdate (·.cohortPolicy) (fun s m => { s with cohortPolicy := m })
    stable_drawn (fun _ => stable_half)
  . intro d x m hx _ hupd
    have hmem := BoundedMap.mem_update_ok hupd
    have hhomed : Homed real { x.1 with cohortPolicy := m } := by
      have hset := hx.sane.homed.setPolicy id hhome .noExist
      unfold BoundedMap.updateD at hset
      rw [hupd] at hset
      exact hset
    refine ⟨⟨?_, fun _ h => .inl h, rfl, fun _ => hhomed⟩, ⟨?_, hx.reserves.large, ?_, hx.lt⟩⟩
    . intro id' hid'
      cases (hmem id').mp hid' with
      | inl heq =>
        rw [heq]
        exact .inr ⟨hx.reserves.unseen, hx.reserves.large⟩
      | inr hold => exact .inl hold
    . refine hx.sane.enter ?_ (fun _ h => .inl h) hhomed
      intro id' hid'
      cases (hmem id').mp hid' with
      | inl heq =>
        rw [heq]
        exact .inr hx.lt
      | inr hold => exact .inl hold
    . intro hcounted
      cases hcounted with
      | inl hcounted => exact hx.reserves.uncounted hcounted
      | inr hin => exact hx.reserves.uncounted (hx.sane.covers.2 id hin)
  . intro d x e hx _ hupd
    have hcalm : Calm real x.1 x.1 := Calm.same rfl rfl rfl rfl
    have hnot : id ∉ x.1.cohortPolicy := fun hin => hx.reserves.unseen (hx.sane.covers.1 id hin)
    obtain ⟨herr, hfull⟩ := BoundedMap.tooBig_of_update_error hupd (by simp) fun _ => hnot
    exact ⟨hcalm.behaves _, herr, .inl hfull⟩

theorem meets_makeCounters {id : CohortId} {counters : CohortCounters}
    : (orderly real).Meets (Half L real id) (require (updateCounters id counters .noExist))
        (fun _ => Sane L real) := by
  apply meets_requireUpdate (·.cohortCounters) (fun s m => { s with cohortCounters := m }) stable_half
    (fun _ => stable_sane)
  . intro d x m hx _ hupd
    have hmem := BoundedMap.mem_update_ok hupd
    have hhomed : Homed real { x.1 with cohortCounters := m } := hx.sane.homed.same rfl rfl
    refine ⟨⟨fun _ h => .inl h, ?_, rfl, fun _ => hhomed⟩, ?_⟩
    . intro id' hid'
      cases (hmem id').mp hid' with
      | inl heq =>
        rw [heq]
        exact .inr ⟨hx.uncounted, hx.large⟩
      | inr hold => exact .inl hold
    . refine hx.sane.enter (fun _ h => .inl h) ?_ hhomed
      intro id' hid'
      cases (hmem id').mp hid' with
      | inl heq =>
        rw [heq]
        exact .inr hx.lt
      | inr hold => exact .inl hold
  . intro d x e hx _ hupd
    have hcalm : Calm real x.1 x.1 := Calm.same rfl rfl rfl rfl
    have hnot : id ∉ x.1.cohortCounters := fun hin => hx.uncounted (hx.sane.covers.2 id hin)
    obtain ⟨herr, hfull⟩ := BoundedMap.tooBig_of_update_error hupd (by simp) fun _ => hnot
    exact ⟨hcalm.behaves _, herr, .inr (.inl hfull)⟩

-- Only the daemon deletes thread groups, so one that it has found is still there.
theorem tidy_splitTgid {id : CohortId} {tgid : Tgid} : Tidy L real (splitTgid id tgid) := by
  have hstable : ∀ d, (orderly real).Stable fun x => Sane L real d x ∧ tgid ∈ x.1.tgidCohort := by
    intro d x y hrely h
    exact ⟨stable_sane d x y hrely h.1, hrely.tgids tgid h.2⟩
  have hlookup : (orderly real).Meets (Sane L real) (attempt (lookupTgidCohort tgid)) fun old d x =>
      Sane L real d x ∧ (old.isSome = true → tgid ∈ x.1.tgidCohort) := by
    apply meets_attempt stable_sane
    . intro old d x y hrely h
      exact ⟨stable_sane d x y hrely h.1, fun hold => hrely.tgids tgid (h.2 hold)⟩
    . intro d x hx _
      have hcalm : Calm real x.1 x.1 := Calm.same rfl rfl rfl rfl
      refine ⟨hcalm.behaves _, hcalm.sane hx, ?_⟩
      intro hsome
      exact BoundedMap.mem_iff_lookup.mpr (Option.isSome_iff_exists.mp hsome)
  apply meets_bind hlookup
  intro old
  cases old with
  | none => exact meets_pure (fun _ => stable_sane) fun _ _ h => h.1
  | some _ =>
    apply Meets.mono (P := fun d x => Sane L real d x ∧ tgid ∈ x.1.tgidCohort) _
      (fun d x h => ⟨h.1, h.2 rfl⟩) fun _ _ _ h => h
    apply meets_requireUpdate (·.tgidCohort) (fun s m => { s with tgidCohort := m })
      hstable (fun _ => stable_sane)
    . intro d x m hx _ _
      have hcalm : Calm real x.1 { x.1 with tgidCohort := m } := Calm.same rfl rfl rfl rfl
      exact ⟨hcalm.behaves _, hcalm.sane hx.1⟩
    . intro d x e hx _ hupd
      obtain ⟨m, hok⟩ := BoundedMap.update_exist_of_mem hx.2 id
      rw [hok] at hupd
      contradiction

theorem meets_findPolicy {id : CohortId}
    : (orderly real).Meets (Sane L real) (attempt (Bpf.lookupPolicy id)) fun policy d x =>
        (∀ p, policy = some p → real p.homeLlc) ∧ Sane L real d x ∧ Draws d x := by
  apply meets_attempt stable_sane
  . intro policy d x y hrely h
    exact ⟨h.1, stable_sane d x y hrely h.2.1, stable_draws d x y hrely h.2.2⟩
  . intro d x hx hallows
    have hcalm : Calm real x.1 x.1 := Calm.same rfl rfl rfl rfl
    exact ⟨hcalm.behaves _, fun p hp => hx.homed.policy id p hp, hcalm.sane hx,
      Nat.lt_succ_of_le hx.seq, hallows⟩

theorem tidy_applySplit {plan : SplitPlan} : Tidy L real (applySplit plan) := by
  apply meets_bind meets_findPolicy
  intro policy
  apply meets_given
  intro hpolicy
  cases policy with
  | none => exact meets_pure (fun _ => stable_sane) fun _ _ h => h.1
  | some policy =>
    apply meets_get_bind
    . intro d x y hrely h
      exact ⟨stable_sane d x y hrely h.1, stable_draws d x y hrely h.2⟩
    . intro d
      have hdraw : (orderly real).Meets (fun d' x => d' = d ∧ Sane L real d x ∧ Draws d x)
          (modify fun d => { d with daemonSeq := d.daemonSeq + 1 }) (fun _ => Drawn L real (nextId d)) := by
        apply meets_modify fun _ => stable_drawn
        intro d' x h
        obtain ⟨rfl, hx, hdraws⟩ := h
        have hsane := hdraws.sane hx
        exact ⟨hsane.1, hdraws.reserves hx, hsane.2⟩
      apply meets_bind hdraw
      intro _
      have hhome := hpolicy policy rfl
      apply meets_bind (meets_makePolicy (by exact hhome))
      intro _
      apply meets_bind meets_makeCounters
      intro _
      apply tidy_bind (tidy_forM fun tgid _ => tidy_splitTgid)
      intro _
      exact tidy_modify (fun _ => rfl) (fun _ => rfl) fun _ => rfl

theorem tidy_discoverRelationships {cohorts : List CohortSnapshot} {tasks : List TaskSnapshot}
    {tgidCohort : HashTable Tgid CohortId}
    : Tidy L real (discoverRelationships env cohorts tasks tgidCohort) := by
  apply tidy_bind tidy_observeEdges
  intro _
  apply tidy_bind tidy_planMerges
  intro merges
  apply tidy_bind (tidy_forM fun plan _ => tidy_applyMerge)
  intro _
  apply tidy_bind tidy_planSplits
  intro splits
  exact tidy_forM fun plan _ => tidy_applySplit

theorem tidy_tick (hL : Layout L real) : Tidy L real (tick env) := by
  apply tidy_bind (tidy_place hL)
  intro view
  apply tidy_bind tidy_discoverRelationships
  intro _
  exact tidy_pure

end Relationships

end Daemon
