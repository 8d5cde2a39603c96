import Mathlib.Algebra.BigOperators.Group.Finset.Basic
import Mathlib.Algebra.Order.BigOperators.Group.Finset
import Mathlib.Data.Fintype.Basic
import ScxCohort.Bpf.Lemmas.Admit
import ScxCohort.Daemon.Lemmas.Procs
import ScxCohort.Daemon.Lemmas.Turns
import ScxCohort.Daemon.Service

/-!
This module contains that the reports of one session add up, whatever callbacks do while the counters
of an answer are looked up: what has happened is in one of them, and the share of placements at home is
one.
-/

namespace Daemon

instance : Fintype Stat where
  elems := ⟨statIndices, by decide⟩
  complete := by
    intro idx
    cases idx <;> decide

section Counters

-- The counters of the BPF component, as an answer has them.
def counter (m : Metrics) : Stat → UInt64
  | .syncLocal => m.nrSyncLocal
  | .prevIdle => m.nrPrevIdle
  | .idleCore => m.nrIdleCore
  | .idleSmt => m.nrIdleSmt
  | .homeMissClamp => m.nrHomeMissClamp
  | .enqHome => m.nrEnqHome
  | .enqSpill => m.nrEnqSpill
  | .steal => m.nrSteals
  | .tctxErr => m.nrTctxErrors

theorem counter_delta (cur prev : Metrics) (idx : Stat)
    : counter (cur.delta prev) idx = (counter cur idx).saturatingSub (counter prev idx) := by
  cases idx <;> rfl

end Counters

section Counts

-- What counts at most one event.
def Counts (s s' : Maps) : Prop :=
  s'.stats = s.stats ∨ ∃ idx, s'.stats = Function.update s.stats idx (s.stats idx + 1)

def events (s : Maps) : Nat := ∑ idx, (s.stats idx).toNat

theorem counts_refl (s : Maps) : Counts s s := .inl rfl

theorem stat_le_events (s : Maps) (idx : Stat) : (s.stats idx).toNat ≤ events s :=
  Finset.single_le_sum (f := fun i => (s.stats i).toNat) (fun _ _ => Nat.zero_le _) (Finset.mem_univ idx)

theorem Counts.grows {s s' : Maps} (h : Counts s s') (hlt : events s + 1 < 2 ^ 64)
    : events s' ≤ events s + 1 ∧ ∀ idx, s.stats idx ≤ s'.stats idx := by
  cases h with
  | inl hsame =>
    have hevents : events s' = events s := by
      unfold events
      rw [hsame]
    rw [hsame, hevents]
    exact ⟨Nat.le_succ _, fun _ => UInt64.le_refl _⟩
  | inr hinc =>
    obtain ⟨idx, hinc⟩ := hinc
    have hidx := stat_le_events s idx
    have hone : (s.stats idx + 1).toNat = (s.stats idx).toNat + 1 := by
      rw [UInt64.toNat_add]
      exact Nat.mod_eq_of_lt (by simp only [UInt64.toNat_one]; omega)
    have hrest : ∑ i ∈ Finset.univ.erase idx, (s'.stats i).toNat
        = ∑ i ∈ Finset.univ.erase idx, (s.stats i).toNat := by
      apply Finset.sum_congr rfl
      intro i hi
      rw [hinc, Function.update_of_ne (Finset.ne_of_mem_erase hi)]
    constructor
    . unfold events
      rw [← Finset.add_sum_erase _ _ (Finset.mem_univ idx),
        ← Finset.add_sum_erase _ _ (Finset.mem_univ idx), hrest, hinc, Function.update_self, hone]
      omega
    . intro i
      rw [hinc, Function.update_apply]
      split
      . next heq =>
        rw [heq, UInt64.le_iff_toNat_le, hone]
        exact Nat.le_succ _
      . exact UInt64.le_refl _

theorem counts_all : Bpf.KeepsAll Counts where
  refl := counts_refl
  stat := fun _ idx => .inr ⟨idx, rfl⟩
  tctx := fun _ _ _ _ => .inl rfl
  headEnqTs := fun _ _ _ => .inl rfl
  queues := fun _ _ _ => .inl rfl
  idle := fun _ _ => .inl rfl
  sample := fun _ _ => .inl rfl
  edges := fun _ _ => .inl rfl
  wake := fun _ _ _ _ => .inl rfl
  nrTasks := fun _ _ _ => .inl rfl
  dropTaskStat := fun _ _ => .inl rfl
  dropSpill := fun _ _ => .inl rfl
  seq := fun _ _ _ => .inl rfl
  policy := fun _ _ _ _ _ _ => .inl rfl
  counters := fun _ _ _ _ _ _ => .inl rfl
  tgid := fun _ _ _ _ _ _ => .inl rfl
  taskStat := fun _ _ _ _ _ => .inl rfl
  spill := fun _ _ _ _ _ => .inl rfl
  anyTctx := fun _ _ _ => .inl rfl
  vtimeNow := fun _ _ _ => .inl rfl
  anyCounters := fun _ _ _ => .inl rfl
  llcLoad := fun _ _ => .inl rfl
  anyTaskStat := fun _ _ _ => .inl rfl
  storage := fun _ _ => .inl rfl
  dropPolicy := fun _ _ => .inl rfl
  dropCounters := fun _ _ => .inl rfl
  dropTgid := fun _ _ => .inl rfl

theorem counts_writes : KeepsWrites Counts where
  refl := counts_refl
  policy := fun _ _ _ _ => .inl rfl
  counters := fun _ _ _ _ => .inl rfl
  tgid := fun _ _ _ _ => .inl rfl
  spill := fun _ _ => .inl rfl
  edges := fun _ _ => .inl rfl
  dropPolicy := fun _ _ => .inl rfl
  dropCounters := fun _ _ => .inl rfl
  dropTgid := fun _ _ => .inl rfl

end Counts

section Reading

-- While an answer is put together, counters only grow.
def readerTerms : Proc.Terms Op Maps Unit where
  rely s _ s' _ := ∀ idx, s.stats idx ≤ s'.stats idx
  allows _ _ _ _ := True
  guar s s' := s' = s
  note _ _ _ c := c
  refl := fun _ _ _ => UInt64.le_refl _
  trans := fun _ _ _ _ _ _ h h' idx => UInt64.le_trans (h idx) (h' idx)

-- No less than what there was at some time, and no more than there is now.
def Between (low now c : Stat → UInt64) : Prop := ∀ idx, low idx ≤ c idx ∧ c idx ≤ now idx

variable {low : Stat → UInt64}

theorem Between.rely {now now' c : Stat → UInt64} (h : Between low now c)
    (hnow : ∀ idx, now idx ≤ now' idx)
    : Between low now' c := by
  intro idx
  exact ⟨(h idx).1, UInt64.le_trans (h idx).2 (hnow idx)⟩

theorem safe_readStats (is : List Stat) {s : Maps} (hlow : ∀ idx, low idx ≤ s.stats idx)
    {out : Stat → UInt64} (hout : ∀ idx, idx ∉ is → low idx ≤ out idx ∧ out idx ≤ s.stats idx)
    : Proc.Safe readerTerms (fun c s _ => Between low s.stats c)
        (is.foldlM (fun out idx => do
          let sum ← Bpf.load .stats (·.stats idx)
          return Function.update out idx sum) out : BpfM (Stat → UInt64)) s () := by
  induction is generalizing s out with
  | nil =>
    intro s' _ hrely
    have hbetween : Between low s.stats out := fun idx => hout idx List.not_mem_nil
    exact hbetween.rely hrely
  | cons i is ih =>
    intro s' _ hrely _
    refine ⟨rfl, ?_⟩
    apply ih
    . intro idx
      exact UInt64.le_trans (hlow idx) (hrely idx)
    . intro idx hidx
      rw [Function.update_apply]
      split
      . next heq =>
        rw [heq]
        exact ⟨UInt64.le_trans (hlow i) (hrely i), UInt64.le_refl _⟩
      . next hne =>
        have hrest := hout idx (by rw [List.mem_cons]; exact fun h => h.elim hne hidx)
        exact ⟨hrest.1, UInt64.le_trans hrest.2 (hrely idx)⟩

theorem safe_getMetrics {s : Maps} (hlow : ∀ idx, low idx ≤ s.stats idx) (d : Scheduler)
    (cohorts : List CohortSnapshot) (llcs : List LlcLoad)
    : (getMetrics d cohorts llcs).Safe readerTerms (fun m s _ => Between low s.stats (counter m)) s () := by
  unfold getMetrics
  apply Proc.Safe.bind
  . apply safe_readStats statIndices hlow
    intro idx hidx
    cases idx <;> simp [statIndices] at hidx
  . intro c s _ hc s' _ hrely
    have hcounter : Between low s.stats c := hc
    intro idx
    cases idx <;> exact hcounter.rely hrely _

end Reading

end Daemon

namespace Service

open Daemon

section Sound

variable {g : Globals} {v : Service} {n : Nat} {low : Stat → UInt64}

-- What the session has been told: the answer it has started with, and its reports.
def told (v : Service) (idx : Stat) : Nat :=
  (v.opened.elim 0 fun m => (counter m idx).toNat) + (v.reports.map fun r => (counter r idx).toNat).sum

def last (v : Service) (idx : Stat) : UInt64 := v.prev.elim 0 fun m => counter m idx

-- The answer that is being put together has `low` and all that the one before it had.
def Reads (low : Stat → UInt64) (v : Service) : Prop :=
  ∀ p, v.reading = some p
    → p.Safe readerTerms (fun m s _ => Between low s.stats (counter m)) v.world.maps ()

structure Sound (n : Nat) (v : Service) : Prop where
  kept : World.Kept Counts Counts v.world
  events : events v.world.maps ≤ n
  told : ∀ idx, v.told idx = (v.last idx).toNat
  last : ∀ idx, v.last idx ≤ v.world.maps.stats idx
  reads : Reads v.last v

theorem stats_attached (g : Globals) : (Bpf.attached g).stats = fun _ => 0 := by
  rw [Bpf.attached_eq]
  rfl

theorem sound_start (g : Globals) (d : Scheduler) : Sound 0 (start g d) where
  kept := World.kept_start d
  events := by
    unfold start World.start Daemon.events
    rw [stats_attached]
    rfl
  told := fun _ => rfl
  last := by
    intro idx
    exact UInt64.zero_le
  reads := by
    intro p hp
    contradiction

theorem told_respond (h : Sound n v) {m : Metrics} (hm : ∀ idx, v.last idx ≤ counter m idx) (idx : Stat)
    : (v.respond m).told idx = (counter m idx).toNat := by
  have htold := h.told idx
  have hlast := UInt64.le_iff_toNat_le.mp (hm idx)
  unfold told last at htold
  unfold last at hlast
  unfold respond told
  cases hprev : v.prev with
  | none =>
    rw [hprev] at htold
    have hnone : (v.reports.map fun r => (counter r idx).toNat).sum = 0 := by
      simp only [Option.elim, UInt64.toNat_zero] at htold
      omega
    dsimp only [Option.elim]
    rw [hnone]
    rfl
  | some prev =>
    rw [hprev] at htold hlast
    dsimp only [Option.elim] at htold hlast ⊢
    rw [List.map_append, List.sum_append, ← Nat.add_assoc, htold, List.map_singleton, List.sum_singleton,
      counter_delta, UInt64.toNat_saturatingSub]
    omega

theorem last_respond (v : Service) (m : Metrics) : (v.respond m).last = counter m := by
  unfold respond last
  split <;> rfl

theorem world_respond (v : Service) (m : Metrics) : (v.respond m).world = v.world := by
  unfold respond
  split <;> rfl

theorem reading_respond (v : Service) (m : Metrics) : (v.respond m).reading = none := by
  unfold respond
  split <;> rfl

theorem Reads.between {m : Metrics} (h : Reads low v) (hp : v.reading = some (.ret m))
    : Between low v.world.maps.stats (counter m) :=
  h _ hp v.world.maps () fun _ => UInt64.le_refl _

theorem Reads.grows {w : World} (h : Reads low v) (hw : ∀ idx, v.world.maps.stats idx ≤ w.maps.stats idx)
    : Reads low { v with world := w } := by
  intro p hp
  exact (h p hp).rely hw

theorem Reads.request (hlow : ∀ idx, low idx ≤ v.world.maps.stats idx) (d : Scheduler)
    (cohorts : List CohortSnapshot) (llcs : List LlcLoad)
    : Reads low { v with reading := some (getMetrics d cohorts llcs) } := by
  intro p hp
  rw [← Option.some.inj hp]
  exact safe_getMetrics hlow d cohorts llcs

theorem Reads.step {p p' : BpfM Metrics} {op : Op} {s : Maps} (h : Reads low v) (hp : v.reading = some p)
    (hstep : p.step? v.world.maps = some (op, p', s))
    : s = v.world.maps ∧ Reads low { v with reading := some p' } := by
  obtain ⟨hguar, hsafe⟩ := (h p hp).step hstep trivial
  have hsame : s = v.world.maps := hguar
  refine ⟨hsame, ?_⟩
  intro q hq
  rw [← Option.some.inj hq]
  rw [hsame] at hsafe
  exact hsafe

end Sound

section Turns

theorem next_cases (g : Globals) (v : Service) (t : Turn)
    : next g v t = v
        ∨ (∃ t', next g v t = { v with world := World.next g v.world t' })
        ∨ (∃ d cohorts llcs, v.reading = none
          ∧ next g v t = { v with reading := some (getMetrics d cohorts llcs) })
        ∨ (∃ m, v.reading = some (.ret m) ∧ next g v t = v.respond m)
        ∨ ∃ p op p' s, v.reading = some p ∧ p.step? v.world.maps = some (op, p', s)
          ∧ next g v t = { v with reading := some p', world := { v.world with maps := s } } := by
  cases t with
  | world t =>
    cases t with
    | beginTick env =>
      simp only [next]
      split
      . exact .inl rfl
      . exact .inr (.inl ⟨_, rfl⟩)
    | call e => exact .inr (.inl ⟨_, rfl⟩)
    | callback i => exact .inr (.inl ⟨_, rfl⟩)
    | daemon => exact .inr (.inl ⟨_, rfl⟩)
  | request =>
    simp only [next]
    split
    . next view d hreading _ => exact .inr (.inr (.inl ⟨d, view.1, view.2, hreading, rfl⟩))
    . exact .inl rfl
  | read =>
    simp only [next]
    split
    . exact .inl rfl
    . next m hreading => exact .inr (.inr (.inr (.inl ⟨m, hreading, rfl⟩)))
    . next p _ hreading =>
      split
      . exact .inl rfl
      . next op p' s hstep => exact .inr (.inr (.inr (.inr ⟨p, op, p', s, hreading, hstep, rfl⟩)))

variable {g : Globals} {v : Service} {n : Nat} {low : Stat → UInt64}

theorem counts_world (h : World.Kept Counts Counts v.world) (t : World.Turn)
    : World.Kept Counts Counts (World.next g v.world t)
        ∧ Counts v.world.maps (World.next g v.world t).maps := by
  obtain ⟨hkept, hmoves⟩ := h.next (fun e _ => counts_all.prog e) (fun env d => counts_writes.tick d)
    counts_refl counts_refl t
  refine ⟨hkept, ?_⟩
  cases t with
  | call e => exact .inl (congrArg Maps.stats hmoves)
  | callback i => exact hmoves
  | beginTick env => exact .inl (congrArg Maps.stats hmoves)
  | daemon => exact hmoves

theorem Sound.respond (h : Sound n v) {m : Metrics} (hm : v.reading = some (.ret m))
    : Sound n (v.respond m) := by
  have hbetween := h.reads.between hm
  constructor
  . rw [world_respond]
    exact h.kept
  . rw [world_respond]
    exact h.events
  . intro idx
    rw [told_respond h (fun idx => (hbetween idx).1), last_respond]
  . intro idx
    rw [world_respond, last_respond]
    exact (hbetween idx).2
  . intro p hp
    rw [reading_respond] at hp
    contradiction

theorem Sound.next (h : Sound n v) (hn : n + 1 < 2 ^ 64) (t : Turn)
    : Sound (n + 1) (next g v t)
      ∧ ∀ idx, v.world.maps.stats idx ≤ (Service.next g v t).world.maps.stats idx := by
  have hlater : Sound (n + 1) v := { h with events := Nat.le_succ_of_le h.events }
  rcases next_cases g v t with hsame | ⟨t', hworld⟩ | ⟨d, cohorts, llcs, _, hrequest⟩ | ⟨m, hm, hrespond⟩
    | ⟨p, op, p', s, hp, hstep, hread⟩
  . rw [hsame]
    exact ⟨hlater, fun _ => UInt64.le_refl _⟩
  . obtain ⟨hkept, hcounts⟩ := counts_world (g := g) h.kept t'
    have hevents := h.events
    obtain ⟨hone, hgrows⟩ := hcounts.grows (by omega)
    rw [hworld]
    refine ⟨⟨hkept, ?_, h.told, ?_, h.reads.grows hgrows⟩, hgrows⟩
    . dsimp only
      omega
    . intro idx
      exact UInt64.le_trans (h.last idx) (hgrows idx)
  . rw [hrequest]
    exact ⟨{ hlater with reads := Reads.request h.last d cohorts llcs }, fun _ => UInt64.le_refl _⟩
  . rw [hrespond, world_respond]
    exact ⟨hlater.respond hm, fun _ => UInt64.le_refl _⟩
  . obtain ⟨hs, hreads⟩ := h.reads.step hp hstep
    rw [hread, hs]
    exact ⟨{ hlater with reads := hreads }, fun _ => UInt64.le_refl _⟩

theorem sound_run (h : Sound n v) (turns : List Turn) (hn : n + turns.length < 2 ^ 64)
    : Sound (n + turns.length) (run g v turns)
        ∧ ∀ idx, v.world.maps.stats idx ≤ (run g v turns).world.maps.stats idx := by
  induction turns generalizing v n with
  | nil => exact ⟨h, fun _ => UInt64.le_refl _⟩
  | cons t turns ih =>
    rw [List.length_cons] at hn ⊢
    obtain ⟨hnext, hgrows⟩ := h.next (g := g) (by omega) t
    obtain ⟨hrun, hgrows'⟩ := ih hnext (by omega)
    constructor
    . rw [Nat.add_comm turns.length 1, ← Nat.add_assoc]
      exact hrun
    . intro idx
      exact UInt64.le_trans (hgrows idx) (hgrows' idx)

-- The session has been told of `low`, or the answer that is being put together has it.
structure Caught (low : Stat → UInt64) (v : Service) : Prop where
  reads : Reads low v
  answered : v.reading = none → ∀ idx, low idx ≤ v.last idx

theorem Caught.next (h : Caught low v) (hsound : Sound n v) (hn : n + 1 < 2 ^ 64) (t : Turn)
    : Caught low (next g v t) := by
  rcases next_cases g v t with
    hsame | ⟨t', hworld⟩ | ⟨d, cohorts, llcs, hnone, hrequest⟩ | ⟨m, hm, hrespond⟩
    | ⟨p, op, p', s, hp, hstep, hread⟩
  . rw [hsame]
    exact h
  . have hevents := hsound.events
    have hgrows := ((counts_world (g := g) hsound.kept t').2.grows (by omega)).2
    rw [hworld]
    exact ⟨h.reads.grows hgrows, h.answered⟩
  . rw [hrequest]
    constructor
    . apply Reads.request
      intro idx
      exact UInt64.le_trans (h.answered hnone idx) (hsound.last idx)
    . intro hreading
      contradiction
  . rw [hrespond]
    constructor
    . intro p hp
      rw [reading_respond] at hp
      contradiction
    . intro _ idx
      rw [last_respond]
      exact (h.reads.between hm idx).1
  . obtain ⟨hs, hreads⟩ := h.reads.step hp hstep
    rw [hread, hs]
    refine ⟨hreads, ?_⟩
    intro hreading
    contradiction

end Turns

section Reports

variable {g : Globals} {d : Scheduler}

theorem run_append (v : Service) (ts ts' : List Turn) : run g v (ts ++ ts') = run g (run g v ts) ts' :=
  List.foldl_append

def answered : List Turn := .request :: List.replicate 10 .read

end Reports

section Share

variable {g : Globals} {v : Service} {n : Nat}

-- The placements that the counters stand for, and those of them that were not stolen away afterwards.
def placements (m : Metrics) : Nat :=
  m.nrSyncLocal.toNat + m.nrPrevIdle.toNat + m.nrIdleCore.toNat + m.nrIdleSmt.toNat + m.nrEnqHome.toNat
    + m.nrEnqSpill.toNat

def placedHome (m : Metrics) : Nat :=
  m.nrSyncLocal.toNat + m.nrPrevIdle.toNat + m.nrIdleCore.toNat + m.nrIdleSmt.toNat + m.nrEnqHome.toNat
    - m.nrSteals.toNat

def size (m : Metrics) : Nat := ∑ idx, (counter m idx).toNat

-- The percentage is that of the counters beside it.
structure Consistent (m : Metrics) : Prop where
  affinityHitPct : m.affinityHitPct
    = Stats.affinityPct (m.nrSyncLocal + m.nrPrevIdle + m.nrIdleCore + m.nrIdleSmt) m.nrEnqHome m.nrEnqSpill
      m.nrSteals

theorem consistent_delta (cur prev : Metrics) : Consistent (cur.delta prev) := ⟨rfl⟩

theorem returns_getMetrics (d : Scheduler) (cohorts : List CohortSnapshot) (llcs : List LlcLoad)
    : (getMetrics d cohorts llcs).Returns Consistent := by
  unfold getMetrics
  apply Proc.returns_bind
  intro c
  exact ⟨rfl⟩

theorem size_delta (cur prev : Metrics) : size (cur.delta prev) ≤ size cur := by
  apply Finset.sum_le_sum
  intro idx _
  rw [counter_delta, UInt64.toNat_saturatingSub]
  exact Nat.sub_le _ _

theorem size_le_events {low now : Stat → UInt64} {m : Metrics} (h : Between low now (counter m))
    {s : Maps}
    (hnow : now = s.stats)
    : size m ≤ events s := by
  apply Finset.sum_le_sum
  intro idx _
  rw [← hnow]
  exact UInt64.le_iff_toNat_le.mp (h idx).2

theorem Consistent.share {m : Metrics} (h : Consistent m) (hsize : placements m < 2 ^ 64)
    : m.affinityHitPct = if placements m = 0 then 100 else (placedHome m * 100 / placements m : ℚ) := by
  have hdirect : (m.nrSyncLocal + m.nrPrevIdle + m.nrIdleCore + m.nrIdleSmt).toNat
      = m.nrSyncLocal.toNat + m.nrPrevIdle.toNat + m.nrIdleCore.toNat + m.nrIdleSmt.toNat := by
    unfold placements at hsize
    simp only [UInt64.toNat_add]
    omega
  have hhome : ((m.nrSyncLocal + m.nrPrevIdle + m.nrIdleCore + m.nrIdleSmt + m.nrEnqHome).saturatingSub
      m.nrSteals).toNat = placedHome m := by
    unfold placements at hsize
    rw [UInt64.toNat_saturatingSub, UInt64.toNat_add, hdirect]
    unfold placedHome
    omega
  have htotal : (m.nrSyncLocal + m.nrPrevIdle + m.nrIdleCore + m.nrIdleSmt + m.nrEnqHome
      + m.nrEnqSpill).toNat = placements m := by
    unfold placements at hsize ⊢
    rw [UInt64.toNat_add, UInt64.toNat_add, hdirect]
    omega
  rw [h.affinityHitPct]
  unfold Stats.affinityPct
  dsimp only
  rw [hhome, htotal]
  have hzero : (0 : UInt64) < m.nrSyncLocal + m.nrPrevIdle + m.nrIdleCore + m.nrIdleSmt + m.nrEnqHome
      + m.nrEnqSpill
        ↔ placements m ≠ 0 := by
    rw [UInt64.lt_iff_toNat_lt, htotal, UInt64.toNat_zero, Nat.pos_iff_ne_zero]
  split
  . next hpos => rw [if_neg (hzero.mp hpos)]
  . next hpos =>
    rw [gt_iff_lt, hzero, not_not] at hpos
    rw [if_pos hpos]

-- What the session has been told is consistent, and so is the answer that is being put together.
structure Fair (n : Nat) (v : Service) : Prop where
  reading : ∀ p, v.reading = some p → p.Returns Consistent
  told : ∀ m, v.opened = some m ∨ m ∈ v.reports → Consistent m ∧ size m ≤ n

theorem Fair.mono {n' : Nat} (h : Fair n v) (hn : n ≤ n') : Fair n' v where
  reading := h.reading
  told := by
    intro m hm
    obtain ⟨hm, hsize⟩ := h.told m hm
    exact ⟨hm, hsize.trans hn⟩

theorem Fair.respond {m : Metrics} (h : Fair n v) (hm : Consistent m) (hsize : size m ≤ n)
    : Fair n (v.respond m) := by
  constructor
  . intro p hp
    rw [reading_respond] at hp
    contradiction
  . unfold Service.respond
    split
    . intro r hr
      cases hr with
      | inl hr =>
        rw [← Option.some.inj hr]
        exact ⟨hm, hsize⟩
      | inr hr => exact h.told r (.inr hr)
    . next prev _ =>
      intro r hr
      dsimp only at hr
      rw [List.mem_append, List.mem_singleton, ← or_assoc] at hr
      cases hr with
      | inl hr => exact h.told r hr
      | inr hr =>
        rw [hr]
        exact ⟨consistent_delta m prev, (size_delta m prev).trans hsize⟩

theorem Fair.next (h : Fair n v) (hsound : Sound n v) (t : Turn) : Fair n (next g v t) := by
  rcases next_cases g v t with hsame | ⟨t', hworld⟩ | ⟨d, cohorts, llcs, _, hrequest⟩ | ⟨m, hm, hrespond⟩
    | ⟨p, op, p', s, hp, hstep, hread⟩
  . rw [hsame]
    exact h
  . rw [hworld]
    exact ⟨h.reading, h.told⟩
  . rw [hrequest]
    refine ⟨?_, h.told⟩
    intro p hp
    rw [← Option.some.inj hp]
    exact returns_getMetrics d cohorts llcs
  . rw [hrespond]
    apply h.respond (h.reading _ hm)
    exact (size_le_events (hsound.reads.between hm) rfl).trans hsound.events
  . rw [hread]
    refine ⟨?_, h.told⟩
    intro q hq
    rw [← Option.some.inj hq]
    exact (h.reading p hp).step hstep

def bothLlcs : Globals := { nrCpus := 2, nrLlcs := 2, cpuLlcId := fun cpu => if cpu = 1 then 1 else 0 }

end Share

end Service
