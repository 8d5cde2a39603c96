import Mathlib.Algebra.BigOperators.Group.Finset.Piecewise
import Mathlib.Algebra.BigOperators.Ring.Finset
import Mathlib.Algebra.Order.BigOperators.Group.Finset
import ScxCohort.Bpf.Lemmas.Admit
import ScxCohort.Daemon.Lemmas.Plans

/-!
This module contains what becomes of the wakeups between processes: one in so many is recorded on each
CPU, and what is recorded is either handed to the daemon or still in the map.
-/

namespace Daemon

namespace Sampling

variable {g : Globals} {s : Maps} {p : TaskStruct} {w : TaskStruct} {cpu : Nat}

section Recorded

def crosses (p : TaskStruct) : Option TaskStruct → Bool
  | some w => w.tgid ≠ p.tgid
  | none => false

def sampleMask (g : Globals) : UInt32 := (1 <<< (g.tunables.sampleShift &&& 15)) - 1

abbrev Sampled (g : Globals) (s : Maps) (cpu : Nat) : Prop :=
  (s.sampleCtr cpu + 1) &&& sampleMask g = 0

def woken (g : Globals) (s : Maps) (p : TaskStruct) (waker : Option TaskStruct) (cpu : Nat)
    : Maps :=
  ((Bpf.recordWakeEdge g p waker cpu).run s).2

theorem woken_same {waker : Option TaskStruct} (h : crosses p waker = false)
    : woken g s p waker cpu = s := by
  unfold woken Bpf.recordWakeEdge
  cases waker with
  | none => rfl
  | some w =>
    have htgid : w.tgid = p.tgid := by simpa [crosses] using h
    dsimp only
    rw [if_pos htgid]
    rfl

theorem woken_cross (h : w.tgid ≠ p.tgid)
    : woken g s p (some w) cpu
        =
      { s with
        sampleCtr := Function.update s.sampleCtr cpu (s.sampleCtr cpu + 1)
        wakeEdges :=
          if Sampled g s cpu then
            s.wakeEdges.insert ⟨w.tgid, p.tgid⟩ ((s.wakeEdges.lookup ⟨w.tgid, p.tgid⟩).getD 0 + 1)
          else
            s.wakeEdges } := by
  unfold woken Bpf.recordWakeEdge
  dsimp only
  rw [if_neg h, Proc.run_bind, Proc.run_atomic]
  dsimp only
  split
  . next hskip =>
    have hnot : ¬ Sampled g s cpu := hskip
    rw [if_neg hnot]
    rfl
  . next hkeep =>
    have hsampled : Sampled g s cpu := not_not.mp hkeep
    rw [if_pos hsampled]
    cases hlookup : s.wakeEdges.lookup ⟨w.tgid, p.tgid⟩ with
    | none => simp [hlookup]
    | some n => simp [hlookup]

theorem toNat_sampleMask (hshift : g.tunables.sampleShift < 16)
    : (sampleMask g).toNat = 2 ^ g.tunables.sampleShift.toNat - 1 := by
  have hlt : g.tunables.sampleShift.toNat < 16 := hshift
  have hmasked : (g.tunables.sampleShift &&& 15).toNat = g.tunables.sampleShift.toNat := by
    rw [UInt32.toNat_and]
    exact (Nat.and_two_pow_sub_one_eq_mod _ 4).trans (Nat.mod_eq_of_lt hlt)
  have hpow : (1 <<< (g.tunables.sampleShift &&& 15) : UInt32).toNat
      = 2 ^ g.tunables.sampleShift.toNat := by
    have hle : 2 ^ g.tunables.sampleShift.toNat ≤ 2 ^ 15 :=
      Nat.pow_le_pow_right (by decide) (by omega)
    have hbits : g.tunables.sampleShift.toNat % 32 = g.tunables.sampleShift.toNat :=
      Nat.mod_eq_of_lt (by omega)
    rw [UInt32.toNat_shiftLeft, hmasked, hbits]
    show 1 <<< g.tunables.sampleShift.toNat % 2 ^ 32 = _
    rw [Nat.one_shiftLeft, Nat.mod_eq_of_lt (by omega)]
  unfold sampleMask
  rw [UInt32.toNat_sub_of_le, hpow]
  . rfl
  . rw [UInt32.le_iff_toNat_le, hpow]
    exact Nat.one_le_two_pow

theorem sampled_iff (hshift : g.tunables.sampleShift < 16)
    : Sampled g s cpu ↔ 2 ^ g.tunables.sampleShift.toNat ∣ (s.sampleCtr cpu).toNat + 1 := by
  have hlt : g.tunables.sampleShift.toNat < 16 := hshift
  have hdvd : 2 ^ g.tunables.sampleShift.toNat ∣ 2 ^ 32 := Nat.pow_dvd_pow 2 (by omega)
  unfold Sampled
  rw [← UInt32.toNat_inj, UInt32.toNat_and, toNat_sampleMask hshift, UInt32.toNat_add,
    Nat.and_two_pow_sub_one_eq_mod]
  show ((s.sampleCtr cpu).toNat + 1) % 2 ^ 32 % _ = 0 ↔ _
  rw [Nat.mod_mod_of_dvd _ hdvd, Nat.dvd_iff_mod_eq_zero]

theorem toNat_sampleMult (hshift : g.tunables.sampleShift < 16)
    : (sampleMult g.tunables).toNat = 2 ^ g.tunables.sampleShift.toNat := by
  have hlt : g.tunables.sampleShift.toNat < 16 := hshift
  have hle : 2 ^ g.tunables.sampleShift.toNat ≤ 2 ^ 15 :=
    Nat.pow_le_pow_right (by decide) (by omega)
  unfold sampleMult
  have hbits : g.tunables.sampleShift.toNat % 64 = g.tunables.sampleShift.toNat :=
    Nat.mod_eq_of_lt (by omega)
  rw [UInt64.toNat_shiftLeft, UInt32.toNat_toUInt64, hbits]
  show 1 <<< g.tunables.sampleShift.toNat % 2 ^ 64 = _
  rw [Nat.one_shiftLeft, Nat.mod_eq_of_lt (by omega)]

end Recorded

section Ledger

-- A wakeup on one CPU, a drain, and any change of everything else in between.
inductive Step where
  | wake (p : TaskStruct) (waker : Option TaskStruct) (cpu : Nat)
  | drain (env : TickEnv) (d : Scheduler)
  | elsewhere (s' : Maps)

def Step.cpu? : Step → Option Nat
  | .wake _ _ cpu => some cpu
  | _ => none

-- The count of the pair is another one than before.
def recorded (s s' : Maps) (p : TaskStruct) : Option TaskStruct → Bool
  | some w => s'.wakeEdges.lookup ⟨w.tgid, p.tgid⟩ ≠ s.wakeEdges.lookup ⟨w.tgid, p.tgid⟩
  | none => false

-- The u64 count of the pair has come round to 0.
def wrapped (s s' : Maps) (p : TaskStruct) (waker : Option TaskStruct) : Bool :=
  recorded s s' p waker ∧ waker.any fun w => s'.wakeEdges.lookup ⟨w.tgid, p.tgid⟩ = some 0

def countSum (deltas : List (Tgid × Tgid × UInt64)) : Nat := (deltas.map fun d => d.2.2.toNat).sum

def left (s : Maps) : Nat := HashTable.weight UInt64.toNat s.wakeEdges

-- The state, the wakeups between processes and the recorded ones on each CPU, how often a count has
-- wrapped, and what the drains have handed out.
structure Ledger where
  maps : Maps
  crossed : Nat → Nat := fun _ => 0
  recorded : Nat → Nat := fun _ => 0
  wrapped : Nat := 0
  handed : Nat := 0

namespace Ledger

def bump (f : Nat → Nat) (cpu : Nat) (b : Bool) : Nat → Nat :=
  Function.update f cpu (f cpu + if b then 1 else 0)

def next (g : Globals) (k : Ledger) : Step → Ledger
  | .wake p waker cpu =>
    let s' := woken g k.maps p waker cpu
    { k with
      maps := s'
      crossed := bump k.crossed cpu (crosses p waker)
      recorded := bump k.recorded cpu (Sampling.recorded k.maps s' p waker)
      wrapped := k.wrapped + if Sampling.wrapped k.maps s' p waker then 1 else 0 }
  | .drain env d =>
    match exec (snapshotEdges env) d k.maps with
    | (.ok (deltas, _), s') => { k with maps := s', handed := k.handed + countSum deltas }
    | (.error _, s') => { k with maps := s' }
  | .elsewhere s' =>
    { k with maps := { s' with wakeEdges := k.maps.wakeEdges, sampleCtr := k.maps.sampleCtr } }

def start (g : Globals) : Ledger := { maps := Bpf.attached g }

def run (g : Globals) (steps : List Step) : Ledger := steps.foldl (next g) (start g)

end Ledger

theorem succ_ne (n : UInt64) : n + 1 ≠ n := by
  simp

theorem recorded_iff (g : Globals) (s : Maps) (cpu : Nat) (htgid : w.tgid ≠ p.tgid)
    : recorded s (woken g s p (some w) cpu) p (some w) = true ↔ Sampled g s cpu := by
  unfold recorded
  rw [woken_cross htgid, decide_eq_true_eq]
  dsimp only
  split
  . next hsampled =>
    rw [HashTable.lookup_insert_eq, if_pos rfl]
    refine ⟨fun _ => hsampled, ?_⟩
    intro _ heq
    cases hlookup : s.wakeEdges.lookup ⟨w.tgid, p.tgid⟩ with
    | none =>
      rw [hlookup] at heq
      contradiction
    | some n =>
      rw [hlookup, Option.some.injEq] at heq
      exact succ_ne n heq
  . next hsampled => exact ⟨fun h => absurd rfl h, fun h => absurd h hsampled⟩

theorem countSum_edgesSeen (env : TickEnv) (s : Maps) : countSum (edgesSeen env s) = left s := by
  have hpositive : ∀ l : List (WakeEdgeKey × UInt64),
      ((l.filter fun e => e.2 > 0).map fun e => e.2.toNat).sum = (l.map fun e => e.2.toNat).sum := by
    intro l
    induction l with
    | nil => rfl
    | cons e l ih =>
      rw [List.filter_cons]
      split
      . rw [List.map_cons, List.map_cons, List.sum_cons, List.sum_cons, ih]
      . next hzero =>
        rw [decide_eq_true_eq, gt_iff_lt, UInt64.not_lt, UInt64.le_iff_toNat_le] at hzero
        rw [List.map_cons, List.sum_cons, ih]
        have : e.2.toNat = 0 := Nat.le_zero.mp hzero
        omega
  unfold countSum edgesSeen left
  rw [List.map_map, ← HashTable.weight_items, ← ((env.order.perm s.wakeEdges.items).map _).sum_eq]
  exact hpositive _

theorem left_woken_cross (g : Globals) (s : Maps) (cpu : Nat) (htgid : w.tgid ≠ p.tgid)
    : left (woken g s p (some w) cpu)
          + (if Sampled g s cpu then ((s.wakeEdges.lookup ⟨w.tgid, p.tgid⟩).getD 0).toNat else 0)
        =
      left s
        + (if Sampled g s cpu then
            ((s.wakeEdges.lookup ⟨w.tgid, p.tgid⟩).getD 0 + 1).toNat
          else
            0) := by
  unfold left
  rw [woken_cross htgid]
  dsimp only
  split
  . have hinsert := HashTable.weight_insert UInt64.toNat s.wakeEdges ⟨w.tgid, p.tgid⟩
      ((s.wakeEdges.lookup ⟨w.tgid, p.tgid⟩).getD 0 + 1)
    rw [← hinsert]
    cases s.wakeEdges.lookup ⟨w.tgid, p.tgid⟩ <;> rfl
  . rfl

theorem recorded_self (s : Maps) (p : TaskStruct) (waker : Option TaskStruct)
    : recorded s s p waker = false := by
  cases waker with
  | none => rfl
  | some w => exact decide_eq_false fun hne => hne rfl

theorem wrapped_iff (g : Globals) (s : Maps) (cpu : Nat) (htgid : w.tgid ≠ p.tgid)
    : wrapped s (woken g s p (some w) cpu) p (some w) = true
        ↔
      Sampled g s cpu ∧ (s.wakeEdges.lookup ⟨w.tgid, p.tgid⟩).getD 0 + 1 = 0 := by
  unfold wrapped
  rw [decide_eq_true_eq, recorded_iff g s cpu htgid, Option.any_some, decide_eq_true_eq]
  apply and_congr_right
  intro hsampled
  rw [woken_cross htgid]
  dsimp only
  rw [if_pos hsampled, HashTable.lookup_insert_eq, if_pos rfl, Option.some.injEq]

theorem left_woken (g : Globals) (s : Maps) (p : TaskStruct) (waker : Option TaskStruct) (cpu : Nat)
    : left (woken g s p waker cpu)
          + 2 ^ 64 * (if wrapped s (woken g s p waker cpu) p waker then 1 else 0)
        =
      left s + if recorded s (woken g s p waker cpu) p waker then 1 else 0 := by
  by_cases hcross : crosses p waker
  . cases waker with
    | none => contradiction
    | some w =>
      have htgid : w.tgid ≠ p.tgid := of_decide_eq_true hcross
      have hleft := left_woken_cross g s cpu htgid
      have hrecorded := recorded_iff g s cpu htgid
      have hwrapped := wrapped_iff g s cpu htgid
      by_cases hsampled : Sampled g s cpu
      . rw [if_pos hsampled, if_pos hsampled] at hleft
        rw [if_pos (hrecorded.mpr hsampled)]
        generalize (s.wakeEdges.lookup ⟨w.tgid, p.tgid⟩).getD 0 = n at hleft hwrapped
        have hadd : (n + 1).toNat = (n.toNat + 1) % 2 ^ 64 := UInt64.toNat_add n 1
        have hlt := n.toNat_lt
        by_cases hzero : n + 1 = 0
        . rw [if_pos (hwrapped.mpr ⟨hsampled, hzero⟩)]
          rw [hzero] at hleft hadd
          have : UInt64.toNat 0 = 0 := rfl
          omega
        . rw [if_neg fun h => hzero (hwrapped.mp h).2]
          have : (n + 1).toNat ≠ 0 := fun h => hzero (UInt64.toNat_inj.mp h)
          omega
      . rw [if_neg hsampled, if_neg hsampled] at hleft
        rw [if_neg fun h => hsampled (hrecorded.mp h), if_neg fun h => hsampled (hwrapped.mp h).1]
        omega
  . have hrecorded := recorded_self s p waker
    rw [woken_same (Bool.eq_false_iff.mpr hcross)]
    unfold wrapped
    simp [hrecorded]

end Ledger

section Runs

variable {k : Ledger} {cpus : Finset Nat} {step : Step}

namespace Ledger

theorem bump_apply (f : Nat → Nat) (cpu : Nat) (b : Bool) (c : Nat)
    : bump f cpu b c = f c + if c = cpu ∧ b then 1 else 0 := by
  unfold bump
  rw [Function.update_apply]
  by_cases hc : c = cpu
  . simp [hc]
  . simp [hc]

theorem sum_bump (f : Nat → Nat) (b : Bool) (hcpu : cpu ∈ cpus)
    : ∑ c ∈ cpus, bump f cpu b c = ∑ c ∈ cpus, f c + if b then 1 else 0 := by
  unfold bump
  rw [Finset.sum_update_of_mem hcpu, ← Finset.sum_sdiff (Finset.singleton_subset_iff.mpr hcpu),
    Finset.sum_singleton]
  omega

theorem next_drain (env : TickEnv) (d : Scheduler)
    : k.next g (.drain env d)
        =
      { k with maps := { k.maps with wakeEdges := ∅ }, handed := k.handed + left k.maps } := by
  unfold next
  dsimp only
  rw [exec_snapshotEdges]
  dsimp only
  rw [countSum_edgesSeen]

-- On each CPU the counter gives the wakeups between processes, and their share has been recorded.
structure Shared (g : Globals) (k : Ledger) : Prop where
  ctr : ∀ cpu, (k.maps.sampleCtr cpu).toNat = k.crossed cpu % 2 ^ 32
  share : ∀ cpu, k.recorded cpu = k.crossed cpu / 2 ^ g.tunables.sampleShift.toNat

theorem shared_start (g : Globals) : Shared g (start g) := by
  have hctr : (Bpf.attached g).sampleCtr = fun _ => 0 := by
    rw [Bpf.attached_eq]
    rfl
  constructor
  . intro cpu
    unfold start
    rw [hctr]
    rfl
  . intro cpu
    exact (Nat.zero_div _).symm

theorem Shared.recorded_iff (h : Shared g k) (hshift : g.tunables.sampleShift < 16)
    (p : TaskStruct) (waker : Option TaskStruct) (cpu : Nat)
    : Sampling.recorded k.maps (woken g k.maps p waker cpu) p waker = true
        ↔
      crosses p waker = true ∧ 2 ^ g.tunables.sampleShift.toNat ∣ k.crossed cpu + 1 := by
  have hlt : g.tunables.sampleShift.toNat < 16 := hshift
  have hdvd : 2 ^ g.tunables.sampleShift.toNat ∣ 2 ^ 32 := Nat.pow_dvd_pow 2 (by omega)
  by_cases hcross : crosses p waker
  . cases waker with
    | none => contradiction
    | some w =>
      have htgid : w.tgid ≠ p.tgid := of_decide_eq_true hcross
      rw [Sampling.recorded_iff g k.maps cpu htgid, sampled_iff hshift, h.ctr, Nat.dvd_iff_mod_eq_zero,
        Nat.dvd_iff_mod_eq_zero, ← Nat.mod_add_mod, Nat.mod_mod_of_dvd _ hdvd, Nat.mod_add_mod]
      exact (and_iff_right hcross).symm
  . rw [woken_same (Bool.eq_false_iff.mpr hcross), recorded_self]
    exact ⟨fun h => Bool.noConfusion h, fun h => absurd h.1 hcross⟩

theorem sampleCtr_woken (p : TaskStruct) (waker : Option TaskStruct) (cpu c : Nat)
    : (woken g s p waker cpu).sampleCtr c
        =
      s.sampleCtr c + if c = cpu ∧ crosses p waker then 1 else 0 := by
  by_cases hcross : crosses p waker
  . cases waker with
    | none => contradiction
    | some w =>
      have htgid : w.tgid ≠ p.tgid := of_decide_eq_true hcross
      rw [woken_cross htgid]
      dsimp only
      rw [Function.update_apply]
      by_cases hc : c = cpu
      . rw [if_pos hc, if_pos ⟨hc, hcross⟩, hc]
      . rw [if_neg hc, if_neg fun hand => hc hand.1, UInt32.add_zero]
  . rw [woken_same (Bool.eq_false_iff.mpr hcross), if_neg fun hand => hcross hand.2, UInt32.add_zero]

theorem Shared.next (hshift : g.tunables.sampleShift < 16) (h : Shared g k) (step : Step)
    : Shared g (k.next g step) := by
  cases step with
  | drain env d =>
    rw [next_drain]
    exact ⟨h.ctr, h.share⟩
  | elsewhere s' => exact ⟨h.ctr, h.share⟩
  | wake p waker cpu =>
    unfold Ledger.next
    dsimp only
    constructor
    . intro c
      dsimp only
      rw [sampleCtr_woken, bump_apply, UInt32.toNat_add, h.ctr]
      split
      . exact Nat.mod_add_mod _ _ _
      . exact Nat.mod_mod _ _
    . intro c
      dsimp only
      have hrecorded := h.recorded_iff hshift p waker cpu
      rw [bump_apply, bump_apply, h.share]
      by_cases hand : c = cpu ∧ crosses p waker
      . rw [if_pos hand, Nat.succ_div]
        simp only [hrecorded, hand, true_and]
      . have hnot : ¬ (c = cpu ∧ Sampling.recorded k.maps (woken g k.maps p waker cpu) p waker) := by
          intro hall
          exact hand ⟨hall.1, (hrecorded.mp hall.2).1⟩
        rw [if_neg hand, if_neg hnot]
        rfl

theorem shared_run (hshift : g.tunables.sampleShift < 16) (steps : List Step) (h : Shared g k)
    : Shared g (steps.foldl (Ledger.next g) k) := by
  induction steps generalizing k with
  | nil => exact h
  | cons step steps ih => exact ih (h.next hshift step)

-- What has been recorded is handed out or in the map, or has made a count wrap.
def Accounted (cpus : Finset Nat) (k : Ledger) : Prop :=
  k.handed + left k.maps + 2 ^ 64 * k.wrapped = ∑ cpu ∈ cpus, k.recorded cpu

theorem Accounted.next (hcpu : ∀ cpu, step.cpu? = some cpu → cpu ∈ cpus) (h : Accounted cpus k)
    : Accounted cpus (k.next g step) := by
  unfold Accounted at h ⊢
  cases step with
  | drain env d =>
    rw [next_drain]
    exact h
  | elsewhere s' => exact h
  | wake p waker cpu =>
    have hleft := left_woken g k.maps p waker cpu
    unfold Ledger.next
    dsimp only
    rw [sum_bump _ _ (hcpu cpu rfl)]
    omega

theorem accounted_run (steps : List Step) (hcpus : ∀ cpu ∈ steps.filterMap Step.cpu?, cpu ∈ cpus)
    (h : Accounted cpus k)
    : Accounted cpus (steps.foldl (Ledger.next g) k) := by
  induction steps generalizing k with
  | nil => exact h
  | cons step steps ih =>
    have hmem : ∀ step' ∈ step :: steps, ∀ cpu, step'.cpu? = some cpu → cpu ∈ cpus := by
      intro step' hstep' cpu hcpu
      apply hcpus
      rw [List.mem_filterMap]
      exact ⟨step', hstep', hcpu⟩
    apply ih
    . intro cpu hcpu
      obtain ⟨step', hstep', heq⟩ := List.mem_filterMap.mp hcpu
      exact hmem step' (List.mem_cons_of_mem _ hstep') cpu heq
    . exact h.next (hmem step List.mem_cons_self)

theorem accounted_start (g : Globals) (cpus : Finset Nat) : Accounted cpus (start g) := by
  have hedges : (Bpf.attached g).wakeEdges = ∅ := by
    rw [Bpf.attached_eq]
    rfl
  unfold Accounted left start
  rw [hedges]
  simp [HashTable.weight_empty]

end Ledger

end Runs

section Compensated

variable {k : Ledger} {cpus : Finset Nat}

open Ledger (Shared Accounted)

def cpusOf (steps : List Step) : Finset Nat := (steps.filterMap Step.cpu?).toFinset

-- What the daemon gets, times its multiplier, against the wakeups there were.
structure Compensated (g : Globals) (cpus : Finset Nat) (k : Ledger) : Prop where
  recorded : ∀ cpu, k.recorded cpu = k.crossed cpu / 2 ^ g.tunables.sampleShift.toNat
  accounted : k.handed + left k.maps + 2 ^ 64 * k.wrapped = ∑ cpu ∈ cpus, k.recorded cpu
  atMost : (sampleMult g.tunables).toNat * k.handed ≤ ∑ cpu ∈ cpus, k.crossed cpu
  shortfall : ∑ cpu ∈ cpus, k.crossed cpu
    ≤ (sampleMult g.tunables).toNat * (k.handed + left k.maps + 2 ^ 64 * k.wrapped)
      + cpus.card * (2 ^ g.tunables.sampleShift.toNat - 1)

theorem mul_recorded_le (h : Shared g k) (cpus : Finset Nat)
    : 2 ^ g.tunables.sampleShift.toNat * ∑ cpu ∈ cpus, k.recorded cpu
        ≤ ∑ cpu ∈ cpus, k.crossed cpu := by
  rw [Finset.mul_sum]
  apply Finset.sum_le_sum
  intro cpu _
  rw [h.share]
  apply Nat.mul_div_le

theorem crossed_le (h : Shared g k) (cpus : Finset Nat)
    : ∑ cpu ∈ cpus, k.crossed cpu
        ≤ 2 ^ g.tunables.sampleShift.toNat * ∑ cpu ∈ cpus, k.recorded cpu
          + cpus.card * (2 ^ g.tunables.sampleShift.toNat - 1) := by
  have hconst : ∑ _cpu ∈ cpus, (2 ^ g.tunables.sampleShift.toNat - 1)
      = cpus.card * (2 ^ g.tunables.sampleShift.toNat - 1) :=
    Finset.sum_const_nat fun _ _ => rfl
  rw [Finset.mul_sum, ← hconst, ← Finset.sum_add_distrib]
  apply Finset.sum_le_sum
  intro cpu _
  have hpos : 0 < 2 ^ g.tunables.sampleShift.toNat := Nat.two_pow_pos _
  have hmod := Nat.mod_lt (k.crossed cpu) hpos
  have hdiv := Nat.div_add_mod (k.crossed cpu) (2 ^ g.tunables.sampleShift.toNat)
  rw [h.share]
  omega

theorem compensated (hshift : g.tunables.sampleShift < 16) (hshared : Shared g k)
    (haccounted : Accounted cpus k)
    : Compensated g cpus k := by
  have hle := mul_recorded_le hshared cpus
  have hge := crossed_le hshared cpus
  unfold Accounted at haccounted
  rw [← haccounted] at hle hge
  refine ⟨hshared.share, haccounted, ?_, ?_⟩
  . rw [toNat_sampleMult hshift]
    refine Nat.le_trans (Nat.mul_le_mul_left _ ?_) hle
    omega
  . rw [toNat_sampleMult hshift]
    exact hge

theorem wakes_compensated (g : Globals) (hshift : g.tunables.sampleShift < 16) (steps : List Step)
    : Compensated g (cpusOf steps) (Ledger.run g steps) := by
  apply compensated hshift
  . exact Ledger.shared_run hshift steps (Ledger.shared_start g)
  . apply Ledger.accounted_run steps _ (Ledger.accounted_start g _)
    intro cpu hcpu
    exact List.mem_toFinset.mpr hcpu

def maker : TaskStruct := { tid := 1, pid := 1, tgid := 1 }

def helper : TaskStruct := { tid := 2, pid := 2, tgid := 2 }

def halved : Globals := { tunables := { sampleShift := 1 } }

def pings : List Step :=
  [.wake helper (some maker) 0, .wake helper (some helper) 0, .wake helper (some maker) 0,
    .wake maker (some helper) 1, .drain {} { llcCpus := [] }, .wake maker (some helper) 1]

theorem pings_compensated
    : (Ledger.run halved pings).handed = 1 ∧ left (Ledger.run halved pings).maps = 1
        ∧ Compensated halved (cpusOf pings) (Ledger.run halved pings) :=
  ⟨by decide +kernel, by decide +kernel, wakes_compensated halved (by decide) pings⟩

-- Without sampling, one pair that is never drained.
def unsampled : Globals := { tunables := { sampleShift := 0 } }

def ping : Step := .wake helper (some maker) 0

theorem edges_next_ping (k : Ledger)
    : (k.next unsampled ping).maps.wakeEdges
        =
      k.maps.wakeEdges.insert ⟨1, 2⟩ ((k.maps.wakeEdges.lookup ⟨1, 2⟩).getD 0 + 1) := by
  have hsampled : Sampled unsampled k.maps 0 := by
    rw [sampled_iff (by decide)]
    exact Nat.one_dvd _
  show (woken unsampled k.maps helper (some maker) 0).wakeEdges = _
  rw [woken_cross (by decide)]
  dsimp only
  rw [if_pos hsampled]
  rfl

theorem crossed_next_ping (k : Ledger) : (k.next unsampled ping).crossed 0 = k.crossed 0 + 1 := rfl

-- The only entry of the map.
def pinged (n : Nat) : HashTable WakeEdgeKey UInt64 :=
  (∅ : HashTable WakeEdgeKey UInt64).insert ⟨1, 2⟩ (UInt64.ofNat n)

theorem run_pings (n : Nat)
    : (Ledger.run unsampled (List.replicate (n + 1) ping)).maps.wakeEdges = pinged (n + 1)
        ∧ (Ledger.run unsampled (List.replicate (n + 1) ping)).crossed 0 = n + 1
        ∧ (Ledger.run unsampled (List.replicate (n + 1) ping)).handed = 0 := by
  induction n with
  | zero =>
    refine ⟨?_, rfl, rfl⟩
    refine (edges_next_ping _).trans ?_
    have hedges : (Ledger.start unsampled).maps.wakeEdges = ∅ := rfl
    rw [hedges]
    rfl
  | succ n ih =>
    obtain ⟨hedges, hcrossed, hhanded⟩ := ih
    have hsnoc : Ledger.run unsampled (List.replicate (n + 1 + 1) ping)
        = (Ledger.run unsampled (List.replicate (n + 1) ping)).next unsampled ping := by
      unfold Ledger.run
      rw [List.replicate_succ', List.foldl_append, List.foldl_cons, List.foldl_nil]
    rw [hsnoc]
    refine ⟨?_, ?_, hhanded⟩
    . rw [edges_next_ping, hedges]
      unfold pinged
      rw [HashTable.lookup_insert_eq, if_pos rfl, AList.insert_insert, Option.getD_some,
        UInt64.ofNat_add (n + 1) 1]
      rfl
    . rw [crossed_next_ping, hcrossed]

theorem left_pinged {s : Maps} {n : Nat} (h : s.wakeEdges = pinged n) : left s = n % 2 ^ 64 := by
  have hinsert := HashTable.weight_insert UInt64.toNat (∅ : HashTable WakeEdgeKey UInt64) ⟨1, 2⟩
    (UInt64.ofNat n)
  rw [AList.lookup_empty, HashTable.weight_empty, Nat.zero_add] at hinsert
  unfold left
  rw [h]
  exact hinsert.trans (UInt64.toNat_ofNat' ..)

theorem cpusOf_pings (n : Nat) : cpusOf (List.replicate (n + 1) ping) = {0} := by
  have hcpu : ping.cpu? = some 0 := rfl
  unfold cpusOf
  rw [List.filterMap_replicate_of_some hcpu, List.toFinset_replicate_of_ne_zero (Nat.succ_ne_zero n)]

theorem not_accounted_pings {n : Nat} (hn : 2 ^ 64 ≤ n)
    : ¬ ((Ledger.run unsampled (List.replicate n ping)).handed
          + left (Ledger.run unsampled (List.replicate n ping)).maps
        =
      ∑ cpu ∈ cpusOf (List.replicate n ping),
        (Ledger.run unsampled (List.replicate n ping)).recorded cpu) := by
  cases n with
  | zero => contradiction
  | succ n =>
    obtain ⟨hedges, hcrossed, hhanded⟩ := run_pings n
    have hshared : Shared unsampled (Ledger.run unsampled (List.replicate (n + 1) ping)) :=
      Ledger.shared_run (by decide) _ (Ledger.shared_start unsampled)
    have hshare := hshared.share 0
    have hshift : 2 ^ unsampled.tunables.sampleShift.toNat = 1 := rfl
    rw [hshift, Nat.div_one, hcrossed] at hshare
    rw [hhanded, left_pinged hedges, cpusOf_pings, Finset.sum_singleton, hshare]
    omega

theorem pings_lost
    : ¬ ((Ledger.run unsampled (List.replicate (2 ^ 64) ping)).handed
          + left (Ledger.run unsampled (List.replicate (2 ^ 64) ping)).maps
        =
      ∑ cpu ∈ cpusOf (List.replicate (2 ^ 64) ping),
        (Ledger.run unsampled (List.replicate (2 ^ 64) ping)).recorded cpu) :=
  not_accounted_pings (Nat.le_refl _)

end Compensated

end Sampling

end Daemon
