import Mathlib.Data.Finset.Max
import ScxCohort.Bpf.Lemmas.Landing

/-!
This module contains where a wakeup ends: which CPU `cohort_select_cpu` returns, what it claims and
dispatches on the way, and which of its exits keep to the home LLC and to the task's affinity.
-/

namespace Bpf

section Rungs

variable {s : Maps} {p : TaskStruct} {prevCpu : Int} {mask : Finset Nat} {env : WakeEnv}

-- The CPU that the rungs below the handoff come to.
def ladderCpu (p : TaskStruct) (prevCpu : Int) (mask : Finset Nat) (env : WakeEnv) : Int :=
  if inMask prevCpu mask ∧ inMask prevCpu env.idleSmtmask ∧ env.prevCoreIdle then
    prevCpu
  else if ¬ env.hasScratch then
    if inMask prevCpu mask then prevCpu else env.cpumaskFirst mask
  else if 0 ≤ env.pickIdleCore (mask ∩ p.cpusPtr) then
    env.pickIdleCore (mask ∩ p.cpusPtr)
  else if inMask prevCpu mask ∧ env.prevIdle then
    prevCpu
  else if 0 ≤ env.pickIdleCpu (mask ∩ p.cpusPtr) then
    env.pickIdleCpu (mask ∩ p.cpusPtr)
  else if inMask prevCpu mask then
    prevCpu
  else
    env.cpumaskAnyDistribute (mask ∩ p.cpusPtr)

-- How a wakeup leaves the local queues and the idle masks: as they were, with the task handed to the CPU
-- that is returned, or with that CPU claimed for it as well.
inductive Seated (p : TaskStruct) (s : Maps) (r : Int × Maps) : Prop where
  | clamped (hdsq : r.2.localDsq = s.localDsq) (hidle : r.2.idleClaims = s.idleClaims)
  | handed (hdsq : r.2.localDsq = (p.tid, r.1) :: s.localDsq) (hidle : r.2.idleClaims = s.idleClaims)
  | claimed (hdsq : r.2.localDsq = (p.tid, r.1) :: s.localDsq)
      (hidle : r.2.idleClaims = r.1 :: s.idleClaims)

theorem seated_place {cpu : Int} {idx : Stat}
    : Seated p s
        ((do
          claimIdle cpu
          statInc idx
          dsqInsertLocal p cpu
          return cpu : BpfM Int).run s) := by
  simp only [Proc.run_bind, Proc.run_pure, claimIdle, statInc, dsqInsertLocal, run_store]
  exact .claimed rfl rfl

theorem run_idleLadder_seated (s : Maps) (p : TaskStruct) (prevCpu : Int) (mask : Finset Nat)
    (env : WakeEnv)
    : ((idleLadder p prevCpu mask env).run s).1 = ladderCpu p prevCpu mask env
        ∧ Seated p s ((idleLadder p prevCpu mask env).run s) := by
  unfold idleLadder ladderCpu
  dsimp only
  split
  . exact ⟨rfl, seated_place⟩
  . split
    . exact ⟨rfl, .clamped rfl rfl⟩
    . split
      . exact ⟨rfl, seated_place⟩
      . split
        . exact ⟨rfl, seated_place⟩
        . split
          . exact ⟨rfl, seated_place⟩
          . exact ⟨rfl, .clamped rfl rfl⟩

-- What the kernel promises of the two other ways to get a CPU out of a mask.
def WakeEnv.Members (env : WakeEnv) : Prop :=
  ∀ mask : Finset Nat, mask ≠ ∅ → inMask (env.cpumaskFirst mask) mask = true
    ∧ inMask (env.cpumaskAnyDistribute mask) mask = true

theorem inMask_inter {cpu : Int} {mask mask' : Finset Nat}
    : inMask cpu (mask ∩ mask') = true ↔ inMask cpu mask = true ∧ inMask cpu mask' = true := by
  unfold inMask
  simp only [decide_eq_true_eq, Finset.mem_inter]
  tauto

theorem inMask_ladderCpu (hpicks : env.Picks) (hmembers : env.Members) (hmeet : mask ∩ p.cpusPtr ≠ ∅)
    : inMask (ladderCpu p prevCpu mask env) mask = true := by
  have hmask : mask ≠ ∅ := by
    intro hempty
    rw [hempty, Finset.empty_inter] at hmeet
    exact hmeet rfl
  unfold ladderCpu
  split
  . next hprev => exact hprev.1
  . split
    . split
      . next hprev => exact hprev
      . exact (hmembers mask hmask).1
    . split
      . next hcore => exact (inMask_inter.mp ((hpicks _).1 hcore)).1
      . split
        . next hprev => exact hprev.1
        . split
          . next hcpu => exact (inMask_inter.mp ((hpicks _).2 hcpu)).1
          . split
            . next hprev => exact hprev
            . exact (inMask_inter.mp (hmembers _ hmeet).2).1

theorem run_syncHandoff_snd (s : Maps) (p : TaskStruct) (tctx : Option Tid) (mask : Finset Nat)
    (env : WakeEnv)
    : ((syncHandoff p tctx mask env).run s).2 = s := by
  have hkeeps : (syncHandoff p tctx mask env).Keeps fun s s' => s' = s :=
    keeps_syncHandoff fun _ => rfl
  exact hkeeps.run (fun _ => rfl) (fun _ _ _ h h' => h'.trans h) s

theorem syncHandoff_true {tctx : Option Tid} (h : ((syncHandoff p tctx mask env).run s).1 = true)
    : env.smpProcessorId ∈ mask ∧ env.smpProcessorId ∈ p.cpusPtr := by
  have hreturns : (syncHandoff p tctx mask env).Returns fun handoff =>
      handoff = true → env.smpProcessorId ∈ mask ∧ env.smpProcessorId ∈ p.cpusPtr := by
    unfold syncHandoff
    split
    . apply Proc.returns_bind
      intro w
      split
      . exact fun h => Bool.noConfusion h
      . apply Proc.returns_bind
        intro c
        apply Proc.returns_bind
        intro c'
        split
        . exact fun h => Bool.noConfusion h
        . intro h
          rw [decide_eq_true_eq] at h
          exact ⟨h.1, h.2.1⟩
    . exact fun h => Bool.noConfusion h
  exact hreturns.run s h

end Rungs

section Select

variable {g : Globals} {s : Maps} {p : TaskStruct} {prevCpu : Int} {mask : Finset Nat} {env : WakeEnv}

-- What a wakeup knows when it starts to look for a CPU: the task's context and the LLC it should run on.
def lookHome (g : Globals) (p : TaskStruct) (env : WakeEnv) : BpfM (Option Tid × LlcId) := do
  recordWakeEdge g p env.waker env.smpProcessorId
  let tctx ← lookupTaskCtx p
  let home ← taskHomeLlc g p tctx
  return (tctx, home)

def homeMask (g : Globals) (s : Maps) (p : TaskStruct) (env : WakeEnv) : Option (Finset Nat) :=
  let home := ((lookHome g p env).run s).1.2
  if home.toNat < maxLlcs then (s.llcs home).cpumask else none

def handsOverCpu (g : Globals) (s : Maps) (p : TaskStruct) (mask : Finset Nat) (env : WakeEnv)
    : Bool :=
  let r := (lookHome g p env).run s
  ((syncHandoff p r.1.1 mask env).run r.2).1

def selectWithin (p : TaskStruct) (prevCpu : Int) (tctx : Option Tid) (mask : Finset Nat)
    (env : WakeEnv)
    : BpfM Int := do
  if ← syncHandoff p tctx mask env then
    statInc .syncLocal
    dsqInsertLocal p env.smpProcessorId
    return env.smpProcessorId
  idleLadder p prevCpu mask env

-- Nothing that decides about the seat, but the task's own context, has changed.
structure Quiet (s s' : Maps) : Prop where
  llcs : s'.llcs = s.llcs
  localDsq : s'.localDsq = s.localDsq
  idleClaims : s'.idleClaims = s.idleClaims

theorem Quiet.refl (s : Maps) : Quiet s s := ⟨rfl, rfl, rfl⟩

theorem Quiet.trans (a b c : Maps) (h : Quiet a b) (h' : Quiet b c) : Quiet a c :=
  ⟨h'.llcs.trans h.llcs, h'.localDsq.trans h.localDsq, h'.idleClaims.trans h.idleClaims⟩

theorem Quiet.keepsEdges : KeepsEdges Quiet where
  refl := Quiet.refl
  tctxErr := fun _ => ⟨rfl, rfl, rfl⟩
  sample := fun _ _ => ⟨rfl, rfl, rfl⟩
  edges := fun _ _ => ⟨rfl, rfl, rfl⟩

theorem Quiet.keepsPlacement : KeepsPlacement Quiet where
  refl := Quiet.refl
  tctxErr := fun _ => ⟨rfl, rfl, rfl⟩
  tctx := fun _ _ _ _ => ⟨rfl, rfl, rfl⟩

theorem quiet_lookHome (g : Globals) (s : Maps) (p : TaskStruct) (env : WakeEnv)
    : Quiet s ((lookHome g p env).run s).2 := by
  have hkeeps : (lookHome g p env).Keeps Quiet := by
    unfold lookHome
    apply Proc.keeps_bind Quiet.keepsEdges.recordWakeEdge
    intro _
    apply Proc.keeps_bind Quiet.keepsEdges.lookupTaskCtx
    intro tctx
    apply Proc.keeps_bind Quiet.keepsPlacement.taskHomeLlc
    intro home
    trivial
  exact hkeeps.run Quiet.refl Quiet.trans s

theorem Seated.of_quiet {s₁ : Maps} {r : Int × Maps} (hquiet : Quiet s s₁) (h : Seated p s₁ r)
    : Seated p s r := by
  cases h with
  | clamped hdsq hidle =>
    rw [hquiet.localDsq] at hdsq
    rw [hquiet.idleClaims] at hidle
    exact .clamped hdsq hidle
  | handed hdsq hidle =>
    rw [hquiet.localDsq] at hdsq
    rw [hquiet.idleClaims] at hidle
    exact .handed hdsq hidle
  | claimed hdsq hidle =>
    rw [hquiet.localDsq] at hdsq
    rw [hquiet.idleClaims] at hidle
    exact .claimed hdsq hidle

theorem run_cohortSelectCpu (hcpus : p.nrCpusAllowed ≠ 1) (hmask : homeMask g s p env = some mask)
    (hmeet : mask ∩ p.cpusPtr ≠ ∅)
    : (cohortSelectCpu g p prevCpu env).run s
        =
      (selectWithin p prevCpu ((lookHome g p env).run s).1.1 mask env).run
        ((lookHome g p env).run s).2 := by
  have hquiet := quiet_lookHome g s p env
  unfold homeMask at hmask
  dsimp only at hmask
  split at hmask
  . next hlt =>
    rw [← hquiet.llcs] at hmask
    unfold lookHome at hlt hmask ⊢
    simp only [Proc.run_bind, Proc.run_pure] at hlt hmask ⊢
    unfold cohortSelectCpu selectWithin
    simp only [Proc.run_bind, hcpus, if_false, lookupLlcCtx, run_load, hlt, if_true, hmask, hmeet]
  . contradiction

-- The CPU that a wakeup returns.
def seat (g : Globals) (s : Maps) (p : TaskStruct) (prevCpu : Int) (mask : Finset Nat)
    (env : WakeEnv)
    : Int :=
  if handsOverCpu g s p mask env then env.smpProcessorId else ladderCpu p prevCpu mask env

theorem seated_cohortSelectCpu (prevCpu : Int) (hcpus : p.nrCpusAllowed ≠ 1)
    (hmask : homeMask g s p env = some mask) (hmeet : mask ∩ p.cpusPtr ≠ ∅)
    : ((cohortSelectCpu g p prevCpu env).run s).1 = seat g s p prevCpu mask env
        ∧ Seated p s ((cohortSelectCpu g p prevCpu env).run s) := by
  rw [run_cohortSelectCpu hcpus hmask hmeet]
  have hquiet := quiet_lookHome g s p env
  unfold seat handsOverCpu selectWithin
  dsimp only
  rw [Proc.run_bind, run_syncHandoff_snd]
  split
  . refine ⟨rfl, Seated.of_quiet hquiet ?_⟩
    simp only [Proc.run_bind, Proc.run_pure, statInc, dsqInsertLocal, run_store]
    exact .handed rfl rfl
  . have hladder := run_idleLadder_seated ((lookHome g p env).run s).2 p prevCpu mask env
    exact ⟨hladder.1, hladder.2.of_quiet hquiet⟩

theorem inMask_smpProcessorId {cpu : Nat} (h : cpu ∈ mask) : inMask cpu mask = true := by
  unfold inMask
  simp [h]

theorem seat_in_home (prevCpu : Int) (hcpus : p.nrCpusAllowed ≠ 1)
    (hmask : homeMask g s p env = some mask) (hmeet : mask ∩ p.cpusPtr ≠ ∅) (hpicks : env.Picks)
    (hmembers : env.Members)
    : inMask ((cohortSelectCpu g p prevCpu env).run s).1 mask = true
        ∧ Seated p s ((cohortSelectCpu g p prevCpu env).run s) := by
  obtain ⟨hseat, hseated⟩ := seated_cohortSelectCpu prevCpu hcpus hmask hmeet
  refine ⟨?_, hseated⟩
  rw [hseat]
  unfold seat
  split
  . next hhand => exact inMask_smpProcessorId (syncHandoff_true hhand).1
  . exact inMask_ladderCpu hpicks hmembers hmeet

-- The lowest CPU, as an answer to any of the three questions.
def lowestCpu (mask : Finset Nat) : Int := if h : mask.Nonempty then mask.min' h else -1

theorem inMask_lowestCpu (h : mask.Nonempty) : inMask (lowestCpu mask) mask = true := by
  unfold lowestCpu inMask
  rw [dif_pos h]
  simp [Finset.min'_mem]

def coresIdle : WakeEnv :=
  { pickIdleCore := lowestCpu, cpumaskFirst := lowestCpu, cpumaskAnyDistribute := lowestCpu }

theorem picks_coresIdle : coresIdle.Picks := by
  intro mask
  refine ⟨?_, fun h => absurd h (show ¬ (0 : Int) ≤ -1 by decide)⟩
  intro h
  apply inMask_lowestCpu
  rw [Finset.nonempty_iff_ne_empty]
  rintro rfl
  exact absurd h (by decide)

theorem members_coresIdle : coresIdle.Members := by
  intro mask hmask
  have hlowest := inMask_lowestCpu (Finset.nonempty_iff_ne_empty.mpr hmask)
  exact ⟨hlowest, hlowest⟩

-- Two CPUs at home, and a task that may run on the second one and elsewhere.
def pairAtHome : Maps := { llcs := fun _ => { cpumask := some {0, 1} } }

def offHome : TaskStruct := { tid := 1, pid := 1, tgid := 1, cpusPtr := {1, 2}, nrCpusAllowed := 2 }

theorem offHome_seated
    : inMask ((cohortSelectCpu {} offHome 2 coresIdle).run pairAtHome).1 {0, 1} = true
        ∧ Seated offHome pairAtHome ((cohortSelectCpu {} offHome 2 coresIdle).run pairAtHome) :=
  seat_in_home 2 (by decide) (by decide +kernel) (by decide) picks_coresIdle members_coresIdle

end Select

section Allowed

variable {g : Globals} {s : Maps} {p : TaskStruct} {prevCpu : Int} {mask : Finset Nat} {env : WakeEnv}
  {r : Int × Maps}

structure Allowed (p : TaskStruct) (s : Maps) (r : Int × Maps) : Prop where
  returned : inMask r.1 p.cpusPtr = true
  claimed : ∀ claims, r.2.idleClaims = claims ++ s.idleClaims
    → ∀ cpu ∈ claims, inMask cpu p.cpusPtr = true
  dispatched : ∀ entries, r.2.localDsq = entries ++ s.localDsq
    → ∀ e ∈ entries, inMask e.2 p.cpusPtr = true

-- The rungs that do not look at the affinity return `prev_cpu`, or the first CPU of the home LLC.
def keepsAllowed (p : TaskStruct) (prevCpu : Int) (mask : Finset Nat) (env : WakeEnv) : Bool :=
  if inMask prevCpu mask then
    inMask prevCpu p.cpusPtr
      || (!(inMask prevCpu env.idleSmtmask && env.prevCoreIdle) && env.hasScratch
        && (0 ≤ env.pickIdleCore (mask ∩ p.cpusPtr)
          || (!env.prevIdle && 0 ≤ env.pickIdleCpu (mask ∩ p.cpusPtr))))
  else
    env.hasScratch || inMask (env.cpumaskFirst mask) p.cpusPtr

theorem allowed_iff (h : Seated p s r) : Allowed p s r ↔ inMask r.1 p.cpusPtr = true := by
  constructor
  . intro hallowed
    exact hallowed.returned
  . intro hcpu
    have hnil {α : Type} {l new : List α} (hsame : l = new ++ l) : new = [] :=
      List.self_eq_append_left.mp hsame
    have hone {α : Type} {a : α} {l new : List α} (hnew : [a] ++ l = new ++ l) : new = [a] :=
      ((List.append_left_inj l).mp hnew).symm
    cases h with
    | clamped hdsq hidle =>
      refine ⟨hcpu, ?_, ?_⟩
      . intro claims hclaims
        rw [hidle] at hclaims
        simp [hnil hclaims]
      . intro entries hentries
        rw [hdsq] at hentries
        simp [hnil hentries]
    | handed hdsq hidle =>
      refine ⟨hcpu, ?_, ?_⟩
      . intro claims hclaims
        rw [hidle] at hclaims
        simp [hnil hclaims]
      . intro entries hentries
        rw [hdsq] at hentries
        simp [hone hentries, hcpu]
    | claimed hdsq hidle =>
      refine ⟨hcpu, ?_, ?_⟩
      . intro claims hclaims
        rw [hidle] at hclaims
        simp [hone hclaims, hcpu]
      . intro entries hentries
        rw [hdsq] at hentries
        simp [hone hentries, hcpu]

theorem ladderCpu_allowed_iff (hpicks : env.Picks) (hmembers : env.Members)
    (hmeet : mask ∩ p.cpusPtr ≠ ∅)
    : inMask (ladderCpu p prevCpu mask env) p.cpusPtr = true ↔ keepsAllowed p prevCpu mask env = true := by
  have hcore : 0 ≤ env.pickIdleCore (mask ∩ p.cpusPtr)
      → inMask (env.pickIdleCore (mask ∩ p.cpusPtr)) p.cpusPtr = true :=
    fun h => (inMask_inter.mp ((hpicks _).1 h)).2
  have hcpu : 0 ≤ env.pickIdleCpu (mask ∩ p.cpusPtr)
      → inMask (env.pickIdleCpu (mask ∩ p.cpusPtr)) p.cpusPtr = true :=
    fun h => (inMask_inter.mp ((hpicks _).2 h)).2
  have hany := (inMask_inter.mp (hmembers _ hmeet).2).2
  unfold ladderCpu keepsAllowed
  by_cases hprev : inMask prevCpu mask = true
  . simp only [hprev, true_and, if_true]
    split
    . next hidle => simp [hidle]
    . next hidle =>
      have hidle : (inMask prevCpu env.idleSmtmask && env.prevCoreIdle) = false := by
        rw [Bool.eq_false_iff, ne_eq, Bool.and_eq_true]
        exact hidle
      rw [hidle]
      split
      . next hno => simp [hno]
      . next hyes =>
        rw [not_not] at hyes
        split
        . next h => simp [hyes, h, hcore h]
        . next hnone =>
          split
          . next hsmt => simp [hnone, hsmt]
          . next hsmt =>
            rw [Bool.not_eq_true] at hsmt
            split
            . next h => simp [hyes, hsmt, h, hcpu h]
            . next h => simp [hnone, h]
  . rw [Bool.not_eq_true] at hprev
    simp only [hprev, Bool.false_eq_true, false_and, if_false]
    split
    . next hno => simp [hno]
    . next hyes =>
      rw [not_not] at hyes
      split
      . next h => simp [hyes, hcore h]
      . split
        . next h => simp [hyes, hcpu h]
        . simp [hyes, hany]

theorem seat_allowed_iff (prevCpu : Int) (hcpus : p.nrCpusAllowed ≠ 1)
    (hmask : homeMask g s p env = some mask) (hmeet : mask ∩ p.cpusPtr ≠ ∅) (hpicks : env.Picks)
    (hmembers : env.Members)
    : Allowed p s ((cohortSelectCpu g p prevCpu env).run s)
        ↔
      (handsOverCpu g s p mask env || keepsAllowed p prevCpu mask env) = true := by
  obtain ⟨hseat, hseated⟩ := seated_cohortSelectCpu prevCpu hcpus hmask hmeet
  rw [allowed_iff hseated, hseat]
  unfold seat
  split
  . next hhand =>
    have hcpu := inMask_smpProcessorId (syncHandoff_true hhand).2
    simp [hhand, hcpu]
  . next hnot =>
    rw [Bool.not_eq_true] at hnot
    rw [hnot, Bool.false_or]
    exact ladderCpu_allowed_iff hpicks hmembers hmeet

theorem offHome_allowed
    : Allowed offHome pairAtHome ((cohortSelectCpu {} offHome 2 coresIdle).run pairAtHome) := by
  have hmask : homeMask {} pairAtHome offHome coresIdle = some {0, 1} := by decide +kernel
  exact (seat_allowed_iff 2 (by decide) hmask (by decide) picks_coresIdle members_coresIdle).mpr
    (by decide +kernel)

-- The task last ran on CPU 0, which it has lost since, and whose core is idle.
theorem stale_prev_not_allowed
    : ¬ Allowed offHome pairAtHome
        ((cohortSelectCpu {} offHome 0 { coresIdle with idleSmtmask := {0}, prevCoreIdle := true }).run
          pairAtHome) := by
  intro h
  exact absurd h.returned (by decide +kernel)

end Allowed

end Bpf
