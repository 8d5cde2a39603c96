import ScxCohort.Bpf.Lemmas.Steal

/-!
This module contains that no task is queued where none of its CPUs looks for work. The masks built when
the scheduler is attached, the LLC of a CPU and the queue an enqueue chooses agree on which CPUs belong
to which LLC.
-/

namespace Bpf

structure SameTopology (s s' : Maps) : Prop where
  masks : ∀ l, (s'.llcs l).cpumask = (s.llcs l).cpumask
  created : s'.createdDsqs = s.createdDsqs

namespace SameTopology

theorem refl (s : Maps) : SameTopology s s := ⟨fun _ => rfl, rfl⟩

theorem trans (a b c : Maps) (h : SameTopology a b) (h' : SameTopology b c) : SameTopology a c := by
  constructor
  . intro l
    rw [h'.masks, h.masks]
  . rw [h'.created, h.created]

theorem of_llc {s : Maps} {llc : LlcId} {f : LlcCtx → LlcCtx} (hf : ∀ l, (f l).cpumask = l.cpumask)
    : SameTopology s { s with llcs := Function.update s.llcs llc (f (s.llcs llc)) } := by
  refine ⟨?_, rfl⟩
  intro l
  dsimp only
  rw [Function.update_apply]
  split
  . next heq => rw [hf, heq]
  . rfl

theorem keepsAll : KeepsAll SameTopology where
  refl := refl
  stat := fun _ _ => ⟨fun _ => rfl, rfl⟩
  tctx := fun _ _ _ _ => ⟨fun _ => rfl, rfl⟩
  headEnqTs := fun _ _ _ => of_llc (f := fun l => { l with headEnqTs := _ }) fun _ => rfl
  queues := fun _ _ _ => ⟨fun _ => rfl, rfl⟩
  idle := fun _ _ => ⟨fun _ => rfl, rfl⟩
  sample := fun _ _ => ⟨fun _ => rfl, rfl⟩
  edges := fun _ _ => ⟨fun _ => rfl, rfl⟩
  wake := fun _ _ _ _ => ⟨fun _ => rfl, rfl⟩
  nrTasks := fun _ _ _ => ⟨fun _ => rfl, rfl⟩
  dropTaskStat := fun _ _ => ⟨fun _ => rfl, rfl⟩
  dropSpill := fun _ _ => ⟨fun _ => rfl, rfl⟩
  seq := fun _ _ _ => ⟨fun _ => rfl, rfl⟩
  policy := fun _ _ _ _ _ _ => ⟨fun _ => rfl, rfl⟩
  counters := fun _ _ _ _ _ _ => ⟨fun _ => rfl, rfl⟩
  tgid := fun _ _ _ _ _ _ => ⟨fun _ => rfl, rfl⟩
  taskStat := fun _ _ _ _ _ => ⟨fun _ => rfl, rfl⟩
  spill := fun _ _ _ _ _ => ⟨fun _ => rfl, rfl⟩
  anyTctx := fun _ _ _ => ⟨fun _ => rfl, rfl⟩
  vtimeNow := fun _ _ _ => of_llc (f := fun l => { l with vtimeNow := _ }) fun _ => rfl
  anyCounters := fun _ _ _ => ⟨fun _ => rfl, rfl⟩
  llcLoad := fun _ _ => ⟨fun _ => rfl, rfl⟩
  anyTaskStat := fun _ _ _ => ⟨fun _ => rfl, rfl⟩
  storage := fun _ _ => ⟨fun _ => rfl, rfl⟩
  dropPolicy := fun _ _ => ⟨fun _ => rfl, rfl⟩
  dropCounters := fun _ _ => ⟨fun _ => rfl, rfl⟩
  dropTgid := fun _ _ => ⟨fun _ => rfl, rfl⟩

end SameTopology

-- The LLCs are set up as `cohort_init` leaves them.
structure Topology (g : Globals) (s : Maps) : Prop where
  mask : ∀ l, l < g.nrLlcs → (s.llcs l).cpumask = some (llcMask g l)
  created : ∀ l, l < g.nrLlcs → l ∈ s.createdDsqs

variable {g : Globals} {s : Maps} {p : TaskStruct}

theorem topology_attached (hg : g.nrLlcs.toNat ≤ maxLlcs) : Topology g (attached g) := by
  rw [attached_eq, Nat.min_eq_left hg]
  constructor
  . intro l hl
    unfold attachedUpTo
    dsimp only
    rw [if_pos (UInt32.lt_iff_toNat_lt.mp hl)]
  . intro l hl
    unfold attachedUpTo
    rw [List.mem_reverse, List.mem_map]
    refine ⟨l.toNat, ?_, UInt32.ofNat_toNat⟩
    rw [List.mem_range]
    exact UInt32.lt_iff_toNat_lt.mp hl

theorem Topology.of_same {s' : Maps} (h : Topology g s) (hsame : SameTopology s s') : Topology g s' := by
  constructor
  . intro l hl
    rw [hsame.masks]
    exact h.mask l hl
  . intro l hl
    rw [hsame.created]
    exact h.created l hl

theorem topology_run (hg : g.nrLlcs.toNat ≤ maxLlcs) (es : List Event)
    : Topology g (run g (attached g) es) :=
  (topology_attached hg).of_same (SameTopology.keepsAll.run SameTopology.trans _ es)

theorem safeLlc_lt_nrLlcs (hpos : 0 < g.nrLlcs) (llc : LlcId) : safeLlc g llc < g.nrLlcs := by
  unfold safeLlc
  split
  . next h => exact h
  . exact hpos

theorem llcOfCpu_lt_nrLlcs (hpos : 0 < g.nrLlcs) (cpu : Int) : llcOfCpu g cpu < g.nrLlcs := by
  unfold llcOfCpu
  split
  . exact safeLlc_lt_nrLlcs hpos _
  . exact hpos

theorem taskHomeLlc_lt_nrLlcs (hpos : 0 < g.nrLlcs) (p : TaskStruct) (tctx : Option Tid) (s : Maps)
    : ((taskHomeLlc g p tctx).run s).1 < g.nrLlcs := by
  unfold taskHomeLlc
  split
  . exact llcOfCpu_lt_nrLlcs hpos _
  . rw [Proc.run_bind]
    split
    . exact safeLlc_lt_nrLlcs hpos _
    . simp only [Proc.run_bind, Proc.run_pure]
      split
      . exact llcOfCpu_lt_nrLlcs hpos _
      . exact safeLlc_lt_nrLlcs hpos _

-- One of the CPUs the task may run on belongs to LLC `l`.
def Reaches (g : Globals) (p : TaskStruct) (l : LlcId) : Prop :=
  ∃ cpu ∈ p.cpusPtr, cpu < g.nrCpus ∧ llcOfCpu g cpu = l

theorem reaches_of_mask {l : LlcId} (h : llcMask g l ∩ p.cpusPtr ≠ ∅) : Reaches g p l := by
  obtain ⟨cpu, hcpu⟩ := Finset.nonempty_iff_ne_empty.mpr h
  unfold llcMask at hcpu
  rw [Finset.mem_inter, Finset.mem_filter, Finset.mem_range] at hcpu
  obtain ⟨⟨hlt, hllc⟩, haff⟩ := hcpu
  refine ⟨cpu, haff, by omega, ?_⟩
  unfold llcOfCpu
  rw [if_pos (by omega)]
  exact hllc

theorem reaches_own (hcpu : 0 ≤ p.cpu ∧ p.cpu < g.nrCpus) (haff : p.cpu.toNat ∈ p.cpusPtr)
    : Reaches g p (llcOfCpu g p.cpu) := by
  refine ⟨p.cpu.toNat, haff, by omega, ?_⟩
  rw [Int.toNat_of_nonneg hcpu.1]

theorem effectiveLlc_eq (hpos : 0 < g.nrLlcs) (hg : g.nrLlcs.toNat ≤ maxLlcs) (h : Topology g s)
    : effectiveLlc g s p
        =
      if llcMask g ((taskHomeLlc g p (some p.tid)).run s).1 ∩ p.cpusPtr = ∅ then
        llcOfCpu g p.cpu
      else
        ((taskHomeLlc g p (some p.tid)).run s).1 := by
  have hhome := taskHomeLlc_lt_nrLlcs hpos p (some p.tid) s
  have hmax := run_taskHomeLlc_lt g hg p (some p.tid) s
  have hsame : SamePlacement s ((taskHomeLlc g p (some p.tid)).run s).2 :=
    SamePlacement.keepsPlacement.taskHomeLlc.run SamePlacement.refl SamePlacement.trans s
  have hmask := h.mask _ hhome
  rw [← hsame.llcs] at hmask
  unfold effectiveLlc taskEffectiveLlc
  simp only [Proc.run_bind, lookupLlcCtx, run_load, if_pos hmax, hmask, Proc.run_pure]

theorem reaches_chosenLlc (hpos : 0 < g.nrLlcs) (hg : g.nrLlcs.toNat ≤ maxLlcs) (h : Topology g s)
    (hcpu : 0 ≤ p.cpu ∧ p.cpu < g.nrCpus) (haff : p.cpu.toNat ∈ p.cpusPtr)
    : chosenLlc g s p < g.nrLlcs ∧ Reaches g p (chosenLlc g s p) := by
  have hown := reaches_own hcpu haff
  have hownlt := llcOfCpu_lt_nrLlcs hpos p.cpu
  unfold chosenLlc
  split
  . rw [effectiveLlc_eq hpos hg h]
    split
    . exact ⟨hownlt, hown⟩
    . next hmask => exact ⟨taskHomeLlc_lt_nrLlcs hpos _ _ _, reaches_of_mask hmask⟩
  . exact ⟨hownlt, hown⟩

def withMaps (s : Maps) (policy : BoundedMap maxCohorts CohortId CohortPolicy)
    (tgids : BoundedMap 65536 Tgid CohortId) (spills : BoundedMap 8192 Pid LlcId) : Maps :=
  { s with cohortPolicy := policy, tgidCohort := tgids, spillTasks := spills }

-- Whatever is in the maps, a task is queued where one of its CPUs looks first: if the kernel can move a
-- task from that queue to the CPU, a dispatch takes it from there, whatever the other queues hold.
theorem queue_is_served (hpos : 0 < g.nrLlcs) (hg : g.nrLlcs.toNat ≤ maxLlcs) (es : List Event)
    (policy : BoundedMap maxCohorts CohortId CohortPolicy) (tgids : BoundedMap 65536 Tgid CohortId)
    (spills : BoundedMap 8192 Pid LlcId) (hcpu : 0 ≤ p.cpu ∧ p.cpu < g.nrCpus)
    (haff : p.cpu.toNat ∈ p.cpusPtr) (now : UInt64)
    : ∃ l key,
        Adds (withMaps (run g (attached g) es) policy tgids spills)
          (step g (withMaps (run g (attached g) es) policy tgids spills) (.enqueue p now)) l
          ⟨p.tid, key, now⟩
        ∧ l ∈ (attached g).createdDsqs
        ∧ ∃ cpu ∈ p.cpusPtr, cpu < g.nrCpus
            ∧ ∀ s now' (move : MoveToLocal), (move l (s.dsqs l)).isSome = true
              → Takes s (step g s (.dispatch cpu now' move)) l now' := by
  have hrun := topology_run hg es
  have htopology : Topology g (withMaps (run g (attached g) es) policy tgids spills) :=
    ⟨hrun.mask, hrun.created⟩
  obtain ⟨hlt, cpu, hmem, hnr, hllc⟩ := reaches_chosenLlc hpos hg htopology hcpu haff
  obtain ⟨key, hadds⟩ := adds_step_enqueue hg _ p now
  refine ⟨_, key, hadds, (topology_attached hg).created _ hlt, cpu, hmem, hnr, ?_⟩
  intro s now' move hmove
  rw [← hllc] at hmove ⊢
  exact step_dispatch_own hg hmove

-- A task that may only run on CPU 1, with a spill target that does not exist.
theorem pinned_is_served
    : ∃ l ∈ (attached twoLlcs).createdDsqs, ∃ cpu ∈ ({1} : Finset Nat), cpu < twoLlcs.nrCpus
        ∧ ∀ s now' (move : MoveToLocal), (move l (s.dsqs l)).isSome = true
          → Takes s (step twoLlcs s (.dispatch cpu now' move)) l now' := by
  obtain ⟨l, _, _, hcreated, hserved⟩ := queue_is_served (g := twoLlcs)
    (p := { stranger with cpusPtr := {1} }) (by decide) (by decide)
    [.initTask { stranger with cpusPtr := {1} } false none true] .empty .empty
    (BoundedMap.empty.updateD 1 77 .any) (by decide) (by decide) 0
  exact ⟨l, hcreated, hserved⟩

end Bpf
