import ScxCohort.Bpf.Lemmas.Vtime

/-!
This module contains the specification of `cohort_enqueue`: the queue it chooses and the key with which
it inserts the task there.
-/

namespace Bpf

variable (g : Globals)

def effectiveLlc (s : Maps) (p : TaskStruct) : LlcId :=
  ((taskEffectiveLlc g p (some p.tid)).run s).1

-- The key that an enqueue computes before it takes off the interactive credit.
def enqueueKey (s : Maps) (p : TaskStruct) : UInt64 :=
  ((enqueueBase g p (some p.tid)).run s).1.2.2

theorem run_taskHomeLlc_lt (hg : g.nrLlcs.toNat ≤ maxLlcs) (p : TaskStruct) (tctx : Option Tid)
    (s : Maps)
    : ((taskHomeLlc g p tctx).run s).1.toNat < maxLlcs := by
  unfold taskHomeLlc
  split
  . apply llcOfCpu_lt g hg
  . rw [Proc.run_bind]
    split
    . apply safeLlc_lt g hg
    . simp only [Proc.run_bind, Proc.run_pure]
      split
      . apply llcOfCpu_lt g hg
      . apply safeLlc_lt g hg

theorem effectiveLlc_lt (hg : g.nrLlcs.toNat ≤ maxLlcs) (s : Maps) (p : TaskStruct)
    : (effectiveLlc g s p).toNat < maxLlcs := by
  have hhome := run_taskHomeLlc_lt g hg p (some p.tid) s
  unfold effectiveLlc taskEffectiveLlc
  rw [Proc.run_bind, Proc.run_bind]
  split
  . exact hhome
  . split
    . simp only [Proc.run_pure]
      split
      . apply llcOfCpu_lt g hg
      . exact hhome
    . exact hhome

-- Placement leaves the queues alone, and of a task context all that the key and the credit read.
structure SamePlacement (s s' : Maps) : Prop where
  dsqs : s'.dsqs = s.dsqs
  llcs : s'.llcs = s.llcs
  tctx : ∀ t, ∃ f, PlacementWrite f ∧ s'.taskCtxs t = (s.taskCtxs t).map f

namespace SamePlacement

theorem placementWrite_id : PlacementWrite id := by
  intro c
  exact ⟨_, _, _, _, rfl⟩

theorem placementWrite_comp {f f' : TaskCtx → TaskCtx} (hf : PlacementWrite f)
    (hf' : PlacementWrite f')
    : PlacementWrite (f' ∘ f) := by
  intro c
  obtain ⟨_, _, _, _, heq⟩ := hf c
  obtain ⟨_, _, _, _, heq'⟩ := hf' (f c)
  rw [Function.comp, heq', heq]
  exact ⟨_, _, _, _, rfl⟩

theorem refl (s : Maps) : SamePlacement s s := by
  constructor
  . rfl
  . rfl
  . intro t
    refine ⟨id, placementWrite_id, ?_⟩
    simp

theorem trans (a b c : Maps) (h : SamePlacement a b) (h' : SamePlacement b c)
    : SamePlacement a c := by
  constructor
  . rw [h'.dsqs, h.dsqs]
  . rw [h'.llcs, h.llcs]
  . intro t
    obtain ⟨f, hf, heq⟩ := h.tctx t
    obtain ⟨f', hf', heq'⟩ := h'.tctx t
    refine ⟨f' ∘ f, placementWrite_comp hf hf', ?_⟩
    rw [heq', heq, Option.map_map]

theorem keepsPlacement : KeepsPlacement SamePlacement where
  refl := refl
  tctxErr := by
    intro s
    refine ⟨rfl, rfl, ?_⟩
    intro t
    refine ⟨id, placementWrite_id, ?_⟩
    simp
  tctx := by
    intro s t f hf
    refine ⟨rfl, rfl, ?_⟩
    intro t'
    by_cases heq : t' = t
    . subst heq
      refine ⟨f, hf, ?_⟩
      simp
    . refine ⟨id, placementWrite_id, ?_⟩
      simp [Function.update_of_ne heq]

end SamePlacement

variable {g} {s : Maps} {p : TaskStruct} {c : TaskCtx}

theorem interactiveCredit_placement {f : TaskCtx → TaskCtx} (hf : PlacementWrite f) (c : TaskCtx)
    : interactiveCredit g (f c) = interactiveCredit g c := by
  obtain ⟨_, _, _, _, heq⟩ := hf c
  rw [heq]
  rfl

theorem samePlacement_effectiveLlc (s : Maps)
    : SamePlacement s ((taskEffectiveLlc g p (some p.tid)).run s).2 :=
  SamePlacement.keepsPlacement.taskEffectiveLlc.run SamePlacement.refl SamePlacement.trans s

theorem run_enqueueBase (hc : s.taskCtxs p.tid = some c)
    (hl : (effectiveLlc g s p).toNat < maxLlcs)
    : (enqueueBase g p (some p.tid)).run s
        =
      ((effectiveLlc g s p, some (s.llcs (effectiveLlc g s p)),
          clampVtime g (frontier s (effectiveLlc g s p)) c.vtime),
        ((taskEffectiveLlc g p (some p.tid)).run s).2) := by
  have hsame := samePlacement_effectiveLlc (g := g) (p := p) s
  obtain ⟨f, hf, heq⟩ := hsame.tctx p.tid
  rw [hc, Option.map_some] at heq
  have hvtime : (f c).vtime = c.vtime := by
    obtain ⟨_, _, _, _, hfc⟩ := hf c
    rw [hfc]
  unfold effectiveLlc at hl
  simp [enqueueBase, lookupLlcCtx, readTctx?, effectiveLlc, hl, heq, hvtime, hsame.llcs, frontier]

theorem enqueueKey_eq (hc : s.taskCtxs p.tid = some c)
    (hl : (effectiveLlc g s p).toNat < maxLlcs)
    : enqueueKey g s p = clampVtime g (frontier s (effectiveLlc g s p)) c.vtime := by
  unfold enqueueKey
  rw [run_enqueueBase hc hl]

theorem dsqs_refreshHead (llc : LlcId) (llcx : Option LlcCtx) (now : UInt64) (s : Maps)
    : ((refreshHead llc llcx now).run s).2.dsqs = s.dsqs := by
  unfold refreshHead
  rw [Proc.run_bind]
  split <;> rfl

-- `cohort_enqueue` inserts the task into the queue of its effective LLC, and nowhere else.
theorem dsqs_step_enqueue (hc : s.taskCtxs p.tid = some c)
    (hl : (effectiveLlc g s p).toNat < maxLlcs) (now : UInt64)
    : (step g s (.enqueue p now)).dsqs
        =
      Function.update s.dsqs (effectiveLlc g s p)
        (dsqInsertVtime ⟨p.tid, enqueueKey g s p - interactiveCredit g c, now⟩
          (s.dsqs (effectiveLlc g s p))) := by
  have hsame := samePlacement_effectiveLlc (g := g) (p := p) s
  obtain ⟨f, hf, heq⟩ := hsame.tctx p.tid
  rw [hc, Option.map_some] at heq
  have hcredit := interactiveCredit_placement (g := g) hf c
  simp [step, Event.prog, cohortEnqueue, run_lookupTaskCtx hc, run_enqueueBase hc hl, readTctx?, heq,
    statInc, dsqs_refreshHead, hsame.dsqs, hcredit, enqueueKey_eq hc hl]

theorem run_taskEffectiveLlc_none (p : TaskStruct) (s : Maps)
    : (taskEffectiveLlc g p none).run s = (llcOfCpu g p.cpu, s) := by
  unfold taskEffectiveLlc taskHomeLlc
  simp only [Proc.run_bind, Proc.run_pure]
  split
  . rfl
  . split
    . simp only [Proc.run_pure, ite_self]
      rfl
    . rfl

-- A task without a context is queued where it last ran, at the frontier.
theorem dsqs_step_enqueue_none (hc : s.taskCtxs p.tid = none)
    (hl : (llcOfCpu g p.cpu).toNat < maxLlcs) (now : UInt64)
    : (step g s (.enqueue p now)).dsqs
        =
      Function.update s.dsqs (llcOfCpu g p.cpu)
        (dsqInsertVtime
          ⟨p.tid, clampVtime g (frontier s (llcOfCpu g p.cpu)) (frontier s (llcOfCpu g p.cpu)), now⟩
          (s.dsqs (llcOfCpu g p.cpu))) := by
  simp [step, Event.prog, cohortEnqueue, lookupTaskCtx, taskStorageGet, hc, enqueueBase,
    run_taskEffectiveLlc_none, lookupLlcCtx, hl, readTctx?, dsqs_refreshHead, statInc, frontier]

theorem mem_dsqInsertVtime {e e' : DsqEntry} (es : List DsqEntry)
    : e' ∈ dsqInsertVtime e es ↔ e' = e ∨ e' ∈ es := by
  induction es with
  | nil => simp [dsqInsertVtime]
  | cons e'' es ih =>
    unfold dsqInsertVtime
    split
    . simp
    . simp only [List.mem_cons, ih]
      tauto

end Bpf
