import ScxCohort.Bpf.Lemmas.Capacity
import ScxCohort.Daemon.System

/-!
This module contains what callbacks do to `tgid_cohort` and the cohorts while others interfere. Only an
admission writes `tgid_cohort`, and the cohort it enters exists unless it was deleted in the meantime.
-/

namespace Bpf

def NoDangling (s : Maps) : Prop :=
  ∀ tgid id, s.tgidCohort.lookup tgid = some id → CohortExists s id

theorem NoDangling.setTgid {s : Maps} (h : NoDangling s) {id : CohortId} (hid : CohortExists s id)
    (tgid : Tgid) (flag : UpdateFlag)
    : NoDangling { s with tgidCohort := s.tgidCohort.updateD tgid id flag } := by
  intro tgid' id' hlookup
  have hexists : CohortExists s id' := by
    cases BoundedMap.lookup_updateD s.tgidCohort tgid id flag tgid' with
    | inl heq =>
      rw [heq] at hlookup
      exact h tgid' id' hlookup
    | inr heq =>
      rw [heq.2, Option.some.injEq] at hlookup
      rw [← hlookup]
      exact hid
  exact ⟨hexists.policy, hexists.counters⟩

structure KeysGrow (s s' : Maps) : Prop where
  policy : ∀ id, id ∈ s.cohortPolicy → id ∈ s'.cohortPolicy
  counters : ∀ id, id ∈ s.cohortCounters → id ∈ s'.cohortCounters

namespace KeysGrow

theorem refl (s : Maps) : KeysGrow s s := ⟨fun _ h => h, fun _ h => h⟩

theorem same {s s' : Maps} (hp : s'.cohortPolicy = s.cohortPolicy)
    (hc : s'.cohortCounters = s.cohortCounters)
    : KeysGrow s s' := by
  constructor
  . intro id
    rw [hp]
    exact fun h => h
  . intro id
    rw [hc]
    exact fun h => h

theorem trans {s₁ s₂ s₃ : Maps} (h : KeysGrow s₁ s₂) (h' : KeysGrow s₂ s₃) : KeysGrow s₁ s₃ :=
  ⟨fun id hid => h'.policy id (h.policy id hid), fun id hid => h'.counters id (h.counters id hid)⟩

theorem exists_of {s s' : Maps} (h : KeysGrow s s') {id : CohortId} (hid : CohortExists s id)
    : CohortExists s' id :=
  ⟨h.policy id hid.policy, h.counters id hid.counters⟩

end KeysGrow

theorem safe_tryUpdate {γ : Type} {T : Proc.Terms Op Maps γ} {A Q : Maps → γ → Prop} {m : MapName}
    {upd : Maps → Except MapErr Maps} {f : Maps → Maps}
    (hrun : ∀ s, ((tryUpdate m upd).run s).2 = f s) (hA : T.Stable A) (hQ : T.Stable Q)
    (hf : ∀ s c, A s c → T.allows (m, .update) s c (f s)
      → T.guar s (f s) ∧ Q (f s) (T.note (m, .update) s (f s) c))
    {s : Maps} {c : γ} (h : A s c)
    : (tryUpdate m upd).Safe T (fun _ => Q) s c := by
  apply Proc.safe_atomic hA (fun _ => hQ) _ h
  intro s c hs hallows
  have hrun := hrun s
  unfold tryUpdate at hrun
  rw [Proc.run_atomic] at hrun
  rw [hrun] at hallows ⊢
  exact hf s c hs hallows

-- What every callback does but one that admits a task.
structure Grows (s s' : Maps) : Prop where
  keys : KeysGrow s s'
  tgid : s'.tgidCohort = s.tgidCohort

namespace Grows

theorem refl (s : Maps) : Grows s s := ⟨KeysGrow.refl s, rfl⟩

theorem same {s s' : Maps} (hp : s'.cohortPolicy = s.cohortPolicy)
    (hc : s'.cohortCounters = s.cohortCounters) (ht : s'.tgidCohort = s.tgidCohort)
    : Grows s s' :=
  ⟨KeysGrow.same hp hc, ht⟩

theorem noDangling {s s' : Maps} (h : Grows s s') (hs : NoDangling s) : NoDangling s' := by
  intro tgid id hlookup
  rw [h.tgid] at hlookup
  exact h.keys.exists_of (hs tgid id hlookup)

theorem policy {s : Maps} {m : BoundedMap maxCohorts CohortId CohortPolicy}
    (h : ∀ id, id ∈ s.cohortPolicy → id ∈ m)
    : Grows s { s with cohortPolicy := m } :=
  ⟨⟨h, fun _ h => h⟩, rfl⟩

theorem counters {s : Maps} {m : BoundedMap maxCohorts CohortId CohortCounters}
    (h : ∀ id, id ∈ s.cohortCounters → id ∈ m)
    : Grows s { s with cohortCounters := m } :=
  ⟨⟨fun _ h => h, h⟩, rfl⟩

theorem of_modify (s : Maps) (id : CohortId) (f : CohortCounters → CohortCounters)
    : Grows s { s with cohortCounters := s.cohortCounters.modify id f } := by
  apply counters
  intro id' h
  rw [BoundedMap.mem_modify]
  exact h

theorem keepsRuntime : KeepsRuntime Grows where
  refl := refl
  stat := fun _ _ => same rfl rfl rfl
  tctx := fun _ _ _ _ => same rfl rfl rfl
  headEnqTs := fun _ _ _ => same rfl rfl rfl
  queues := fun _ _ _ => same rfl rfl rfl
  idle := fun _ _ => same rfl rfl rfl
  sample := fun _ _ => same rfl rfl rfl
  edges := fun _ _ => same rfl rfl rfl
  wake := fun _ _ _ _ => same rfl rfl rfl
  nrTasks := fun s id _ => of_modify s id _
  dropTaskStat := fun _ _ => same rfl rfl rfl
  dropSpill := fun _ _ => same rfl rfl rfl
  anyTctx := fun _ _ _ => same rfl rfl rfl
  vtimeNow := fun _ _ _ => same rfl rfl rfl
  anyCounters := of_modify
  llcLoad := fun _ _ => same rfl rfl rfl
  anyTaskStat := fun _ _ _ => same rfl rfl rfl

variable {p : TaskStruct}

theorem taskStorageCreate {alloc : Bool} : (Bpf.taskStorageCreate p alloc).Keeps Grows := by
  apply Proc.keeps_atomic
  intro s
  split
  . exact refl s
  . split <;> exact same rfl rfl rfl

theorem updateTaskStat {pid : Pid} {ts : TaskStat} : (Bpf.updateTaskStat pid ts).Keeps Grows := by
  apply Proc.keeps_atomic
  intro s
  show Grows s ((Bpf.updateTaskStat pid ts).run s).2
  rw [run_updateTaskStat]
  exact same rfl rfl rfl

end Grows

end Bpf

namespace World

open Bpf

-- An admission relies on the cohorts it has taken up not being deleted under it. It may not take up one
-- that does not exist, and finds room for a new one.
def forkTerms (e : Event) : Proc.Terms Op Maps (List CohortId) where
  rely := fun s held s' held' =>
    held' = held ∧ (NoDangling s → NoDangling s')
      ∧ (∀ id ∈ held, id ∈ s.cohortPolicy → id ∈ s'.cohortPolicy)
      ∧ (∀ id ∈ held, id ∈ s.cohortCounters → id ∈ s'.cohortCounters)
  allows := fun op s _ _ =>
    (∀ id ∈ copiedBy e op s, CohortExists s id)
      ∧ s.cohortPolicy.size < maxCohorts ∧ s.cohortCounters.size < maxCohorts
  guar := fun s s' => KeysGrow s s' ∧ NoDangling s'
  note := noteTaken e
  refl := fun _ _ => ⟨rfl, fun h => h, fun _ _ h => h, fun _ _ h => h⟩
  trans := by
    intro s₁ c₁ s₂ c₂ s₃ c₃ h h'
    obtain ⟨rfl, hd, hp, hc⟩ := h
    obtain ⟨rfl, hd', hp', hc'⟩ := h'
    refine ⟨rfl, fun h => hd' (hd h), ?_, ?_⟩
    . intro id hid h
      exact hp' id hid (hp id hid h)
    . intro id hid h
      exact hc' id hid (hc id hid h)

section Fork

variable {e : Event} {id : CohortId}

def Clear (s : Maps) (_ : List CohortId) : Prop := NoDangling s

structure Draws (id : CohortId) (s : Maps) (held : List CohortId) : Prop where
  noDangling : NoDangling s
  held : id ∈ held

structure Makes (id : CohortId) (s : Maps) (held : List CohortId) : Prop extends Draws id s held where
  policy : id ∈ s.cohortPolicy

structure Takes (id : CohortId) (s : Maps) (held : List CohortId) : Prop extends Makes id s held where
  counters : id ∈ s.cohortCounters

theorem stable_clear : (forkTerms e).Stable Clear := by
  intro s c s' c' hrely h
  exact hrely.2.1 h

theorem stable_draws : (forkTerms e).Stable (Draws id) := by
  intro s c s' c' hrely h
  obtain ⟨rfl, hd, _, _⟩ := hrely
  exact ⟨hd h.noDangling, h.held⟩

theorem stable_makes : (forkTerms e).Stable (Makes id) := by
  intro s c s' c' hrely h
  have hdraws := stable_draws _ _ _ _ hrely h.toDraws
  obtain ⟨rfl, _, hp, _⟩ := hrely
  exact ⟨hdraws, hp id h.held h.policy⟩

theorem stable_takes : (forkTerms e).Stable (Takes id) := by
  intro s c s' c' hrely h
  have hmakes := stable_makes _ _ _ _ hrely h.toMakes
  obtain ⟨rfl, _, _, hc⟩ := hrely
  exact ⟨hmakes, hc id h.held h.counters⟩

theorem safe_of_grows {α : Type} {q : BpfM α} (hq : q.Keeps Grows) {s : Maps} {held : List CohortId}
    (h : Clear s held)
    : q.Safe (forkTerms e) (fun _ => Clear) s held := by
  apply Proc.safe_of_keeps hq stable_clear _ h
  intro op s c s' hgrows hs
  exact ⟨⟨hgrows.keys, hgrows.noDangling hs⟩, hgrows.noDangling hs⟩

theorem mem_noteTaken {op : Op} {s s' : Maps} {held : List CohortId} (hop : op ≠ (.tgidCohort, .update))
    (h : id ∈ held)
    : id ∈ (forkTerms e).note op s s' held := by
  show id ∈ noteTaken e op s s' held
  unfold noteTaken
  rw [if_neg hop]
  simp [h]

variable {g : Globals} {p : TaskStruct} {fork : Bool} {parent : Option TaskStruct} {alloc : Bool}

theorem safe_load {β : Type} {m : MapName} {f : Maps → β} {access : Access} {s : Maps}
    {held : List CohortId} (h : Clear s held)
    : (load m f access).Safe (forkTerms e) (fun _ => Clear) s held :=
  safe_of_grows (keeps_load Grows.refl) h

-- What an admission has after it has looked at its parent.
def Inherits (id : CohortId) (s : Maps) (held : List CohortId) : Prop :=
  NoDangling s ∧ (id ≠ cohortInvalid → Takes id s held)

theorem stable_inherits : (forkTerms e).Stable (Inherits id) := by
  intro s c s' c' hrely h
  refine ⟨hrely.2.1 h.1, ?_⟩
  intro hid
  exact stable_takes _ _ _ _ hrely (h.2 hid)

theorem inherits_invalid {s : Maps} {held : List CohortId} (h : Clear s held)
    : Inherits cohortInvalid s held :=
  ⟨h, fun hid => absurd rfl hid⟩

theorem safe_readParent {q : TaskStruct} {s : Maps} {held : List CohortId} (h : Clear s held)
    : (readTctx q.tid).Safe (forkTerms (.initTask p fork (some q) alloc))
        (fun c => Inherits c.cohortId) s held := by
  apply Proc.safe_atomic stable_clear (fun c => stable_inherits) _ h
  intro s held hs hallows
  refine ⟨⟨KeysGrow.refl s, hs⟩, hs, ?_⟩
  intro hid
  have hcopied : ((s.taskCtxs q.tid).getD {}).cohortId
      ∈ copiedBy (.initTask p fork (some q) alloc) (.taskCtxs, .read) s := by
    simp [copiedBy, hid]
  have hexists := hallows.1 _ hcopied
  refine ⟨⟨⟨hs, ?_⟩, hexists.policy⟩, hexists.counters⟩
  show _ ∈ noteTaken _ (MapName.taskCtxs, Access.read) s s held
  unfold noteTaken
  rw [if_neg (by decide)]
  simp only [List.mem_append]
  exact .inl (.inr hcopied)

theorem safe_inheritedCohort {s : Maps} {held : List CohortId} (h : Clear s held)
    : (inheritedCohort fork parent).Safe (forkTerms (.initTask p fork parent alloc)) Inherits s
        held := by
  unfold inheritedCohort
  cases fork with
  | false => exact Proc.safe_pure stable_clear (fun _ _ => inherits_invalid) h
  | true =>
    cases parent with
    | none => exact Proc.safe_pure stable_clear (fun _ _ => inherits_invalid) h
    | some q =>
      dsimp only
      have hget : (taskStorageGet q).Safe (forkTerms (.initTask p true (some q) alloc))
          (fun t s held => Clear s held ∧ ∀ t', t = some t' → t' = q.tid) s held := by
        apply Proc.safe_atomic stable_clear _ _ h
        . intro t s c s' c' hrely ht
          exact ⟨stable_clear _ _ _ _ hrely ht.1, ht.2⟩
        . intro s held hs _
          refine ⟨⟨KeysGrow.refl s, hs⟩, hs, ?_⟩
          intro t' ht'
          simp only [Option.map_eq_some_iff] at ht'
          obtain ⟨_, _, ht'⟩ := ht'
          exact ht'.symm
      apply hget.bind
      intro t s' held' ht
      cases t with
      | none => exact Proc.safe_pure stable_clear (fun _ _ => inherits_invalid) ht.1
      | some t =>
        dsimp only
        rw [ht.2 t rfl]
        apply (safe_readParent ht.1).bind
        intro c s'' held'' hc
        exact Proc.safe_pure stable_inherits (fun _ _ h => h) hc

theorem safe_drawSeq {s : Maps} {held : List CohortId} (h : Clear s held)
    : (Proc.atomic (MapName.counters, Access.write) fun s : Maps =>
        (s.cohortSeq, { s with cohortSeq := s.cohortSeq + 1 })).Safe (forkTerms e)
        (fun seq => Draws (seq + 1)) s held := by
  apply Proc.safe_atomic stable_clear (fun _ => stable_draws) _ h
  intro s held hs _
  have hgrows : Grows s { s with cohortSeq := s.cohortSeq + 1 } := Grows.same rfl rfl rfl
  refine ⟨⟨hgrows.keys, hgrows.noDangling hs⟩, hgrows.noDangling hs, ?_⟩
  show _ ∈ noteTaken _ (MapName.counters, Access.write) s _ held
  unfold noteTaken drawnBy
  have hseq : s.cohortSeq + 1 ≠ s.cohortSeq := by
    intro heq
    simp at heq
  rw [if_neg (by decide), if_neg hseq]
  simp

theorem safe_makePolicy {policy : CohortPolicy} {s : Maps} {held : List CohortId} (h : Draws id s held)
    : (updatePolicy id policy .noExist).Safe (forkTerms e) (fun _ => Makes id) s held := by
  apply safe_tryUpdate (fun s => run_updatePolicy s id .noExist policy) stable_draws stable_makes _ h
  intro s held hs hallows
  have hgrows : Grows s { s with cohortPolicy := s.cohortPolicy.updateD id policy .noExist } :=
    Grows.policy fun _ h => BoundedMap.mem_updateD_of_mem h _ _ _
  refine ⟨⟨hgrows.keys, hgrows.noDangling hs.noDangling⟩, ⟨hgrows.noDangling hs.noDangling, ?_⟩, ?_⟩
  . exact mem_noteTaken (by decide) hs.held
  . exact BoundedMap.mem_updateD_noExist hallows.2.1

theorem safe_makeCounters {counters : CohortCounters} {s : Maps} {held : List CohortId}
    (h : Makes id s held)
    : (updateCounters id counters .noExist).Safe (forkTerms e) (fun _ => Takes id) s held := by
  apply safe_tryUpdate (fun s => run_updateCounters s id .noExist counters) stable_makes stable_takes _
    h
  intro s held hs hallows
  have hgrows : Grows s { s with cohortCounters := s.cohortCounters.updateD id counters .noExist } :=
    Grows.counters fun _ h => BoundedMap.mem_updateD_of_mem h _ _ _
  refine ⟨⟨hgrows.keys, hgrows.noDangling hs.noDangling⟩,
    ⟨⟨hgrows.noDangling hs.noDangling, ?_⟩, hs.policy⟩, ?_⟩
  . exact mem_noteTaken (by decide) hs.held
  . exact BoundedMap.mem_updateD_noExist hallows.2.2

theorem safe_freshCohort {s : Maps} {held : List CohortId} (h : Clear s held)
    : (freshCohort g).Safe (forkTerms e) Takes s held := by
  unfold freshCohort
  have hrr : (Proc.atomic (MapName.counters, Access.write) fun s : Maps =>
      (s.rrCtr, { s with rrCtr := s.rrCtr + 1 })).Keeps Grows := by
    apply Proc.keeps_atomic
    intro s
    exact Grows.same rfl rfl rfl
  apply (safe_of_grows hrr h).bind
  intro rr s held h
  apply (safe_drawSeq h).bind
  intro seq s held h
  apply (safe_makePolicy h).bind
  intro _ s held h
  apply (safe_makeCounters h).bind
  intro _ s held h
  exact Proc.safe_pure stable_takes (fun _ _ h => h) h

theorem safe_enterTgid {tgid : Tgid} {s : Maps} {held : List CohortId} (h : Takes id s held)
    : (updateTgidCohort tgid id .any).Safe (forkTerms e) (fun _ => Clear) s held := by
  apply safe_tryUpdate (fun s => run_updateTgidCohort s id .any tgid) stable_takes stable_clear _ h
  intro s held hs _
  have hset := hs.noDangling.setTgid ⟨hs.policy, hs.counters⟩ tgid .any
  exact ⟨⟨KeysGrow.same rfl rfl, hset⟩, hset⟩

theorem safe_assignCohort {s : Maps} {held : List CohortId} (h : Clear s held)
    : (assignCohort g p fork parent).Safe (forkTerms (.initTask p fork parent alloc))
        (fun _ => Clear) s held := by
  unfold assignCohort
  apply (safe_load h).bind
  intro idp s held h
  cases idp with
  | some id => exact Proc.safe_pure stable_clear (fun _ _ h => h) h
  | none =>
    apply (safe_inheritedCohort h).bind
    intro inherited s held h
    have hid : (orFreshCohort g inherited).Safe (forkTerms (.initTask p fork parent alloc)) Takes s
        held := by
      unfold orFreshCohort
      split
      . exact safe_freshCohort h.1
      . next hid => exact Proc.safe_pure stable_takes (fun _ _ h => h) (h.2 hid)
    apply hid.bind
    intro id s held h
    apply (safe_enterTgid h).bind
    intro _ s held h
    exact Proc.safe_pure stable_clear (fun _ _ h => h) h

theorem safe_cohortInitTask {s : Maps} {held : List CohortId} (h : Clear s held)
    : (cohortInitTask g p fork parent alloc).Safe (forkTerms (.initTask p fork parent alloc))
        (fun _ => Clear) s held := by
  unfold cohortInitTask
  apply (safe_of_grows Grows.taskStorageCreate h).bind
  intro t s held h
  cases t with
  | none => exact Proc.safe_pure stable_clear (fun _ _ h => h) h
  | some t =>
    unfold admitTask
    apply Proc.Safe.bind _ (fun _ s held h => Proc.safe_pure stable_clear (fun _ _ h => h) h)
    apply (safe_assignCohort h).bind
    intro id s held h
    apply safe_of_grows _ h
    apply Proc.keeps_bind Grows.keepsRuntime.modifyTctx
    intro _
    apply Proc.keeps_bind Grows.keepsRuntime.exits.countTask
    intro _
    apply Proc.keeps_bind Grows.keepsRuntime.startVtime
    intro _
    apply Proc.keeps_bind Grows.updateTaskStat
    intro _
    trivial

theorem safe_prog {s : Maps} (he : e.isCallback = true) (h : NoDangling s)
    : (e.prog g).Safe (forkTerms e) (fun _ _ _ => True) s [] := by
  have hgrows {q : BpfM PUnit} (hq : q.Keeps Grows)
      : q.Safe (forkTerms e) (fun _ _ _ => True) s [] :=
    (safe_of_grows hq h).mono fun _ _ _ _ => trivial
  cases e with
  | initTask p fork parent alloc =>
    apply (safe_cohortInitTask h).bind
    intro _ s' held' _ s'' held'' _
    trivial
  | running p now => exact hgrows Grows.keepsRuntime.account.cohortRunning
  | stopping p now => exact hgrows Grows.keepsRuntime.account.cohortStopping
  | exitTask p => exact hgrows Grows.keepsRuntime.cohortExitTask
  | selectCpu p prevCpu env => exact hgrows (keeps_ignore Grows.keepsRuntime.calls.cohortSelectCpu)
  | enqueue p now => exact hgrows Grows.keepsRuntime.calls.cohortEnqueue
  | dispatch cpu now => exact hgrows (keeps_ignore Grows.keepsRuntime.cohortDispatch)
  | runnable p now => exact hgrows Grows.keepsRuntime.cohortRunnable
  | _ => contradiction

end Fork

end World
