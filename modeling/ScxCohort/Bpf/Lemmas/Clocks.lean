import ScxCohort.Bpf.Lemmas.Steal
import ScxCohort.Lib.Streak

/-!
This module contains when a time stamp is ahead of the reading it is subtracted from. The stamps are
left by one CPU and compared with the clock of another one, and only the readings of a single CPU are
in order.
-/

namespace Bpf

-- The callbacks that leave a stamp or look at one, and any change of everything else in between.
inductive Call where
  | enqueue (p : TaskStruct) (now : UInt64)
  | dispatch (cpu : Int) (now : UInt64) (move : MoveToLocal := firstQueued)
  | runnable (p : TaskStruct) (now : UInt64)
  | elsewhere (s' : Maps)

inductive Stamp where
  | head (l : LlcId)
  | wake (t : Tid)

def lastWakeAt (s : Maps) (t : Tid) : UInt64 := ((s.taskCtxs t).map (·.lastWakeAt)).getD 0

def stampAt (s : Maps) : Stamp → UInt64
  | .head l => headEnqTs s l
  | .wake t => lastWakeAt s t

namespace Call

def step (g : Globals) (s : Maps) : Call → Maps
  | .enqueue p now => Bpf.step g s (.enqueue p now)
  | .dispatch cpu now move => Bpf.step g s (.dispatch cpu now move)
  | .runnable p now => Bpf.step g s (.runnable p now)
  | .elsewhere s' =>
    { s' with
      llcs := fun l => { s'.llcs l with headEnqTs := headEnqTs s l }
      taskCtxs := fun t => (s'.taskCtxs t).map fun c => { c with lastWakeAt := lastWakeAt s t } }

def time? : Call → Option UInt64
  | .enqueue _ now => some now
  | .dispatch _ now _ => some now
  | .runnable _ now => some now
  | .elsewhere _ => none

end Call

section Frame

variable {g : Globals} {s : Maps} {p : TaskStruct} {cpu : Int} {now : UInt64}

theorem lastWakeAt_update {t : Tid} {f : TaskCtx → TaskCtx}
    (hf : ∀ c, (f c).lastWakeAt = c.lastWakeAt) (t' : Tid)
    : lastWakeAt { s with taskCtxs := Function.update s.taskCtxs t ((s.taskCtxs t).map f) } t'
        =
      lastWakeAt s t' := by
  unfold lastWakeAt
  dsimp only
  rw [Function.update_apply]
  split
  . next heq =>
    rw [heq, Option.map_map]
    simp only [Function.comp_def, hf]
  . rfl

theorem lastWakeAt_keepsCalls : KeepsCalls fun s s' => ∀ t, lastWakeAt s' t = lastWakeAt s t where
  refl := fun _ _ => rfl
  stat := fun _ _ _ => rfl
  tctx := by
    intro s t f hf
    apply lastWakeAt_update
    intro c
    obtain ⟨_, _, _, _, heq⟩ := hf c
    rw [heq]
  headEnqTs := fun _ _ _ _ => rfl
  queues := fun _ _ _ _ => rfl
  idle := fun _ _ _ => rfl
  sample := fun _ _ _ => rfl
  edges := fun _ _ _ => rfl

theorem lastWakeAt_step (e : Event)
    (he : (e.prog g).Keeps fun s s' => ∀ t, lastWakeAt s' t = lastWakeAt s t) (t : Tid)
    : lastWakeAt (step g s e) t = lastWakeAt s t := by
  have htrans : ∀ a b c : Maps, (∀ t, lastWakeAt b t = lastWakeAt a t)
      → (∀ t, lastWakeAt c t = lastWakeAt b t) → ∀ t, lastWakeAt c t = lastWakeAt a t := by
    intro a b c hab hbc t
    rw [hbc, hab]
  exact he.run (fun _ _ => rfl) htrans s t

theorem headEnqTs_step_runnable (l : LlcId)
    : headEnqTs (step g s (.runnable p now)) l = headEnqTs s l := by
  have hkeeps : KeepsWake fun s s' => s'.llcs = s.llcs :=
    { refl := fun _ => rfl, tctxErr := fun _ => rfl, wake := fun _ _ _ _ => rfl }
  have hllcs : (step g s (.runnable p now)).llcs = s.llcs :=
    hkeeps.cohortRunnable.run (fun _ => rfl) (fun _ _ _ hab hbc => hbc.trans hab) s
  unfold headEnqTs
  rw [hllcs]

theorem lastWakeAt_step_runnable (t : Tid)
    : lastWakeAt (step g s (.runnable p now)) t = lastWakeAt s t
        ∨ lastWakeAt (step g s (.runnable p now)) t = now := by
  cases hc : s.taskCtxs p.tid with
  | none =>
    left
    simp [step, Event.prog, cohortRunnable, lookupTaskCtx, taskStorageGet, hc, statInc, lastWakeAt]
  | some c =>
    by_cases ht : t = p.tid
    . right
      simp only [step, Event.prog, cohortRunnable, Proc.run_bind, run_lookupTaskCtx hc]
      split <;> simp [lastWakeAt, hc, ht]
    . left
      simp only [step, Event.prog, cohortRunnable, Proc.run_bind, run_lookupTaskCtx hc]
      split <;> simp [lastWakeAt, ht]

theorem headEnqTs_step_enqueue (hg : g.nrLlcs.toNat ≤ maxLlcs) (l : LlcId)
    : headEnqTs (step g s (.enqueue p now)) l = headEnqTs s l
        ∨ headEnqTs (step g s (.enqueue p now)) l = now := by
  obtain ⟨key, hadds⟩ := adds_step_enqueue hg s p now
  rw [hadds.head]
  split
  . exact .inr rfl
  . exact .inl rfl

theorem headEnqTs_step_dispatch (hg : g.nrLlcs.toNat ≤ maxLlcs) (move : MoveToLocal) (l : LlcId)
    : headEnqTs (step g s (.dispatch cpu now move)) l = headEnqTs s l
        ∨ headEnqTs (step g s (.dispatch cpu now move)) l = now := by
  have htaken {s' : Maps} {l' : LlcId} (h : Takes s s' l' now)
      : headEnqTs s' l = headEnqTs s l ∨ headEnqTs s' l = now := by
    rw [h.head]
    split
    . exact .inr rfl
    . exact .inl rfl
  cases hown : move (llcOfCpu g cpu) (s.dsqs (llcOfCpu g cpu)) with
  | none =>
    obtain ⟨r, hsteals, heq⟩ := step_dispatch_steals hg hown now
    rw [heq]
    cases hsteals with
    | inl h =>
      rw [h.1]
      exact .inl rfl
    | inr h =>
      obtain ⟨_, _, _, _, htakes⟩ := h
      exact htaken htakes
  | some i => exact htaken (step_dispatch_own hg (Option.isSome_iff_exists.mpr ⟨i, hown⟩))

-- A call leaves a stamp alone, clears it or sets it to its own reading.
theorem stampAt_step (hg : g.nrLlcs.toNat ≤ maxLlcs) (s : Maps) (c : Call) (x : Stamp)
    : stampAt (c.step g s) x = stampAt s x ∨ stampAt (c.step g s) x = 0
        ∨ c.time? = some (stampAt (c.step g s) x) := by
  have hset {now : UInt64} (h : stampAt (c.step g s) x = stampAt s x ∨ stampAt (c.step g s) x = now)
      (htime : c.time? = some now)
      : stampAt (c.step g s) x = stampAt s x ∨ stampAt (c.step g s) x = 0
        ∨ c.time? = some (stampAt (c.step g s) x) := by
    cases h with
    | inl h => exact .inl h
    | inr h =>
      rw [h, htime]
      exact .inr (.inr rfl)
  cases c with
  | enqueue p now =>
    cases x with
    | head l => exact hset (headEnqTs_step_enqueue hg l) rfl
    | wake t => exact .inl (lastWakeAt_step (.enqueue p now) lastWakeAt_keepsCalls.cohortEnqueue t)
  | dispatch cpu now move =>
    cases x with
    | head l => exact hset (headEnqTs_step_dispatch hg move l) rfl
    | wake t =>
      left
      apply lastWakeAt_step (.dispatch cpu now move)
      exact keeps_ignore lastWakeAt_keepsCalls.toKeepsDispatch.cohortDispatch
  | runnable p now =>
    cases x with
    | head l => exact .inl (headEnqTs_step_runnable l)
    | wake t => exact hset (lastWakeAt_step_runnable t) rfl
  | elsewhere s' =>
    cases x with
    | head l => exact .inl rfl
    | wake t =>
      unfold Call.step stampAt lastWakeAt
      cases hc : s'.taskCtxs t with
      | none =>
        right
        left
        simp [hc]
      | some c =>
        left
        simp [hc]

end Frame

section Looked

variable (g : Globals) (s : Maps) (move : MoveToLocal) (cpu : Int) (now : UInt64) (l : LlcId)

-- The dispatch has taken nothing from its own queue and nothing from the LLCs before `l`.
def LooksAt : Prop :=
  ((dsqMoveToLocal move (llcOfCpu g cpu) cpu).run s).1 = false
    ∧ ((stealFrom g move cpu (llcOfCpu g cpu) now (List.range l.toNat)).run s).1 = false
    ∧ l ≠ llcOfCpu g cpu ∧ l < g.nrLlcs

-- The same, from the state: neither its own queue nor one before `l` whose gate is open gives a task.
def ComesTo : Prop :=
  move (llcOfCpu g cpu) (s.dsqs (llcOfCpu g cpu)) = none
    ∧ (∀ l' < l, l' ≠ llcOfCpu g cpu → gateOpen g s now l' → move l' (s.dsqs l') = none)
    ∧ l ≠ llcOfCpu g cpu ∧ l < g.nrLlcs

-- The gate of `l` is opened by how long its queue has waited, not by how long the queue is.
def OpensByWait : Prop :=
  0 < (s.dsqs l).length ∧ (s.dsqs l).length ≤ g.tunables.stealMin.toNat
    ∧ now - headEnqTs s l > g.tunables.stealDelayNs

variable {g s move cpu now l}

theorem moves_none_iff (l' : LlcId)
    : ((dsqMoveToLocal move l' cpu).run s).1 = false ↔ move l' (s.dsqs l') = none := by
  cases hmove : move l' (s.dsqs l') with
  | none =>
    rw [run_dsqMoveToLocal_none hmove]
    exact iff_of_true rfl rfl
  | some i =>
    rw [run_dsqMoveToLocal_some hmove]
    exact iff_of_false (by simp) (by simp)

theorem looksAt_iff (hg : g.nrLlcs.toNat ≤ maxLlcs)
    : LooksAt g s move cpu now l ↔ ComesTo g s move cpu now l := by
  have hof (i : Nat) (hi : i < l.toNat) : UInt32.ofNat i < l := by
    rw [UInt32.lt_iff_toNat_lt, UInt32.toNat_ofNat']
    have := Nat.mod_le i (2 ^ 32)
    omega
  unfold LooksAt ComesTo
  rw [moves_none_iff]
  constructor
  . intro ⟨hown, hloop, hne, hlt⟩
    refine ⟨hown, ?_, hne, hlt⟩
    intro l' hl' hne' hopen
    have hlt' := UInt32.lt_iff_toNat_lt.mp hl'
    have hmax := UInt32.lt_iff_toNat_lt.mp hlt
    have hsteals : Steals g s move now (llcOfCpu g cpu) (List.range l.toNat)
        ((stealFrom g move cpu (llcOfCpu g cpu) now (List.range l.toNat)).run s) := by
      apply steals_stealFrom
      intro i hi
      have := UInt32.lt_iff_toNat_lt.mp (hof i (List.mem_range.mp hi))
      omega
    cases hsteals with
    | inl h =>
      have hnone := h.2 l'.toNat (List.mem_range.mpr hlt')
      rw [UInt32.ofNat_toNat] at hnone
      exact hnone hne' hopen
    | inr h =>
      rw [h.1] at hloop
      contradiction
  . intro ⟨hown, hbefore, hne, hlt⟩
    have hmax := UInt32.lt_iff_toNat_lt.mp hlt
    refine ⟨hown, ?_, hne, hlt⟩
    rw [run_stealFrom_none]
    . intro i hi
      have := UInt32.lt_iff_toNat_lt.mp (hof i (List.mem_range.mp hi))
      omega
    . intro i hi hne' hopen
      exact hbefore _ (hof i (List.mem_range.mp hi)) hne' hopen

end Looked

-- The state, what each CPU read last and which CPU left each stamp.
structure Clocks where
  maps : Maps
  read : Nat → UInt64
  writer : Stamp → Option Nat

namespace Clocks

variable (g : Globals) (k : Clocks) (turn : Nat × Call)

def start : Clocks := { maps := attached g, read := fun _ => 0, writer := fun _ => none }

def next : Clocks where
  maps := turn.2.step g k.maps
  read := Function.update k.read turn.1 (turn.2.time?.getD (k.read turn.1))
  writer := fun x =>
    if stampAt (turn.2.step g k.maps) x = stampAt k.maps x then k.writer x else some turn.1

-- The clock of one CPU does not go back.
def InOrder : Prop := ∀ now, turn.2.time? = some now → k.read turn.1 ≤ now

-- What is subtracted from a reading is not later than it.
def NeverBack : Prop :=
  match turn.2 with
  | .dispatch cpu now move =>
    ∀ l, LooksAt g k.maps move cpu now l → OpensByWait g k.maps now l
      → headEnqTs k.maps l ≤ now
        ∧ g.tunables.stealDelayNs.toNat < now.toNat - (headEnqTs k.maps l).toNat
  | .runnable p now => lastWakeAt k.maps p.tid ≠ 0 → ¬ now < lastWakeAt k.maps p.tid
  | _ => True

-- Another CPU, whose clock was ahead of this reading, left the stamp.
def LeftAhead (cpu : Nat) (now : UInt64) (x : Stamp) : Prop :=
  (∃ w, k.writer x = some w ∧ w ≠ cpu) ∧ now < stampAt k.maps x

def NotAhead : Prop :=
  match turn.2 with
  | .dispatch cpu now move =>
    ∀ l, ComesTo g k.maps move cpu now l → OpensByWait g k.maps now l
      → ¬ k.LeftAhead turn.1 now (.head l)
  | .runnable p now => ¬ k.LeftAhead turn.1 now (.wake p.tid)
  | _ => True

-- A stamp is not later than the last reading of the CPU that left it.
def Dated : Prop := ∀ x, stampAt k.maps x ≤ ((k.writer x).map k.read).getD 0

variable {g k turn}

theorem dated_start : Dated (start g) := by
  intro x
  cases x with
  | head l => exact (stamped_attached g).head l
  | wake t =>
    unfold start stampAt lastWakeAt
    rw [attached_eq]
    apply UInt64.le_refl

theorem read_le_next (horder : InOrder k turn) (cpu : Nat)
    : k.read cpu ≤ (k.next g turn).read cpu := by
  unfold next
  dsimp only
  rw [Function.update_apply]
  split
  . next heq =>
    rw [heq]
    cases htime : turn.2.time? with
    | none => apply UInt64.le_refl
    | some now => exact horder now htime
  . apply UInt64.le_refl

theorem Dated.next (hg : g.nrLlcs.toNat ≤ maxLlcs) (h : Dated k) (horder : InOrder k turn)
    : Dated (k.next g turn) := by
  intro x
  have hx := h x
  have hread := read_le_next (g := g) horder
  by_cases hsame : stampAt (turn.2.step g k.maps) x = stampAt k.maps x
  . have hwriter : (k.next g turn).writer x = k.writer x := if_pos hsame
    have hstamp : stampAt (k.next g turn).maps x = stampAt k.maps x := hsame
    rw [hstamp, hwriter]
    cases hw : k.writer x with
    | none =>
      rw [hw] at hx
      exact hx
    | some w =>
      rw [hw] at hx
      exact UInt64.le_trans hx (hread w)
  . have hwriter : (k.next g turn).writer x = some turn.1 := if_neg hsame
    rw [hwriter]
    cases stampAt_step hg k.maps turn.2 x with
    | inl heq => exact absurd heq hsame
    | inr hnew =>
      cases hnew with
      | inl hzero =>
        have hstamp : stampAt (k.next g turn).maps x = 0 := hzero
        rw [hstamp]
        apply UInt64.zero_le
      | inr htime =>
        have hnow : (k.next g turn).read turn.1 = stampAt (k.next g turn).maps x := by
          unfold Clocks.next
          simp [htime]
        rw [Option.map_some, Option.getD_some, hnow]
        apply UInt64.le_refl

theorem leftAhead_iff (h : Dated k) {now : UInt64} (horder : k.read turn.1 ≤ now) (x : Stamp)
    : k.LeftAhead turn.1 now x ↔ now < stampAt k.maps x := by
  constructor
  . intro hahead
    exact hahead.2
  . intro hlt
    refine ⟨?_, hlt⟩
    have hx := h x
    cases hw : k.writer x with
    | none =>
      rw [hw] at hx
      exact absurd (UInt64.lt_of_lt_of_le hlt hx) UInt64.not_lt_zero
    | some w =>
      refine ⟨w, rfl, ?_⟩
      rintro rfl
      rw [hw] at hx
      exact absurd (UInt64.lt_of_lt_of_le hlt hx) (UInt64.not_lt.mpr horder)

theorem neverBack_turn_iff (hg : g.nrLlcs.toNat ≤ maxLlcs) (h : Dated k) (horder : InOrder k turn)
    : NeverBack g k turn ↔ NotAhead g k turn := by
  obtain ⟨cpu, call⟩ := turn
  cases call with
  | enqueue p now => exact Iff.rfl
  | dispatch cpu' now move =>
    have hahead := leftAhead_iff h (horder now rfl)
    unfold NeverBack NotAhead
    dsimp only at hahead ⊢
    constructor
    . intro hback l hcomes hwait hleft
      rw [hahead] at hleft
      have hle := hback l ((looksAt_iff hg).mpr hcomes) hwait
      exact absurd hleft (UInt64.not_lt.mpr hle.1)
    . intro hnone l hlooks hwait
      have hle : headEnqTs k.maps l ≤ now := by
        have := hnone l ((looksAt_iff hg).mp hlooks) hwait
        rw [hahead] at this
        exact UInt64.not_lt.mp this
      refine ⟨hle, ?_⟩
      rw [← toNat_sub_lt_of_gate hle]
      exact hwait.2.2
  | runnable p now =>
    have hahead := leftAhead_iff h (horder now rfl) (.wake p.tid)
    unfold NeverBack NotAhead
    dsimp only at hahead ⊢
    rw [hahead]
    constructor
    . intro hback hlt
      have hwake : now < lastWakeAt k.maps p.tid := hlt
      refine hback ?_ hwake
      intro hzero
      rw [hzero] at hwake
      exact UInt64.not_lt_zero hwake
    . intro hnone _
      exact hnone
  | elsewhere s' => exact Iff.rfl

theorem timestamps_never_back_iff (hg : g.nrLlcs.toNat ≤ maxLlcs) (turns : List (Nat × Call))
    (horder : Streak.Throughout (next g) InOrder (start g) turns)
    : Streak.Throughout (next g) (NeverBack g) (start g) turns
        ↔
      Streak.Throughout (next g) (NotAhead g) (start g) turns :=
  Streak.throughout_congr (fun _ _ => neverBack_turn_iff hg) (fun _ _ h hi _ => h.next hg hi) dated_start
    horder

-- The clock of CPU 1 is a nanosecond ahead of that of CPU 0.
def skewed : List (Nat × Call) := [(1, .enqueue stranger 1000), (0, .dispatch 0 999)]

def skewedWakes : List (Nat × Call) :=
  [(0, .elsewhere { taskCtxs := fun _ => some {} }), (1, .runnable stranger 1000),
    (0, .runnable stranger 999)]

theorem skewed_back
    : Streak.Throughout (next twoLlcs) InOrder (start twoLlcs) skewed
        ∧ ¬ Streak.Throughout (next twoLlcs) (NeverBack twoLlcs) (start twoLlcs) skewed
        ∧ Streak.Throughout (next twoLlcs) InOrder (start twoLlcs) skewedWakes
        ∧ ¬ Streak.Throughout (next twoLlcs) (NeverBack twoLlcs) (start twoLlcs) skewedWakes := by
  refine ⟨⟨?_, ?_, trivial⟩, ?_, ⟨?_, ?_, ?_, trivial⟩, ?_⟩
  . exact fun _ _ => UInt64.zero_le
  . exact fun _ _ => UInt64.zero_le
  . intro h
    have hlooks : LooksAt twoLlcs ((start twoLlcs).next twoLlcs (1, .enqueue stranger 1000)).maps
        firstQueued 0 999 1 := by
      refine ⟨?_, ?_, ?_, ?_⟩ <;> decide +kernel
    have hwait : OpensByWait twoLlcs
        ((start twoLlcs).next twoLlcs (1, .enqueue stranger 1000)).maps 999 1 := by
      refine ⟨?_, ?_, ?_⟩ <;> decide +kernel
    have hback := h.2.1 1 hlooks hwait
    exact absurd hback.1 (by decide +kernel)
  . exact fun _ _ => UInt64.zero_le
  . exact fun _ _ => UInt64.zero_le
  . exact fun _ _ => UInt64.zero_le
  . intro h
    exact h.2.2.1 (by decide +kernel) (by decide +kernel)

def level : List (Nat × Call) := [(1, .enqueue stranger 1000), (0, .dispatch 0 600000)]

theorem level_never_back
    : Streak.Throughout (next twoLlcs) (NeverBack twoLlcs) (start twoLlcs) level := by
  have horder : Streak.Throughout (next twoLlcs) InOrder (start twoLlcs) level :=
    ⟨fun _ _ => UInt64.zero_le, fun _ _ => UInt64.zero_le, trivial⟩
  rw [timestamps_never_back_iff (by decide) level horder]
  refine ⟨trivial, ?_, trivial⟩
  intro l hcomes hwait hahead
  obtain ⟨_, _, hne, hlt⟩ := hcomes
  have hone : l = 1 := by
    have hown : llcOfCpu twoLlcs 0 = 0 := by decide +kernel
    have htwo : twoLlcs.nrLlcs = 2 := rfl
    rw [hown] at hne
    rw [htwo, UInt32.lt_iff_toNat_lt] at hlt
    rw [Ne, ← UInt32.toNat_inj] at hne
    rw [← UInt32.toNat_inj]
    simp only [UInt32.toNat_zero, UInt32.toNat_one, UInt32.reduceToNat] at hne hlt ⊢
    omega
  rw [hone] at hahead
  exact absurd hahead.2 (by decide +kernel)

end Clocks

end Bpf
