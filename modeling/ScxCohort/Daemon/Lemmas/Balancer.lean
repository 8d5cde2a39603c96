import ScxCohort.Daemon.Balancer
import ScxCohort.Lib.Streak
import ScxCohort.Lib.Transfer
import Mathlib.Data.Set.Finite.Lattice

/-!
This module contains the guarantees of the balancer over a sequence of calls: it cannot thrash, a cohort
that it moved stays where it is for its residency, and it moves nothing before the imbalance has lasted.
-/

namespace Balancer

section Plan

variable {b : Balancer} {nowMs : UInt64} {llcs : List LlcLoad} {cohorts : List CohortSnapshot}

theorem maxLoad_spec {max : LlcLoad} (h : maxLoad llcs = some max)
    : max ∈ llcs ∧ ∀ l ∈ llcs, l.loadNs.toNat ≤ max.loadNs.toNat := by
  unfold maxLoad at h
  constructor
  . rw [← List.mem_reverse]
    exact List.argmax_mem h
  . intro l hl
    rw [← List.mem_reverse] at hl
    exact List.le_of_mem_argmax (f := fun l : LlcLoad => l.loadNs.toNat) hl h

theorem minLoad_spec {min : LlcLoad} (h : minLoad llcs = some min)
    : min ∈ llcs ∧ ∀ l ∈ llcs, min.loadNs.toNat ≤ l.loadNs.toNat := by
  unfold minLoad at h
  constructor
  . exact List.argmin_mem h
  . intro l hl
    exact List.le_of_mem_argmin (f := fun l : LlcLoad => l.loadNs.toNat) hl h

-- What a call that moves the cohort of snapshot `c` from `max` to `min` has looked at.
structure Moves (b : Balancer) (nowMs : UInt64) (llcs : List LlcLoad)
    (cohorts : List CohortSnapshot) (max min : LlcLoad) (c : CohortSnapshot) : Prop where
  maxLoad : maxLoad llcs = some max
  minLoad : minLoad llcs = some min
  mem : c ∈ cohorts
  home : c.homeLlc = max.llc
  unpinned : c.pinned = false
  load : 0 < c.loadNs.toNat
  resident : b.resident nowMs c = true
  repairs : (gapAfter (max.loadNs - min.loadNs) c).toNat < (max.loadNs - min.loadNs).toNat

theorem moves_of_best {max min : LlcLoad} {c : CohortSnapshot} (hmax : maxLoad llcs = some max)
    (hmin : minLoad llcs = some min) (hbest : b.best nowMs max min cohorts = some c)
    : Moves b nowMs llcs cohorts max min c := by
  have hmem := List.argmin_mem hbest
  rw [List.mem_filter, List.mem_filter] at hmem
  obtain ⟨⟨hc, hmovable⟩, hrepairs⟩ := hmem
  simp only [movable, decide_eq_true_eq] at hmovable hrepairs
  obtain ⟨hhome, hpinned, _, hload, _, hresident⟩ := hmovable
  constructor
  . exact hmax
  . exact hmin
  . exact hc
  . exact hhome
  . exact Bool.eq_false_iff.mpr hpinned
  . rw [GT.gt, UInt64.lt_iff_toNat_lt] at hload
    exact hload
  . exact hresident
  . rw [UInt64.lt_iff_toNat_lt] at hrepairs
    exact hrepairs

-- All that a call can do: nothing, but for the streak, or one move.
theorem plan_cases (b : Balancer) (nowMs : UInt64) (llcs : List LlcLoad)
    (cohorts : List CohortSnapshot)
    : (∃ streak, b.plan nowMs llcs cohorts = ([], { b with streak := streak }))
      ∨ (∃ max min c, Moves b nowMs llcs cohorts max min c
          ∧ b.plan nowMs llcs cohorts
              =
            ([.moveCohort c.id min.llc],
              { b with lastMoveAt := b.lastMoveAt.insert c.id nowMs, streak := 0 })) := by
  unfold plan
  split
  . exact .inl ⟨b.streak, rfl⟩
  . split
    . next max min hmax hmin =>
      split
      . exact .inl ⟨0, rfl⟩
      . split
        . exact .inl ⟨b.streak + 1, rfl⟩
        . split
          . next c hbest => exact .inr ⟨max, min, c, moves_of_best hmax hmin hbest, rfl⟩
          . exact .inl ⟨b.streak + 1, rfl⟩
    . exact .inl ⟨b.streak, rfl⟩

end Plan

section Thrash

-- The LLCs and the cohorts with their demands, which a sequence of calls leaves as they are.
structure World where
  llcs : Finset LlcId
  cohorts : Finset CohortId
  demand : CohortId → UInt64

structure Placement where
  home : CohortId → LlcId
  balancer : Balancer

structure Call where
  nowMs : UInt64
  llcs : List LlcLoad
  cohorts : List CohortSnapshot

namespace World

variable (w : World)

def load (home : CohortId → LlcId) (llc : LlcId) : Nat :=
  ∑ id ∈ w.cohorts with home id = llc, (w.demand id).toNat

-- A call is shown the LLCs with the load that the homes give them, and cohorts at their homes.
structure Sees (home : CohortId → LlcId) (call : Call) : Prop where
  llcs : ∀ l, l ∈ call.llcs.map (·.llc) ↔ l ∈ w.llcs
  load : ∀ l ∈ call.llcs, l.loadNs.toNat = w.load home l.llc
  cohorts : ∀ c ∈ call.cohorts,
    c.id ∈ w.cohorts ∧ c.homeLlc = home c.id ∧ c.loadNs = w.demand c.id

def sumSq (home : CohortId → LlcId) : Nat := Transfer.sumSq w.llcs (w.load home)

def spread (home : CohortId → LlcId) : Nat := Transfer.spread w.llcs (w.load home)

end World

def applyMove (home : CohortId → LlcId) : Decision → CohortId → LlcId
  | .moveCohort id toLlc => Function.update home id toLlc

namespace Placement

def decisions (s : Placement) (call : Call) : List Decision :=
  (s.balancer.plan call.nowMs call.llcs call.cohorts).1

def step (s : Placement) (call : Call) : Placement :=
  { home := (s.decisions call).foldl applyMove s.home
    balancer := (s.balancer.plan call.nowMs call.llcs call.cohorts).2 }

def run (s : Placement) (calls : List Call) : Placement := calls.foldl step s

def moves (s : Placement) : List Call → Nat
  | [] => 0
  | call :: calls => (s.decisions call).length + (s.step call).moves calls

def Always (P : Placement → Call → Prop) : Placement → List Call → Prop
  | _, [] => True
  | s, call :: calls => P s call ∧ Always P (s.step call) calls

theorem run_append (s : Placement) (calls calls' : List Call)
    : s.run (calls ++ calls') = (s.run calls).run calls' := by
  unfold run
  rw [List.foldl_append]

theorem moves_append (calls calls' : List Call) (s : Placement)
    : s.moves (calls ++ calls') = s.moves calls + (s.run calls).moves calls' := by
  induction calls generalizing s with
  | nil => simp [moves, run]
  | cons call calls ih =>
    simp only [List.cons_append, moves, ih, run, List.foldl_cons]
    omega

end Placement

def World.Run (w : World) : Placement → List Call → Prop
  | _, [] => True
  | s, call :: calls => w.Sees s.home call ∧ w.Run (s.step call) calls

variable {w : World}

theorem World.load_update {home : CohortId → LlcId} {id : CohortId} {toLlc : LlcId}
    (hid : id ∈ w.cohorts) (hne : home id ≠ toLlc)
    : Transfer.Moved (w.load home) (w.load (Function.update home id toLlc)) (home id) toLlc
        (w.demand id).toNat := by
  have hsplit : ∀ (home : CohortId → LlcId) (l : LlcId),
      w.load home l
        =
      (if home id = l then (w.demand id).toNat else 0)
        + ∑ x ∈ w.cohorts.erase id, if home x = l then (w.demand x).toNat else 0 := by
    intro home l
    unfold World.load
    rw [Finset.sum_filter]
    rw [Finset.add_sum_erase _ (fun x => if home x = l then (w.demand x).toNat else 0) hid]
  have hrest : ∀ l,
      (∑ x ∈ w.cohorts.erase id,
          if Function.update home id toLlc x = l then (w.demand x).toNat else 0)
        =
      ∑ x ∈ w.cohorts.erase id, if home x = l then (w.demand x).toNat else 0 := by
    intro l
    apply Finset.sum_congr rfl
    intro x hx
    rw [Function.update_of_ne (Finset.ne_of_mem_erase hx)]
  constructor
  . rw [hsplit home, hsplit (Function.update home id toLlc), hrest, Function.update_self,
      if_neg (Ne.symm hne), if_pos rfl]
    omega
  . rw [hsplit home, hsplit (Function.update home id toLlc), hrest, Function.update_self,
      if_pos rfl, if_neg hne]
    omega
  . intro l hl hl'
    rw [hsplit home, hsplit (Function.update home id toLlc), hrest, Function.update_self,
      if_neg (Ne.symm hl), if_neg (Ne.symm hl')]

theorem World.demand_le_load {home : CohortId → LlcId} {id : CohortId} (hid : id ∈ w.cohorts)
    : (w.demand id).toNat ≤ w.load home (home id) := by
  unfold World.load
  apply Finset.single_le_sum (f := fun id => (w.demand id).toNat)
  . intro _ _
    apply Nat.zero_le
  . rw [Finset.mem_filter]
    exact ⟨hid, rfl⟩

-- One move takes less than the gap from a most loaded LLC to a least loaded one.
structure World.Repairs (w : World) (home home' : CohortId → LlcId) (src dst : LlcId) (d : Nat)
    : Prop where
  moved : Transfer.Moved (w.load home) (w.load home') src dst d
  src_mem : src ∈ w.llcs
  dst_mem : dst ∈ w.llcs
  pos : 0 < d
  lt : w.load home dst + d < w.load home src
  max : ∀ l ∈ w.llcs, w.load home l ≤ w.load home src
  min : ∀ l ∈ w.llcs, w.load home dst ≤ w.load home l

theorem repairs_of_moves {home : CohortId → LlcId} {b : Balancer} {call : Call} {max min : LlcLoad}
    {c : CohortSnapshot} (hsees : w.Sees home call) (hload : ∀ l ∈ w.llcs, w.load home l < 2 ^ 62)
    (h : Moves b call.nowMs call.llcs call.cohorts max min c)
    : w.Repairs home (Function.update home c.id min.llc) max.llc min.llc c.loadNs.toNat := by
  obtain ⟨hmaxmem, hmaxle⟩ := maxLoad_spec h.maxLoad
  obtain ⟨hminmem, hminle⟩ := minLoad_spec h.minLoad
  obtain ⟨hid, hhome, hdemand⟩ := hsees.cohorts c h.mem
  have hsrc : max.llc ∈ w.llcs := (hsees.llcs _).mp (List.mem_map_of_mem hmaxmem)
  have hdst : min.llc ∈ w.llcs := (hsees.llcs _).mp (List.mem_map_of_mem hminmem)
  have hmaxload := hsees.load max hmaxmem
  have hminload := hsees.load min hminmem
  have hle := hminle max hmaxmem
  have hsrc' : home c.id = max.llc := by
    rw [← hhome]
    exact h.home
  have hc : c.loadNs.toNat ≤ max.loadNs.toNat := by
    rw [hdemand, hmaxload, ← hsrc']
    apply World.demand_le_load hid
  have hgap : (max.loadNs - min.loadNs).toNat = max.loadNs.toNat - min.loadNs.toNat :=
    UInt64.toNat_sub_of_le _ _ (UInt64.le_iff_toNat_le.mpr hle)
  have hbound := hload _ hsrc
  have hpos := h.load
  have hrepairs := h.repairs
  unfold gapAfter at hrepairs
  rw [Int64.toNat_unsignedAbs_sub_double (by omega) (by omega), hgap] at hrepairs
  have hlt : w.load home min.llc + c.loadNs.toNat < w.load home max.llc := by
    rw [← hmaxload, ← hminload]
    omega
  have hne : home c.id ≠ min.llc := by
    intro heq
    rw [← hsrc', heq] at hlt
    omega
  constructor
  . rw [← hsrc', hdemand]
    apply World.load_update hid hne
  . exact hsrc
  . exact hdst
  . exact hpos
  . exact hlt
  . intro l hl
    obtain ⟨x, hx, rfl⟩ := List.mem_map.mp ((hsees.llcs l).mpr hl)
    rw [← hsees.load x hx, ← hmaxload]
    exact hmaxle x hx
  . intro l hl
    obtain ⟨x, hx, rfl⟩ := List.mem_map.mp ((hsees.llcs l).mpr hl)
    rw [← hsees.load x hx, ← hminload]
    exact hminle x hx

theorem step_cases {s : Placement} {call : Call} (hsees : w.Sees s.home call)
    (hload : ∀ l ∈ w.llcs, w.load s.home l < 2 ^ 62)
    : (s.decisions call = [] ∧ (s.step call).home = s.home)
      ∨ ((s.decisions call).length = 1
          ∧ ∃ src dst d, w.Repairs s.home (s.step call).home src dst d) := by
  cases plan_cases s.balancer call.nowMs call.llcs call.cohorts with
  | inl h =>
    obtain ⟨streak, h⟩ := h
    left
    simp [Placement.step, Placement.decisions, h]
  | inr h =>
    obtain ⟨max, min, c, hmoves, h⟩ := h
    right
    have hrepairs := repairs_of_moves hsees hload hmoves
    simp only [Placement.step, Placement.decisions, h, List.length_singleton, List.foldl_cons,
      List.foldl_nil, applyMove, true_and]
    exact ⟨_, _, _, hrepairs⟩

theorem loads_step {s : Placement} {call : Call} (hsees : w.Sees s.home call)
    (hload : ∀ l ∈ w.llcs, w.load s.home l < 2 ^ 62)
    : ∀ l ∈ w.llcs, w.load (s.step call).home l < 2 ^ 62 := by
  intro l hl
  cases step_cases hsees hload with
  | inl h =>
    rw [h.2]
    exact hload l hl
  | inr h =>
    obtain ⟨_, src, dst, d, h⟩ := h
    have hbetween := h.moved.between h.lt (h.max l hl) (h.min l hl)
    have := hload src h.src_mem
    omega

theorem sumSq_step {s : Placement} {call : Call} (hsees : w.Sees s.home call)
    (hload : ∀ l ∈ w.llcs, w.load s.home l < 2 ^ 62)
    : w.sumSq (s.step call).home + (s.decisions call).length ≤ w.sumSq s.home := by
  cases step_cases hsees hload with
  | inl h =>
    rw [h.1, h.2]
    apply Nat.le_refl
  | inr h =>
    obtain ⟨hlen, src, dst, d, h⟩ := h
    have : w.sumSq (s.step call).home < w.sumSq s.home :=
      h.moved.sumSq_lt h.src_mem h.dst_mem h.pos h.lt
    omega

-- Every move pays for itself with the sum of the squares, so a run has at most so many of them.
theorem sumSq_run (calls : List Call) (s : Placement)
    (hload : ∀ l ∈ w.llcs, w.load s.home l < 2 ^ 62) (hrun : w.Run s calls)
    : w.sumSq (s.run calls).home + s.moves calls ≤ w.sumSq s.home := by
  induction calls generalizing s with
  | nil => apply Nat.le_refl
  | cons call calls ih =>
    obtain ⟨hsees, hrest⟩ := hrun
    have hstep := sumSq_step hsees hload
    have hih := ih (s.step call) (loads_step hsees hload) hrest
    simp only [Placement.run, List.foldl_cons, Placement.moves] at hih ⊢
    omega

theorem World.sumSq_congr {home home' : CohortId → LlcId}
    (h : ∀ id ∈ w.cohorts, home' id = home id)
    : w.sumSq home' = w.sumSq home := by
  unfold World.sumSq
  congr 1
  funext l
  unfold World.load
  apply Finset.sum_congr _ (fun _ _ => rfl)
  apply Finset.filter_congr
  intro id hid
  rw [h id hid]

structure World.MoveNarrows (w : World) (s : Placement) (call : Call) : Prop where
  sumSq : w.sumSq (s.step call).home < w.sumSq s.home
  spread : w.spread (s.step call).home ≤ w.spread s.home
  spreadTwo : w.llcs.card = 2 → w.spread (s.step call).home < w.spread s.home

theorem moveNarrows_step {s : Placement} {call : Call} (hsees : w.Sees s.home call)
    (hload : ∀ l ∈ w.llcs, w.load s.home l < 2 ^ 62) (hmove : s.decisions call ≠ [])
    : w.MoveNarrows s call := by
  cases step_cases hsees hload with
  | inl h => exact absurd h.1 hmove
  | inr h =>
    obtain ⟨_, src, dst, d, h⟩ := h
    constructor
    . exact h.moved.sumSq_lt h.src_mem h.dst_mem h.pos h.lt
    . exact h.moved.spread_le h.src_mem h.dst_mem h.lt h.max h.min
    . intro hcard
      exact h.moved.spread_lt h.src_mem h.dst_mem h.pos h.lt hcard

theorem moveNarrows_run (calls : List Call) (s : Placement)
    (hload : ∀ l ∈ w.llcs, w.load s.home l < 2 ^ 62) (hrun : w.Run s calls)
    : Placement.Always (fun s call => s.decisions call ≠ [] → w.MoveNarrows s call) s calls := by
  induction calls generalizing s with
  | nil => trivial
  | cons call calls ih =>
    obtain ⟨hsees, hrest⟩ := hrun
    constructor
    . exact moveNarrows_step hsees hload
    . exact ih _ (loads_step hsees hload) hrest

theorem World.run_append {calls calls' : List Call} {s : Placement}
    (hload : ∀ l ∈ w.llcs, w.load s.home l < 2 ^ 62) (hrun : w.Run s (calls ++ calls'))
    : w.Run s calls ∧ w.Run (s.run calls) calls'
      ∧ ∀ l ∈ w.llcs, w.load (s.run calls).home l < 2 ^ 62 := by
  induction calls generalizing s with
  | nil => exact ⟨trivial, hrun, hload⟩
  | cons call calls ih =>
    obtain ⟨hsees, hrest⟩ := hrun
    obtain ⟨hcalls, hcalls', hload'⟩ := ih (loads_step hsees hload) hrest
    exact ⟨⟨hsees, hcalls⟩, hcalls', hload'⟩

-- Homes that recur have no move between them.
theorem no_recurrence {pre mid post : List Call} {s : Placement}
    (hload : ∀ l ∈ w.llcs, w.load s.home l < 2 ^ 62) (hrun : w.Run s (pre ++ (mid ++ post)))
    (hmoves : 0 < (s.run pre).moves mid)
    : ¬ ∀ id ∈ w.cohorts, (s.run (pre ++ mid)).home id = (s.run pre).home id := by
  intro hsame
  obtain ⟨_, hrest, hload'⟩ := World.run_append hload hrun
  obtain ⟨hmid, _, _⟩ := World.run_append hload' hrest
  have hle := sumSq_run mid _ hload' hmid
  rw [← Placement.run_append, World.sumSq_congr hsame] at hle
  omega

theorem card_moves_le (f : Nat → Call) (s : Placement) (n : Nat)
    : ((Finset.range n).filter fun k =>
          (s.run ((List.range k).map f)).decisions (f k) ≠ []).card
        ≤ s.moves ((List.range n).map f) := by
  induction n with
  | zero => apply Nat.zero_le
  | succ n ih =>
    rw [List.range_succ, List.map_append, Placement.moves_append, Finset.range_add_one,
      Finset.filter_insert]
    simp only [List.map_cons, List.map_nil, Placement.moves]
    split
    . next hmove =>
      rw [Finset.card_insert_of_notMem (by simp)]
      have := List.length_pos_of_ne_nil hmove
      omega
    . omega

theorem finite_moves {f : Nat → Call} {s : Placement}
    (hload : ∀ l ∈ w.llcs, w.load s.home l < 2 ^ 62)
    (hrun : ∀ n, w.Run s ((List.range n).map f))
    : { n | (s.run ((List.range n).map f)).decisions (f n) ≠ [] }.Finite := by
  by_contra hinf
  obtain ⟨T, hT, hcard⟩ := Set.Infinite.exists_subset_card_eq hinf (w.sumSq s.home + 1)
  have hsub : T ⊆ (Finset.range (T.sup id + 1)).filter fun k =>
      (s.run ((List.range k).map f)).decisions (f k) ≠ [] := by
    intro k hk
    rw [Finset.mem_filter, Finset.mem_range]
    have : k ≤ T.sup id := Finset.le_sup (f := id) hk
    exact ⟨by omega, hT hk⟩
  have hle := Finset.card_le_card hsub
  have hmoves := card_moves_le f s (T.sup id + 1)
  have hsq := sumSq_run _ s hload (hrun (T.sup id + 1))
  omega

-- The balancer cannot thrash.
theorem moves_narrow_and_end {s : Placement} (hload : ∀ l ∈ w.llcs, w.load s.home l < 2 ^ 62)
    : (∀ calls, w.Run s calls
        → Placement.Always (fun s call => s.decisions call ≠ [] → w.MoveNarrows s call) s calls
          ∧ s.moves calls ≤ w.sumSq s.home)
      ∧ (∀ pre mid post, w.Run s (pre ++ (mid ++ post)) → 0 < (s.run pre).moves mid
          → ¬ ∀ id ∈ w.cohorts, (s.run (pre ++ mid)).home id = (s.run pre).home id)
      ∧ ∀ f : Nat → Call, (∀ n, w.Run s ((List.range n).map f))
          → { n | (s.run ((List.range n).map f)).decisions (f n) ≠ [] }.Finite := by
  refine ⟨?_, ?_, ?_⟩
  . intro calls hrun
    have := sumSq_run calls s hload hrun
    exact ⟨moveNarrows_run calls s hload hrun, by omega⟩
  . intro pre mid post hrun hmoves
    exact no_recurrence hload hrun hmoves
  . intro f hrun
    exact finite_moves hload hrun

def twoCohorts : World := { llcs := {0, 1}, cohorts := {1, 2}, demand := fun _ => 300 }

def crowded : Call :=
  { nowMs := 0
    llcs := [⟨0, 600, 1000⟩, ⟨1, 0, 1000⟩]
    cohorts := [⟨1, 0, false, 1, 300, none⟩, ⟨2, 0, false, 1, 300, none⟩] }

theorem crowded_moves_once
    : Placement.moves ⟨fun _ => 0, {}⟩ [crowded, crowded] = 1
      ∧ Placement.moves ⟨fun _ => 0, {}⟩ [crowded, crowded] ≤ twoCohorts.sumSq fun _ => 0 := by
  have hsees : twoCohorts.Sees (fun _ => 0) crowded := by
    constructor
    . intro l
      simp [crowded, twoCohorts]
    . decide
    . decide
  have hload : ∀ l ∈ twoCohorts.llcs, twoCohorts.load (fun _ => 0) l < 2 ^ 62 := by
    intro l _
    calc
      twoCohorts.load (fun _ => 0) l ≤ ∑ id ∈ twoCohorts.cohorts, (twoCohorts.demand id).toNat := by
        apply Finset.sum_le_sum_of_subset
        apply Finset.filter_subset
      _ = 600 := by simp [twoCohorts]
      _ < 2 ^ 62 := by omega
  refine ⟨by decide +kernel, ?_⟩
  have h := (moves_narrow_and_end (w := twoCohorts) (s := ⟨fun _ => 0, {}⟩) hload).1
  refine (h [crowded, crowded] ⟨hsees, ?_, trivial⟩).2
  have hhome : (Placement.step ⟨fun _ => 0, {}⟩ crowded).home = fun _ => 0 := by
    have : Placement.decisions ⟨fun _ => 0, {}⟩ crowded = [] := by decide +kernel
    simp [Placement.step, this]
  rw [hhome]
  exact hsees

end Thrash

section Residency

inductive Op where
  | plan (nowMs : UInt64) (llcs : List LlcLoad) (cohorts : List CohortSnapshot)
  | retain (live : CohortId → Bool)

def Op.run (b : Balancer) : Op → Balancer
  | .plan nowMs llcs cohorts => (b.plan nowMs llcs cohorts).2
  | .retain live => b.retainCohorts live

def runOps (b : Balancer) (ops : List Op) : Balancer := ops.foldl Op.run b

def Op.nowMs? : Op → Option UInt64
  | .plan nowMs _ _ => some nowMs
  | .retain _ => none

def residencyOf (cfg : BalancerCfg) (c : CohortSnapshot) : UInt64 :=
  c.residencyMs.getD cfg.residencyMs

-- The last move of the cohort that the balancer remembers is not before `t`.
structure MovedSince (cfg : BalancerCfg) (id : CohortId) (t : UInt64) (b : Balancer) : Prop where
  cfg : b.cfg = cfg
  lastMoveAt : ∃ movedAt, b.lastMoveAt.lookup id = some movedAt ∧ t ≤ movedAt

variable {b : Balancer} {cfg : BalancerCfg} {id : CohortId} {t : UInt64}

theorem movedSince_plan {nowMs : UInt64} {llcs : List LlcLoad} {cohorts : List CohortSnapshot}
    (h : MovedSince cfg id t b) (hnow : t ≤ nowMs)
    : MovedSince cfg id t (b.plan nowMs llcs cohorts).2 := by
  obtain ⟨movedAt, hlookup, hle⟩ := h.lastMoveAt
  cases plan_cases b nowMs llcs cohorts with
  | inl hplan =>
    obtain ⟨streak, hplan⟩ := hplan
    rw [hplan]
    exact ⟨h.cfg, movedAt, hlookup, hle⟩
  | inr hplan =>
    obtain ⟨max, min, c, _, hplan⟩ := hplan
    rw [hplan]
    refine ⟨h.cfg, ?_⟩
    dsimp only
    rw [HashTable.lookup_insert_eq]
    split
    . exact ⟨nowMs, rfl, hnow⟩
    . exact ⟨movedAt, hlookup, hle⟩

theorem movedSince_retain {live : CohortId → Bool} (h : MovedSince cfg id t b)
    (hlive : live id = true)
    : MovedSince cfg id t (b.retainCohorts live) := by
  obtain ⟨movedAt, hlookup, hle⟩ := h.lastMoveAt
  refine ⟨h.cfg, movedAt, ?_, hle⟩
  unfold retainCohorts
  dsimp only
  rw [HashTable.lookup_retain, hlookup]
  simp [hlive]

theorem movedSince_run (ops : List Op) (h : MovedSince cfg id t b)
    (hkeep : ∀ live, .retain live ∈ ops → live id = true)
    (htimes : ∀ nowMs ∈ ops.filterMap Op.nowMs?, t ≤ nowMs)
    : MovedSince cfg id t (runOps b ops) := by
  induction ops generalizing b with
  | nil => exact h
  | cons op ops ih =>
    have hrest : ∀ b', MovedSince cfg id t b' → MovedSince cfg id t (runOps b' ops) := by
      intro b' h'
      apply ih h'
      . intro live hmem
        apply hkeep
        exact List.mem_cons_of_mem _ hmem
      . intro nowMs hmem
        apply htimes
        rw [List.filterMap_cons]
        split
        . exact hmem
        . exact List.mem_cons_of_mem _ hmem
    unfold runOps
    rw [List.foldl_cons]
    apply hrest
    cases op with
    | plan nowMs llcs cohorts =>
      apply movedSince_plan h
      apply htimes
      simp [Op.nowMs?]
    | retain live =>
      apply movedSince_retain h
      apply hkeep
      exact List.mem_cons_self

-- The call that moves a cohort remembers when it did so.
theorem movedSince_of_move {llcs : List LlcLoad} {cohorts : List CohortSnapshot} {toLlc : LlcId}
    (h : .moveCohort id toLlc ∈ (b.plan t llcs cohorts).1)
    : MovedSince b.cfg id t (b.plan t llcs cohorts).2 := by
  cases plan_cases b t llcs cohorts with
  | inl hplan =>
    obtain ⟨streak, hplan⟩ := hplan
    rw [hplan] at h
    contradiction
  | inr hplan =>
    obtain ⟨max, min, c, _, hplan⟩ := hplan
    rw [hplan, List.mem_singleton, Decision.moveCohort.injEq] at h
    rw [hplan, h.1]
    exact ⟨rfl, t, AList.lookup_insert _, UInt64.le_refl t⟩

theorem residency_le_of_move {nowMs : UInt64} {llcs : List LlcLoad}
    {cohorts : List CohortSnapshot} {toLlc : LlcId} (hsince : MovedSince cfg id t b)
    (hnow : t ≤ nowMs) (h : .moveCohort id toLlc ∈ (b.plan nowMs llcs cohorts).1)
    : ∃ c ∈ cohorts, c.id = id ∧ (residencyOf cfg c).toNat + t.toNat ≤ nowMs.toNat := by
  cases plan_cases b nowMs llcs cohorts with
  | inl hplan =>
    obtain ⟨streak, hplan⟩ := hplan
    rw [hplan] at h
    contradiction
  | inr hplan =>
    obtain ⟨max, min, c, hmoves, hplan⟩ := hplan
    rw [hplan, List.mem_singleton, Decision.moveCohort.injEq] at h
    obtain ⟨movedAt, hlookup, hle⟩ := hsince.lastMoveAt
    have hresident := hmoves.resident
    unfold resident at hresident
    rw [← h.1, hlookup, hsince.cfg] at hresident
    simp only [ge_iff_le, decide_eq_true_eq, UInt64.le_iff_toNat_le, UInt64.toNat_saturatingSub]
      at hresident hle hnow
    refine ⟨c, hmoves.mem, h.1.symm, ?_⟩
    unfold residencyOf
    omega

theorem moves_apart {t₁ t₂ : UInt64} {llcs₁ llcs₂ : List LlcLoad}
    {cohorts₁ cohorts₂ : List CohortSnapshot} {to₁ to₂ : LlcId} {mid : List Op}
    (h₁ : .moveCohort id to₁ ∈ (b.plan t₁ llcs₁ cohorts₁).1)
    (h₂ : .moveCohort id to₂ ∈ ((runOps (b.plan t₁ llcs₁ cohorts₁).2 mid).plan t₂ llcs₂ cohorts₂).1)
    (hkeep : ∀ live, .retain live ∈ mid → live id = true)
    (htimes : (t₁ :: mid.filterMap Op.nowMs? ++ [t₂]).Pairwise (· ≤ ·))
    : (∃ c ∈ cohorts₂, c.id = id ∧ (residencyOf b.cfg c).toNat + t₁.toNat ≤ t₂.toNat)
      ∧ ((cohorts₂.map (·.id)).Nodup
          → ∀ c ∈ cohorts₂, c.id = id → (residencyOf b.cfg c).toNat + t₁.toNat ≤ t₂.toNat) := by
  rw [List.cons_append, List.pairwise_cons] at htimes
  have hmid : ∀ nowMs ∈ mid.filterMap Op.nowMs?, t₁ ≤ nowMs := by
    intro nowMs hmem
    apply htimes.1
    exact List.mem_append_left _ hmem
  have hlast : t₁ ≤ t₂ := by
    apply htimes.1
    simp
  have hsince := movedSince_run mid (movedSince_of_move h₁) hkeep hmid
  obtain ⟨c, hc, hid, hle⟩ := residency_le_of_move hsince hlast h₂
  refine ⟨⟨c, hc, hid, hle⟩, ?_⟩
  intro hnodup c' hc' hid'
  have heq : c' = c := List.inj_on_of_nodup_map hnodup hc' hc (by rw [hid, hid'])
  rw [heq]
  exact hle

theorem moves_apart_back_and_forth
    : (residencyOf {} ⟨1, 1, false, 1, 300, none⟩).toNat + (0 : UInt64).toNat
        ≤ (2000 : UInt64).toNat := by
  have h₁ : .moveCohort 1 1
      ∈ (({ streak := 1 } : Balancer).plan 0 [⟨0, 1000, 1000⟩, ⟨1, 0, 1000⟩]
          [⟨1, 0, false, 1, 300, none⟩]).1 := by
    decide +kernel
  have h₂ : .moveCohort 1 0
      ∈ ((runOps (({ streak := 1 } : Balancer).plan 0 [⟨0, 1000, 1000⟩, ⟨1, 0, 1000⟩]
            [⟨1, 0, false, 1, 300, none⟩]).2
          [.retain fun _ => true, .plan 1000 [⟨0, 0, 1000⟩, ⟨1, 1000, 1000⟩] []]).plan 2000
          [⟨0, 0, 1000⟩, ⟨1, 1000, 1000⟩] [⟨1, 1, false, 1, 300, none⟩]).1 := by
    decide +kernel
  have h := moves_apart h₁ h₂ (by simp) (by decide)
  exact h.2 (by decide) _ List.mem_cons_self rfl

end Residency

section Confirmation

def returns (b : Balancer) (call : Call) : List Decision :=
  (b.plan call.nowMs call.llcs call.cohorts).1

def next (b : Balancer) (call : Call) : Balancer :=
  (b.plan call.nowMs call.llcs call.cohorts).2

def after (b : Balancer) (calls : List Call) : Balancer := calls.foldl next b

def imbalanced (b : Balancer) (call : Call) : Bool :=
  match maxLoad call.llcs, minLoad call.llcs with
  | some max, some min => b.overThreshold max min
  | _, _ => false

-- A call that sees the imbalance and leaves everything where it is.
structure Waits (b : Balancer) (call : Call) : Prop where
  imbalanced : b.imbalanced call = true
  returns : b.returns call = []

variable {b : Balancer} {call : Call}

theorem exists_loads (h : 2 ≤ call.llcs.length)
    : ∃ max min, maxLoad call.llcs = some max ∧ minLoad call.llcs = some min := by
  have hne : call.llcs ≠ [] := by
    intro hnil
    rw [hnil, List.length_nil] at h
    omega
  have hmax : maxLoad call.llcs ≠ none := by
    unfold maxLoad
    rw [ne_eq, List.argmax_eq_none, List.reverse_eq_nil_iff]
    exact hne
  have hmin : minLoad call.llcs ≠ none := by
    unfold minLoad
    rw [ne_eq, List.argmin_eq_none]
    exact hne
  obtain ⟨max, hmax⟩ := Option.ne_none_iff_exists'.mp hmax
  obtain ⟨min, hmin⟩ := Option.ne_none_iff_exists'.mp hmin
  exact ⟨max, min, hmax, hmin⟩

-- All that a call can do to the streak.
theorem streak_cases (h : 2 ≤ call.llcs.length)
    : (b.imbalanced call = false ∧ b.returns call = [] ∧ (b.next call).streak = 0)
      ∨ (b.imbalanced call = true ∧ b.returns call = [] ∧ (b.next call).streak = b.streak + 1)
      ∨ (b.imbalanced call = true ∧ (b.returns call).length = 1 ∧ (b.next call).streak = 0
          ∧ ¬ b.streak + 1 < b.cfg.confirmTicks) := by
  obtain ⟨max, min, hmax, hmin⟩ := exists_loads h
  unfold imbalanced returns next plan
  rw [if_neg (by omega)]
  simp only [hmax, hmin]
  by_cases hover : b.overThreshold max min = true
  . rw [if_neg (by rw [not_not]; exact hover)]
    by_cases hconfirm : b.streak + 1 < b.cfg.confirmTicks
    . rw [if_pos hconfirm]
      exact .inr (.inl ⟨hover, rfl, rfl⟩)
    . rw [if_neg hconfirm]
      cases b.best call.nowMs max min call.cohorts with
      | some c => exact .inr (.inr ⟨hover, rfl, rfl, hconfirm⟩)
      | none => exact .inr (.inl ⟨hover, rfl, rfl⟩)
  . rw [if_pos hover]
    left
    rw [Bool.not_eq_true] at hover
    exact ⟨hover, rfl, rfl⟩

theorem cfg_next : (b.next call).cfg = b.cfg := by
  unfold next
  cases plan_cases b call.nowMs call.llcs call.cohorts with
  | inl hplan =>
    obtain ⟨streak, hplan⟩ := hplan
    rw [hplan]
  | inr hplan =>
    obtain ⟨max, min, c, _, hplan⟩ := hplan
    rw [hplan]

theorem cfg_after (calls : List Call) : (b.after calls).cfg = b.cfg := by
  unfold after
  induction calls generalizing b with
  | nil => rfl
  | cons call calls ih =>
    rw [List.foldl_cons, ih]
    apply cfg_next

-- The streak counts the calls that have waited. It cannot wrap in so few of them.
theorem lasted_streak (cfg : BalancerCfg) (calls : List Call) (hlen : calls.length < 2 ^ 32)
    (hllcs : ∀ call ∈ calls, 2 ≤ call.llcs.length)
    : Streak.Lasted next Waits (new cfg) calls
        ((new cfg).after calls).streak.toNat := by
  induction calls using List.reverseRecOn with
  | nil => exact Streak.lasted_zero
  | append_singleton calls call ih =>
    rw [List.length_append, List.length_singleton] at hlen
    have hlast := ih (by omega) (fun c hc => hllcs c (List.mem_append_left _ hc))
    have hcall := hllcs call (by simp)
    unfold after at hlast ⊢
    rw [List.foldl_append, List.foldl_cons, List.foldl_nil]
    rcases streak_cases hcall with ⟨_, _, hstreak⟩ | ⟨himb, hret, hstreak⟩ | ⟨_, _, hstreak, _⟩
    . rw [hstreak]
      exact Streak.lasted_zero
    . have hle := hlast.le_length
      rw [hstreak, UInt32.toNat_add]
      rw [show (1 : UInt32).toNat = 1 from rfl, Nat.mod_eq_of_lt (by omega)]
      exact hlast.snoc ⟨himb, hret⟩
    . rw [hstreak]
      exact Streak.lasted_zero

theorem lasted_of_move {cfg : BalancerCfg} {calls : List Call} {call : Call}
    (hlen : calls.length + 1 < 2 ^ 32) (hllcs : ∀ c ∈ calls ++ [call], 2 ≤ c.llcs.length)
    (hmove : ((new cfg).after calls).returns call ≠ [])
    : ((new cfg).after calls).imbalanced call = true
      ∧ Streak.Lasted next Waits (new cfg) calls (cfg.confirmTicks.toNat - 1) := by
  have hlast := lasted_streak cfg calls (by omega)
    (fun c hc => hllcs c (List.mem_append_left _ hc))
  have hle := hlast.le_length
  rcases streak_cases (hllcs call (by simp)) with ⟨_, hret, _⟩ | ⟨_, hret, _⟩ | ⟨himb, _, _, hconfirm⟩
  . exact absurd hret hmove
  . exact absurd hret hmove
  . refine ⟨himb, hlast.of_le ?_⟩
    have hcfg : ((new cfg).after calls).cfg = cfg := cfg_after calls
    rw [hcfg, UInt32.lt_iff_toNat_lt, UInt32.toNat_add] at hconfirm
    rw [show (1 : UInt32).toNat = 1 from rfl, Nat.mod_eq_of_lt (by omega)] at hconfirm
    omega

-- Nothing moves before the imbalance has been confirmed.
theorem moves_confirmed (cfg : BalancerCfg) (calls : List Call) (hlen : calls.length < 2 ^ 32)
    (hllcs : ∀ call ∈ calls, 2 ≤ call.llcs.length)
    : (∀ pre call post, calls = pre ++ call :: post →
        (((new cfg).after pre).returns call).length ≤ 1
        ∧ (((new cfg).after pre).returns call ≠ []
            → ((new cfg).after pre).imbalanced call = true
              ∧ Streak.Lasted next Waits (new cfg) pre (cfg.confirmTicks.toNat - 1)))
      ∧ (∀ pre call mid call' post, calls = pre ++ call :: mid ++ call' :: post
          → ((new cfg).after pre).returns call ≠ []
          → ((new cfg).after (pre ++ call :: mid)).returns call' ≠ []
          → cfg.confirmTicks.toNat ≤ mid.length + 1) := by
  have hmove : ∀ pre call post, calls = pre ++ call :: post
      → ((new cfg).after pre).returns call ≠ []
      → ((new cfg).after pre).imbalanced call = true
        ∧ Streak.Lasted next Waits (new cfg) pre (cfg.confirmTicks.toNat - 1) := by
    intro pre call post heq hret
    apply lasted_of_move _ _ hret
    . rw [heq, List.length_append, List.length_cons] at hlen
      omega
    . intro c hc
      apply hllcs
      rw [heq]
      rw [List.mem_append, List.mem_singleton] at hc
      rw [List.mem_append, List.mem_cons]
      tauto
  constructor
  . intro pre call post heq
    refine ⟨?_, hmove pre call post heq⟩
    have hcall : 2 ≤ call.llcs.length := by
      apply hllcs
      rw [heq]
      simp
    rcases streak_cases (b := (new cfg).after pre) hcall with
      ⟨_, hret, _⟩ | ⟨_, hret, _⟩ | ⟨_, hret, _⟩
    . rw [hret, List.length_nil]
      omega
    . rw [hret, List.length_nil]
      omega
    . omega
  . intro pre call mid call' post heq hret hret'
    have hlast := (hmove _ call' post heq hret').2
    by_contra hlt
    -- The first move would lie within the streak that the second one needs.
    have hwaits := hlast.of_recent (by omega)
    exact hret hwaits.returns

theorem crowded_confirmed
    : ((new {}).after [crowded]).returns crowded ≠ []
      ∧ Streak.Lasted next Waits (new {}) [crowded] 1 := by
  have hret : ((new {}).after [crowded]).returns crowded ≠ [] := by decide +kernel
  refine ⟨hret, ?_⟩
  have h := (moves_confirmed {} [crowded, crowded] (by decide) (by decide)).1
  exact ((h [crowded] crowded [] rfl).2 hret).2

end Confirmation

end Balancer
