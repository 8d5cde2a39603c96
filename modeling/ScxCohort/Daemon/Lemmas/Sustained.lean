import ScxCohort.Daemon.Lemmas.Hysteresis
import ScxCohort.Daemon.Lemmas.Plans

/-!
This module contains when two cohorts that keep waking each other are merged: which ticks confirm an edge
between them, and what their traffic as a whole says about that.
-/

namespace WakeGraph

open Daemon (ends Merged Pushed pushed_mergeEdge merged_mergeEdge merged_start)

section Asked

variable {cfg : WakeGraphCfg} {T : HashTable Tgid CohortId} {cohortSizes : HashTable CohortId UInt64}
  {m : MergeState} {e : EdgeKey × EdgeState} {es : List (EdgeKey × EdgeState)}

-- An edge that asks for a merge is counted, also when it is due and one of the cohorts is taken, or its
-- cohorts are merged.
inductive Asked (cfg : WakeGraphCfg) (T : HashTable Tgid CohortId) (m : MergeState)
    (e : EdgeKey × EdgeState) (m' : MergeState) : Prop where
  | counted (hout : m'.out = m.out)
      (hedges : m'.edges = m.edges.insert e.1 { e.2 with overTicks := e.2.overTicks + 1 })
      (htaken : cfg.mergeConfirmTicks ≤ e.2.overTicks + 1
        → ∃ id ∈ m.merged, T.lookup e.1.1 = some id ∨ T.lookup e.1.2 = some id)
  | planned (plan : MergePlan) (hjoins : Joins T e.1 plan) (hout : m'.out = m.out ++ [plan])

theorem asked_mergeEdge (cohortSizes : HashTable CohortId UInt64) (m : MergeState)
    (h : Over cfg T e.1 e.2)
    : Asked cfg T m e (mergeEdge cfg T cohortSizes m e) := by
  obtain ⟨ca, cb, ha, hb, hne⟩ := h.mapped
  have hrates : ¬ (e.2.rate < cfg.mergeWakesPerSec ∨ e.2.inst < cfg.mergeWakesPerSec) := by
    rw [not_or, Rat.not_lt, Rat.not_lt]
    exact ⟨h.rate, h.inst⟩
  unfold mergeEdge
  rw [ha, hb]
  dsimp only
  rw [if_neg hne, if_neg hrates]
  split
  . next hearly =>
    refine .counted rfl rfl ?_
    intro hdue
    exact absurd hearly (UInt32.not_lt.mpr hdue)
  . split
    . next htaken =>
      refine .counted rfl rfl ?_
      intro _
      cases htaken with
      | inl htaken => exact ⟨ca, htaken, .inl ha⟩
      | inr htaken => exact ⟨cb, htaken, .inr hb⟩
    . split
      . exact .planned _ (.inl ⟨ha, hb⟩) rfl
      . exact .planned _ (.inr ⟨ha, hb⟩) rfl

theorem out_mergeEdges (es : List (EdgeKey × EdgeState)) {plan : MergePlan} (h : plan ∈ m.out)
    : plan ∈ (es.foldl (mergeEdge cfg T cohortSizes) m).out := by
  induction es generalizing m with
  | nil => exact h
  | cons e es ih =>
    apply ih
    cases pushed_mergeEdge cfg T cohortSizes m e with
    | inl hsame =>
      rw [hsame.1]
      exact h
    | inr hpush =>
      obtain ⟨_, hpush⟩ := hpush
      rw [hpush.out]
      exact List.mem_append_left _ h

theorem edges_mergeEdges_ne {key : EdgeKey} (h : key ∉ es.map (·.1))
    : (es.foldl (mergeEdge cfg T cohortSizes) m).edges.lookup key = m.edges.lookup key := by
  induction es generalizing m with
  | nil => rfl
  | cons e es ih =>
    rw [List.map_cons, List.mem_cons, not_or] at h
    rw [List.foldl_cons, ih h.2, (looked_mergeEdge cfg T cohortSizes m e).edges_ne h.1]

theorem edges_mergeEdges_asked (hnodup : (es.map (·.1)).Nodup) (he : e ∈ es)
    (hover : Over cfg T e.1 e.2)
    (hnone : ∀ plan ∈ (es.foldl (mergeEdge cfg T cohortSizes) m).out, ¬ Joins T e.1 plan)
    : (es.foldl (mergeEdge cfg T cohortSizes) m).edges.lookup e.1
        =
      some { e.2 with overTicks := e.2.overTicks + 1 } := by
  induction es generalizing m with
  | nil => contradiction
  | cons e' es ih =>
    rw [List.map_cons, List.nodup_cons] at hnodup
    rw [List.foldl_cons] at hnone ⊢
    cases List.mem_cons.mp he with
    | inr he => exact ih hnodup.2 he hnone
    | inl heq =>
      subst heq
      rw [edges_mergeEdges_ne hnodup.1]
      cases asked_mergeEdge cohortSizes m hover with
      | counted _ hedges _ => rw [hedges, HashTable.lookup_insert_eq, if_pos rfl]
      | planned plan hjoins hout =>
        have hplan : plan ∈ (mergeEdge cfg T cohortSizes m e).out := by
          rw [hout]
          exact List.mem_append_right _ (List.mem_singleton_self _)
        exact absurd hjoins (hnone plan (out_mergeEdges es hplan))

theorem due_mergeEdges (h : Merged T cohortSizes m) (he : e ∈ es) (hover : Over cfg T e.1 e.2)
    (hdue : cfg.mergeConfirmTicks ≤ e.2.overTicks + 1)
    : ∃ plan ∈ (es.foldl (mergeEdge cfg T cohortSizes) m).out, ∃ id,
        (id = plan.into ∨ id = plan.src) ∧ (T.lookup e.1.1 = some id ∨ T.lookup e.1.2 = some id) := by
  induction es generalizing m with
  | nil => contradiction
  | cons e' es ih =>
    rw [List.foldl_cons]
    cases List.mem_cons.mp he with
    | inr he => exact ih (merged_mergeEdge h e') he
    | inl heq =>
      subst heq
      cases asked_mergeEdge cohortSizes m hover with
      | counted hout _ htaken =>
        obtain ⟨id, hid, hends⟩ := htaken hdue
        rw [h.merged, Daemon.mem_ends] at hid
        obtain ⟨plan, hplan, hid⟩ := hid
        rw [← hout] at hplan
        exact ⟨plan, out_mergeEdges es hplan, id, hid, hends⟩
      | planned plan hjoins hout =>
        have hplan : plan ∈ (mergeEdge cfg T cohortSizes m e).out := by
          rw [hout]
          exact List.mem_append_right _ (List.mem_singleton_self _)
        refine ⟨plan, out_mergeEdges es hplan, plan.into, .inl rfl, ?_⟩
        cases hjoins with
        | inl hjoins => exact .inl hjoins.1
        | inr hjoins => exact .inr hjoins.2

variable {o : IterOrder} {w : WakeGraph} {key : EdgeKey} {st : EdgeState}

theorem edges_merges_asked (hst : w.edges.lookup key = some st) (hover : Over w.cfg T key st)
    (hnone : ∀ plan ∈ (w.merges o T cohortSizes).1, ¬ Joins T key plan)
    : (w.merges o T cohortSizes).2.edges.lookup key
        =
      some { st with overTicks := st.overTicks + 1 } := by
  have he : (key, st) ∈ o.order w.edges.items := by
    rw [IterOrder.mem_order]
    exact HashTable.mem_items.mpr hst
  exact edges_mergeEdges_asked (nodup_order_items o w) he hover hnone

theorem due_merges (o : IterOrder) (cohortSizes : HashTable CohortId UInt64)
    (hst : w.edges.lookup key = some st) (hover : Over w.cfg T key st)
    (hdue : w.cfg.mergeConfirmTicks ≤ st.overTicks + 1)
    : ∃ plan ∈ (w.merges o T cohortSizes).1, ∃ id,
        (id = plan.into ∨ id = plan.src) ∧ (T.lookup key.1 = some id ∨ T.lookup key.2 = some id) := by
  have he : (key, st) ∈ o.order w.edges.items := by
    rw [IterOrder.mem_order]
    exact HashTable.mem_items.mpr hst
  exact due_mergeEdges (merged_start T cohortSizes w.edges) he hover hdue

-- A known edge keeps its count, also when its rate does not change because no time has passed.
theorem overTicks_observe_known {deltas : List (Tgid × Tgid × UInt64)} {dtS : ℚ} {sampleMult : UInt64}
    {old : EdgeState} (hold : w.edges.lookup key = some old)
    (h : (w.observe deltas dtS sampleMult).edges.lookup key = some st)
    : st.overTicks = old.overTicks := by
  by_cases hdt : 0 < dtS
  . rw [lookup_observe w deltas hdt, hold, Option.map_some, Option.some_or,
      Option.filter_eq_some_iff, Option.some.injEq] at h
    rw [← h.1]
    rfl
  . unfold observe at h
    rw [if_pos (Rat.not_lt.mp hdt), hold, Option.some.injEq] at h
    rw [← h]

end Asked

namespace Tick

variable {A B : CohortId} {T : HashTable Tgid CohortId} {cfg : WakeGraphCfg} {w : WakeGraph}
  {past recent : List Tick} {t : Tick} {key : EdgeKey} {st : EdgeState} {n : Nat}

section Defs

-- The edge joins a member of the one cohort to a member of the other one.
def Between (T : HashTable Tgid CohortId) (A B : CohortId) (key : EdgeKey) : Prop :=
  (T.lookup key.1 = some A ∧ T.lookup key.2 = some B)
    ∨ (T.lookup key.1 = some B ∧ T.lookup key.2 = some A)

instance : Decidable (Between T A B key) := inferInstanceAs (Decidable (_ ∨ _))

def joining (A B : CohortId) (w : WakeGraph) (t : Tick) : List EdgeState :=
  ((t.observed w).edges.items.filter fun e => Between t.tgidCohort A B e.1).map (·.2)

-- The traffic between the two cohorts, that of all edges together, asks for a merge.
def MutualOver (A B : CohortId) (w : WakeGraph) (t : Tick) : Prop :=
  w.cfg.mergeWakesPerSec ≤ ((joining A B w t).map (·.rate)).sum
    ∧ w.cfg.mergeWakesPerSec ≤ ((joining A B w t).map (·.inst)).sum

instance : Decidable (MutualOver A B w t) := inferInstanceAs (Decidable (_ ∧ _))

def Pairs (A B : CohortId) (plan : MergePlan) : Prop :=
  (plan.into = A ∧ plan.src = B) ∨ (plan.into = B ∧ plan.src = A)

instance (plan : MergePlan) : Decidable (Pairs A B plan) := inferInstanceAs (Decidable (_ ∨ _))

def PlansPair (A B : CohortId) (w : WakeGraph) (t : Tick) : Prop := ∃ plan ∈ plans w t, Pairs A B plan

instance : Decidable (PlansPair A B w t) := inferInstanceAs (Decidable (∃ plan ∈ plans w t, _))

-- Neither of the two is merged with another cohort.
def Unrivalled (A B : CohortId) (w : WakeGraph) (t : Tick) : Prop :=
  ∀ plan ∈ plans w t, A ∈ ends [plan] ∨ B ∈ ends [plan] → Pairs A B plan

instance : Decidable (Unrivalled A B w t) := inferInstanceAs (Decidable (∀ plan ∈ plans w t, _))

def MergesSustained (A B : CohortId) (w : WakeGraph) (recent : List Tick) (t : Tick) : Prop :=
  Streak.Throughout next (MutualOver A B) w (recent ++ [t]) → Unrivalled A B (recent.foldl next w) t
    → Streak.Sometime next (PlansPair A B) w (recent ++ [t])

instance : Decidable (MergesSustained A B w recent t) := inferInstanceAs (Decidable (_ → _ → _))

def Carries (A B : CohortId) (key : EdgeKey) (w : WakeGraph) (t : Tick) : Prop :=
  Between t.tgidCohort A B key ∧ OverAt key w t

-- One edge alone asks for a merge at all the ticks.
def Steady (A B : CohortId) (w : WakeGraph) (ticks : List Tick) : Prop :=
  ∃ key, Streak.Throughout next (Carries A B key) w ticks

end Defs

section Counts

theorem pairs_of_joins {plan : MergePlan} (hjoins : Joins T key plan) (hbetween : Between T A B key)
    : Pairs A B plan := by
  rcases hjoins with ⟨hinto, hsrc⟩ | ⟨hsrc, hinto⟩ <;> rcases hbetween with ⟨ha, hb⟩ | ⟨hb, ha⟩
  . left
    exact ⟨Option.some.inj (hinto.symm.trans ha), Option.some.inj (hsrc.symm.trans hb)⟩
  . right
    exact ⟨Option.some.inj (hinto.symm.trans hb), Option.some.inj (hsrc.symm.trans ha)⟩
  . right
    exact ⟨Option.some.inj (hinto.symm.trans hb), Option.some.inj (hsrc.symm.trans ha)⟩
  . left
    exact ⟨Option.some.inj (hinto.symm.trans ha), Option.some.inj (hsrc.symm.trans hb)⟩

theorem between_of_joins {plan : MergePlan} (hjoins : Joins T key plan) (hpairs : Pairs A B plan)
    : Between T A B key := by
  unfold Joins at hjoins
  rcases hpairs with ⟨hinto, hsrc⟩ | ⟨hinto, hsrc⟩
  . rw [hinto, hsrc] at hjoins
    exact hjoins
  . rw [hinto, hsrc] at hjoins
    exact hjoins.symm

theorem overTicks_observed_le (h : ∀ old, w.edges.lookup key = some old → old.overTicks.toNat ≤ n)
    (hst : (t.observed w).edges.lookup key = some st)
    : st.overTicks.toNat ≤ n := by
  cases overTicks_observe hst with
  | inl hold =>
    obtain ⟨old, hold, heq⟩ := hold
    rw [heq]
    exact h old hold
  | inr hzero =>
    rw [hzero]
    exact Nat.zero_le _

-- An edge counts at most one in a tick.
theorem overTicks_le_length (past : List Tick)
    (hst : (past.foldl next { cfg := cfg }).edges.lookup key = some st)
    : st.overTicks.toNat ≤ past.length := by
  induction past using List.reverseRecOn generalizing st with
  | nil => contradiction
  | append_singleton past t ih =>
    rw [List.foldl_append] at hst
    rw [List.length_append, List.length_singleton]
    obtain ⟨seen, hseen, hcounted⟩ := counted_merges hst
    have hle := overTicks_observed_le (fun _ => ih) hseen
    cases hcounted with
    | reset hzero =>
      rw [hzero]
      exact Nat.zero_le _
    | counted _ heq =>
      rw [heq]
      exact (toNat_succ_le _).trans (by omega)
    | unmapped _ heq =>
      rw [heq]
      omega

theorem toNat_succ_of_lt {n : UInt32} (h : n.toNat + 1 < 2 ^ 32) : (n + 1).toNat = n.toNat + 1 := by
  rw [UInt32.toNat_add]
  exact Nat.mod_eq_of_lt h

-- With a mapping that never changes, an edge to a thread group that has no cohort is never counted.
theorem mapped_of_fixed (cfg : WakeGraphCfg) (ticks : List Tick)
    (hfixed : ∀ t ∈ ticks, t.tgidCohort = T)
    : Streak.Throughout next Mapped { cfg := cfg } ticks := by
  have hR : Streak.Throughout next (fun _ t => t.tgidCohort = T) { cfg := cfg } ticks :=
    Streak.throughout_of_mem hfixed
  refine Streak.throughout_of_invariant (I := fun w => ∀ key st, w.edges.lookup key = some st
    → st.overTicks ≠ 0 → key.1 ∈ T ∧ key.2 ∈ T) ?_ (fun _ _ hst => absurd hst (by simp)) hR
  intro w t hw ht
  have hmapped : Mapped w t := by
    intro key st hst hne
    rw [ht]
    cases overTicks_observe hst with
    | inr hzero => exact absurd hzero hne
    | inl hold =>
      obtain ⟨old, hold, heq⟩ := hold
      rw [heq] at hne
      exact hw key old hold hne
  refine ⟨?_, hmapped⟩
  intro key st hst hne
  obtain ⟨seen, hseen, hcounted⟩ := counted_merges hst
  cases hcounted with
  | reset hzero => exact absurd hzero hne
  | counted hover _ =>
    obtain ⟨ca, cb, ha, hb, _⟩ := hover.mapped
    rw [← ht]
    exact ⟨AList.lookup_isSome.mp (Option.isSome_of_mem ha),
      AList.lookup_isSome.mp (Option.isSome_of_mem hb)⟩
  | unmapped _ heq =>
    rw [heq] at hne
    rw [← ht]
    exact hmapped key seen hseen hne

-- The edge has been counted `n` times.
def CountedFor (key : EdgeKey) (n : Nat) (w : WakeGraph) : Prop :=
  n = 0 ∨ ∃ st, w.edges.lookup key = some st ∧ n ≤ st.overTicks.toNat

theorem CountedFor.observed (h : CountedFor key n w)
    (hst : (t.observed w).edges.lookup key = some st)
    : n ≤ st.overTicks.toNat := by
  cases h with
  | inl hzero => omega
  | inr hold =>
    obtain ⟨old, hold, hle⟩ := hold
    rw [overTicks_observe_known hold hst]
    exact hle

theorem CountedFor.next (h : CountedFor key n w) (hcarries : Carries A B key w t)
    (hnone : ¬ PlansPair A B w t)
    (hsmall : ∀ st, (t.observed w).edges.lookup key = some st → st.overTicks.toNat + 1 < 2 ^ 32)
    : CountedFor key (n + 1) (next w t) := by
  obtain ⟨hbetween, st, hst, hover⟩ := hcarries
  right
  have hcfg : (t.observed w).cfg = w.cfg := cfg_observe _ _ _ _
  rw [← hcfg] at hover
  refine ⟨_, edges_merges_asked hst hover ?_, ?_⟩
  . intro plan hplan hjoins
    exact hnone ⟨plan, hplan, pairs_of_joins hjoins hbetween⟩
  . have hle := h.observed hst
    show n + 1 ≤ (st.overTicks + 1).toNat
    rw [toNat_succ_of_lt (hsmall st hst)]
    exact Nat.succ_le_succ hle

theorem countedFor_of_carries
    (h : Streak.Throughout next (Carries A B key) (past.foldl next { cfg := cfg }) recent)
    (hnone : ¬ Streak.Sometime next (PlansPair A B) (past.foldl next { cfg := cfg }) recent)
    (hshort : past.length + recent.length < 2 ^ 32)
    : CountedFor key recent.length (recent.foldl next (past.foldl next { cfg := cfg })) := by
  induction recent using List.reverseRecOn with
  | nil => exact .inl rfl
  | append_singleton recent t ih =>
    rw [Streak.throughout_append] at h
    rw [Streak.sometime_snoc, not_or] at hnone
    rw [List.length_append, List.length_singleton] at hshort ⊢
    rw [List.foldl_append]
    refine (ih h.1 hnone.1 (by omega)).next h.2.1 hnone.2 ?_
    intro st hst
    rw [← List.foldl_append] at hst
    have hle := overTicks_observed_le (fun _ => overTicks_le_length (past ++ recent)) hst
    rw [List.length_append] at hle
    omega

end Counts

section Sustained

theorem plansPair_of_carries
    (hcounted : CountedFor key n w) (hcarries : Carries A B key w t)
    (hdue : w.cfg.mergeConfirmTicks.toNat ≤ n + 1)
    (hsmall : ∀ st, (t.observed w).edges.lookup key = some st → st.overTicks.toNat + 1 < 2 ^ 32)
    (halone : Unrivalled A B w t)
    : PlansPair A B w t := by
  obtain ⟨hbetween, st, hst, hover⟩ := hcarries
  have hcfg : (t.observed w).cfg = w.cfg := cfg_observe _ _ _ _
  have hle := hcounted.observed hst
  have hconfirmed : (t.observed w).cfg.mergeConfirmTicks ≤ st.overTicks + 1 := by
    rw [hcfg, UInt32.le_iff_toNat_le, toNat_succ_of_lt (hsmall st hst)]
    omega
  rw [← hcfg] at hover
  obtain ⟨plan, hplan, id, hid, hends⟩ :=
    due_merges t.order t.cohortSizes hst hover hconfirmed
  refine ⟨plan, hplan, halone plan hplan ?_⟩
  have hpair : id = A ∨ id = B := by
    rcases hbetween with ⟨ha, hb⟩ | ⟨hb, ha⟩ <;> rcases hends with hend | hend
    . exact .inl (Option.some.inj (hend.symm.trans ha))
    . exact .inr (Option.some.inj (hend.symm.trans hb))
    . exact .inr (Option.some.inj (hend.symm.trans hb))
    . exact .inl (Option.some.inj (hend.symm.trans ha))
  have hmem : id ∈ ends [plan] := Daemon.mem_ends.mpr ⟨plan, List.mem_singleton_self _, hid⟩
  cases hpair with
  | inl heq =>
    rw [heq] at hmem
    exact .inl hmem
  | inr heq =>
    rw [heq] at hmem
    exact .inr hmem

theorem steady_of_plansPair (hfixed : ∀ t' ∈ past ++ recent ++ [t], t'.tgidCohort = T)
    (hlength : recent.length + 1 = max 1 cfg.mergeConfirmTicks.toNat)
    (h : PlansPair A B (recent.foldl next (past.foldl next { cfg := cfg })) t)
    : Steady A B (past.foldl next { cfg := cfg }) (recent ++ [t]) := by
  obtain ⟨plan, hplan, hpairs⟩ := h
  have hmapped := mapped_of_fixed cfg _ hfixed
  rw [Streak.throughout_append] at hmapped
  rw [← List.foldl_append] at hplan
  obtain ⟨key, hjoins, earlier, window, hsplit, hwindow, hover⟩ :=
    confirmed_of_tracked (tracked_of_mapped cfg _ hmapped.1) plan hplan
  have heq : past = earlier ∧ recent ++ [t] = window := by
    apply List.append_inj'
    . rw [← List.append_assoc, hsplit]
    . rw [hwindow, List.length_append, List.length_singleton]
      exact hlength
  rw [← heq.1, ← heq.2] at hover
  refine ⟨key, Streak.throughout_and.mpr ⟨?_, hover⟩⟩
  apply Streak.throughout_of_mem
  intro t' ht'
  rw [hfixed t', ← hfixed t]
  . exact between_of_joins hjoins hpairs
  . simp
  . rw [List.append_assoc]
    exact List.mem_append_right _ ht'

theorem sustained_merges (cfg : WakeGraphCfg) (A B : CohortId) (T : HashTable Tgid CohortId)
    (past recent : List Tick) (t : Tick) (hfixed : ∀ t' ∈ past ++ recent ++ [t], t'.tgidCohort = T)
    (hlength : recent.length + 1 = max 1 cfg.mergeConfirmTicks.toNat)
    (hshort : past.length + recent.length + 1 < 2 ^ 32)
    : let w := past.foldl next { cfg := cfg }
      (Steady A B w (recent ++ [t]) → MergesSustained A B w recent t)
        ∧ (Streak.Throughout next (MutualOver A B) w (recent ++ [t])
          → Unrivalled A B (recent.foldl next w) t
          → ¬ Streak.Sometime next (PlansPair A B) w recent
          → (MergesSustained A B w recent t ↔ Steady A B w (recent ++ [t]))) := by
  intro w
  have henough : Steady A B w (recent ++ [t]) → MergesSustained A B w recent t := by
    rintro ⟨key, hcarries⟩ _ halone
    rw [Streak.sometime_snoc]
    by_cases hearlier : Streak.Sometime next (PlansPair A B) w recent
    . exact .inl hearlier
    . right
      rw [Streak.throughout_append] at hcarries
      have hcounted := countedFor_of_carries hcarries.1 hearlier (by omega)
      refine plansPair_of_carries hcounted hcarries.2.1 ?_ ?_ halone
      . rw [← List.foldl_append, cfg_run]
        show cfg.mergeConfirmTicks.toNat ≤ _
        omega
      . intro st hst
        rw [← List.foldl_append] at hst
        have hle := overTicks_observed_le (fun _ => overTicks_le_length (past ++ recent)) hst
        rw [List.length_append] at hle
        omega
  refine ⟨henough, ?_⟩
  intro hmutual halone hearlier
  refine ⟨?_, henough⟩
  intro hmerges
  have hlast := hmerges hmutual halone
  rw [Streak.sometime_snoc] at hlast
  exact steady_of_plansPair hfixed hlength (hlast.resolve_left hearlier)

theorem carries_of_between (hne : A ≠ B) (hbetween : Between t.tgidCohort A B key)
    (h : ((t.observed w).edges.lookup key).any (fun st =>
      decide (w.cfg.mergeWakesPerSec ≤ st.rate ∧ w.cfg.mergeWakesPerSec ≤ st.inst)) = true)
    : Carries A B key w t := by
  rw [Option.any_eq_true] at h
  obtain ⟨st, hst, hrates⟩ := h
  have hrates := of_decide_eq_true hrates
  refine ⟨hbetween, st, hst, ?_, hrates.1, hrates.2⟩
  rcases hbetween with ⟨ha, hb⟩ | ⟨hb, ha⟩
  . exact ⟨A, B, ha, hb, hne⟩
  . exact ⟨B, A, hb, ha, Ne.symm hne⟩

-- Two processes of the one cohort wake one of the other each, 250 times a second.
def spread : Tick :=
  { deltas := [(10, 20, 50), (11, 21, 50)], dtS := 1 / 5, sampleMult := 1, order := .id
    tgidCohort := .ofList [(10, 1), (11, 1), (20, 2), (21, 2)], cohortSizes := ∅ }

theorem spread_not_mergesSustained
    : ¬ MergesSustained 1 2 ((List.replicate 5 spread).foldl next {}) [spread, spread] spread := by
  decide +kernel

-- The same traffic between two processes.
def single : Tick := { spread with deltas := [(10, 20, 100)] }

theorem single_mergesSustained
    : MergesSustained 1 2 ((List.replicate 5 single).foldl next {}) [single, single] single := by
  have hcarries : Streak.Throughout next (Carries 1 2 (10, 20))
      ((List.replicate 5 single).foldl next {}) [single, single, single] := by
    refine ⟨?_, ?_, ?_, trivial⟩
    . exact carries_of_between (by decide) (by decide +kernel) (by decide +kernel)
    . exact carries_of_between (by decide) (by decide +kernel) (by decide +kernel)
    . exact carries_of_between (by decide) (by decide +kernel) (by decide +kernel)
  have hfixed : ∀ t ∈ List.replicate 5 single ++ [single, single] ++ [single],
      t.tgidCohort = single.tgidCohort := by
    simp
  exact (sustained_merges {} 1 2 _ (List.replicate 5 single) [single, single] single hfixed rfl
    (by decide)).1 ⟨(10, 20), hcarries⟩

end Sustained

end Tick

end WakeGraph
