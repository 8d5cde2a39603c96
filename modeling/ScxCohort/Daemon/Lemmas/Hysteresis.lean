import Mathlib.Algebra.Order.Field.Rat
import Mathlib.Tactic.FieldSimp
import Mathlib.Tactic.Linarith
import ScxCohort.Daemon.Lemmas.WakeGraph
import ScxCohort.Lib.Streak

/-!
This module contains how merges and splits keep apart: what a merge takes to be confirmed over the ticks,
and which traffic holds a cohort together.
-/

namespace WakeGraph

section Observe

variable {alpha dtS : ℚ} {key : EdgeKey} {st : EdgeState}

def freshEdge (alpha dtS : ℚ) (count : UInt64) : EdgeState :=
  { rate := alpha * (count.toNat / dtS), inst := count.toNat / dtS, overTicks := 0 }

theorem lookup_addFreshEdges (es : List (EdgeKey × UInt64)) (hnodup : (es.map (·.1)).Nodup)
    (edges : HashTable EdgeKey EdgeState)
    : (es.foldl (addFreshEdge alpha dtS) edges).lookup key
        =
      (edges.lookup key).or ((es.find? (·.1 = key)).map fun e => freshEdge alpha dtS e.2) := by
  induction es generalizing edges with
  | nil => simp
  | cons e es ih =>
    rw [List.map_cons, List.nodup_cons] at hnodup
    rw [List.foldl_cons, ih hnodup.2]
    unfold addFreshEdge
    by_cases hkey : e.1 = key
    . have hlater : es.find? (·.1 = key) = none := by
        rw [List.find?_eq_none]
        intro e' he' heq
        apply hnodup.1
        rw [hkey, ← of_decide_eq_true heq]
        exact List.mem_map_of_mem he'
      have hfirst : (e :: es).find? (·.1 = key) = some e := by simp [hkey]
      rw [hfirst, hlater]
      split
      . next hmem =>
        rw [hkey] at hmem
        obtain ⟨st, hst⟩ := Option.isSome_iff_exists.mp (AList.lookup_isSome.mpr hmem)
        rw [hst]
        rfl
      . next hmem =>
        rw [hkey] at hmem ⊢
        rw [AList.lookup_eq_none.mpr hmem, HashTable.lookup_insert_eq, if_pos rfl]
        rfl
    . have hfirst : (e :: es).find? (·.1 = key) = es.find? (·.1 = key) := by simp [hkey]
      rw [hfirst]
      split
      . rfl
      . rw [HashTable.lookup_insert_eq, if_neg (Ne.symm hkey)]

-- A known edge decays, traffic on another key makes one, and what has decayed to noise is dropped.
theorem lookup_observe (w : WakeGraph) (deltas : List (Tgid × Tgid × UInt64)) (hdt : 0 < dtS)
    (sampleMult : UInt64) (key : EdgeKey)
    : (w.observe deltas dtS sampleMult).edges.lookup key
        =
      (((w.edges.lookup key).map
          (decayEdge (dtS / (dtS + w.cfg.rateTauS)) dtS (freshCounts deltas sampleMult) key)).or
        (((freshCounts deltas sampleMult).lookup key).map
          (freshEdge (dtS / (dtS + w.cfg.rateTauS)) dtS))).filter
        fun st => st.rate ≥ w.cfg.splitMinWakesPerSec / 10 := by
  unfold observe
  rw [if_neg (Rat.not_le.mpr hdt)]
  dsimp only
  rw [HashTable.lookup_retain, lookup_addFreshEdges _ (HashTable.nodup_items _),
    HashTable.lookup_mapValues, ← HashTable.find?_items (freshCounts deltas sampleMult), Option.map_map]
  rfl

-- An edge that is new, or that has been dropped in the meantime, starts over.
theorem overTicks_observe {w : WakeGraph} {deltas : List (Tgid × Tgid × UInt64)} {sampleMult : UInt64}
    (h : (w.observe deltas dtS sampleMult).edges.lookup key = some st)
    : (∃ old, w.edges.lookup key = some old ∧ st.overTicks = old.overTicks) ∨ st.overTicks = 0 := by
  by_cases hdt : 0 < dtS
  . rw [lookup_observe w deltas hdt, Option.filter_eq_some_iff, Option.or_eq_some_iff] at h
    cases h.1 with
    | inl hknown =>
      obtain ⟨old, hold, rfl⟩ := Option.map_eq_some_iff.mp hknown
      exact .inl ⟨old, hold, rfl⟩
    | inr hfresh =>
      obtain ⟨count, _, rfl⟩ := Option.map_eq_some_iff.mp hfresh.2
      exact .inr rfl
  . unfold observe at h
    rw [if_pos (Rat.not_lt.mp hdt)] at h
    exact .inl ⟨st, h, rfl⟩

theorem cfg_observe (w : WakeGraph) (deltas : List (Tgid × Tgid × UInt64)) (dtS : ℚ)
    (sampleMult : UInt64)
    : (w.observe deltas dtS sampleMult).cfg = w.cfg := by
  unfold observe
  split <;> rfl

end Observe

section Merges

variable {cfg : WakeGraphCfg} {tgidCohort : HashTable Tgid CohortId}
  {cohortSizes : HashTable CohortId UInt64} {m : MergeState} {e : EdgeKey × EdgeState}

-- Traffic between two cohorts that asks for a merge.
structure Over (cfg : WakeGraphCfg) (tgidCohort : HashTable Tgid CohortId) (key : EdgeKey)
    (st : EdgeState) : Prop where
  mapped : ∃ ca cb, tgidCohort.lookup key.1 = some ca ∧ tgidCohort.lookup key.2 = some cb ∧ ca ≠ cb
  rate : cfg.mergeWakesPerSec ≤ st.rate
  inst : cfg.mergeWakesPerSec ≤ st.inst

-- The plan merges the two cohorts of the edge.
def Joins (tgidCohort : HashTable Tgid CohortId) (key : EdgeKey) (plan : MergePlan) : Prop :=
  (tgidCohort.lookup key.1 = some plan.into ∧ tgidCohort.lookup key.2 = some plan.src)
    ∨ (tgidCohort.lookup key.1 = some plan.src ∧ tgidCohort.lookup key.2 = some plan.into)

-- What the look at one edge comes to.
inductive Looked (cfg : WakeGraphCfg) (tgidCohort : HashTable Tgid CohortId) (m : MergeState)
    (e : EdgeKey × EdgeState) (m' : MergeState) : Prop where
  | unmapped (hnone : tgidCohort.lookup e.1.1 = none ∨ tgidCohort.lookup e.1.2 = none) (hm : m' = m)
  | reset (hout : m'.out = m.out) (hedges : m'.edges = m.edges.insert e.1 { e.2 with overTicks := 0 })
  | counted (hover : Over cfg tgidCohort e.1 e.2) (hout : m'.out = m.out)
      (hedges : m'.edges = m.edges.insert e.1 { e.2 with overTicks := e.2.overTicks + 1 })
  | planned (plan : MergePlan) (hover : Over cfg tgidCohort e.1 e.2) (hjoins : Joins tgidCohort e.1 plan)
      (hdue : cfg.mergeConfirmTicks ≤ e.2.overTicks + 1) (hout : m'.out = m.out ++ [plan])
      (hedges : m'.edges = m.edges.insert e.1 { e.2 with overTicks := 0 })

theorem looked_mergeEdge (cfg : WakeGraphCfg) (tgidCohort : HashTable Tgid CohortId)
    (cohortSizes : HashTable CohortId UInt64) (m : MergeState) (e : EdgeKey × EdgeState)
    : Looked cfg tgidCohort m e (mergeEdge cfg tgidCohort cohortSizes m e) := by
  unfold mergeEdge
  cases ha : tgidCohort.lookup e.1.1 with
  | none => exact .unmapped (.inl ha) rfl
  | some ca =>
    cases hb : tgidCohort.lookup e.1.2 with
    | none => exact .unmapped (.inr hb) rfl
    | some cb =>
      dsimp only
      split
      . exact .reset rfl rfl
      . next hne =>
        split
        . exact .reset rfl rfl
        . next hrates =>
          rw [not_or, Rat.not_lt, Rat.not_lt] at hrates
          have hover : Over cfg tgidCohort e.1 e.2 := ⟨⟨ca, cb, ha, hb, hne⟩, hrates.1, hrates.2⟩
          split
          . exact .counted hover rfl rfl
          . next hdue =>
            rw [UInt32.not_lt] at hdue
            split
            . exact .counted hover rfl rfl
            . split
              . exact .planned _ hover (.inl ⟨ha, hb⟩) hdue rfl rfl
              . exact .planned _ hover (.inr ⟨ha, hb⟩) hdue rfl rfl

variable (es : List (EdgeKey × EdgeState))

theorem Looked.edges_ne {m' : MergeState} (h : Looked cfg tgidCohort m e m') {key : EdgeKey}
    (hne : key ≠ e.1)
    : m'.edges.lookup key = m.edges.lookup key := by
  cases h with
  | unmapped _ hm => rw [hm]
  | reset _ hedges => rw [hedges, HashTable.lookup_insert_eq, if_neg hne]
  | counted _ _ hedges => rw [hedges, HashTable.lookup_insert_eq, if_neg hne]
  | planned _ _ _ _ _ hedges => rw [hedges, HashTable.lookup_insert_eq, if_neg hne]

theorem mem_mergeEdges {plan : MergePlan}
    (h : plan ∈ (es.foldl (mergeEdge cfg tgidCohort cohortSizes) m).out)
    : plan ∈ m.out ∨ ∃ e ∈ es, Over cfg tgidCohort e.1 e.2 ∧ Joins tgidCohort e.1 plan
        ∧ cfg.mergeConfirmTicks ≤ e.2.overTicks + 1 := by
  induction es generalizing m with
  | nil => exact .inl h
  | cons e es ih =>
    cases ih h with
    | inr hlater =>
      obtain ⟨e', he', hrest⟩ := hlater
      exact .inr ⟨e', List.mem_cons_of_mem _ he', hrest⟩
    | inl hout =>
      cases looked_mergeEdge cfg tgidCohort cohortSizes m e with
      | unmapped _ hm =>
        rw [hm] at hout
        exact .inl hout
      | reset heq _ =>
        rw [heq] at hout
        exact .inl hout
      | counted _ heq _ =>
        rw [heq] at hout
        exact .inl hout
      | planned plan' hover hjoins hdue heq _ =>
        rw [heq, List.mem_append, List.mem_singleton] at hout
        cases hout with
        | inl hout => exact .inl hout
        | inr hplan =>
          rw [hplan]
          exact .inr ⟨e, List.mem_cons_self, hover, hjoins, hdue⟩

-- How the confirmation of an edge goes on.
inductive Counted (cfg : WakeGraphCfg) (tgidCohort : HashTable Tgid CohortId) (key : EdgeKey)
    (st st' : EdgeState) : Prop where
  | reset (h : st'.overTicks = 0)
  | counted (hover : Over cfg tgidCohort key st) (h : st'.overTicks = st.overTicks + 1)
  | unmapped (hnone : tgidCohort.lookup key.1 = none ∨ tgidCohort.lookup key.2 = none) (h : st' = st)

theorem Looked.counted_self {m' : MergeState} (h : Looked cfg tgidCohort m e m') {st : EdgeState}
    (hm : m.edges.lookup e.1 = some e.2) (hst : m'.edges.lookup e.1 = some st)
    : Counted cfg tgidCohort e.1 e.2 st := by
  cases h with
  | unmapped hnone heq =>
    rw [heq, hm, Option.some.injEq] at hst
    exact .unmapped hnone hst.symm
  | reset _ hedges =>
    rw [hedges, HashTable.lookup_insert_eq, if_pos rfl, Option.some.injEq] at hst
    rw [← hst]
    exact .reset rfl
  | counted hover _ hedges =>
    rw [hedges, HashTable.lookup_insert_eq, if_pos rfl, Option.some.injEq] at hst
    rw [← hst]
    exact .counted hover rfl
  | planned _ _ _ _ _ hedges =>
    rw [hedges, HashTable.lookup_insert_eq, if_pos rfl, Option.some.injEq] at hst
    rw [← hst]
    exact .reset rfl

-- Every edge is looked at once.
theorem counted_mergeEdges (hnodup : (es.map (·.1)).Nodup)
    (hm : ∀ e ∈ es, m.edges.lookup e.1 = some e.2) {key : EdgeKey} {st : EdgeState}
    (h : (es.foldl (mergeEdge cfg tgidCohort cohortSizes) m).edges.lookup key = some st)
    : (key ∉ es.map (·.1) ∧ m.edges.lookup key = some st)
      ∨ ∃ old, (key, old) ∈ es ∧ Counted cfg tgidCohort key old st := by
  induction es generalizing m with
  | nil => exact .inl ⟨List.not_mem_nil, h⟩
  | cons e es ih =>
    rw [List.map_cons, List.nodup_cons] at hnodup
    have hlooked := looked_mergeEdge cfg tgidCohort cohortSizes m e
    have hm' : ∀ e' ∈ es,
        (mergeEdge cfg tgidCohort cohortSizes m e).edges.lookup e'.1 = some e'.2 := by
      intro e' he'
      rw [hlooked.edges_ne]
      . exact hm e' (List.mem_cons_of_mem _ he')
      . intro heq
        apply hnodup.1
        rw [← heq]
        exact List.mem_map_of_mem he'
    cases ih hnodup.2 hm' h with
    | inr hlater =>
      obtain ⟨old, hold, hcounted⟩ := hlater
      exact .inr ⟨old, List.mem_cons_of_mem _ hold, hcounted⟩
    | inl hfirst =>
      by_cases hkey : key = e.1
      . right
        rw [hkey] at hfirst ⊢
        exact ⟨e.2, List.mem_cons_self, hlooked.counted_self (hm e List.mem_cons_self) hfirst.2⟩
      . left
        rw [List.map_cons, List.mem_cons, not_or]
        rw [hlooked.edges_ne hkey] at hfirst
        exact ⟨⟨hkey, hfirst.1⟩, hfirst.2⟩

variable {o : IterOrder} {w : WakeGraph}

theorem nodup_order_items (o : IterOrder) (w : WakeGraph)
    : ((o.order w.edges.items).map (·.1)).Nodup := by
  rw [((o.perm w.edges.items).map (·.1)).nodup_iff]
  exact HashTable.nodup_items w.edges

theorem counted_merges {key : EdgeKey} {st : EdgeState}
    (h : (w.merges o tgidCohort cohortSizes).2.edges.lookup key = some st)
    : ∃ old, w.edges.lookup key = some old ∧ Counted w.cfg tgidCohort key old st := by
  have hitems : ∀ e ∈ o.order w.edges.items, w.edges.lookup e.1 = some e.2 := by
    intro e he
    rw [IterOrder.mem_order] at he
    exact HashTable.mem_items.mp he
  unfold merges at h
  cases counted_mergeEdges _ (nodup_order_items o w) hitems h with
  | inr hcounted =>
    obtain ⟨old, hold, hcounted⟩ := hcounted
    exact ⟨old, hitems _ hold, hcounted⟩
  | inl hnone =>
    have hmem : (key, st) ∈ o.order w.edges.items := by
      rw [IterOrder.mem_order]
      exact HashTable.mem_items.mpr hnone.2
    exact absurd (List.mem_map_of_mem hmem) hnone.1

theorem planned_merges {plan : MergePlan} (h : plan ∈ (w.merges o tgidCohort cohortSizes).1)
    : ∃ key st, w.edges.lookup key = some st ∧ Over w.cfg tgidCohort key st
        ∧ Joins tgidCohort key plan ∧ w.cfg.mergeConfirmTicks ≤ st.overTicks + 1 := by
  unfold merges at h
  cases mem_mergeEdges _ h with
  | inl hnil => exact absurd hnil List.not_mem_nil
  | inr hplanned =>
    obtain ⟨e, he, hrest⟩ := hplanned
    rw [IterOrder.mem_order] at he
    exact ⟨e.1, e.2, HashTable.mem_items.mp he, hrest⟩

end Merges

section Burst

structure Tick where
  deltas : List (Tgid × Tgid × UInt64)
  dtS : ℚ
  sampleMult : UInt64
  order : IterOrder
  tgidCohort : HashTable Tgid CohortId
  cohortSizes : HashTable CohortId UInt64

namespace Tick

-- The graph that `merges` is called on.
def observed (w : WakeGraph) (t : Tick) : WakeGraph := w.observe t.deltas t.dtS t.sampleMult

def plans (w : WakeGraph) (t : Tick) : List MergePlan :=
  ((t.observed w).merges t.order t.tgidCohort t.cohortSizes).1

def next (w : WakeGraph) (t : Tick) : WakeGraph :=
  ((t.observed w).merges t.order t.tgidCohort t.cohortSizes).2

def OverAt (key : EdgeKey) (w : WakeGraph) (t : Tick) : Prop :=
  ∃ st, (t.observed w).edges.lookup key = some st ∧ Over w.cfg t.tgidCohort key st

-- At the tick, and at those right before it that are needed to confirm a merge, the traffic of one edge
-- between the two cohorts has asked for it.
def Confirmed (w : WakeGraph) (past : List Tick) (t : Tick) : Prop :=
  ∀ plan ∈ plans (past.foldl next w) t, ∃ key, Joins t.tgidCohort key plan
    ∧ Streak.Lasted next (OverAt key) w (past ++ [t]) (max 1 w.cfg.mergeConfirmTicks.toNat)

-- No edge with a confirmation under way has lost the cohort of one of its ends.
def Mapped (w : WakeGraph) (t : Tick) : Prop :=
  ∀ key st, (t.observed w).edges.lookup key = some st → st.overTicks ≠ 0
    → key.1 ∈ t.tgidCohort ∧ key.2 ∈ t.tgidCohort

variable {w : WakeGraph} {past : List Tick} {t : Tick} {key : EdgeKey} {st : EdgeState}

theorem cfg_next (w : WakeGraph) (t : Tick) : (next w t).cfg = w.cfg :=
  cfg_observe w t.deltas t.dtS t.sampleMult

theorem cfg_run (w : WakeGraph) (past : List Tick) : (past.foldl next w).cfg = w.cfg := by
  induction past generalizing w with
  | nil => rfl
  | cons t past ih => rw [List.foldl_cons, ih, cfg_next]

-- The count of an edge is no more than the number of ticks it has asked for a merge in a row.
def Tracked (w : WakeGraph) (past : List Tick) : Prop :=
  ∀ key st, (past.foldl next w).edges.lookup key = some st
    → Streak.Lasted next (OverAt key) w past st.overTicks.toNat

theorem Tracked.observed (h : Tracked w past)
    (hst : (t.observed (past.foldl next w)).edges.lookup key = some st)
    : Streak.Lasted next (OverAt key) w past st.overTicks.toNat := by
  cases overTicks_observe hst with
  | inl hold =>
    obtain ⟨old, hold, heq⟩ := hold
    rw [heq]
    exact h key old hold
  | inr hzero =>
    rw [hzero]
    exact Streak.lasted_zero

theorem Tracked.over (h : Tracked w past)
    (hst : (t.observed (past.foldl next w)).edges.lookup key = some st)
    (hover : Over (past.foldl next w).cfg t.tgidCohort key st)
    : Streak.Lasted next (OverAt key) w (past ++ [t]) (st.overTicks.toNat + 1) := by
  apply (h.observed hst).snoc
  exact ⟨st, hst, hover⟩

theorem toNat_succ_le (n : UInt32) : (n + 1).toNat ≤ n.toNat + 1 := by
  rw [UInt32.toNat_add]
  exact Nat.mod_le _ _

theorem Tracked.next (h : Tracked w past) (hmapped : Mapped (past.foldl next w) t)
    : Tracked w (past ++ [t]) := by
  intro key st hst
  rw [List.foldl_append] at hst
  obtain ⟨old, hold, hcounted⟩ := counted_merges hst
  cases hcounted with
  | reset hzero =>
    rw [hzero]
    exact Streak.lasted_zero
  | counted hover heq =>
    have hcfg : (t.observed (past.foldl Tick.next w)).cfg = (past.foldl Tick.next w).cfg :=
      cfg_observe _ _ _ _
    rw [hcfg] at hover
    rw [heq]
    exact (h.over hold hover).of_le (toNat_succ_le _)
  | unmapped hnone heq =>
    -- Nothing has been counted yet, or the ends are mapped after all.
    have hzero : st.overTicks = 0 := by
      by_contra hne
      rw [heq] at hne
      obtain ⟨ha, hb⟩ := hmapped key old hold hne
      cases hnone with
      | inl hnone => exact AList.lookup_eq_none.mp hnone ha
      | inr hnone => exact AList.lookup_eq_none.mp hnone hb
    rw [hzero]
    exact Streak.lasted_zero

theorem tracked_of_mapped (cfg : WakeGraphCfg) (past : List Tick)
    (h : Streak.Throughout next Mapped { cfg := cfg } past)
    : Tracked { cfg := cfg } past := by
  induction past using List.reverseRecOn with
  | nil =>
    intro key st hst
    contradiction
  | append_singleton past t ih =>
    rw [Streak.throughout_append] at h
    exact (ih h.1).next h.2.1

theorem confirmed_of_tracked (h : Tracked w past) : Confirmed w past t := by
  intro plan hplan
  obtain ⟨key, st, hst, hover, hjoins, hdue⟩ := planned_merges hplan
  have hcfg : (t.observed (past.foldl Tick.next w)).cfg = (past.foldl Tick.next w).cfg :=
    cfg_observe _ _ _ _
  rw [hcfg] at hover hdue
  refine ⟨key, hjoins, (h.over hst hover).of_le ?_⟩
  rw [cfg_run] at hdue
  have hle := toNat_succ_le st.overTicks
  have hdue : w.cfg.mergeConfirmTicks.toNat ≤ (st.overTicks + 1).toNat := hdue
  omega

theorem bursts_do_not_merge (cfg : WakeGraphCfg) (ticks : List Tick)
    (h : Streak.Throughout next Mapped { cfg := cfg } ticks)
    : ∀ past t later, ticks = past ++ t :: later → Confirmed { cfg := cfg } past t := by
  intro past t later hticks
  rw [hticks, Streak.throughout_append] at h
  exact confirmed_of_tracked (tracked_of_mapped cfg past h.1)

theorem mapped_of_all
    (h : (t.observed w).edges.items.all
      (fun e => decide (e.1.1 ∈ t.tgidCohort ∧ e.1.2 ∈ t.tgidCohort)) = true)
    : Mapped w t := by
  rw [List.all_eq_true] at h
  intro key st hst _
  exact of_decide_eq_true (h (key, st) (HashTable.mem_items.mpr hst))

-- A tick of 200 ms in which thread group 10 wakes 20 eight hundred times.
def busy : Tick :=
  { deltas := [(10, 20, 100)], dtS := 1 / 5, sampleMult := 8, order := .id
    tgidCohort := .ofList [(10, 1), (20, 2)], cohortSizes := ∅ }

-- Nothing happens, and thread group 20 has no cohort.
def gap : Tick := { busy with deltas := [], tgidCohort := .ofList [(10, 1)] }

theorem third_busy_tick_merges
    : plans ([busy, busy].foldl next {}) busy = [⟨1, 2⟩] ∧ Confirmed {} [busy, busy] busy := by
  refine ⟨by decide +kernel, ?_⟩
  apply bursts_do_not_merge {} [busy, busy, busy] _ [busy, busy] busy [] rfl
  refine ⟨?_, ?_, ?_, trivial⟩
  . exact mapped_of_all (by decide +kernel)
  . exact mapped_of_all (by decide +kernel)
  . exact mapped_of_all (by decide +kernel)

-- The count from before the gap stands, and two more ticks complete it.
theorem merge_across_gap_not_confirmed : ¬ Confirmed {} [busy, gap, busy] busy := by
  intro h
  have hplans : ⟨1, 2⟩ ∈ plans ([busy, gap, busy].foldl next {}) busy := by decide +kernel
  obtain ⟨key, _, hlasted⟩ := h _ hplans
  have hspan : Streak.Lasted next (OverAt key) {} ([busy] ++ gap :: [busy, busy]) 3 := hlasted
  obtain ⟨st, _, hover⟩ := hspan.of_recent (by decide)
  obtain ⟨ca, cb, ha, hb, hne⟩ := hover.mapped
  have hone : ∀ tgid c, gap.tgidCohort.lookup tgid = some c → c = 1 := by
    intro tgid c hc
    have hmem := HashTable.mem_of_lookup_ofList hc
    rw [List.mem_singleton, Prod.mk.injEq] at hmem
    exact hmem.2
  apply hne
  rw [hone _ ca ha, hone _ cb hb]

end Tick

end Burst

section Thrash

variable {m x : ℚ} {n : UInt32} {w : WakeGraph} {r : Round}

-- No plan takes apart two members whose traffic would merge their cohorts.
def Round.KeepsStrong (m : ℚ) (r : Round) : Prop :=
  ∀ plan ∈ r.plans, ∀ x ∈ plan.offTgids, ∀ y, r.Member plan.cohort y → y ∉ plan.offTgids
    → ∀ st, r.graph.edges.lookup (ekey x y) = some st → ¬ (m ≤ st.rate ∧ m ≤ st.inst)

-- Only the threshold for merges can be set.
def configured (m : ℚ) : WakeGraph := { cfg := { mergeWakesPerSec := m } }

theorem cfg_opNext (w : WakeGraph) (op : Op) : (op.next w).cfg = w.cfg := by
  cases op with
  | observe deltas dtS sampleMult => exact cfg_observe w deltas dtS sampleMult
  | merges order tgidCohort cohortSizes => rfl
  | splits order cohortTgids => rfl

theorem cfg_rounds (ops : List Op) (h : r ∈ rounds w ops) : r.graph.cfg = w.cfg := by
  induction ops generalizing w with
  | nil => contradiction
  | cons op ops ih =>
    rw [rounds, List.mem_append] at h
    cases h with
    | inr h => rw [ih h, cfg_opNext]
    | inl h =>
      cases op with
      | observe deltas dtS sampleMult => contradiction
      | merges order tgidCohort cohortSizes => contradiction
      | splits order cohortTgids =>
        rw [Option.mem_toList, Op.round?, Option.some.injEq] at h
        rw [← h]

theorem liveEdge_ekey {x y : Tgid} {st : EdgeState} (h : w.edges.lookup (ekey x y) = some st)
    (hrate : w.cfg.splitMinWakesPerSec ≤ st.rate)
    : w.LiveEdge x y ∨ w.LiveEdge y x := by
  unfold ekey at h
  by_cases hlt : x < y
  . rw [if_pos hlt] at h
    exact .inl ⟨st, h, hrate⟩
  . rw [if_neg hlt] at h
    exact .inr ⟨st, h, hrate⟩

-- Such traffic is alive, so the two are in one component.
theorem keepsStrong_of_le (h : r.graph.cfg.splitMinWakesPerSec ≤ m) : r.KeepsStrong m := by
  rintro plan hplan x hx y ⟨members, hmembers, hy⟩ hout st hst ⟨hrate, _⟩
  obtain ⟨_, members', x₀, hlookup, _, _, hoff⟩ := mem_splits hplan
  rw [hmembers, Option.some.injEq] at hlookup
  subst hlookup
  rw [hoff, mem_component] at hx hout
  apply hout
  refine hx.trans ⟨hx.right_mem, .single ⟨hx.right_mem, hy, ?_⟩⟩
  exact liveEdge_ekey hst (le_trans h hrate)

-- Thread groups 10 and 20 wake one another at a rate that is not enough to hold them together.
structure Weak (m x : ℚ) (n : UInt32) (w : WakeGraph) : Prop where
  cfg : w.cfg = (configured m).cfg
  edge : ∃ st, w.edges.lookup (10, 20) = some st ∧ st.rate = x
  only : ∀ key st, w.edges.lookup key = some st → key = (10, 20)
  streak : (w.splitStreak.lookup 1).getD 0 = n

theorem lookup_freshCounts_one (count : UInt64) (key : EdgeKey)
    : (freshCounts [(10, 20, count)] 1).lookup key = if key = (10, 20) then some count else none := by
  have hkey : ekey 10 20 = (10, 20) := by decide
  unfold freshCounts
  rw [List.foldl_cons, List.foldl_nil, HashTable.lookup_upsert, hkey]
  simp

theorem weak_liveEdges (h : Weak m x n w) (hx : x < 10) : liveEdges .id w = [] := by
  rw [List.eq_nil_iff_forall_not_mem]
  rintro ⟨a, b⟩ hlive
  obtain ⟨st, hst, hrate⟩ := mem_liveEdges.mp hlive
  obtain ⟨st', hst', hx'⟩ := h.edge
  rw [h.only _ _ hst, hst', Option.some.injEq] at hst
  rw [← hst, hx', h.cfg] at hrate
  exact absurd hrate (not_le.mpr hx)

theorem components_congr {o : IterOrder} {w' : WakeGraph} (h : liveEdges o w = liveEdges o w')
    (members : Members)
    : components o w members = components o w' members := by
  unfold components splitForest splitFuel
  rw [h]

theorem noise_le (hx : 1 ≤ x) : x ≥ (configured m).cfg.splitMinWakesPerSec / 10 := by
  have hnoise : (configured m).cfg.splitMinWakesPerSec / 10 = 1 := by
    show (10 : ℚ) / 10 = 1
    norm_num
  rw [hnoise]
  exact hx

-- With ten wakeups in `10 / x - 1` seconds the rate starts at `x`.
theorem weak_start (m : ℚ) (hx : 1 ≤ x) (hx' : x < 10)
    : Weak m x 0 ((configured m).observe [(10, 20, 10)] (10 / x - 1) 1) := by
  have hpos : 0 < x := by linarith
  have hdt : 0 < 10 / x - 1 := by
    have hone : 1 < 10 / x := by
      rw [lt_div_iff₀ hpos]
      linarith
    linarith
  have hedge : ((configured m).observe [(10, 20, 10)] (10 / x - 1) 1).edges.lookup (10, 20)
      = some { rate := x, inst := 10 / (10 / x - 1) } := by
    have hfresh : freshEdge ((10 / x - 1) / (10 / x - 1 + 1)) (10 / x - 1) 10
        = { rate := x, inst := 10 / (10 / x - 1) } := by
      have hrate : (10 / x - 1) / (10 / x - 1 + 1) * (10 / (10 / x - 1)) = x := by
        have hne : 10 - x ≠ 0 := by linarith
        field_simp
        linarith
      have hten : ((10 : UInt64).toNat : ℚ) = 10 := rfl
      unfold freshEdge
      rw [hten, hrate]
    rw [lookup_observe _ _ hdt, lookup_freshCounts_one, if_pos rfl, Option.map_some]
    show Option.filter _ (some (freshEdge ((10 / x - 1) / (10 / x - 1 + 1)) (10 / x - 1) 10)) = _
    rw [hfresh]
    exact Option.filter_some_pos (decide_eq_true (noise_le hx))
  refine ⟨cfg_observe _ _ _ _, ⟨_, hedge, rfl⟩, ?_, ?_⟩
  . intro key st hst
    by_contra hne
    rw [lookup_observe _ _ hdt, lookup_freshCounts_one, if_neg hne] at hst
    contradiction
  . rw [observe, if_neg (not_le.mpr hdt)]
    rfl

theorem weak_observe (h : Weak m x n w) (hx : 1 ≤ x)
    : Weak m x n (w.observe [(10, 20, 1)] (1 / x) 1)
        ∧ ∃ st, (w.observe [(10, 20, 1)] (1 / x) 1).edges.lookup (10, 20) = some st ∧ st.inst = x := by
  have hpos : 0 < x := by linarith
  have hdt : 0 < 1 / x := one_div_pos.mpr hpos
  obtain ⟨old, hold, hrate⟩ := h.edge
  have hedge : (w.observe [(10, 20, 1)] (1 / x) 1).edges.lookup (10, 20)
      = some { old with rate := x, inst := x } := by
    have hdecay : ∀ alpha, decayEdge alpha (1 / x) (freshCounts [(10, 20, 1)] 1) (10, 20) old
        = { old with rate := x, inst := x } := by
      intro alpha
      have hinst : ((1 : UInt64).toNat : ℚ) / (1 / x) = x := by
        rw [one_div, div_inv_eq_mul]
        exact one_mul x
      unfold decayEdge
      rw [lookup_freshCounts_one, if_pos rfl, Option.getD_some, hinst, hrate]
      dsimp only
      rw [sub_self, mul_zero, add_zero]
    rw [lookup_observe w _ hdt, hold, Option.map_some, hdecay, Option.some_or, h.cfg]
    exact Option.filter_some_pos (decide_eq_true (noise_le hx))
  refine ⟨⟨?_, ⟨_, hedge, rfl⟩, ?_, ?_⟩, _, hedge, rfl⟩
  . rw [cfg_observe, h.cfg]
  . intro key st hst
    by_contra hne
    rw [lookup_observe w _ hdt, lookup_freshCounts_one, if_neg hne] at hst
    have hnone : w.edges.lookup key = none := by
      cases hlookup : w.edges.lookup key with
      | none => rfl
      | some st => exact absurd (h.only key st hlookup) hne
    rw [hnone] at hst
    contradiction
  . rw [← h.streak, observe, if_neg (not_le.mpr hdt)]

-- Two members that nothing connects.
theorem splitCohort_strangers (hlive : liveEdges .id w = [])
    (hcfg : w.cfg = (configured m).cfg) (acc : List SplitPlan × HashTable CohortId UInt32)
    : splitCohort .id w acc (1, [(10, 2), (20, 2)])
        =
      if (acc.2.lookup 1).getD 0 + 1 < 25 then
        (acc.1, acc.2.insert 1 ((acc.2.lookup 1).getD 0 + 1))
      else
        (acc.1 ++ [⟨1, [10]⟩], acc.2.erase 1) := by
  have hcomps : components .id w [(10, 2), (20, 2)] = components .id {} [(10, 2), (20, 2)] :=
    components_congr hlive _
  have htwo : (components .id {} [(10, 2), (20, 2)]).entries.length = 2 := by decide +kernel
  have hoff : splitOff {} 1 (IterOrder.id.order (components .id {} [(10, 2), (20, 2)]).values)
      = [⟨1, [10]⟩] := by
    decide +kernel
  unfold splitCohort
  dsimp only
  rw [hcomps, htwo, hcfg, if_neg (by decide), if_neg (by decide), ← hoff]
  rfl

theorem splits_strangers (w : WakeGraph)
    : splits .id w strangers
        =
      let r := splitCohort .id w ([], w.splitStreak.retain fun cohort _ => cohort ∈ strangers)
        (1, [(10, 2), (20, 2)])
      (r.1, { w with splitStreak := r.2 }) := by
  have hitems : IterOrder.id.order strangers.items = [(1, [(10, 2), (20, 2)])] := by decide +kernel
  unfold splits
  rw [hitems]
  simp only [List.foldl_cons, List.foldl_nil]

theorem lookup_kept (w : WakeGraph)
    : (w.splitStreak.retain fun cohort _ => cohort ∈ strangers).lookup 1 = w.splitStreak.lookup 1 := by
  rw [HashTable.lookup_retain]
  cases w.splitStreak.lookup 1 with
  | none => rfl
  | some n => rfl

theorem cfg_splits (o : IterOrder) (w : WakeGraph) (cohortTgids : HashTable CohortId Members)
    : (splits o w cohortTgids).2.cfg = w.cfg := rfl

theorem edges_splits (o : IterOrder) (w : WakeGraph) (cohortTgids : HashTable CohortId Members)
    : (splits o w cohortTgids).2.edges = w.edges := rfl

theorem weak_splits (h : Weak m x n w) (hx : x < 10) (hn : n + 1 < 25)
    : Weak m x (n + 1) (splits .id w strangers).2 := by
  have hstreak : (splits .id w strangers).2.splitStreak.lookup 1 = some (n + 1) := by
    rw [splits_strangers, splitCohort_strangers (weak_liveEdges h hx) h.cfg]
    dsimp only
    rw [lookup_kept, h.streak, if_pos hn, HashTable.lookup_insert_eq, if_pos rfl]
  constructor
  . rw [cfg_splits]
    exact h.cfg
  . rw [edges_splits]
    exact h.edge
  . rw [edges_splits]
    exact h.only
  . rw [hstreak]
    rfl

theorem weak_plans (h : Weak m x 24 w) (hx : x < 10) : (splits .id w strangers).1 = [⟨1, [10]⟩] := by
  rw [splits_strangers, splitCohort_strangers (weak_liveEdges h hx) h.cfg]
  dsimp only
  rw [lookup_kept, h.streak, if_neg (by decide)]
  rfl

def weakTick (x : ℚ) : List Op := [.observe [(10, 20, 1)] (1 / x) 1, .splits .id strangers]

theorem weak_run (k : Nat) (hk : k ≤ 24) (h : Weak m x 0 w) (hx : 1 ≤ x) (hx' : x < 10)
    : Weak m x (UInt32.ofNat k) ((List.replicate k (weakTick x)).flatten.foldl Op.next w) := by
  induction k with
  | zero => exact h
  | succ k ih =>
    rw [List.replicate_succ', List.flatten_append, List.foldl_append]
    have hsucc : UInt32.ofNat (k + 1) = UInt32.ofNat k + 1 := UInt32.ofNat_add _ _
    have hlt : UInt32.ofNat k + 1 < 25 := by
      rw [← hsucc, UInt32.lt_iff_toNat_lt, UInt32.toNat_ofNat']
      have : (25 : UInt32).toNat = 25 := rfl
      omega
    rw [hsucc]
    exact weak_splits (weak_observe (ih (by omega)) hx).1 hx' hlt

def weakRun (x : ℚ) : List Op :=
  .observe [(10, 20, 10)] (10 / x - 1) 1 :: (List.replicate 24 (weakTick x)).flatten

-- The call of `splits` in the 25th tick.
def weakRound (m x : ℚ) : Round :=
  ⟨((weakRun x).foldl Op.next (configured m)).observe [(10, 20, 1)] (1 / x) 1, .id, strangers⟩

theorem rounds_weakRun (m x : ℚ)
    : rounds (configured m) (weakRun x ++ weakTick x)
        =
      rounds (configured m) (weakRun x) ++ [weakRound m x] := by
  rw [rounds_append]
  rfl

theorem weak_weakRound (m : ℚ) (hx : 1 ≤ x) (hx' : x < 10)
    : Weak m x 24 (weakRound m x).graph
        ∧ ∃ st, (weakRound m x).graph.edges.lookup (10, 20) = some st ∧ st.inst = x := by
  have hrun := weak_run 24 (le_refl _) (weak_start m hx hx') hx hx'
  unfold weakRound weakRun
  rw [List.foldl_cons]
  exact weak_observe hrun hx

-- Traffic at the rate `max m 1` keeps asking for a merge, and does not keep the two together.
theorem exists_not_keepsStrong (hm : m < 10)
    : ∃ ops, ¬ Rounds (fun _ r => r.KeepsStrong m) (configured m) ops := by
  have hx : 1 ≤ max m 1 := le_max_right _ _
  have hx' : max m 1 < 10 := max_lt hm (by norm_num)
  generalize hxm : max m 1 = x at hx hx'
  have hle : m ≤ x := by
    rw [← hxm]
    exact le_max_left _ _
  obtain ⟨hweak, st, hst, hinst⟩ := weak_weakRound m hx hx'
  obtain ⟨st', hst', hrate⟩ := hweak.edge
  rw [hst, Option.some.injEq] at hst'
  have hplan : ⟨1, [10]⟩ ∈ (weakRound m x).plans := by
    show _ ∈ (splits .id (weakRound m x).graph strangers).1
    rw [weak_plans hweak hx']
    exact List.mem_singleton_self _
  have hmembers : strangers.lookup 1 = some [(10, 2), (20, 2)] := by decide +kernel
  have hmember : (weakRound m x).Member 1 20 := ⟨_, hmembers, by decide⟩
  refine ⟨weakRun x ++ weakTick x, ?_⟩
  intro h
  apply h _ _ [] (rounds_weakRun m x) _ hplan 10 List.mem_cons_self 20 hmember (by decide) st hst
  rw [hinst, hst', hrate]
  exact ⟨hle, hle⟩

theorem keepsStrong_iff (m : ℚ)
    : (∀ ops, Rounds (fun _ r => r.KeepsStrong m) (configured m) ops) ↔ 10 ≤ m := by
  constructor
  . intro h
    by_contra hm
    obtain ⟨ops, hops⟩ := exists_not_keepsStrong (not_le.mp hm)
    exact hops (h ops)
  . intro hm ops hist r later hrounds
    apply keepsStrong_of_le
    have hmem : r ∈ rounds (configured m) ops := by
      rw [hrounds]
      exact List.mem_append_right _ List.mem_cons_self
    rw [cfg_rounds ops hmem]
    exact hm

-- Ticks of 200 ms, with one wakeup of eight sampled.
def sampledTick : List Op := [.observe [(10, 20, 1)] (1 / 5) 8, .splits .id strangers]

def quietTick : List Op := [.observe [] (1 / 5) 8, .splits .id strangers]

-- A sample in every eighth tick.
def sparseRun : List Op :=
  (List.replicate 3 (sampledTick ++ (List.replicate 7 quietTick).flatten)).flatten

def sparseRound : Round :=
  ⟨(sparseRun.foldl Op.next (configured 5)).observe [(10, 20, 1)] (1 / 5) 8, .id, strangers⟩

theorem sparse_wakes_split
    : ¬ Rounds (fun _ r => r.KeepsStrong 5) (configured 5) (sparseRun ++ sampledTick) := by
  intro h
  have hrounds : rounds (configured 5) (sparseRun ++ sampledTick)
      = rounds (configured 5) sparseRun ++ [sparseRound] := by
    rw [rounds_append]
    rfl
  have hplan : ⟨1, [10]⟩ ∈ sparseRound.plans := by decide +kernel
  have hmembers : strangers.lookup 1 = some [(10, 2), (20, 2)] := by decide +kernel
  have hmember : sparseRound.Member 1 20 := ⟨_, hmembers, by decide⟩
  have hstrong : (sparseRound.graph.edges.lookup (10, 20)).any
      (fun st => decide (5 ≤ st.rate ∧ 5 ≤ st.inst)) = true := by
    decide +kernel
  rw [Option.any_eq_true] at hstrong
  obtain ⟨st, hst, hrates⟩ := hstrong
  exact h _ _ [] hrounds _ hplan 10 List.mem_cons_self 20 hmember (by decide) st hst
    (of_decide_eq_true hrates)

end Thrash

end WakeGraph
