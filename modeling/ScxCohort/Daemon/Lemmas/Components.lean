import Mathlib.Algebra.Order.BigOperators.Group.List
import Mathlib.Algebra.Order.Ring.Nat
import ScxCohort.Daemon.Lemmas.WakeGraph
import ScxCohort.Daemon.Scheduler

/-!
This module contains what `splits` returns. The classes of its union-find are the connected components
of the live edges, and all of them but a largest one, and but the small ones, are split off.
-/

namespace WakeGraph

variable {o : IterOrder} {w : WakeGraph} {members : Members}

section Checked

def addToComponent? (fuel : Nat) (acc : Forest Tgid × HashTable Tgid Members) (m : Tgid × UInt64)
    : Option (Forest Tgid × HashTable Tgid Members) := do
  let (root, parent) ← acc.1.find? fuel m.1
  return (parent, acc.2.upsert root fun comp => comp.getD [] ++ [m])

-- `components`, where a key that is not found or a recursion that does not end gives `none`.
def components? (o : IterOrder) (w : WakeGraph) (members : Members)
    : Option (HashTable Tgid Members) := do
  let parent ← (Forest.singletons (members.map (·.1))).unions? (splitFuel o w) (liveEdges o w)
  let (_, comps) ← members.foldlM (addToComponent? (splitFuel o w)) (parent, ∅)
  return comps

theorem foldlM_addToComponent? (rest : Members) {parent : Forest Tgid} {comps : HashTable Tgid Members}
    (hrest : ∀ m ∈ rest, m.1 ∈ tgids members) (hcomp : (splitForest o w members).Compresses parent)
    : rest.foldlM (addToComponent? (splitFuel o w)) (parent, comps)
        =
      some (rest.foldl (addToComponent (splitFuel o w)) (parent, comps)) := by
  induction rest generalizing parent comps with
  | nil => rfl
  | cons m rest ih =>
    obtain ⟨hshallow, hkeys⟩ := splitForest_spec o w members
    have hm := hrest m List.mem_cons_self
    obtain ⟨n, hn, r, hr⟩ := hcomp.shallow hshallow m.1 ((hcomp.keys m.1).mpr ((hkeys m.1).mpr hm))
    have hfuel : n < splitFuel o w := by
      unfold splitFuel
      omega
    have hstep : addToComponent? (splitFuel o w) (parent, comps) m
        = some (addToComponent (splitFuel o w) (parent, comps) m) := by
      unfold addToComponent? addToComponent
      rw [Forest.find?_eq_some hr hfuel]
      rfl
    rw [List.foldlM_cons, List.foldl_cons, hstep]
    apply ih
    . intro m' hm'
      exact hrest m' (List.mem_cons_of_mem _ hm')
    . exact (find_eq_rootOf hcomp hm).2

theorem components?_eq_some (o : IterOrder) (w : WakeGraph) (members : Members)
    : components? o w members = some (components o w members) := by
  have hfuel : 0 + (liveEdges o w).length < splitFuel o w := by
    unfold splitFuel
    omega
  have hforest := Forest.unions?_eq_some (liveEdges o w)
    (Forest.shallow_singletons (members.map (·.1))) hfuel
  have hmembers : ∀ m ∈ members, m.1 ∈ tgids members := fun m hm => List.mem_map_of_mem hm
  have hcomps : members.foldlM (addToComponent? (splitFuel o w)) (splitForest o w members, ∅)
      = some (members.foldl (addToComponent (splitFuel o w)) (splitForest o w members, ∅)) :=
    foldlM_addToComponent? members hmembers (.refl _)
  unfold components? components
  unfold splitForest at hcomps ⊢
  rw [hforest]
  simp only [Option.bind_eq_bind, Option.bind_some]
  rw [hcomps]
  rfl

end Checked

section Classes

theorem component_mem_values {x : Tgid} (hx : x ∈ tgids members)
    : w.component members x ∈ (components o w members).values := by
  rw [HashTable.mem_values]
  refine ⟨rootOf o w members x, ?_⟩
  rw [lookup_components, block_rootOf hx]

theorem sameClass_iff {x y : Tgid}
    : (∃ comp ∈ (components o w members).values, x ∈ tgids comp ∧ y ∈ tgids comp)
        ↔
      w.Joined members x y := by
  constructor
  . intro h
    obtain ⟨comp, hcomp, hx, hy⟩ := h
    obtain ⟨z, _, rfl⟩ := exists_of_mem_values hcomp
    rw [mem_component] at hx hy
    exact hx.symm.trans hy
  . intro h
    refine ⟨w.component members x, component_mem_values h.1, ?_, ?_⟩
    . exact mem_component.mpr ⟨h.1, .refl⟩
    . exact mem_component.mpr h

theorem not_live_of_not_joined {x y : Tgid} (hx : x ∈ tgids members) (hy : y ∈ tgids members)
    (h : ¬ w.Joined members x y)
    : ¬ w.LiveEdge x y ∧ ¬ w.LiveEdge y x := by
  rw [← not_or]
  intro hlive
  exact h ⟨hx, .single ⟨hx, hy, hlive⟩⟩

-- The sum of the code is the number of tasks as long as a 64-bit number holds it.
theorem toNat_tasksOf (comp : Members) (h : (comp.map (·.2.toNat)).sum < 2 ^ 64)
    : (tasksOf comp).toNat = (comp.map (·.2.toNat)).sum := by
  have hfold : ∀ (l : Members) (n : UInt64), n.toNat + (l.map (·.2.toNat)).sum < 2 ^ 64
      → (l.foldl (fun n m => n + m.2) n).toNat = n.toNat + (l.map (·.2.toNat)).sum := by
    intro l
    induction l with
    | nil =>
      intro n _
      rfl
    | cons m l ih =>
      intro n hlt
      rw [List.map_cons, List.sum_cons] at hlt ⊢
      have hadd : (n + m.2).toNat = n.toNat + m.2.toNat := by
        rw [UInt64.toNat_add]
        apply Nat.mod_eq_of_lt
        omega
      rw [List.foldl_cons, ih, hadd]
      . omega
      . rw [hadd]
        omega
  unfold tasksOf
  rw [hfold comp 0 (by rw [UInt64.toNat_zero]; omega), UInt64.toNat_zero, Nat.zero_add]

end Classes

section Plans

-- The first of the ranked components stays, the others are looked at one by one.
theorem ranked_cons (h : members ≠ [])
    : ∃ z ∈ tgids members, ∃ rest, ranked o w members = w.component members z :: rest := by
  obtain ⟨m, hm⟩ := List.exists_mem_of_ne_nil _ h
  have hfirst : w.component members m.1 ∈ ranked o w members :=
    ranked_perm.mem_iff.mpr (component_mem_values (List.mem_map_of_mem hm))
  cases hranked : ranked o w members with
  | nil =>
    rw [hranked] at hfirst
    contradiction
  | cons first rest =>
    have hmem : first ∈ ranked o w members := by
      rw [hranked]
      exact List.mem_cons_self
    obtain ⟨z, hz, rfl⟩ := exists_of_mem_values (ranked_perm.mem_iff.mp hmem)
    exact ⟨z, hz, rest, rfl⟩

theorem footprint_le_of_ranked {z : Tgid} {rest : List Members}
    (h : ranked o w members = w.component members z :: rest) {y : Tgid} (hy : y ∈ tgids members)
    : w.footprint members y ≤ w.footprint members z := by
  have hmem : w.component members y ∈ ranked o w members :=
    ranked_perm.mem_iff.mpr (component_mem_values hy)
  have hsort : (ranked o w members).Pairwise _ := ranked_pairwise
  rw [h] at hmem hsort
  unfold footprint
  cases List.mem_cons.mp hmem with
  | inl heq =>
    rw [heq]
    exact UInt64.le_refl _
  | inr hrest => exact (List.pairwise_cons.mp hsort).1 _ hrest

theorem not_joined_of_drop {z : Tgid} {rest : List Members}
    (h : ranked o w members = w.component members z :: rest) {x : Tgid}
    (hx : w.component members x ∈ (ranked o w members).drop 1)
    : ¬ w.Joined members z x := by
  intro hjoined
  have hnodup : (ranked o w members).Nodup := nodup_ranked
  rw [h, List.drop_succ_cons, List.drop_zero] at hx
  rw [h, List.nodup_cons] at hnodup
  apply hnodup.1
  rw [component_congr hjoined]
  exact hx

theorem mem_drop_of_not_joined {z : Tgid} {rest : List Members}
    (h : ranked o w members = w.component members z :: rest) {x : Tgid} (hx : x ∈ tgids members)
    (hapart : ¬ w.Joined members z x)
    : w.component members x ∈ (ranked o w members).drop 1 := by
  have hmem : w.component members x ∈ ranked o w members :=
    ranked_perm.mem_iff.mpr (component_mem_values hx)
  rw [h] at hmem ⊢
  rw [List.drop_succ_cons, List.drop_zero]
  cases List.mem_cons.mp hmem with
  | inl heq =>
    exfalso
    apply hapart
    rw [← mem_component, ← heq, mem_component]
    exact ⟨hx, .refl⟩
  | inr hrest => exact hrest

theorem two_components {x z : Tgid} (hx : x ∈ tgids members) (hz : z ∈ tgids members)
    (hapart : ¬ w.Joined members z x)
    : 2 ≤ members.length ∧ 2 ≤ (components o w members).entries.length := by
  have hne : z ≠ x := by
    intro heq
    apply hapart
    rw [heq]
    exact ⟨hx, .refl⟩
  have hcomps : w.component members z ≠ w.component members x := by
    intro heq
    apply hapart
    rw [← mem_component, heq, mem_component]
    exact ⟨hx, .refl⟩
  have htwo : ∀ {α : Type} {l : List α} {a b : α}, a ∈ l → b ∈ l → a ≠ b → 2 ≤ l.length := by
    intro α l a b ha hb hab
    have hsub : [a, b].Subperm l := by
      apply List.Nodup.subperm
      . simp [hab]
      . intro c hc
        simp only [List.mem_cons, List.not_mem_nil, or_false] at hc
        cases hc with
        | inl heq => rw [heq]; exact ha
        | inr heq => rw [heq]; exact hb
    exact hsub.length_le
  constructor
  . have hlength : (tgids members).length = members.length := List.length_map _
    rw [← hlength]
    exact htwo hz hx hne
  . have hlength : (components o w members).values.length
        = (components o w members).entries.length := by
      unfold HashTable.values
      rw [List.length_map]
    rw [← hlength]
    exact htwo (component_mem_values hz) (component_mem_values hx) hcomps

theorem pairwise_splitOff (c : CohortId)
    : (splitOff w.cfg c (o.order (components o w members).values)).Pairwise
        fun a b => ∀ x ∈ a.offTgids, x ∉ b.offTgids := by
  have hnodup : ((ranked o w members).drop 1).Nodup := nodup_ranked.sublist (List.drop_sublist _ _)
  have hmem : ∀ comp ∈ (ranked o w members).drop 1, ∃ x ∈ tgids members, comp = w.component members x :=
    fun comp h => exists_of_mem_values (ranked_perm.mem_iff.mp (List.mem_of_mem_drop h))
  unfold splitOff
  rw [List.pairwise_map]
  apply List.Pairwise.filter
  apply hnodup.imp_of_mem
  intro a b ha hb hab x hxa hxb
  obtain ⟨y, hy, rfl⟩ := hmem a ha
  obtain ⟨z, hz, rfl⟩ := hmem b hb
  apply hab
  have hyx : w.Joined members y x := mem_component.mp hxa
  have hzx : w.Joined members z x := mem_component.mp hxb
  rw [component_congr hyx, component_congr hzx]

end Plans

section Splits

variable {T : HashTable CohortId Members}

def Within (T : HashTable CohortId Members) : Prop :=
  ∀ c members, T.lookup c = some members → (tgids members).Nodup

def Across (T : HashTable CohortId Members) : Prop :=
  ∀ c c' members members', T.lookup c = some members → T.lookup c' = some members' → c ≠ c'
    → ∀ x ∈ tgids members, x ∉ tgids members'

-- No thread group is listed twice, neither in one cohort nor in two.
structure Distinct (T : HashTable CohortId Members) : Prop where
  within : Within T
  across : Across T

-- `footprint` is the sum the code computes, and `counts` says when it is the number of tasks. Only lists
-- of two cohorts need `Across`.
structure SplitsExactly (o : IterOrder) (w : WakeGraph) (T : HashTable CohortId Members) : Prop where
  runs : ∀ c members, T.lookup c = some members
    → components? o w members = some (components o w members)
  classes : ∀ c members, T.lookup c = some members
    → ∀ x y, (∃ comp ∈ (components o w members).values, x ∈ tgids comp ∧ y ∈ tgids comp)
      ↔ w.Joined members x y
  whole : ∀ plan ∈ (splits o w T).1, ∃ members x, T.lookup plan.cohort = some members
    ∧ x ∈ tgids members ∧ plan.offTgids = tgids (w.component members x) ∧ plan.offTgids.Nodup
    ∧ w.cfg.splitMinTasks ≤ w.footprint members x
  disjoint : (splits o w T).1.Pairwise fun a b =>
    a.cohort = b.cohort ∨ Across T → ∀ x ∈ a.offTgids, x ∉ b.offTgids
  closed : ∀ plan ∈ (splits o w T).1, ∀ members, T.lookup plan.cohort = some members
    → ∀ x ∈ plan.offTgids, ∀ y ∈ tgids members, y ∉ plan.offTgids
      → ¬ w.LiveEdge x y ∧ ¬ w.LiveEdge y x
  largest : ∀ c members, T.lookup c = some members → members ≠ [] → ∃ z ∈ tgids members,
    (∀ y ∈ tgids members, w.footprint members y ≤ w.footprint members z)
    ∧ (∀ plan ∈ (splits o w T).1, plan.cohort = c → ∀ y, w.Joined members z y → y ∉ plan.offTgids)
    ∧ (Due w (w.splitStreak.lookup c) → ∀ x ∈ tgids members, ¬ w.Joined members z x
      → w.cfg.splitMinTasks ≤ w.footprint members x
      → ⟨c, tgids (w.component members x)⟩ ∈ (splits o w T).1)
  counts : ∀ c members, T.lookup c = some members → (members.map (·.2.toNat)).sum < 2 ^ 64
    → ∀ x, (w.footprint members x).toNat = ((w.component members x).map (·.2.toNat)).sum

theorem disjoint_splits
    : (splits o w T).1.Pairwise fun a b =>
        a.cohort = b.cohort ∨ Across T → ∀ x ∈ a.offTgids, x ∉ b.offTgids := by
  have hmembers : ∀ c : CohortId × Members, ∀ plan ∈ splitsOf o w (w.splitStreak.lookup c.1) c,
      plan.cohort = c.1 ∧ ∀ x ∈ plan.offTgids, x ∈ tgids c.2 := by
    intro c plan hplan
    unfold splitsOf at hplan
    split at hplan
    . obtain ⟨y, _, _, heq⟩ := mem_splitOff hplan
      rw [heq]
      exact ⟨rfl, fun x hx => (mem_component.mp hx).right_mem⟩
    . contradiction
  rw [splits_eq, List.pairwise_flatMap]
  constructor
  . intro c _
    unfold splitsOf
    split
    . apply (pairwise_splitOff c.1).imp
      intro a b hab _
      exact hab
    . exact .nil
  . have hnodup : (o.order T.items).Pairwise fun c c' => c.1 ≠ c'.1 := by
      have hkeys := ((o.perm T.items).map (·.1)).nodup_iff.mpr (HashTable.nodup_items T)
      unfold List.Nodup at hkeys
      rw [List.pairwise_map] at hkeys
      exact hkeys
    apply hnodup.imp_of_mem
    intro c c' hc hc' hne a ha b hb hcohorts x hxa hxb
    obtain ⟨hac, ha⟩ := hmembers c a ha
    obtain ⟨hbc, hb⟩ := hmembers c' b hb
    cases hcohorts with
    | inl heq =>
      rw [hac, hbc] at heq
      exact hne heq
    | inr hacross =>
      rw [IterOrder.mem_order, HashTable.mem_items] at hc hc'
      exact hacross c.1 c'.1 c.2 c'.2 hc hc' hne x (ha x hxa) (hb x hxb)

theorem closed_of_mem {plan : SplitPlan} (h : plan ∈ (splits o w T).1)
    (hlookup : T.lookup plan.cohort = some members) {x y : Tgid} (hx : x ∈ plan.offTgids)
    (hy : y ∈ tgids members) (hout : y ∉ plan.offTgids)
    : ¬ w.LiveEdge x y ∧ ¬ w.LiveEdge y x := by
  obtain ⟨_, members', x₀, hlookup', _, _, hoff⟩ := mem_splits h
  rw [hlookup, Option.some.injEq] at hlookup'
  subst hlookup'
  rw [hoff, mem_component] at hx hout
  apply not_live_of_not_joined hx.right_mem hy
  intro hjoined
  exact hout (hx.trans hjoined)

theorem largest_kept {c : CohortId} (hlookup : T.lookup c = some members) (hne : members ≠ [])
    : ∃ z ∈ tgids members, (∀ y ∈ tgids members, w.footprint members y ≤ w.footprint members z)
      ∧ (∀ plan ∈ (splits o w T).1, plan.cohort = c → ∀ y, w.Joined members z y → y ∉ plan.offTgids)
      ∧ (Due w (w.splitStreak.lookup c) → ∀ x ∈ tgids members, ¬ w.Joined members z x
        → w.cfg.splitMinTasks ≤ w.footprint members x
        → ⟨c, tgids (w.component members x)⟩ ∈ (splits o w T).1) := by
  obtain ⟨z, hz, rest, hranked⟩ := ranked_cons (o := o) (w := w) hne
  refine ⟨z, hz, fun y hy => footprint_le_of_ranked hranked hy, ?_, ?_⟩
  . intro plan hplan hcohort y hzy hy
    obtain ⟨members', hlookup', hplan⟩ := mem_splits_iff.mp hplan
    rw [hcohort, hlookup, Option.some.injEq] at hlookup'
    subst hlookup'
    unfold splitsOf at hplan
    split at hplan
    . obtain ⟨comp, hdrop, _, heq⟩ := mem_splitOff_iff.mp hplan
      obtain ⟨x, _, rfl⟩ := exists_of_mem_values (ranked_perm.mem_iff.mp (List.mem_of_mem_drop hdrop))
      rw [heq] at hy
      apply not_joined_of_drop hranked hdrop
      exact hzy.trans (mem_component.mp hy).symm
    . contradiction
  . intro hdue x hx hapart hfloor
    rw [mem_splits_iff]
    refine ⟨members, hlookup, ?_⟩
    have htwo := two_components (o := o) hx hz hapart
    unfold splitsOf
    rw [if_pos ⟨htwo.1, htwo.2, hdue⟩, mem_splitOff_iff]
    exact ⟨_, mem_drop_of_not_joined hranked hx hapart, hfloor, rfl⟩

theorem splits_exactly (o : IterOrder) (w : WakeGraph) (T : HashTable CohortId Members)
    (h : Within T)
    : SplitsExactly o w T := by
  constructor
  . intro c members _
    exact components?_eq_some o w members
  . intro c members _ x y
    exact sameClass_iff
  . intro plan hplan
    obtain ⟨_, members, x, hlookup, hx, hmovable, hoff⟩ := mem_splits hplan
    refine ⟨members, x, hlookup, hx, hoff, ?_, hmovable.floor⟩
    rw [hoff]
    unfold tgids component
    exact (h _ _ hlookup).sublist (List.filter_sublist.map _)
  . exact disjoint_splits
  . intro plan hplan members hlookup x hx y hy hout
    exact closed_of_mem hplan hlookup hx hy hout
  . intro c members hlookup hne
    exact largest_kept hlookup hne
  . intro c members _ hfits x
    apply toNat_tasksOf
    apply Nat.lt_of_le_of_lt _ hfits
    apply List.Sublist.sum_le_sum
    . exact List.filter_sublist.map _
    . intro n _
      exact Nat.zero_le n

end Splits

section Strangers

theorem within_threeMembers : Within threeMembers := by
  intro c members h
  have hmem := HashTable.mem_of_lookup_ofList h
  simp only [List.mem_singleton, Prod.mk.injEq] at hmem
  rw [hmem.2]
  decide

theorem threeMembers_split_exactly
    : (splits .id { cfg := { splitConfirmTicks := 1 } } threeMembers).1 = [⟨1, [10]⟩]
      ∧ SplitsExactly .id { cfg := { splitConfirmTicks := 1 } } threeMembers :=
  ⟨by decide +kernel, splits_exactly _ _ _ within_threeMembers⟩

end Strangers

end WakeGraph

namespace Daemon

open WakeGraph (Members tgids)

section Groups

variable (sizes : HashTable CohortId UInt64) (tasks : List TaskSnapshot)

def groupTgid (groups : HashTable CohortId Members) (e : Tgid × CohortId) : HashTable CohortId Members :=
  if e.2 ∈ sizes then
    groups.upsert e.2 fun members => members.getD [] ++ [(e.1, ((tgidTasks tasks).lookup e.1).getD 0)]
  else
    groups

theorem tgids_groups (l : List (Tgid × CohortId)) (c : CohortId)
    : tgids (((l.foldl (groupTgid sizes tasks) ∅).lookup c).getD [])
        =
      (l.filter fun e => e.2 = c ∧ c ∈ sizes).map (·.1) := by
  induction l using List.reverseRecOn with
  | nil => rfl
  | append_singleton l e ih =>
    rw [List.foldl_append, List.foldl_cons, List.foldl_nil, List.filter_append, List.map_append, ← ih]
    unfold groupTgid
    by_cases hmem : e.2 ∈ sizes
    . rw [if_pos hmem, HashTable.lookup_upsert]
      by_cases heq : c = e.2
      . rw [heq]
        simp [tgids, hmem]
      . simp [heq, Ne.symm heq]
    . rw [if_neg hmem]
      have hnone : ([e].filter fun e => e.2 = c ∧ c ∈ sizes) = [] := by
        rw [List.filter_cons_of_neg, List.filter_nil]
        intro h
        rw [decide_eq_true_eq] at h
        apply hmem
        rw [h.1]
        exact h.2
      rw [hnone, List.map_nil, List.append_nil]

theorem tgids_cohortTgids {o : IterOrder} {S : HashTable Tgid CohortId} {c : CohortId}
    {members : Members}
    (h : (cohortTgids o sizes tasks S).lookup c = some members)
    : tgids members = ((o.order S.items).filter fun e => e.2 = c ∧ c ∈ sizes).map (·.1) := by
  have htgids := tgids_groups sizes tasks (o.order S.items) c
  have hfold : (o.order S.items).foldl (groupTgid sizes tasks) ∅ = cohortTgids o sizes tasks S := rfl
  rw [hfold, h, Option.getD_some] at htgids
  exact htgids

theorem lookup_of_cohortTgids {o : IterOrder} {S : HashTable Tgid CohortId} {c : CohortId}
    {members : Members} (h : (cohortTgids o sizes tasks S).lookup c = some members) {x : Tgid}
    (hx : x ∈ tgids members)
    : S.lookup x = some c := by
  rw [tgids_cohortTgids sizes tasks h, List.mem_map] at hx
  obtain ⟨e, he, rfl⟩ := hx
  rw [List.mem_filter, IterOrder.mem_order, decide_eq_true_eq] at he
  rw [← he.2.1]
  exact HashTable.mem_items.mp he.1

-- What `discover_relationships` hands over.
theorem distinct_cohortTgids (o : IterOrder) (S : HashTable Tgid CohortId)
    : WakeGraph.Distinct (cohortTgids o sizes tasks S) := by
  constructor
  . intro c members h
    rw [tgids_cohortTgids sizes tasks h]
    have hnodup := ((o.perm S.items).map (·.1)).nodup_iff.mpr (HashTable.nodup_items S)
    exact hnodup.sublist (List.filter_sublist.map _)
  . intro c c' members members' h h' hne x hx hx'
    have hlookup := lookup_of_cohortTgids sizes tasks h hx
    rw [lookup_of_cohortTgids sizes tasks h' hx', Option.some.injEq] at hlookup
    exact hne hlookup.symm

end Groups

end Daemon
