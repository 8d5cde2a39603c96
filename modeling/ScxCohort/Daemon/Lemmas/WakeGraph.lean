import Mathlib.Data.List.Sort
import ScxCohort.Daemon.WakeGraph

/-!
This module contains what a split separates: the components that `splits` finds are the connected
components of the live edges, and how they have to relate to the graphs of the calls before for a split
to be more than a momentary lull.
-/

namespace WakeGraph

section Components

def tgids (members : Members) : List Tgid := members.map (·.1)

def LiveEdge (w : WakeGraph) (a b : Tgid) : Prop :=
  ∃ st, w.edges.lookup (a, b) = some st ∧ w.cfg.splitMinWakesPerSec ≤ st.rate

def Link (w : WakeGraph) (members : Members) (a b : Tgid) : Prop :=
  a ∈ tgids members ∧ b ∈ tgids members ∧ (w.LiveEdge a b ∨ w.LiveEdge b a)

-- A path of live edges between members.
def Joined (w : WakeGraph) (members : Members) (x y : Tgid) : Prop :=
  x ∈ tgids members ∧ Relation.ReflTransGen (w.Link members) x y

variable {o : IterOrder} {w : WakeGraph} {members : Members}

theorem mem_liveEdges {a b : Tgid} : (a, b) ∈ liveEdges o w ↔ w.LiveEdge a b := by
  unfold liveEdges LiveEdge
  simp only [List.mem_map, List.mem_filter, IterOrder.mem_order, decide_eq_true_eq, Rat.not_lt,
    Prod.exists, exists_and_right, exists_eq_right]
  constructor
  . intro h
    obtain ⟨st, hmem, hrate⟩ := h
    exact ⟨st, HashTable.mem_items.mp hmem, hrate⟩
  . intro h
    obtain ⟨st, hlookup, hrate⟩ := h
    exact ⟨st, HashTable.mem_items.mpr hlookup, hrate⟩

theorem linked_iff {a b : Tgid}
    : Forest.Linked (.singletons (tgids members)) (liveEdges o w) a b ↔ w.Link members a b := by
  unfold Forest.Linked Link
  rw [Forest.mem_singletons, Forest.mem_singletons, mem_liveEdges, mem_liveEdges]

theorem sameRoot_splitForest {x y : Tgid}
    : (splitForest o w members).SameRoot x y ↔ w.Joined members x y := by
  unfold splitForest Joined
  rw [Forest.sameRoot_unions_singletons]
  . have heq : Forest.Linked (.singletons (members.map (·.1))) (liveEdges o w) = w.Link members := by
      funext a b
      apply propext
      exact linked_iff
    rw [heq]
    rfl
  . unfold splitFuel
    omega

theorem splitForest_spec (o : IterOrder) (w : WakeGraph) (members : Members)
    : (splitForest o w members).Shallow (liveEdges o w).length
      ∧ ∀ x, x ∈ splitForest o w members ↔ x ∈ tgids members := by
  have hfuel : 0 + (liveEdges o w).length < splitFuel o w := by
    unfold splitFuel
    omega
  obtain ⟨hshallow, hkeys, _⟩ :=
    Forest.unions_spec (liveEdges o w) (Forest.shallow_singletons (tgids members)) hfuel
  rw [Nat.zero_add] at hshallow
  refine ⟨hshallow, ?_⟩
  intro x
  exact (hkeys x).trans Forest.mem_singletons

def rootOf (o : IterOrder) (w : WakeGraph) (members : Members) (x : Tgid) : Tgid :=
  ((splitForest o w members).find (splitFuel o w) x).1

theorem find_eq_rootOf {parent : Forest Tgid} {x : Tgid}
    (hcomp : (splitForest o w members).Compresses parent) (hx : x ∈ tgids members)
    : (parent.find (splitFuel o w) x).1 = rootOf o w members x
      ∧ (splitForest o w members).Compresses (parent.find (splitFuel o w) x).2 := by
  obtain ⟨hshallow, hkeys⟩ := splitForest_spec o w members
  obtain ⟨n, hn, r, hr⟩ := hshallow x ((hkeys x).mpr hx)
  have hfuel : n < splitFuel o w := by
    unfold splitFuel
    omega
  obtain ⟨m, hm, hr'⟩ := hcomp.reaches n x r hr
  have h₁ := Forest.find_spec hr hfuel
  have h₂ := Forest.find_spec hr' (Nat.lt_of_le_of_lt hm hfuel)
  unfold rootOf
  rw [h₁.1, h₂.1]
  exact ⟨rfl, hcomp.trans h₂.2⟩

theorem rootOf_eq_iff {x y : Tgid} (hx : x ∈ tgids members) (hy : y ∈ tgids members)
    : rootOf o w members x = rootOf o w members y ↔ w.Joined members x y := by
  rw [← sameRoot_splitForest (o := o)]
  obtain ⟨hshallow, hkeys⟩ := splitForest_spec o w members
  have hreach : ∀ z ∈ tgids members, ∃ n,
      Forest.Reaches (splitForest o w members) n z (rootOf o w members z) := by
    intro z hz
    obtain ⟨n, hn, r, hr⟩ := hshallow z ((hkeys z).mpr hz)
    have hfuel : n < splitFuel o w := by
      unfold splitFuel
      omega
    have h := (Forest.find_spec hr hfuel).1
    refine ⟨n, ?_⟩
    unfold rootOf
    rw [h]
    exact hr
  obtain ⟨m, hm⟩ := hreach x hx
  obtain ⟨n, hn⟩ := hreach y hy
  constructor
  . intro heq
    rw [← heq] at hn
    exact ⟨_, m, n, hm, hn⟩
  . intro h
    obtain ⟨r, m', n', hx', hy'⟩ := h
    rw [(hm.unique hx').2, (hn.unique hy').2]

-- The members with one root, if there are any.
def block (o : IterOrder) (w : WakeGraph) (members done : Members) (root : Tgid) : Option Members :=
  let comp := done.filter fun m => rootOf o w members m.1 = root
  if comp.isEmpty then none else some comp

theorem block_append (done : Members) (m : Tgid × UInt64) (root : Tgid)
    : block o w members (done ++ [m]) root
        =
      if root = rootOf o w members m.1 then
        some ((block o w members done root).getD [] ++ [m])
      else
        block o w members done root := by
  unfold block
  rw [List.filter_append]
  split
  . next heq =>
    have hsingle : [m].filter (fun m => rootOf o w members m.1 = root) = [m] := by
      simp [heq]
    rw [hsingle]
    cases hdone : done.filter fun m => rootOf o w members m.1 = root with
    | nil => simp
    | cons a l => simp
  . next hne =>
    have hsingle : [m].filter (fun m => rootOf o w members m.1 = root) = [] := by
      simp [Ne.symm hne]
    rw [hsingle, List.append_nil]

theorem lookup_foldl_addToComponent (done rest : Members) {parent : Forest Tgid}
    {comps : HashTable Tgid Members} (hrest : ∀ m ∈ rest, m.1 ∈ tgids members)
    (hcomp : (splitForest o w members).Compresses parent)
    (hcomps : ∀ root, comps.lookup root = block o w members done root) (root : Tgid)
    : (rest.foldl (addToComponent (splitFuel o w)) (parent, comps)).2.lookup root
        =
      block o w members (done ++ rest) root := by
  induction rest generalizing done parent comps with
  | nil => rw [List.append_nil]; exact hcomps root
  | cons m rest ih =>
    have hm := hrest m List.mem_cons_self
    obtain ⟨hroot, hcomp'⟩ := find_eq_rootOf hcomp hm
    have hstep : addToComponent (splitFuel o w) (parent, comps) m
        = ((parent.find (splitFuel o w) m.1).2,
          comps.upsert (parent.find (splitFuel o w) m.1).1 fun comp => comp.getD [] ++ [m]) := rfl
    rw [List.foldl_cons, List.append_cons, hstep]
    apply ih
    . intro m' hm'
      exact hrest m' (List.mem_cons_of_mem _ hm')
    . exact hcomp'
    . intro root'
      rw [HashTable.lookup_upsert, block_append, hroot, hcomps, hcomps]
      split
      . next heq => rw [heq]
      . rfl

theorem lookup_components (root : Tgid)
    : (components o w members).lookup root = block o w members members root := by
  unfold components
  rw [lookup_foldl_addToComponent [] members]
  . rw [List.nil_append]
  . intro m hm
    exact List.mem_map_of_mem hm
  . apply Forest.Compresses.refl
  . intro root'
    rw [AList.lookup_empty]
    rfl

theorem Joined.right_mem {x y : Tgid} (h : w.Joined members x y) : y ∈ tgids members := by
  obtain ⟨hx, hpath⟩ := h
  cases hpath with
  | refl => exact hx
  | tail _ hlink => exact hlink.2.1

theorem Joined.symm {x y : Tgid} (h : w.Joined members x y) : w.Joined members y x := by
  rw [← rootOf_eq_iff (o := .id) h.right_mem h.1]
  exact ((rootOf_eq_iff h.1 h.right_mem).mpr h).symm

theorem Joined.trans {x y z : Tgid} (h : w.Joined members x y) (h' : w.Joined members y z)
    : w.Joined members x z :=
  ⟨h.1, h.2.trans h'.2⟩

theorem Joined.mono {w' : WakeGraph} {x y : Tgid} (h : w.Joined members x y)
    (hlive : ∀ a b, w.LiveEdge a b → w'.LiveEdge a b)
    : w'.Joined members x y := by
  have hlinks : w.Link members ≤ w'.Link members := by
    intro a b hlink
    exact ⟨hlink.1, hlink.2.1, hlink.2.2.imp (hlive a b) (hlive b a)⟩
  exact ⟨h.1, Relation.ReflTransGen.mono hlinks x y h.2⟩

end Components

section Footprint

open Classical in
noncomputable def component (w : WakeGraph) (members : Members) (x : Tgid) : Members :=
  members.filter fun m => w.Joined members x m.1

noncomputable def footprint (w : WakeGraph) (members : Members) (x : Tgid) : UInt64 :=
  tasksOf (w.component members x)

-- What a split that is due may take off: at least the floor, and not the one largest component.
structure Movable (w : WakeGraph) (members : Members) (x : Tgid) : Prop where
  floor : w.cfg.splitMinTasks ≤ w.footprint members x
  larger : ∃ z ∈ tgids members,
    ¬ w.Joined members x z ∧ w.footprint members x ≤ w.footprint members z

variable {o : IterOrder} {w : WakeGraph} {members : Members}

theorem mem_component {x y : Tgid} : y ∈ tgids (w.component members x) ↔ w.Joined members x y := by
  unfold tgids component
  simp only [List.mem_map, List.mem_filter, decide_eq_true_eq]
  constructor
  . intro h
    obtain ⟨m, ⟨_, hm⟩, heq⟩ := h
    rw [← heq]
    exact hm
  . intro h
    obtain ⟨m, hm, heq⟩ := List.mem_map.mp h.right_mem
    refine ⟨m, ⟨hm, ?_⟩, heq⟩
    rw [heq]
    exact h

theorem component_congr {x y : Tgid} (h : w.Joined members x y)
    : w.component members x = w.component members y := by
  unfold component
  apply List.filter_congr
  intro m _
  rw [decide_eq_decide]
  exact ⟨h.symm.trans, h.trans⟩

theorem block_rootOf {x : Tgid} (hx : x ∈ tgids members)
    : block o w members members (rootOf o w members x) = some (w.component members x) := by
  have heq : (members.filter fun m => rootOf o w members m.1 = rootOf o w members x)
      = w.component members x := by
    unfold component
    apply List.filter_congr
    intro m hm
    rw [decide_eq_decide, eq_comm]
    exact rootOf_eq_iff hx (List.mem_map_of_mem hm)
  have hne : (w.component members x).isEmpty = false := by
    have hself : x ∈ tgids (w.component members x) := mem_component.mpr ⟨hx, .refl⟩
    cases hc : w.component members x with
    | nil => simp [hc, tgids] at hself
    | cons a l => rfl
  unfold block
  rw [heq]
  dsimp only
  rw [hne, if_neg Bool.false_ne_true]

theorem exists_of_block {root : Tgid} {comp : Members}
    (h : block o w members members root = some comp)
    : ∃ x ∈ tgids members, rootOf o w members x = root ∧ comp = w.component members x := by
  have hcomp := h
  unfold block at hcomp
  simp only [Option.ite_none_left_eq_some, Option.some.injEq, List.isEmpty_iff] at hcomp
  obtain ⟨m, hm⟩ := List.exists_mem_of_ne_nil _ hcomp.1
  rw [List.mem_filter, decide_eq_true_eq] at hm
  have hx : m.1 ∈ tgids members := List.mem_map_of_mem hm.1
  refine ⟨m.1, hx, hm.2, ?_⟩
  have hblock := block_rootOf (o := o) (w := w) hx
  rw [hm.2, h, Option.some.injEq] at hblock
  exact hblock

theorem exists_of_mem_values {comp : Members} (h : comp ∈ (components o w members).values)
    : ∃ x ∈ tgids members, comp = w.component members x := by
  rw [HashTable.mem_values] at h
  obtain ⟨root, hroot⟩ := h
  rw [lookup_components] at hroot
  obtain ⟨x, hx, _, heq⟩ := exists_of_block hroot
  exact ⟨x, hx, heq⟩

theorem nodup_values : (components o w members).values.Nodup := by
  unfold HashTable.values
  apply List.Nodup.map_on
  . intro a ha b hb heq
    have ha' := AList.mem_lookup_iff.mpr ha
    have hb' := AList.mem_lookup_iff.mpr hb
    rw [Option.mem_def, lookup_components] at ha' hb'
    obtain ⟨x, hx, hrootx, hcompx⟩ := exists_of_block ha'
    obtain ⟨y, hy, hrooty, hcompy⟩ := exists_of_block hb'
    have hxy : w.Joined members x y := by
      rw [← mem_component, ← hcompx, heq, hcompy, mem_component]
      exact ⟨hy, .refl⟩
    have hkey : a.1 = b.1 := by
      rw [← hrootx, ← hrooty]
      exact (rootOf_eq_iff hx hy).mpr hxy
    exact Sigma.ext hkey (heq_of_eq heq)
  . exact List.NodupKeys.nodup (components o w members).nodupKeys

theorem exists_apart_of_components (h : 2 ≤ (components o w members).entries.length)
    : ∃ x ∈ tgids members, ∃ y ∈ tgids members, ¬ w.Joined members x y := by
  have hlen : 2 ≤ (components o w members).values.length := by
    unfold HashTable.values
    rw [List.length_map]
    exact h
  have hnodup : (components o w members).values.Nodup := nodup_values
  have hmem : ∀ comp ∈ (components o w members).values,
      ∃ x ∈ tgids members, comp = w.component members x := fun _ => exists_of_mem_values
  cases hvalues : (components o w members).values with
  | nil => simp [hvalues] at hlen
  | cons first rest =>
    cases rest with
    | nil => simp [hvalues] at hlen
    | cons second rest =>
      rw [hvalues] at hnodup hmem
      obtain ⟨x, hx, hfirst⟩ := hmem first List.mem_cons_self
      obtain ⟨y, hy, hsecond⟩ := hmem second (List.mem_cons_of_mem _ List.mem_cons_self)
      refine ⟨x, hx, y, hy, ?_⟩
      intro hxy
      rw [component_congr hxy, ← hsecond] at hfirst
      rw [hfirst] at hnodup
      exact (List.nodup_cons.mp hnodup).1 List.mem_cons_self

-- The components in the order they are gone through, the largest one first.
def ranked (o : IterOrder) (w : WakeGraph) (members : Members) : List Members :=
  (o.order (components o w members).values).insertionSort fun a b => tasksOf a ≥ tasksOf b

theorem ranked_perm : (ranked o w members).Perm (components o w members).values :=
  (List.perm_insertionSort _ _).trans (o.perm _)

theorem ranked_pairwise : (ranked o w members).Pairwise fun a b => tasksOf b ≤ tasksOf a := by
  have : Std.Total fun a b : Members => tasksOf a ≥ tasksOf b :=
    ⟨fun a b => UInt64.le_total (tasksOf b) (tasksOf a)⟩
  have : IsTrans Members fun a b => tasksOf a ≥ tasksOf b :=
    ⟨fun a b c hab hbc => UInt64.le_trans hbc hab⟩
  unfold ranked
  apply List.pairwise_insertionSort

theorem nodup_ranked : (ranked o w members).Nodup := ranked_perm.nodup_iff.mpr nodup_values

theorem mem_splitOff_iff {c : CohortId} {plan : SplitPlan}
    : plan ∈ splitOff w.cfg c (o.order (components o w members).values)
        ↔
      ∃ comp ∈ (ranked o w members).drop 1, w.cfg.splitMinTasks ≤ tasksOf comp
        ∧ plan = ⟨c, tgids comp⟩ := by
  unfold splitOff
  simp only [List.mem_map, List.mem_filter, decide_eq_true_eq, UInt64.not_lt]
  constructor
  . intro h
    obtain ⟨comp, hcomp, heq⟩ := h
    exact ⟨comp, hcomp.1, hcomp.2, heq.symm⟩
  . intro h
    obtain ⟨comp, hdrop, hfloor, heq⟩ := h
    exact ⟨comp, ⟨hdrop, hfloor⟩, heq.symm⟩

theorem mem_splitOff {c : CohortId} {plan : SplitPlan}
    (h : plan ∈ splitOff w.cfg c (o.order (components o w members).values))
    : ∃ x ∈ tgids members, Movable w members x ∧ plan = ⟨c, tgids (w.component members x)⟩ := by
  obtain ⟨comp, hdrop, hfloor, heq⟩ := mem_splitOff_iff.mp h
  have hperm : (ranked o w members).Perm _ := ranked_perm
  have hsort : (ranked o w members).Pairwise _ := ranked_pairwise
  have hnodup : (ranked o w members).Nodup := nodup_ranked
  cases hranked : ranked o w members with
  | nil =>
    rw [hranked] at hdrop
    contradiction
  | cons first rest =>
    rw [hranked] at hdrop hperm hsort hnodup
    rw [List.drop_succ_cons, List.drop_zero] at hdrop
    obtain ⟨x, hx, hcompx⟩ :=
      exists_of_mem_values (hperm.mem_iff.mp (List.mem_cons_of_mem first hdrop))
    obtain ⟨z, hz, hcompz⟩ := exists_of_mem_values (hperm.mem_iff.mp List.mem_cons_self)
    subst hcompx
    refine ⟨x, hx, ⟨hfloor, z, hz, ?_, ?_⟩, heq⟩
    . intro hxz
      rw [component_congr hxz, ← hcompz] at hdrop
      exact (List.nodup_cons.mp hnodup).1 hdrop
    . have hle := (List.pairwise_cons.mp hsort).1 _ hdrop
      rw [hcompz] at hle
      exact hle

end Footprint

section Streak

variable {o : IterOrder} {w : WakeGraph}

def Due (w : WakeGraph) (streak : Option UInt32) : Prop :=
  w.cfg.splitConfirmTicks ≤ streak.getD 0 + 1

instance (w : WakeGraph) (streak : Option UInt32) : Decidable (Due w streak) :=
  inferInstanceAs (Decidable (_ ≤ _))

-- What one cohort contributes, given its streak before the call.
def splitsOf (o : IterOrder) (w : WakeGraph) (streak : Option UInt32) (c : CohortId × Members)
    : List SplitPlan :=
  if 2 ≤ c.2.length ∧ 2 ≤ (components o w c.2).entries.length ∧ Due w streak then
    splitOff w.cfg c.1 (o.order (components o w c.2).values)
  else
    []

theorem splitCohort_plans (acc : List SplitPlan × HashTable CohortId UInt32)
    (c : CohortId × Members)
    : (splitCohort o w acc c).1 = acc.1 ++ splitsOf o w (acc.2.lookup c.1) c := by
  unfold splitCohort splitsOf
  split
  . next hlt => rw [if_neg (fun h => absurd h.1 (Nat.not_le.mpr hlt)), List.append_nil]
  . next hlen =>
    dsimp only
    split
    . next hlt => rw [if_neg (fun h => absurd h.2.1 (Nat.not_le.mpr hlt)), List.append_nil]
    . next hcomps =>
      split
      . next hlt =>
        rw [if_neg, List.append_nil]
        intro h
        exact absurd h.2.2 (UInt32.not_le.mpr hlt)
      . next hdue =>
        rw [if_pos ⟨Nat.not_lt.mp hlen, Nat.not_lt.mp hcomps, UInt32.not_lt.mp hdue⟩]

theorem splitCohort_streak (acc : List SplitPlan × HashTable CohortId UInt32)
    (c : CohortId × Members) {c' : CohortId} (hne : c' ≠ c.1)
    : (splitCohort o w acc c).2.lookup c' = acc.2.lookup c' := by
  have herase : (acc.2.erase c.1).lookup c' = acc.2.lookup c' := by
    rw [HashTable.lookup_erase_eq, if_neg hne]
  unfold splitCohort
  split
  . exact herase
  . dsimp only
    split
    . exact herase
    . split
      . rw [HashTable.lookup_insert_eq, if_neg hne]
      . exact herase

-- The streak a cohort is left with: it grows only while the cohort is in parts and not yet due.
def streakAfter (o : IterOrder) (w : WakeGraph) (streak : Option UInt32) (members : Members)
    : Option UInt32 :=
  if 2 ≤ members.length ∧ 2 ≤ (components o w members).entries.length ∧ ¬ Due w streak then
    some (streak.getD 0 + 1)
  else
    none

theorem splitCohort_streak_self (acc : List SplitPlan × HashTable CohortId UInt32)
    (c : CohortId × Members)
    : (splitCohort o w acc c).2.lookup c.1 = streakAfter o w (acc.2.lookup c.1) c.2 := by
  have herase : (acc.2.erase c.1).lookup c.1 = none := by
    rw [HashTable.lookup_erase_eq, if_pos rfl]
  unfold splitCohort streakAfter
  split
  . next hlt => rw [if_neg (fun h => absurd h.1 (Nat.not_le.mpr hlt)), herase]
  . next hlen =>
    dsimp only
    split
    . next hlt => rw [if_neg (fun h => absurd h.2.1 (Nat.not_le.mpr hlt)), herase]
    . next hcomps =>
      split
      . next hlt =>
        rw [if_pos ⟨Nat.not_lt.mp hlen, Nat.not_lt.mp hcomps, UInt32.not_le.mpr hlt⟩,
          HashTable.lookup_insert_eq, if_pos rfl]
      . next hdue =>
        rw [if_neg (fun h => h.2.2 (UInt32.not_lt.mp hdue)), herase]

theorem foldl_splitCohort_streak (l : List (CohortId × Members)) (hnodup : (l.map (·.1)).Nodup)
    (acc : List SplitPlan × HashTable CohortId UInt32) {c : CohortId}
    : (c ∉ l.map (·.1) → (l.foldl (splitCohort o w) acc).2.lookup c = acc.2.lookup c)
      ∧ ∀ members, (c, members) ∈ l
        → (l.foldl (splitCohort o w) acc).2.lookup c = streakAfter o w (acc.2.lookup c) members := by
  induction l generalizing acc with
  | nil => simp
  | cons c' l ih =>
    rw [List.map_cons, List.nodup_cons] at hnodup
    obtain ⟨hkept, hown⟩ := ih hnodup.2 (splitCohort o w acc c')
    rw [List.foldl_cons, List.map_cons]
    constructor
    . intro hc
      rw [List.mem_cons, not_or] at hc
      rw [hkept hc.2, splitCohort_streak _ _ hc.1]
    . intro members hmem
      cases List.mem_cons.mp hmem with
      | inl heq =>
        subst heq
        rw [hkept hnodup.1]
        exact splitCohort_streak_self acc (c, members)
      | inr hlater =>
        have hne : c ≠ c'.1 := by
          intro heq
          apply hnodup.1
          rw [← heq]
          exact List.mem_map_of_mem hlater
        rw [hown members hlater, splitCohort_streak _ _ hne]

theorem foldl_splitCohort (l : List (CohortId × Members)) (hnodup : (l.map (·.1)).Nodup)
    (acc : List SplitPlan × HashTable CohortId UInt32)
    : (l.foldl (splitCohort o w) acc).1
        =
      acc.1 ++ l.flatMap fun c => splitsOf o w (acc.2.lookup c.1) c := by
  induction l generalizing acc with
  | nil => simp
  | cons c l ih =>
    rw [List.map_cons, List.nodup_cons] at hnodup
    have hlater : ∀ c' ∈ l, splitsOf o w ((splitCohort o w acc c).2.lookup c'.1) c'
        = splitsOf o w (acc.2.lookup c'.1) c' := by
      intro c' hc'
      rw [splitCohort_streak]
      intro heq
      apply hnodup.1
      rw [← heq]
      exact List.mem_map_of_mem hc'
    rw [List.foldl_cons, ih hnodup.2, splitCohort_plans, List.flatMap_cons, List.append_assoc,
      List.flatMap_congr hlater]

theorem splits_eq (o : IterOrder) (w : WakeGraph) (cohortTgids : HashTable CohortId Members)
    : (splits o w cohortTgids).1
        =
      (o.order cohortTgids.items).flatMap fun c => splitsOf o w (w.splitStreak.lookup c.1) c := by
  have hnodup : ((o.order cohortTgids.items).map (·.1)).Nodup := by
    rw [((o.perm cohortTgids.items).map (·.1)).nodup_iff]
    exact HashTable.nodup_items cohortTgids
  unfold splits
  dsimp only
  rw [foldl_splitCohort _ hnodup, List.nil_append]
  apply List.flatMap_congr
  intro c hc
  rw [IterOrder.mem_order, HashTable.mem_items] at hc
  have hmem : c.1 ∈ cohortTgids := AList.lookup_isSome.mp (by simp [hc])
  rw [HashTable.lookup_retain]
  cases w.splitStreak.lookup c.1 with
  | none => rfl
  | some n => simp [hmem, Option.filter_some]

theorem splits_streak (o : IterOrder) (w : WakeGraph) (cohortTgids : HashTable CohortId Members)
    (c : CohortId)
    : (splits o w cohortTgids).2.splitStreak.lookup c
        =
      (cohortTgids.lookup c).bind (streakAfter o w (w.splitStreak.lookup c)) := by
  have hnodup : ((o.order cohortTgids.items).map (·.1)).Nodup := by
    rw [((o.perm cohortTgids.items).map (·.1)).nodup_iff]
    exact HashTable.nodup_items cohortTgids
  obtain ⟨hkept, hown⟩ := foldl_splitCohort_streak (o := o) (w := w) _ hnodup
    ([], w.splitStreak.retain fun cohort _ => cohort ∈ cohortTgids) (c := c)
  have hitems : ∀ members, (c, members) ∈ o.order cohortTgids.items
      ↔ cohortTgids.lookup c = some members := by
    intro members
    rw [IterOrder.mem_order, HashTable.mem_items]
  unfold splits
  dsimp only
  cases hlookup : cohortTgids.lookup c with
  | none =>
    have hnot : c ∉ cohortTgids := by
      rw [← AList.lookup_isSome, hlookup]
      exact Bool.false_ne_true
    have habsent : c ∉ (o.order cohortTgids.items).map (·.1) := by
      intro hmem
      obtain ⟨entry, hentry, heq⟩ := List.mem_map.mp hmem
      have hfound := (hitems entry.2).mp (by rw [← heq]; exact hentry)
      rw [hlookup] at hfound
      contradiction
    rw [hkept habsent, HashTable.lookup_retain]
    cases w.splitStreak.lookup c with
    | none => rfl
    | some n => simp [hnot, Option.filter_some]
  | some members =>
    have hmem : c ∈ cohortTgids := AList.lookup_isSome.mp (by simp [hlookup])
    rw [hown members ((hitems members).mpr hlookup), HashTable.lookup_retain]
    cases w.splitStreak.lookup c with
    | none => rfl
    | some n => simp [hmem, Option.filter_some]

-- A plan comes from a cohort whose streak is due, and takes off one of its components.
theorem mem_splits_iff {cohortTgids : HashTable CohortId Members} {plan : SplitPlan}
    : plan ∈ (splits o w cohortTgids).1
        ↔
      ∃ members, cohortTgids.lookup plan.cohort = some members
        ∧ plan ∈ splitsOf o w (w.splitStreak.lookup plan.cohort) (plan.cohort, members) := by
  rw [splits_eq, List.mem_flatMap]
  constructor
  . intro h
    obtain ⟨c, hc, hplan⟩ := h
    rw [IterOrder.mem_order, HashTable.mem_items] at hc
    have hcohort : plan.cohort = c.1 := by
      unfold splitsOf splitOff at hplan
      split at hplan
      . rw [List.mem_map] at hplan
        obtain ⟨comp, _, heq⟩ := hplan
        rw [← heq]
      . contradiction
    rw [hcohort]
    exact ⟨c.2, hc, hplan⟩
  . intro h
    obtain ⟨members, hlookup, hplan⟩ := h
    refine ⟨(plan.cohort, members), ?_, hplan⟩
    rw [IterOrder.mem_order]
    exact HashTable.mem_items.mpr hlookup

theorem mem_splits {cohortTgids : HashTable CohortId Members} {plan : SplitPlan}
    (h : plan ∈ (splits o w cohortTgids).1)
    : Due w (w.splitStreak.lookup plan.cohort)
      ∧ ∃ members x, cohortTgids.lookup plan.cohort = some members ∧ x ∈ tgids members
        ∧ Movable w members x ∧ plan.offTgids = tgids (w.component members x) := by
  obtain ⟨members, hlookup, hplan⟩ := mem_splits_iff.mp h
  unfold splitsOf at hplan
  split at hplan
  . next hdue =>
    obtain ⟨x, hx, hmovable, heq⟩ := mem_splitOff hplan
    refine ⟨hdue.2.2, members, x, hlookup, hx, hmovable, ?_⟩
    rw [heq]
  . contradiction

end Streak

section Lull

inductive Op where
  | observe (deltas : List (Tgid × Tgid × UInt64)) (dtS : ℚ) (sampleMult : UInt64)
  | merges (order : IterOrder) (tgidCohort : HashTable Tgid CohortId)
      (cohortSizes : HashTable CohortId UInt64)
  | splits (order : IterOrder) (cohortTgids : HashTable CohortId Members)

-- A call of `splits`, with the graph it is made on.
structure Round where
  graph : WakeGraph
  order : IterOrder
  cohortTgids : HashTable CohortId Members

namespace Op

def next (w : WakeGraph) : Op → WakeGraph
  | .observe deltas dtS sampleMult => w.observe deltas dtS sampleMult
  | .merges order tgidCohort cohortSizes => (w.merges order tgidCohort cohortSizes).2
  | .splits order cohortTgids => (w.splits order cohortTgids).2

def round? (w : WakeGraph) : Op → Option Round
  | .splits order cohortTgids => some ⟨w, order, cohortTgids⟩
  | _ => none

end Op

-- The calls of `splits` in a run, the first one first.
def rounds : WakeGraph → List Op → List Round
  | _, [] => []
  | w, op :: ops => (op.round? w).toList ++ rounds (op.next w) ops

namespace Round

def plans (r : Round) : List SplitPlan := (splits r.order r.graph r.cohortTgids).1

def Member (r : Round) (c : CohortId) (x : Tgid) : Prop :=
  ∃ members, r.cohortTgids.lookup c = some members ∧ x ∈ tgids members

def Joined (r : Round) (c : CohortId) (x y : Tgid) : Prop :=
  ∃ members, r.cohortTgids.lookup c = some members ∧ r.graph.Joined members x y

-- The call counts a streak up: the cohort is in parts, and the split not yet due.
structure Waits (r : Round) (c : CohortId) : Prop where
  inParts : ∃ x y, r.Member c x ∧ r.Member c y ∧ ¬ r.Joined c x y
  notDue : ¬ Due r.graph (r.graph.splitStreak.lookup c)

-- The last `splitConfirmTicks` calls, up to `r`.
def window (hist : List Round) (r : Round) : List Round :=
  (r :: hist.reverse).take r.graph.cfg.splitConfirmTicks.toNat

def StaysApart (hist : List Round) (r : Round) : Prop :=
  ∀ plan ∈ r.plans, ∀ x ∈ plan.offTgids, ∀ y, r.Member plan.cohort y → y ∉ plan.offTgids
    → ∀ q ∈ window hist r, ¬ q.Joined plan.cohort x y

-- While the calls count a streak up, no two members that were joined come apart: joined when the two
-- were last members together, they are joined at the next call that has them both.
def KeepsTogether (hist : List Round) (r : Round) : Prop :=
  ∀ c x y earlier q between, hist = earlier ++ q :: between
    → (∀ m ∈ q :: between, m.Waits c)
    → (∀ m ∈ between, ¬ (m.Member c x ∧ m.Member c y))
    → q.Joined c x y
    → r.Member c x → r.Member c y
    → r.Joined c x y

end Round

-- What a streak stands for: as many calls in a row that counted it up.
def Counts (past : List Round) (w : WakeGraph) : Prop :=
  ∀ c n, w.splitStreak.lookup c = some n → ∀ q ∈ past.reverse.take n.toNat, q.Waits c

theorem counts_splits {past : List Round} {w : WakeGraph} {o : IterOrder}
    {cohortTgids : HashTable CohortId Members} (h : Counts past w)
    : Counts (past ++ [⟨w, o, cohortTgids⟩]) (splits o w cohortTgids).2 := by
  intro c n hn q hq
  rw [splits_streak, Option.bind_eq_some_iff] at hn
  obtain ⟨members, hlookup, hafter⟩ := hn
  unfold streakAfter at hafter
  split at hafter
  . next hcounts =>
    rw [Option.some.injEq] at hafter
    rw [List.reverse_append, List.reverse_singleton, List.singleton_append] at hq
    have hle : n.toNat ≤ ((w.splitStreak.lookup c).getD 0).toNat + 1 := by
      rw [← hafter, UInt32.toNat_add]
      exact Nat.mod_le _ _
    have hq' := List.take_subset_take_left _ hle hq
    rw [List.take_succ_cons, List.mem_cons] at hq'
    cases hq' with
    | inl heq =>
      subst heq
      obtain ⟨x, hx, y, hy, hapart⟩ := exists_apart_of_components hcounts.2.1
      refine ⟨⟨x, y, ⟨members, hlookup, hx⟩, ⟨members, hlookup, hy⟩, ?_⟩, hcounts.2.2⟩
      intro hjoined
      obtain ⟨members', hlookup', hjoined⟩ := hjoined
      dsimp only at hlookup'
      rw [hlookup, Option.some.injEq] at hlookup'
      subst hlookup'
      exact hapart hjoined
    | inr hpast =>
      cases hold : w.splitStreak.lookup c with
      | none => simp [hold] at hpast
      | some old =>
        rw [hold, Option.getD_some] at hpast
        exact h c old hold q hpast
  . contradiction

theorem counts_of_streak {past : List Round} {w w' : WakeGraph} (h : Counts past w)
    (hstreak : w'.splitStreak = w.splitStreak)
    : Counts past w' := by
  unfold Counts
  rw [hstreak]
  exact h

theorem observe_streak (w : WakeGraph) (deltas : List (Tgid × Tgid × UInt64)) (dtS : ℚ)
    (sampleMult : UInt64)
    : (w.observe deltas dtS sampleMult).splitStreak = w.splitStreak := by
  unfold observe
  split
  . rfl
  . rfl

theorem counts_of_rounds {past : List Round} {w : WakeGraph} {ops : List Op} (h : Counts past w)
    {hist : List Round} {r : Round} {later : List Round} (hrounds : rounds w ops = hist ++ r :: later)
    : Counts (past ++ hist) r.graph := by
  induction ops generalizing past w hist with
  | nil => simp [rounds] at hrounds
  | cons op ops ih =>
    cases op with
    | observe deltas dtS sampleMult =>
      exact ih (counts_of_streak h (observe_streak w deltas dtS sampleMult)) hrounds
    | merges order tgidCohort cohortSizes =>
      have hmerged : Counts past (w.merges order tgidCohort cohortSizes).2 := counts_of_streak h rfl
      exact ih hmerged hrounds
    | splits order cohortTgids =>
      simp only [rounds, Op.round?, Option.toList_some, List.singleton_append] at hrounds
      cases hist with
      | nil =>
        rw [List.nil_append, List.cons.injEq] at hrounds
        rw [← hrounds.1, List.append_nil]
        exact h
      | cons first hist =>
        rw [List.cons_append, List.cons.injEq] at hrounds
        rw [← hrounds.1, List.append_cons]
        exact ih (counts_splits h) hrounds.2

def Rounds (P : List Round → Round → Prop) (w : WakeGraph) (ops : List Op) : Prop :=
  ∀ hist r later, rounds w ops = hist ++ r :: later → P hist r

-- The induction is on the number of calls in between; any one of them with both members splits it.
theorem joined_of_waits {w : WakeGraph} {ops : List Op}
    (h : Rounds (fun hist r => r.KeepsTogether hist) w ops) {c : CohortId} {x y : Tgid}
    {earlier between later : List Round} {q r : Round}
    (hrounds : rounds w ops = earlier ++ q :: (between ++ r :: later))
    (hwaits : ∀ m ∈ q :: between, m.Waits c) (hjoined : q.Joined c x y) (hx : r.Member c x)
    (hy : r.Member c y)
    : r.Joined c x y := by
  induction hn : between.length using Nat.strong_induction_on
    generalizing earlier between later q r with
  | _ n ih =>
    by_cases hboth : ∃ m ∈ between, m.Member c x ∧ m.Member c y
    . obtain ⟨m, hm, hmx, hmy⟩ := hboth
      obtain ⟨before, after, heq⟩ := List.append_of_mem hm
      subst heq
      rw [List.length_append, List.length_cons] at hn
      have hjoined' : m.Joined c x y := by
        have hrounds' : rounds w ops = earlier ++ q :: (before ++ m :: (after ++ r :: later)) := by
          rw [hrounds, List.append_assoc, List.cons_append]
        apply ih before.length (by omega) hrounds' ?_ hjoined hmx hmy rfl
        intro m' hm'
        apply hwaits
        simp only [List.mem_cons, List.mem_append] at hm' ⊢
        tauto
      have hrounds' : rounds w ops = (earlier ++ q :: before) ++ m :: (after ++ r :: later) := by
        rw [hrounds]
        simp only [List.append_assoc, List.cons_append]
      apply ih after.length (by omega) hrounds' ?_ hjoined' hx hy rfl
      intro m' hm'
      apply hwaits
      simp only [List.mem_cons, List.mem_append] at hm' ⊢
      tauto
    . have hrounds' : rounds w ops = (earlier ++ q :: between) ++ r :: later := by
        rw [hrounds, List.append_assoc, List.cons_append]
      apply h _ r later hrounds' c x y earlier q between rfl hwaits ?_ hjoined hx hy
      intro m hm hmboth
      exact hboth ⟨m, hm, hmboth⟩

theorem waits_of_due {past : List Round} {r q : Round} {c : CohortId} (h : Counts past r.graph)
    (hdue : Due r.graph (r.graph.splitStreak.lookup c)) (hq : q ∈ r.window past)
    : q = r ∨ ∃ earlier between, past = earlier ++ q :: between ∧ ∀ m ∈ q :: between, m.Waits c := by
  have hle : r.graph.cfg.splitConfirmTicks.toNat
      ≤ ((r.graph.splitStreak.lookup c).getD 0).toNat + 1 := by
    have hle := UInt32.le_iff_toNat_le.mp hdue
    rw [UInt32.toNat_add] at hle
    exact hle.trans (Nat.mod_le _ _)
  have hq' := List.take_subset_take_left _ hle hq
  rw [List.take_succ_cons, List.mem_cons] at hq'
  cases hq' with
  | inl heq => exact .inl heq
  | inr hpast =>
    cases hstreak : r.graph.splitStreak.lookup c with
    | none => simp [hstreak] at hpast
    | some n =>
      rw [hstreak, Option.getD_some] at hpast
      have hwaits := h c n hstreak
      obtain ⟨after, before, htake⟩ := List.append_of_mem hpast
      rw [htake] at hwaits
      refine .inr ⟨(before ++ past.reverse.drop n.toNat).reverse, after.reverse, ?_, ?_⟩
      . have hsplit := congrArg List.reverse (List.take_append_drop n.toNat past.reverse)
        rw [htake, List.reverse_reverse] at hsplit
        exact hsplit.symm.trans (by simp)
      . intro m hm
        apply hwaits
        simp only [List.mem_cons, List.mem_append, List.mem_reverse] at hm ⊢
        tauto

theorem lulls_do_not_split (w : WakeGraph) (ops : List Op)
    (h : Rounds (fun hist r => r.KeepsTogether hist) w ops)
    : Rounds (fun hist r => r.StaysApart hist) w ops := by
  intro hist r later hrounds plan hplan x hx y hy hout q hq hjoined
  obtain ⟨hdue, members, x₀, hlookup, _, _, hoff⟩ := mem_splits hplan
  rw [hoff, mem_component] at hx hout
  have hcounts : Counts hist r.graph := by
    have hnone : Counts [] w := fun _ _ _ q hq => by simp at hq
    exact counts_of_rounds hnone hrounds
  have hnow : r.Joined plan.cohort x y := by
    cases waits_of_due hcounts hdue hq with
    | inl heq =>
      rw [← heq]
      exact hjoined
    | inr hpast =>
      obtain ⟨earlier, between, hhist, hwaits⟩ := hpast
      have hrounds' : rounds w ops = earlier ++ q :: (between ++ r :: later) := by
        rw [hrounds, hhist, List.append_assoc, List.cons_append]
      exact joined_of_waits h hrounds' hwaits hjoined ⟨members, hlookup, hx.right_mem⟩ hy
  obtain ⟨members', hlookup', hnow⟩ := hnow
  rw [hlookup, Option.some.injEq] at hlookup'
  subst hlookup'
  exact hout (hx.trans hnow)

theorem rounds_append (w : WakeGraph) (ops ops' : List Op)
    : rounds w (ops ++ ops') = rounds w ops ++ rounds (ops.foldl Op.next w) ops' := by
  induction ops generalizing w with
  | nil => rfl
  | cons op ops ih =>
    rw [List.cons_append, rounds, rounds, ih, List.append_assoc]
    rfl

def threeMembers : HashTable CohortId Members := HashTable.ofList [(1, [(10, 2), (20, 2), (30, 1)])]

def strangers : HashTable CohortId Members := HashTable.ofList [(1, [(10, 2), (20, 2)])]

-- Two members that talk at every tick, beside a third one that never does.
def friends : HashTable CohortId Members := HashTable.ofList [(1, [(10, 2), (20, 2), (30, 2)])]

def friendsTalk : List Op := [.observe [(10, 20, 32)] 1 1, .splits .id friends]

def meet : Round :=
  ⟨WakeGraph.observe { cfg := { splitConfirmTicks := 2 } } [(10, 20, 32)] 1 1, .id, friends⟩

def meetAgain : Round :=
  ⟨(meet.graph.splits .id friends).2.observe [(10, 20, 32)] 1 1, .id, friends⟩

theorem stranger_is_split_off
    : (rounds { cfg := { splitConfirmTicks := 2 } } (friendsTalk ++ friendsTalk)).map Round.plans
        = [[], [⟨1, [30]⟩]]
      ∧ Rounds (fun hist r => r.StaysApart hist) { cfg := { splitConfirmTicks := 2 } }
          (friendsTalk ++ friendsTalk) := by
  refine ⟨by decide +kernel, ?_⟩
  apply lulls_do_not_split
  have hrounds : rounds { cfg := { splitConfirmTicks := 2 } } (friendsTalk ++ friendsTalk)
      = [meet, meetAgain] := by
    simp only [friendsTalk, meet, meetAgain, List.cons_append, List.nil_append, rounds, Op.round?,
      Op.next, Option.toList_some, Option.toList_none]
  have hlive : ∀ a b, meet.graph.LiveEdge a b → meetAgain.graph.LiveEdge a b := by
    intro a b
    have heq : liveEdges .id meet.graph = liveEdges .id meetAgain.graph := by decide +kernel
    rw [← mem_liveEdges (o := .id), ← mem_liveEdges (o := .id), heq]
    exact id
  intro hist r later hsplit c x y earlier q between hhist _ _ hjoined _ _
  rw [hrounds, hhist] at hsplit
  obtain ⟨hq, hr⟩ : q = meet ∧ r = meetAgain := by
    cases earlier with
    | nil =>
      cases between with
      | nil =>
        simp only [List.nil_append, List.cons_append, List.cons.injEq] at hsplit
        exact ⟨hsplit.1.symm, hsplit.2.1.symm⟩
      | cons m between =>
        have hlen := congrArg List.length hsplit
        simp at hlen
    | cons m earlier =>
      have hlen := congrArg List.length hsplit
      simp at hlen
      omega
  obtain ⟨members, hlookup, hpath⟩ := hjoined
  rw [hq] at hlookup hpath
  rw [hr]
  exact ⟨members, hlookup, hpath.mono hlive⟩

-- Two groups that talk, beside an idle one that keeps the streak running.
def talk : List Op := [.observe [(10, 20, 16)] 1 1, .splits .id threeMembers]

def lull : List Op := [.observe [] 1 1, .splits .id threeMembers]

def talked : WakeGraph := (List.replicate 23 talk).flatten.foldl Op.next {}

def lastTalk : Round := ⟨talked.observe [(10, 20, 16)] 1 1, .id, threeMembers⟩

def firstLull : Round :=
  ⟨(lastTalk.graph.splits .id threeMembers).2.observe [] 1 1, .id, threeMembers⟩

theorem rounds_talk_lull (w : WakeGraph)
    : rounds w (talk ++ lull)
        =
      [⟨w.observe [(10, 20, 16)] 1 1, .id, threeMembers⟩,
        ⟨((w.observe [(10, 20, 16)] 1 1).splits .id threeMembers).2.observe [] 1 1, .id,
          threeMembers⟩] := by
  simp only [talk, lull, List.cons_append, List.nil_append, rounds, Op.round?, Op.next,
    Option.toList_some, Option.toList_none]

theorem one_quiet_tick_splits
    : ¬ Rounds (fun hist r => r.StaysApart hist) {}
        ((List.replicate 23 talk).flatten ++ (talk ++ lull)) := by
  intro h
  have hrounds : rounds {} ((List.replicate 23 talk).flatten ++ (talk ++ lull))
      = (rounds {} (List.replicate 23 talk).flatten ++ [lastTalk]) ++ firstLull :: [] := by
    rw [rounds_append, rounds_talk_lull, List.append_assoc, List.singleton_append]
    simp only [firstLull, lastTalk, talked]
  have hplans : ⟨1, [10]⟩ ∈ firstLull.plans := by decide +kernel
  have hmember : firstLull.Member 1 20 := ⟨[(10, 2), (20, 2), (30, 1)], by decide, by decide⟩
  have hwindow : lastTalk
      ∈ firstLull.window (rounds {} (List.replicate 23 talk).flatten ++ [lastTalk]) := by
    have hcfg : firstLull.graph.cfg.splitConfirmTicks.toNat = 25 := by decide +kernel
    unfold Round.window
    rw [hcfg, List.reverse_append]
    simp
  have hlive : (lastTalk.graph.edges.lookup (10, 20)).any
      (fun st => lastTalk.graph.cfg.splitMinWakesPerSec ≤ st.rate) = true := by
    decide +kernel
  have hjoined : lastTalk.Joined 1 10 20 := by
    rw [Option.any_eq_true] at hlive
    obtain ⟨st, hlookup, hrate⟩ := hlive
    refine ⟨[(10, 2), (20, 2), (30, 1)], by decide, by decide, .single ?_⟩
    exact ⟨by decide, by decide, .inl ⟨st, hlookup, of_decide_eq_true hrate⟩⟩
  have happart := h _ firstLull [] hrounds ⟨1, [10]⟩ hplans 10 List.mem_cons_self 20 hmember
    (by decide) lastTalk hwindow
  exact happart hjoined

end Lull

end WakeGraph
