import Mathlib.Algebra.Order.Archimedean.Basic
import Mathlib.Data.Set.Finite.Lattice
import ScxCohort.Daemon.Lemmas.Hysteresis

/-!
This module contains what the rates of the edges are made of: the traffic of each pair of processes,
blended with what is left of the traffic before.
-/

namespace WakeGraph

section Traffic

variable {deltas deltas' : List (Tgid × Tgid × UInt64)} {m m' : UInt64} {dtS : ℚ}

-- What one delta adds to the count of a pair.
def addDelta (key : EdgeKey) (sampleMult : UInt64) (count : Option UInt64)
    (d : Tgid × Tgid × UInt64) : Option UInt64 :=
  if ekey d.1 d.2.1 = key then some (count.getD 0 + d.2.2 * sampleMult) else count

theorem lookup_freshCounts (deltas : List (Tgid × Tgid × UInt64)) (m : UInt64) (key : EdgeKey)
    : (freshCounts deltas m).lookup key = deltas.foldl (addDelta key m) none := by
  have hfold := HashTable.lookup_foldl_upsert (fun d : Tgid × Tgid × UInt64 => ekey d.1 d.2.1)
    (fun d c => c.getD 0 + d.2.2 * m) deltas ∅ key
  rw [AList.lookup_empty] at hfold
  exact hfold

theorem addDelta_comm (key : EdgeKey) (m : UInt64) (count : Option UInt64)
    (d d' : Tgid × Tgid × UInt64)
    : addDelta key m (addDelta key m count d) d' = addDelta key m (addDelta key m count d') d := by
  unfold addDelta
  by_cases hd : ekey d.1 d.2.1 = key
  . by_cases hd' : ekey d'.1 d'.2.1 = key
    . simp only [hd, hd', if_true, Option.getD_some]
      rw [UInt64.add_assoc, UInt64.add_comm (d.2.2 * m), ← UInt64.add_assoc]
    . simp only [hd, hd', if_true, if_false]
  . simp only [hd, if_false]

theorem ekey_comm (a b : Tgid) : ekey a b = ekey b a := by
  unfold ekey
  split
  . next hlt => rw [if_neg (UInt32.lt_asymm hlt)]
  . next hle =>
    split
    . rfl
    . next hge => rw [UInt32.le_antisymm (UInt32.not_lt.mp hge) (UInt32.not_lt.mp hle)]

theorem addDelta_swap (key : EdgeKey) (count : Option UInt64) (a b : Tgid) (n : UInt64)
    : addDelta key m count (a, b, n) = addDelta key m count (b, a, n) := by
  unfold addDelta
  rw [ekey_comm]

theorem addDelta_split (key : EdgeKey) (count : Option UInt64) (a b : Tgid) (n n' : UInt64)
    : addDelta key m count (a, b, n + n')
        =
      addDelta key m (addDelta key m count (a, b, n)) (a, b, n') := by
  unfold addDelta
  by_cases hkey : ekey a b = key
  . simp only [hkey, if_true, Option.getD_some]
    rw [UInt64.add_mul, UInt64.add_assoc]
  . simp only [hkey, if_false]

theorem addDelta_scale (key : EdgeKey) (count : Option UInt64) (d : Tgid × Tgid × UInt64)
    : addDelta key m count d = addDelta key 1 count (d.1, d.2.1, d.2.2 * m) := by
  unfold addDelta
  rw [UInt64.mul_one]

def SameEdges (w w' : WakeGraph) : Prop := ∀ key, w.edges.lookup key = w'.edges.lookup key

theorem sameEdges_observe (w : WakeGraph) (hdt : 0 < dtS)
    (h : ∀ key, deltas.foldl (addDelta key m) none = deltas'.foldl (addDelta key m') none)
    : SameEdges (w.observe deltas dtS m) (w.observe deltas' dtS m') := by
  intro key
  have hfresh : (freshCounts deltas m).lookup key = (freshCounts deltas' m').lookup key := by
    rw [lookup_freshCounts, lookup_freshCounts, h]
  have hdecay : ∀ alpha, decayEdge alpha dtS (freshCounts deltas m) key
      = decayEdge alpha dtS (freshCounts deltas' m') key := by
    intro alpha
    funext st
    unfold decayEdge
    rw [hfresh]
  rw [lookup_observe w deltas hdt, lookup_observe w deltas' hdt, hdecay, hfresh]

-- The table depends on the traffic of each pair alone, whichever deltas tell of it.
structure ByTraffic (w : WakeGraph) (dtS : ℚ) : Prop where
  perm : ∀ deltas deltas' m, deltas'.Perm deltas
    → SameEdges (w.observe deltas' dtS m) (w.observe deltas dtS m)
  swap : ∀ before after a b n m,
    SameEdges (w.observe (before ++ (a, b, n) :: after) dtS m)
      (w.observe (before ++ (b, a, n) :: after) dtS m)
  split : ∀ before after a b n n' m,
    SameEdges (w.observe (before ++ (a, b, n + n') :: after) dtS m)
      (w.observe (before ++ (a, b, n) :: (a, b, n') :: after) dtS m)
  scale : ∀ deltas m,
    SameEdges (w.observe deltas dtS m)
      (w.observe (deltas.map fun d => (d.1, d.2.1, d.2.2 * m)) dtS 1)

theorem byTraffic (w : WakeGraph) (hdt : 0 < dtS) : ByTraffic w dtS := by
  constructor
  . intro deltas deltas' m hperm
    apply sameEdges_observe w hdt
    intro key
    exact hperm.foldl_eq' (fun d _ d' _ count => addDelta_comm key m count d d') none
  . intro before after a b n m
    apply sameEdges_observe w hdt
    intro key
    rw [List.foldl_append, List.foldl_append, List.foldl_cons, List.foldl_cons, addDelta_swap]
  . intro before after a b n n' m
    apply sameEdges_observe w hdt
    intro key
    simp only [List.foldl_append, List.foldl_cons, addDelta_split]
  . intro deltas m
    apply sameEdges_observe w hdt
    intro key
    rw [List.foldl_map]
    congr 1
    funext count d
    apply addDelta_scale

end Traffic

section Blend

variable {w : WakeGraph} {deltas : List (Tgid × Tgid × UInt64)} {m : UInt64} {dtS : ℚ}
  {key : EdgeKey} {st : EdgeState}

-- A pair without an edge has the rate 0.
def rateOf (w : WakeGraph) (key : EdgeKey) : ℚ := ((w.edges.lookup key).map (·.rate)).getD 0

def instRate (deltas : List (Tgid × Tgid × UInt64)) (dtS : ℚ) (sampleMult : UInt64) (key : EdgeKey)
    : ℚ :=
  (((freshCounts deltas sampleMult).lookup key).getD 0).toNat / dtS

def alpha (w : WakeGraph) (dtS : ℚ) : ℚ := dtS / (dtS + w.cfg.rateTauS)

theorem alpha_pos (hdt : 0 < dtS) (htau : 0 < w.cfg.rateTauS) : 0 < alpha w dtS :=
  div_pos hdt (add_pos hdt htau)

theorem alpha_lt_one (hdt : 0 < dtS) (htau : 0 < w.cfg.rateTauS) : alpha w dtS < 1 := by
  unfold alpha
  rw [div_lt_one (add_pos hdt htau)]
  linarith

theorem instRate_nonneg (deltas : List (Tgid × Tgid × UInt64)) (m : UInt64) (key : EdgeKey)
    (hdt : 0 < dtS)
    : 0 ≤ instRate deltas dtS m key :=
  div_nonneg (Nat.cast_nonneg _) hdt.le

-- A known edge and a new one get their rates by the same blend.
theorem rate_observe (hdt : 0 < dtS) (h : (w.observe deltas dtS m).edges.lookup key = some st)
    : st.rate = (1 - alpha w dtS) * rateOf w key + alpha w dtS * instRate deltas dtS m key
        ∧ w.cfg.splitMinWakesPerSec / 10 ≤ st.rate := by
  rw [lookup_observe w deltas hdt, Option.filter_eq_some_iff, Option.or_eq_some_iff,
    decide_eq_true_eq] at h
  refine ⟨?_, h.2⟩
  cases h.1 with
  | inl hknown =>
    obtain ⟨old, hold, rfl⟩ := Option.map_eq_some_iff.mp hknown
    unfold rateOf
    rw [hold]
    show old.rate + alpha w dtS * (instRate deltas dtS m key - old.rate)
      = (1 - alpha w dtS) * old.rate + alpha w dtS * instRate deltas dtS m key
    ring
  | inr hfresh =>
    obtain ⟨count, hcount, rfl⟩ := Option.map_eq_some_iff.mp hfresh.2
    have hnone : w.edges.lookup key = none := Option.map_eq_none_iff.mp hfresh.1
    unfold rateOf instRate
    rw [hnone, hcount]
    show alpha w dtS * (count.toNat / dtS) = (1 - alpha w dtS) * 0 + alpha w dtS * (count.toNat / dtS)
    ring

end Blend

section Bounded

variable {cfg : WakeGraphCfg} {tgidCohort : HashTable Tgid CohortId}
  {cohortSizes : HashTable CohortId UInt64} {w : WakeGraph} {key : EdgeKey} {st : EdgeState}

def RatesFrom (w : WakeGraph) (edges : HashTable EdgeKey EdgeState) : Prop :=
  ∀ key st, edges.lookup key = some st → ∃ old, w.edges.lookup key = some old ∧ st.rate = old.rate

theorem RatesFrom.mergeEdge {m : MergeState} (h : RatesFrom w m.edges) {e : EdgeKey × EdgeState}
    (he : w.edges.lookup e.1 = some e.2)
    : RatesFrom w (mergeEdge cfg tgidCohort cohortSizes m e).edges := by
  have hinsert : ∀ n, RatesFrom w (m.edges.insert e.1 { e.2 with overTicks := n }) := by
    intro n key st hst
    rw [HashTable.lookup_insert_eq] at hst
    split at hst
    . next hkey =>
      cases hst
      rw [hkey]
      exact ⟨e.2, he, rfl⟩
    . exact h key st hst
  cases looked_mergeEdge cfg tgidCohort cohortSizes m e with
  | unmapped _ hm =>
    rw [hm]
    exact h
  | reset _ hedges =>
    rw [hedges]
    apply hinsert
  | counted _ _ hedges =>
    rw [hedges]
    apply hinsert
  | planned _ _ _ _ _ hedges =>
    rw [hedges]
    apply hinsert

theorem ratesFrom_mergeEdges (es : List (EdgeKey × EdgeState)) {m : MergeState}
    (h : RatesFrom w m.edges) (hes : ∀ e ∈ es, w.edges.lookup e.1 = some e.2)
    : RatesFrom w (es.foldl (mergeEdge cfg tgidCohort cohortSizes) m).edges := by
  induction es generalizing m with
  | nil => exact h
  | cons e es ih =>
    apply ih (h.mergeEdge (hes e List.mem_cons_self))
    intro e' he'
    exact hes e' (List.mem_cons_of_mem _ he')

theorem ratesFrom_merges (o : IterOrder)
    : RatesFrom w (w.merges o tgidCohort cohortSizes).2.edges := by
  apply ratesFrom_mergeEdges
  . intro key st hst
    exact ⟨st, hst, rfl⟩
  . intro e he
    rw [IterOrder.mem_order] at he
    exact HashTable.mem_items.mp he

-- A call of one of the three methods that the daemon's ticks make.
inductive Turn where
  | observe (deltas : List (Tgid × Tgid × UInt64)) (dtS : ℚ) (sampleMult : UInt64)
  | merges (o : IterOrder) (tgidCohort : HashTable Tgid CohortId)
      (cohortSizes : HashTable CohortId UInt64)
  | splits (o : IterOrder) (cohortTgids : HashTable CohortId Members)

namespace Turn

def next (w : WakeGraph) : Turn → WakeGraph
  | .observe deltas dtS m => w.observe deltas dtS m
  | .merges o tgidCohort cohortSizes => (w.merges o tgidCohort cohortSizes).2
  | .splits o cohortTgids => (w.splits o cohortTgids).2

-- The instantaneous rate a pair has in an observation.
def inst? (key : EdgeKey) : Turn → Option ℚ
  | .observe deltas dtS m => if 0 < dtS then some (instRate deltas dtS m key) else none
  | _ => none

theorem cfg_next (w : WakeGraph) (t : Turn) : (next w t).cfg = w.cfg := by
  cases t with
  | observe deltas dtS m => exact cfg_observe w deltas dtS m
  | merges o tgidCohort cohortSizes => rfl
  | splits o cohortTgids => exact cfg_splits o w cohortTgids

end Turn

-- No rate is below 0 or above all of the instantaneous rates that the pair has had.
def Bounded (w : WakeGraph) (turns : List Turn) : Prop :=
  ∀ key st, w.edges.lookup key = some st
    → 0 ≤ st.rate ∧ ∃ x ∈ turns.filterMap (Turn.inst? key), st.rate ≤ x

variable {turns : List Turn}

theorem Bounded.of_ratesFrom {edges : HashTable EdgeKey EdgeState} (h : Bounded w turns)
    (hrates : RatesFrom w edges) (t : Turn)
    : Bounded { w with edges := edges } (turns ++ [t]) := by
  intro key st hst
  obtain ⟨old, hold, hrate⟩ := hrates key st hst
  obtain ⟨hnonneg, x, hx, hle⟩ := h key old hold
  rw [hrate]
  refine ⟨hnonneg, x, ?_, hle⟩
  rw [List.filterMap_append]
  exact List.mem_append_left _ hx

theorem blend_le {a r i : ℚ} (ha : 0 < a) (ha' : a < 1) : (1 - a) * r + a * i ≤ max r i := by
  have hr : (1 - a) * r ≤ (1 - a) * max r i :=
    mul_le_mul_of_nonneg_left (le_max_left r i) (sub_nonneg.mpr ha'.le)
  have hi : a * i ≤ a * max r i := mul_le_mul_of_nonneg_left (le_max_right r i) ha.le
  linarith

theorem Bounded.observe (h : Bounded w turns) {dtS : ℚ} (hdt : 0 < dtS) (htau : 0 < w.cfg.rateTauS)
    (deltas : List (Tgid × Tgid × UInt64)) (m : UInt64)
    : Bounded (w.observe deltas dtS m) (turns ++ [.observe deltas dtS m]) := by
  intro key st hst
  have hpos := alpha_pos hdt htau
  have hlt := alpha_lt_one hdt htau
  have hinst := instRate_nonneg deltas m key hdt
  have hlast : instRate deltas dtS m key
      ∈ (turns ++ [Turn.observe deltas dtS m]).filterMap (Turn.inst? key) := by
    rw [List.filterMap_append, List.mem_append]
    right
    simp [Turn.inst?, hdt]
  have hold : 0 ≤ rateOf w key ∧ (rateOf w key ≤ instRate deltas dtS m key
      ∨ ∃ x ∈ (turns ++ [Turn.observe deltas dtS m]).filterMap (Turn.inst? key),
        rateOf w key ≤ x) := by
    unfold rateOf
    cases hlookup : w.edges.lookup key with
    | none => exact ⟨le_refl _, .inl hinst⟩
    | some old =>
      obtain ⟨hnonneg, x, hx, hle⟩ := h key old hlookup
      refine ⟨hnonneg, .inr ⟨x, ?_, hle⟩⟩
      rw [List.filterMap_append]
      exact List.mem_append_left _ hx
  rw [(rate_observe hdt hst).1]
  constructor
  . exact add_nonneg (mul_nonneg (sub_nonneg.mpr hlt.le) hold.1) (mul_nonneg hpos.le hinst)
  . have hblend := blend_le (r := rateOf w key) (i := instRate deltas dtS m key) hpos hlt
    cases le_total (rateOf w key) (instRate deltas dtS m key) with
    | inl hle =>
      rw [max_eq_right hle] at hblend
      exact ⟨_, hlast, hblend⟩
    | inr hge =>
      rw [max_eq_left hge] at hblend
      cases hold.2 with
      | inl hle => exact ⟨_, hlast, hblend.trans hle⟩
      | inr hseen =>
        obtain ⟨x, hx, hle⟩ := hseen
        exact ⟨x, hx, hblend.trans hle⟩

theorem Bounded.next (h : Bounded w turns) (htau : 0 < w.cfg.rateTauS) (t : Turn)
    : Bounded (Turn.next w t) (turns ++ [t]) := by
  have hsame : RatesFrom w w.edges := fun _ st hst => ⟨st, hst, rfl⟩
  cases t with
  | observe deltas dtS m =>
    by_cases hdt : 0 < dtS
    . exact h.observe hdt htau deltas m
    . unfold Turn.next WakeGraph.observe
      dsimp only
      rw [if_pos (not_lt.mp hdt)]
      exact h.of_ratesFrom hsame _
  | merges o tgidCohort cohortSizes => exact h.of_ratesFrom (ratesFrom_merges o) _
  | splits o cohortTgids => exact h.of_ratesFrom hsame _

theorem bounded_run (htau : 0 < cfg.rateTauS) (turns : List Turn)
    : Bounded (turns.foldl Turn.next { cfg := cfg }) turns
        ∧ (turns.foldl Turn.next { cfg := cfg }).cfg = cfg := by
  induction turns using List.reverseRecOn with
  | nil =>
    refine ⟨?_, rfl⟩
    intro key st hst
    contradiction
  | append_singleton turns t ih =>
    obtain ⟨hbounded, hcfg⟩ := ih
    rw [List.foldl_append, List.foldl_cons, List.foldl_nil]
    constructor
    . apply hbounded.next
      rw [hcfg]
      exact htau
    . rw [Turn.cfg_next, hcfg]

end Bounded

section Silence

variable {w : WakeGraph} {dtS : ℚ} {m : UInt64}

def silent (dtS : ℚ) (m : UInt64) (w : WakeGraph) : WakeGraph := w.observe [] dtS m

theorem cfg_silent (n : Nat) : ((silent dtS m)^[n] w).cfg = w.cfg := by
  induction n with
  | zero => rfl
  | succ n ih =>
    rw [Function.iterate_succ_apply', ← ih]
    apply cfg_observe

theorem rate_silent (hdt : 0 < dtS) (hmin : 0 < w.cfg.splitMinWakesPerSec) {key : EdgeKey}
    {st : EdgeState} {n : Nat} (h : ((silent dtS m)^[n] w).edges.lookup key = some st)
    : st.rate = (1 - alpha w dtS) ^ n * rateOf w key := by
  induction n generalizing st with
  | zero =>
    unfold rateOf
    rw [pow_zero, one_mul]
    rw [Function.iterate_zero, id] at h
    rw [h]
    rfl
  | succ n ih =>
    rw [Function.iterate_succ_apply'] at h
    obtain ⟨hrate, hkept⟩ := rate_observe hdt h
    rw [cfg_silent] at hkept
    have hzero : instRate [] dtS m key = 0 := by
      unfold instRate
      rw [lookup_freshCounts]
      simp
    have halpha : alpha ((silent dtS m)^[n] w) dtS = alpha w dtS := by
      unfold alpha
      rw [cfg_silent]
    rw [halpha, hzero, mul_zero, add_zero] at hrate
    unfold rateOf at hrate
    cases hold : ((silent dtS m)^[n] w).edges.lookup key with
    | none =>
      rw [hold, Option.map_none, Option.getD_none, mul_zero] at hrate
      linarith
    | some old =>
      rw [hold, Option.map_some, Option.getD_some, ih hold] at hrate
      rw [hrate, pow_succ']
      ring

theorem exists_rate_le (w : WakeGraph) : ∃ top, 0 < top ∧ ∀ key, rateOf w key ≤ top := by
  obtain ⟨top, htop⟩ := (List.finite_toSet (w.edges.values.map (·.rate))).bddAbove
  refine ⟨max top 0 + 1, ?_, ?_⟩
  . have := le_max_right top 0
    linarith
  . intro key
    unfold rateOf
    cases hlookup : w.edges.lookup key with
    | none =>
      rw [Option.map_none, Option.getD_none]
      have := le_max_right top 0
      linarith
    | some st =>
      rw [Option.map_some, Option.getD_some]
      have hle : st.rate ≤ top :=
        htop (List.mem_map_of_mem (HashTable.mem_values.mpr ⟨key, hlookup⟩))
      have := le_max_left top 0
      linarith

theorem silence_empties (hdt : 0 < dtS) (htau : 0 < w.cfg.rateTauS)
    (hmin : 0 < w.cfg.splitMinWakesPerSec) (m : UInt64)
    : ∃ n, ((silent dtS m)^[n] w).edges = ∅ := by
  have hpos := alpha_pos hdt htau
  have hlt := alpha_lt_one hdt htau
  obtain ⟨top, htop, hle⟩ := exists_rate_le w
  have hfloor : 0 < w.cfg.splitMinWakesPerSec / 10 := div_pos hmin (by norm_num)
  obtain ⟨n, hn⟩ := exists_pow_lt_of_lt_one (div_pos hfloor htop) (sub_lt_self 1 hpos)
  rw [lt_div_iff₀ htop] at hn
  -- The edges left by one more call would have to be above the floor.
  refine ⟨n + 1, HashTable.eq_empty_of_lookup ?_⟩
  intro key
  by_contra hsome
  obtain ⟨st, hst⟩ := Option.ne_none_iff_exists'.mp hsome
  have hrate := rate_silent hdt hmin hst
  rw [Function.iterate_succ_apply'] at hst
  have hkept := (rate_observe hdt hst).2
  rw [cfg_silent] at hkept
  have hpow : (0 : ℚ) ≤ (1 - alpha w dtS) ^ (n + 1) := pow_nonneg (sub_nonneg.mpr hlt.le) _
  have hstep : (1 - alpha w dtS) ^ (n + 1) ≤ (1 - alpha w dtS) ^ n :=
    pow_le_pow_of_le_one (sub_nonneg.mpr hlt.le) (by linarith) (Nat.le_succ n)
  have hbound : st.rate < w.cfg.splitMinWakesPerSec / 10 :=
    calc st.rate = (1 - alpha w dtS) ^ (n + 1) * rateOf w key := hrate
      _ ≤ (1 - alpha w dtS) ^ (n + 1) * top := mul_le_mul_of_nonneg_left (hle key) hpow
      _ ≤ (1 - alpha w dtS) ^ n * top := mul_le_mul_of_nonneg_right hstep htop.le
      _ < w.cfg.splitMinWakesPerSec / 10 := hn
  linarith

end Silence

-- What is observed depends on the traffic of each pair, stays within it and is forgotten without it.
theorem observe_traffic_bounded_forgotten (cfg : WakeGraphCfg) (htau : 0 < cfg.rateTauS)
    (hmin : 0 < cfg.splitMinWakesPerSec)
    : (∀ w dtS, w.cfg = cfg → 0 < dtS → ByTraffic w dtS)
        ∧ (∀ turns : List Turn, Bounded (turns.foldl Turn.next { cfg := cfg }) turns)
        ∧ ∀ w dtS m, w.cfg = cfg → 0 < dtS → ∃ n, ((silent dtS m)^[n] w).edges = ∅ := by
  refine ⟨fun w _ _ hdt => byTraffic w hdt, fun turns => (bounded_run htau turns).1, ?_⟩
  intro w dtS m hcfg hdt
  rw [← hcfg] at htau hmin
  exact silence_empties hdt htau hmin m

def hot : WakeGraph := { edges := .ofList [((100, 200), { rate := 2500, inst := 2500 })] }

theorem hot_forgotten : ∃ n, ((silent (1 / 5) 8)^[n] hot).edges = ∅ :=
  (observe_traffic_bounded_forgotten {} (by norm_num) (by norm_num)).2.2 hot (1 / 5) 8 rfl
    (by norm_num)

end WakeGraph
