import ScxCohort.Daemon.Lemmas.Balancer

/-!
This module contains which cohort the balancer moves: the one that leaves the smallest difference between
the two LLCs, whenever there is one that may be moved and makes the difference smaller at all.
-/

namespace Balancer

variable {b : Balancer} {nowMs : UInt64} {llcs : List LlcLoad} {cohorts : List CohortSnapshot}
  {max min : LlcLoad} {c : CohortSnapshot}

section Admissible

structure Admissible (b : Balancer) (nowMs : UInt64) (max min : LlcLoad) (c : CohortSnapshot)
    : Prop where
  home : c.homeLlc = max.llc
  unpinned : c.pinned = false
  tasks : 0 < c.nrTasks.toNat
  fits : c.loadNs.toNat ≤ min.capacityNs.toNat
  resident : ∀ movedAt, b.lastMoveAt.lookup c.id = some movedAt
    → (c.residencyMs.getD b.cfg.residencyMs).toNat ≤ nowMs.toNat - movedAt.toNat
  load : 0 < c.loadNs.toNat
  gap : c.loadNs.toNat < max.loadNs.toNat - min.loadNs.toNat

-- The difference between the two LLCs once the cohort has been moved from the one to the other.
def difference (max min : LlcLoad) (c : CohortSnapshot) : Nat :=
  (((max.loadNs.toNat : Int) - c.loadNs.toNat) - (min.loadNs.toNat + c.loadNs.toNat)).natAbs

theorem toNat_gap (hle : min.loadNs.toNat ≤ max.loadNs.toNat)
    : (max.loadNs - min.loadNs).toNat = max.loadNs.toNat - min.loadNs.toNat :=
  UInt64.toNat_sub_of_le _ _ (UInt64.le_iff_toNat_le.mpr hle)

theorem toNat_gapAfter (hle : min.loadNs.toNat ≤ max.loadNs.toNat) (hmax : max.loadNs.toNat < 2 ^ 62)
    (hc : c.loadNs.toNat < 2 ^ 62)
    : (gapAfter (max.loadNs - min.loadNs) c).toNat = difference max min c := by
  have hgap := toNat_gap hle
  unfold gapAfter difference
  rw [Int64.toNat_unsignedAbs_sub_double (by omega) hc, hgap]
  omega

theorem resident_iff
    : b.resident nowMs c = true
        ↔
      ∀ movedAt, b.lastMoveAt.lookup c.id = some movedAt
        → (c.residencyMs.getD b.cfg.residencyMs).toNat ≤ nowMs.toNat - movedAt.toNat := by
  unfold resident
  cases b.lastMoveAt.lookup c.id with
  | none => simp
  | some movedAt =>
    simp only [ge_iff_le, decide_eq_true_eq, UInt64.le_iff_toNat_le, UInt64.toNat_saturatingSub,
      Option.some.injEq, forall_eq']

-- The two filters together.
theorem admissible_iff (hle : min.loadNs.toNat ≤ max.loadNs.toNat) (hmax : max.loadNs.toNat < 2 ^ 62)
    (hc : c.loadNs.toNat < 2 ^ 62)
    : b.movable nowMs max min c = true
          ∧ gapAfter (max.loadNs - min.loadNs) c < max.loadNs - min.loadNs
        ↔
      Admissible b nowMs max min c := by
  have hrepairs : difference max min c < max.loadNs.toNat - min.loadNs.toNat
      ↔ 0 < c.loadNs.toNat ∧ c.loadNs.toNat < max.loadNs.toNat - min.loadNs.toNat := by
    unfold difference
    omega
  rw [UInt64.lt_iff_toNat_lt, toNat_gapAfter hle hmax hc, toNat_gap hle, hrepairs]
  unfold movable
  simp only [decide_eq_true_eq, resident_iff, GT.gt, UInt64.lt_iff_toNat_lt,
    UInt64.le_iff_toNat_le, UInt64.toNat_zero, Bool.not_eq_true]
  constructor
  . rintro ⟨⟨hhome, hpinned, htasks, _, hfits, hresident⟩, hload, hgap⟩
    exact ⟨hhome, hpinned, htasks, hfits, hresident, hload, hgap⟩
  . intro h
    exact ⟨⟨h.home, h.unpinned, h.tasks, h.load, h.fits, h.resident⟩, h.load, h.gap⟩

end Admissible

section Best

-- No admissible cohort does better, nor as well while it is smaller.
structure Best (b : Balancer) (nowMs : UInt64) (max min : LlcLoad) (cohorts : List CohortSnapshot)
    (c : CohortSnapshot) : Prop where
  mem : c ∈ cohorts
  admissible : Admissible b nowMs max min c
  least : ∀ c' ∈ cohorts, Admissible b nowMs max min c'
    → difference max min c ≤ difference max min c'
  smallest : ∀ c' ∈ cohorts, Admissible b nowMs max min c'
    → difference max min c' = difference max min c → c.loadNs.toNat ≤ c'.loadNs.toNat

theorem mem_candidates (hle : min.loadNs.toNat ≤ max.loadNs.toNat) (hmax : max.loadNs.toNat < 2 ^ 62)
    (hcohorts : ∀ c ∈ cohorts, c.loadNs.toNat < 2 ^ 62)
    : c ∈ (cohorts.filter (b.movable nowMs max min)).filter (fun c =>
          gapAfter (max.loadNs - min.loadNs) c < max.loadNs - min.loadNs)
        ↔
      c ∈ cohorts ∧ Admissible b nowMs max min c := by
  rw [List.mem_filter, List.mem_filter, decide_eq_true_eq, and_assoc]
  apply and_congr_right
  intro hc
  exact admissible_iff hle hmax (hcohorts c hc)

theorem best_some (hle : min.loadNs.toNat ≤ max.loadNs.toNat) (hmax : max.loadNs.toNat < 2 ^ 62)
    (hcohorts : ∀ c ∈ cohorts, c.loadNs.toNat < 2 ^ 62) (h : b.best nowMs max min cohorts = some c)
    : Best b nowMs max min cohorts c := by
  unfold best at h
  have hmem := (mem_candidates hle hmax hcohorts).mp (List.argmin_mem h)
  have hleast : ∀ c' ∈ cohorts, Admissible b nowMs max min c'
      → difference max min c < difference max min c'
        ∨ difference max min c = difference max min c' ∧ c.loadNs.toNat ≤ c'.loadNs.toNat := by
    intro c' hc' hadmissible
    have hcandidate := (mem_candidates hle hmax hcohorts).mpr ⟨hc', hadmissible⟩
    have horder := List.le_of_mem_argmin hcandidate h
    rw [Prod.Lex.toLex_le_toLex] at horder
    dsimp only at horder
    rw [toNat_gapAfter hle hmax (hcohorts c hmem.1), toNat_gapAfter hle hmax (hcohorts c' hc')]
      at horder
    exact horder
  constructor
  . exact hmem.1
  . exact hmem.2
  . intro c' hc' hadmissible
    have := hleast c' hc' hadmissible
    omega
  . intro c' hc' hadmissible hsame
    have := hleast c' hc' hadmissible
    omega

theorem best_none (hle : min.loadNs.toNat ≤ max.loadNs.toNat) (hmax : max.loadNs.toNat < 2 ^ 62)
    (hcohorts : ∀ c ∈ cohorts, c.loadNs.toNat < 2 ^ 62) (h : b.best nowMs max min cohorts = none)
    : ∀ c ∈ cohorts, ¬ Admissible b nowMs max min c := by
  unfold best at h
  rw [List.argmin_eq_none, List.eq_nil_iff_forall_not_mem] at h
  intro c hc hadmissible
  exact h c ((mem_candidates hle hmax hcohorts).mpr ⟨hc, hadmissible⟩)

theorem overThreshold_of_gap (hle : min.loadNs.toNat ≤ max.loadNs.toNat)
    (hproduct : min.capacityNs.toNat * b.cfg.imbalancePct.toNat < 2 ^ 64)
    (hgap : min.capacityNs.toNat * b.cfg.imbalancePct.toNat / 100
      < max.loadNs.toNat - min.loadNs.toNat)
    : b.overThreshold max min = true := by
  have hthreshold : (min.capacityNs * b.cfg.imbalancePct / 100).toNat
      = min.capacityNs.toNat * b.cfg.imbalancePct.toNat / 100 := by
    rw [UInt64.toNat_div, UInt64.toNat_mul, Nat.mod_eq_of_lt hproduct]
    rfl
  unfold overThreshold
  rw [decide_eq_true_eq, GT.gt, UInt64.lt_iff_toNat_lt, hthreshold, toNat_gap hle]
  exact hgap

theorem plan_of_best (nowMs : UInt64) (cohorts : List CohortSnapshot)
    (hlength : 2 ≤ llcs.length) (hmax : maxLoad llcs = some max)
    (hmin : minLoad llcs = some min) (hover : b.overThreshold max min = true)
    (hstreak : b.cfg.confirmTicks ≤ b.streak + 1)
    : b.plan nowMs llcs cohorts
        =
      match b.best nowMs max min cohorts with
      | some c =>
        ([.moveCohort c.id min.llc],
          { b with lastMoveAt := b.lastMoveAt.insert c.id nowMs, streak := 0 })
      | none => ([], { b with streak := b.streak + 1 }) := by
  unfold plan
  rw [if_neg (Nat.not_lt.mpr hlength), hmax, hmin]
  dsimp only
  rw [hover, if_neg (fun h => h rfl)]
  exact if_neg (UInt32.not_lt.mpr hstreak)

theorem ne_of_gap (hllcs : (llcs.map (·.llc)).Nodup) (hmax : max ∈ llcs) (hmin : min ∈ llcs)
    (hlt : min.loadNs.toNat < max.loadNs.toNat)
    : min.llc ≠ max.llc := by
  intro heq
  rw [List.inj_on_of_nodup_map hllcs hmin hmax heq] at hlt
  exact Nat.lt_irrefl _ hlt

theorem plan_moves_best (b : Balancer) (nowMs : UInt64) (hlength : 2 ≤ llcs.length)
    (hllcs : (llcs.map (·.llc)).Nodup) (hloads : ∀ l ∈ llcs, l.loadNs.toNat < 2 ^ 62)
    (hcohorts : ∀ c ∈ cohorts, c.loadNs.toNat < 2 ^ 62) (hmax : maxLoad llcs = some max)
    (hmin : minLoad llcs = some min)
    (hproduct : min.capacityNs.toNat * b.cfg.imbalancePct.toNat < 2 ^ 64)
    (hgap : min.capacityNs.toNat * b.cfg.imbalancePct.toNat / 100
      < max.loadNs.toNat - min.loadNs.toNat)
    (hstreak : b.cfg.confirmTicks ≤ b.streak + 1)
    : (∀ l ∈ llcs, min.loadNs.toNat ≤ l.loadNs.toNat ∧ l.loadNs.toNat ≤ max.loadNs.toNat)
        ∧ min.llc ≠ max.llc
        ∧ ((b.plan nowMs llcs cohorts).1 ≠ [] ↔ ∃ c ∈ cohorts, Admissible b nowMs max min c)
        ∧ ((∃ c, Best b nowMs max min cohorts c
            ∧ b.plan nowMs llcs cohorts
                =
              ([.moveCohort c.id min.llc],
                { b with lastMoveAt := b.lastMoveAt.insert c.id nowMs, streak := 0 }))
          ∨ b.plan nowMs llcs cohorts = ([], { b with streak := b.streak + 1 })) := by
  obtain ⟨hmaxmem, hmaxle⟩ := maxLoad_spec hmax
  obtain ⟨hminmem, hminle⟩ := minLoad_spec hmin
  have hle := hminle max hmaxmem
  have hmaxload := hloads max hmaxmem
  have hplan := plan_of_best nowMs cohorts hlength hmax hmin
    (overThreshold_of_gap hle hproduct hgap) hstreak
  refine ⟨fun l hl => ⟨hminle l hl, hmaxle l hl⟩, ne_of_gap hllcs hmaxmem hminmem (by omega), ?_⟩
  cases hbest : b.best nowMs max min cohorts with
  | some c =>
    have hc := best_some hle hmaxload hcohorts hbest
    rw [hbest] at hplan
    rw [hplan]
    constructor
    . exact ⟨fun _ => ⟨c, hc.mem, hc.admissible⟩, fun _ => List.cons_ne_nil _ _⟩
    . exact .inl ⟨c, hc, rfl⟩
  | none =>
    have hnone := best_none hle hmaxload hcohorts hbest
    rw [hbest] at hplan
    rw [hplan]
    constructor
    . constructor
      . intro h
        exact absurd rfl h
      . rintro ⟨c, hc, hadmissible⟩
        exact absurd hadmissible (hnone c hc)
    . exact .inr rfl

def busyLlcs : List LlcLoad :=
  [{ llc := 0, loadNs := 180000000, capacityNs := 200000000 },
    { llc := 1, loadNs := 20000000, capacityNs := 200000000 }]

def atHome (id : CohortId) (loadNs : UInt64) : CohortSnapshot :=
  { id := id, homeLlc := 0, pinned := false, nrTasks := 1, loadNs := loadNs, residencyMs := none }

def busyCohorts : List CohortSnapshot := [atHome 1 30000000, atHome 2 70000000, atHome 3 170000000]

-- Of the three, the one with 70 ms leaves the smallest difference, and the largest one is too large.
theorem seventy_moves
    : ∃ c, Best { streak := 1 } 5000 ⟨0, 180000000, 200000000⟩ ⟨1, 20000000, 200000000⟩ busyCohorts c
        ∧ (plan { streak := 1 } 5000 busyLlcs busyCohorts).1 = [.moveCohort c.id 1] := by
  have hloads : ∀ c ∈ busyCohorts, c.loadNs.toNat < 2 ^ 62 := by decide
  obtain ⟨_, _, _, hplan⟩ := plan_moves_best { streak := 1 } 5000 (by decide) (by decide)
    (by decide) hloads (rfl : maxLoad busyLlcs = some ⟨0, 180000000, 200000000⟩)
    (rfl : minLoad busyLlcs = some ⟨1, 20000000, 200000000⟩) (by decide) (by decide) (by decide)
  have hmoves : (plan { streak := 1 } 5000 busyLlcs busyCohorts).1 ≠ [] := by decide +kernel
  cases hplan with
  | inl hmove =>
    obtain ⟨c, hbest, hplan⟩ := hmove
    refine ⟨c, hbest, ?_⟩
    rw [hplan]
  | inr hnone =>
    rw [hnone] at hmoves
    exact absurd rfl hmoves

end Best

end Balancer
