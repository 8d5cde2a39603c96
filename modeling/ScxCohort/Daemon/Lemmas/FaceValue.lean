import ScxCohort.Daemon.Lemmas.BestMove
import ScxCohort.Daemon.Lemmas.Coldest
import ScxCohort.Daemon.Lemmas.Load
import ScxCohort.Daemon.Options
import ScxCohort.Lib.Exact

/-!
This module contains when the numbers of the configuration are used as they are: the products that the
daemon takes of them, and the threshold that the balancer compares with.
-/

namespace Balancer

section Threshold

variable {b : Balancer} {nowMs : UInt64} {llcs : List LlcLoad} {cohorts : List CohortSnapshot}
  {max min : LlcLoad}

-- In `plan`.
def threshold (b : Balancer) (min : LlcLoad) : UInt64 := min.capacityNs * b.cfg.imbalancePct / 100

theorem overThreshold_iff : b.overThreshold max min = true ↔ b.threshold min < max.loadNs - min.loadNs :=
  decide_eq_true_iff

-- The balancer computes what is left of the gap after the cohort has moved.
structure Compares (b : Balancer) (nowMs : UInt64) (llcs : List LlcLoad) (cohorts : List CohortSnapshot)
    (max min : LlcLoad) (c : CohortSnapshot) : Prop where
  several : 2 ≤ llcs.length
  most : maxLoad llcs = some max
  least : minLoad llcs = some min
  exceeds : b.overThreshold max min = true
  confirmed : b.cfg.confirmTicks ≤ b.streak + 1
  mem : c ∈ cohorts
  movable : b.movable nowMs max min c = true

theorem exceeds_of_plan (h : (b.plan nowMs llcs cohorts).1 ≠ [])
    : 2 ≤ llcs.length ∧ ∃ max min, maxLoad llcs = some max ∧ minLoad llcs = some min
        ∧ b.overThreshold max min = true := by
  unfold plan at h
  split at h
  . contradiction
  next hlength =>
  split at h
  . next max min hmax hmin =>
    split at h
    . contradiction
    next hover =>
    exact ⟨Nat.not_lt.mp hlength, max, min, hmax, hmin, Decidable.not_not.mp hover⟩
  . contradiction

end Threshold

end Balancer

namespace Daemon

section FaceValue

-- What a tick works on besides the configuration.
structure TickInput where
  executed : LlcId → UInt64
  nowMs : UInt64
  cohorts : List CohortSnapshot
  lastMoveAt : HashTable CohortId UInt64
  streak : UInt32

def llcsAt (d : Scheduler) (i : TickInput) : List LlcLoad :=
  d.llcCpus.map fun e => { llc := e.1, loadNs := i.executed e.1, capacityNs := e.2 * d.intervalNs }

def balancerAt (d : Scheduler) (i : TickInput) : Balancer :=
  { d.balancer with lastMoveAt := i.lastMoveAt, streak := i.streak }

def tickOf (opts : Opts) : Nat := opts.intervalMs.toNat * 1000000

def capacityOf (opts : Opts) (l : Llc) : Nat := l.allCpus.length * tickOf opts

-- Everything is computed as with integers.
structure FaceValue (opts : Opts) (topo : Topology) (g : Globals) (d : Scheduler) (i : TickInput)
    : Prop where
  slice : g.sliceNs.toNat = opts.sliceUs.toNat * 1000
  stealDelay : g.tunables.stealDelayNs.toNat = opts.stealDelayUs.toNat * 1000
  tick : d.intervalNs.toNat = tickOf opts
  spillTick : d.spillCfg.tickNs.toNat = tickOf opts
  capacity : ∀ l ∈ topo.allLlcs, ∀ load ∈ llcsAt d i, load.llc = l.id
    → load.capacityNs.toNat = capacityOf opts l
  threshold : 2 ≤ (llcsAt d i).length → ∀ min, Balancer.minLoad (llcsAt d i) = some min
    → ((balancerAt d i).threshold min).toNat = min.capacityNs.toNat * opts.imbalancePct.toNat / 100
  marks : 2 ≤ (llcsAt d i).length → ∀ c ∈ i.cohorts, ∀ load ∈ llcsAt d i, load.llc = c.homeLlc
    → (highMark d.spillCfg load.capacityNs).toNat = load.capacityNs.toNat * 95 / 100
      ∧ (lowMark d.spillCfg load.capacityNs).toNat = load.capacityNs.toNat * 75 / 100
      ∧ (Spill.coldCeiling d.spillCfg).toNat = d.spillCfg.tickNs.toNat * 25 / 100
  gap : ∀ max min c, (balancerAt d i).Compares i.nowMs (llcsAt d i) i.cohorts max min c
    → ((max.loadNs - min.loadNs).toInt64 - 2 * c.loadNs.toInt64).toInt
        = (max.loadNs.toNat : Int) - min.loadNs.toNat - 2 * c.loadNs.toNat
  moves : ((balancerAt d i).plan i.nowMs (llcsAt d i) i.cohorts).1 ≠ []
    → ∃ max min, Balancer.maxLoad (llcsAt d i) = some max ∧ Balancer.minLoad (llcsAt d i) = some min
      ∧ min.capacityNs.toNat * opts.imbalancePct.toNat < (max.loadNs.toNat - min.loadNs.toNat) * 100

-- The exact results fit their words.
structure InRange (opts : Opts) (topo : Topology) (d : Scheduler) (i : TickInput) : Prop where
  slice : opts.sliceUs.toNat * 1000 < 2 ^ 64
  stealDelay : opts.stealDelayUs.toNat * 1000 < 2 ^ 64
  tick : tickOf opts < 2 ^ 64
  capacity : ∀ l ∈ topo.allLlcs, capacityOf opts l < 2 ^ 64
  threshold : 2 ≤ topo.allLlcs.length → ∀ l ∈ topo.allLlcs,
    (Balancer.minLoad (llcsAt d i)).map (·.llc) = some l.id
      → capacityOf opts l * opts.imbalancePct.toNat < 2 ^ 64
  marks : 2 ≤ topo.allLlcs.length → ∀ c ∈ i.cohorts, ∀ l ∈ topo.allLlcs, l.id = c.homeLlc
    → capacityOf opts l * 95 < 2 ^ 64 ∧ tickOf opts * 25 < 2 ^ 64
  gap : ∀ max min c, (balancerAt d i).Compares i.nowMs (llcsAt d i) i.cohorts max min c
    → - 2 ^ 63 ≤ (max.loadNs.toNat : Int) - min.loadNs.toNat - 2 * c.loadNs.toNat
      ∧ (max.loadNs.toNat : Int) - min.loadNs.toNat - 2 * c.loadNs.toNat < 2 ^ 63

end FaceValue

section Loads

theorem llcReports_eq (s : Maps) (tickNs : UInt64) (prev : HashTable LlcId UInt64)
    {cpus : List (LlcId × UInt64)} (h : (cpus.map (·.1)).Nodup)
    : llcReports s tickNs prev cpus
        =
      cpus.map fun e => { llc := e.1, loadNs := executedSince s prev e.1, capacityNs := e.2 * tickNs } := by
  induction cpus generalizing prev with
  | nil => rfl
  | cons cpu cpus ih =>
    obtain ⟨llc, n⟩ := cpu
    rw [List.map_cons, List.nodup_cons] at h
    unfold llcReports
    rw [ih _ h.2, List.map_cons]
    congr 1
    apply List.map_congr_left
    intro e he
    have hne : e.1 ≠ llc := fun heq => h.1 (List.mem_map.mpr ⟨e, he, heq⟩)
    unfold executedSince
    rw [HashTable.lookup_insert_eq, if_neg hne]

-- What the LLCs executed comes from the maps, the rest from the configuration.
theorem exec_llcLoads_llcsAt (d : Scheduler) (s : Maps) (i : TickInput) (h : (d.llcCpus.map (·.1)).Nodup)
    : exec llcLoads d s
        =
      (.ok (llcsAt d { i with executed := executedSince s d.prevLlcLoad },
        { d with prevLlcLoad := remembered s d.prevLlcLoad d.llcCpus }), s) := by
  unfold llcsAt
  rw [exec_llcLoads, llcReports_eq s d.intervalNs d.prevLlcLoad h]

end Loads

section Started

variable {opts : Opts} {config : FileConfig ℚ} {topo : Topology} {i : TickInput} {l : Llc}

def loadAt (opts : Opts) (i : TickInput) (l : Llc) : LlcLoad :=
  { llc := l.id, loadNs := i.executed l.id, capacityNs := UInt64.ofNat l.allCpus.length * opts.intervalNs }

theorem llcsAt_scheduler : llcsAt (scheduler opts config topo) i = topo.allLlcs.map (loadAt opts i) := by
  show (topo.allLlcs.map _).map _ = _
  rw [List.map_map]
  rfl

theorem length_llcsAt : (llcsAt (scheduler opts config topo) i).length = topo.allLlcs.length := by
  rw [llcsAt_scheduler, List.length_map]

theorem length_allCpus_le (h : topo.nrCpus ≤ maxCpus) (hl : l ∈ topo.allLlcs)
    : l.allCpus.length ≤ maxCpus := by
  have hsub : l.allCpus ⊆ List.range topo.nrCpus := by
    intro cpu hcpu
    have hmax := List.le_max?_getD_of_mem (k := 0) (topo.known l hl cpu hcpu)
    exact List.mem_range.mpr (Nat.lt_succ_of_le hmax)
  have hle := ((topo.nodup l hl).subperm hsub).length_le
  rw [List.length_range] at hle
  exact le_trans hle h

theorem toNat_intervalNs_iff : opts.intervalNs.toNat = tickOf opts ↔ tickOf opts < 2 ^ 64 := by
  have htick : opts.intervalNs.toNat = tickOf opts % 2 ^ 64 := UInt64.toNat_ofNat'
  rw [htick]
  constructor
  . intro h
    rw [← h]
    exact Nat.mod_lt _ (by decide)
  . exact Nat.mod_eq_of_lt

theorem toNat_capacityNs_iff (hcpus : topo.nrCpus ≤ maxCpus) (htick : tickOf opts < 2 ^ 64)
    (hl : l ∈ topo.allLlcs)
    : (loadAt opts i l).capacityNs.toNat = capacityOf opts l ↔ capacityOf opts l < 2 ^ 64 := by
  have hle := length_allCpus_le hcpus hl
  have hlength : (UInt64.ofNat l.allCpus.length).toNat = l.allCpus.length := by
    rw [UInt64.toNat_ofNat']
    apply Nat.mod_eq_of_lt
    unfold maxCpus at hle
    omega
  have hiff := UInt64.toNat_mul_eq_iff (a := UInt64.ofNat l.allCpus.length) (b := opts.intervalNs)
  rw [hlength, toNat_intervalNs_iff.mpr htick] at hiff
  exact hiff

theorem mem_llcsAt {load : LlcLoad} (h : load ∈ llcsAt (scheduler opts config topo) i)
    : ∃ l ∈ topo.allLlcs, loadAt opts i l = load := by
  rw [llcsAt_scheduler] at h
  exact List.mem_map.mp h

theorem loadAt_mem (hl : l ∈ topo.allLlcs)
    : loadAt opts i l ∈ llcsAt (scheduler opts config topo) i := by
  rw [llcsAt_scheduler]
  exact List.mem_map_of_mem hl

theorem eq_of_id {l' : Llc} (hl : l ∈ topo.allLlcs) (hl' : l' ∈ topo.allLlcs) (h : l.id = l'.id)
    : l = l' :=
  List.inj_on_of_nodup_map (topo.sorted.imp fun hlt => UInt32.ne_of_lt hlt) hl hl' h

theorem threshold_iff (hcap : (loadAt opts i l).capacityNs.toNat = capacityOf opts l)
    : ((balancerAt (scheduler opts config topo) i).threshold (loadAt opts i l)).toNat
          = (loadAt opts i l).capacityNs.toNat * opts.imbalancePct.toNat / 100
        ↔
      capacityOf opts l * opts.imbalancePct.toNat < 2 ^ 64 := by
  rw [← hcap]
  exact UInt64.toNat_percent_eq_iff

theorem marks_iff (hcap : (loadAt opts i l).capacityNs.toNat = capacityOf opts l)
    (htick : (scheduler opts config topo).spillCfg.tickNs.toNat = tickOf opts)
    : ((highMark (scheduler opts config topo).spillCfg (loadAt opts i l).capacityNs).toNat
            = (loadAt opts i l).capacityNs.toNat * 95 / 100
          ∧ (lowMark (scheduler opts config topo).spillCfg (loadAt opts i l).capacityNs).toNat
            = (loadAt opts i l).capacityNs.toNat * 75 / 100
          ∧ (Spill.coldCeiling (scheduler opts config topo).spillCfg).toNat
            = (scheduler opts config topo).spillCfg.tickNs.toNat * 25 / 100)
        ↔
      capacityOf opts l * 95 < 2 ^ 64 ∧ tickOf opts * 25 < 2 ^ 64 := by
  have hhigh := UInt64.toNat_percent_eq_iff (a := (loadAt opts i l).capacityNs) (b := 95)
  have hlow := UInt64.toNat_percent_eq_iff (a := (loadAt opts i l).capacityNs) (b := 75)
  have hcold := UInt64.toNat_percent_eq_iff (a := (scheduler opts config topo).spillCfg.tickNs) (b := 25)
  rw [← hcap, ← htick]
  constructor
  . rintro ⟨h95, _, h25⟩
    exact ⟨hhigh.mp h95, hcold.mp h25⟩
  . rintro ⟨h95, h25⟩
    refine ⟨hhigh.mpr h95, hlow.mpr (Nat.lt_of_le_of_lt ?_ h95), hcold.mpr h25⟩
    exact Nat.mul_le_mul_left _ (by decide)

-- The most loaded one has at least the load of the least loaded one.
theorem gap_iff {b : Balancer} {nowMs : UInt64} {llcs : List LlcLoad} {cohorts : List CohortSnapshot}
    {max min : LlcLoad} {c : CohortSnapshot} (h : b.Compares nowMs llcs cohorts max min c)
    : ((max.loadNs - min.loadNs).toInt64 - 2 * c.loadNs.toInt64).toInt
          = (max.loadNs.toNat : Int) - min.loadNs.toNat - 2 * c.loadNs.toNat
        ↔
      - 2 ^ 63 ≤ (max.loadNs.toNat : Int) - min.loadNs.toNat - 2 * c.loadNs.toNat
        ∧ (max.loadNs.toNat : Int) - min.loadNs.toNat - 2 * c.loadNs.toNat < 2 ^ 63 := by
  have hle := (Balancer.minLoad_spec h.least).2 max (Balancer.maxLoad_spec h.most).1
  have hgap : ((max.loadNs - min.loadNs).toNat : Int) = max.loadNs.toNat - min.loadNs.toNat := by
    rw [Balancer.toNat_gap hle]
    omega
  rw [← hgap]
  exact Int64.toInt_sub_double_eq_iff

theorem inRange_of_faceValue (hcpus : topo.nrCpus ≤ maxCpus)
    (h : FaceValue opts topo (globals opts topo) (scheduler opts config topo) i)
    : InRange opts topo (scheduler opts config topo) i := by
  have htick := toNat_intervalNs_iff.mp h.tick
  have hcap : ∀ l ∈ topo.allLlcs, (loadAt opts i l).capacityNs.toNat = capacityOf opts l := by
    intro l hl
    exact h.capacity l hl _ (loadAt_mem hl) rfl
  constructor
  . exact UInt64.toNat_mul_eq_iff.mp h.slice
  . exact UInt64.toNat_mul_eq_iff.mp h.stealDelay
  . exact htick
  . intro l hl
    exact (toNat_capacityNs_iff hcpus htick hl).mp (hcap l hl)
  . intro htwo l hl hleast
    obtain ⟨min, hmin, hid⟩ := Option.map_eq_some_iff.mp hleast
    obtain ⟨l', hl', rfl⟩ := mem_llcsAt (Balancer.minLoad_spec hmin).1
    obtain rfl := eq_of_id hl' hl hid
    exact (threshold_iff (hcap l' hl)).mp (h.threshold (by rw [length_llcsAt]; exact htwo) _ hmin)
  . intro htwo c hc l hl hid
    exact (marks_iff (hcap l hl) h.spillTick).mp
      (h.marks (by rw [length_llcsAt]; exact htwo) c hc _ (loadAt_mem hl) hid)
  . intro max min c hcompares
    exact (gap_iff hcompares).mp (h.gap max min c hcompares)

theorem faceValue_of_inRange (hcpus : topo.nrCpus ≤ maxCpus)
    (h : InRange opts topo (scheduler opts config topo) i)
    : FaceValue opts topo (globals opts topo) (scheduler opts config topo) i := by
  have hspill : (scheduler opts config topo).spillCfg.tickNs.toNat = tickOf opts :=
    UInt64.toNat_mul_eq_iff.mpr h.tick
  have hcap : ∀ l ∈ topo.allLlcs, (loadAt opts i l).capacityNs.toNat = capacityOf opts l := by
    intro l hl
    exact (toNat_capacityNs_iff hcpus h.tick hl).mpr (h.capacity l hl)
  have hthreshold : 2 ≤ (llcsAt (scheduler opts config topo) i).length → ∀ min,
      Balancer.minLoad (llcsAt (scheduler opts config topo) i) = some min
        → ((balancerAt (scheduler opts config topo) i).threshold min).toNat
          = min.capacityNs.toNat * opts.imbalancePct.toNat / 100 := by
    intro htwo min hmin
    rw [length_llcsAt] at htwo
    obtain ⟨l, hl, rfl⟩ := mem_llcsAt (Balancer.minLoad_spec hmin).1
    apply (threshold_iff (hcap l hl)).mpr
    apply h.threshold htwo l hl
    rw [hmin]
    rfl
  constructor
  . exact UInt64.toNat_mul_eq_iff.mpr h.slice
  . exact UInt64.toNat_mul_eq_iff.mpr h.stealDelay
  . exact toNat_intervalNs_iff.mpr h.tick
  . exact hspill
  . intro l hl load hload hid
    obtain ⟨l', hl', rfl⟩ := mem_llcsAt hload
    obtain rfl := eq_of_id hl' hl hid
    exact hcap l' hl
  . exact hthreshold
  . intro htwo c hc load hload hid
    rw [length_llcsAt] at htwo
    obtain ⟨l, hl, rfl⟩ := mem_llcsAt hload
    exact (marks_iff (hcap l hl) hspill).mpr (h.marks htwo c hc l hl hid)
  . intro max min c hcompares
    exact (gap_iff hcompares).mpr (h.gap max min c hcompares)
  . intro hmoves
    obtain ⟨htwo, max, min, hmax, hmin, hover⟩ := Balancer.exceeds_of_plan hmoves
    refine ⟨max, min, hmax, hmin, ?_⟩
    have hle := (Balancer.minLoad_spec hmin).2 max (Balancer.maxLoad_spec hmax).1
    rw [Balancer.overThreshold_iff, UInt64.lt_iff_toNat_lt, hthreshold htwo min hmin,
      Balancer.toNat_gap hle]
      at hover
    omega

theorem init_ok {host : Host} {g : Globals} {d : Scheduler} (h : init opts config host = .ok (g, d))
    : ∃ topo, host.topology = some topo ∧ topo.nrCpus ≤ maxCpus ∧ g = globals opts topo
        ∧ d = scheduler opts config topo := by
  unfold init at h
  split at h
  . contradiction
  split at h
  . contradiction
  next topo htopo =>
  split at h
  . contradiction
  split at h
  . contradiction
  split at h
  . contradiction
  next hcpus =>
  split at h
  . contradiction
  . rw [Except.ok.injEq, Prod.mk.injEq] at h
    exact ⟨topo, htopo, Nat.not_lt.mp hcpus, h.1.symm, h.2.symm⟩

theorem start_ok {glob : List Char → Option (List Char → Bool)} {source : ConfigSource}
    {fromCli : CliFlag → Bool} {cli : Opts} {host : Host} {g : Globals} {d : Scheduler}
    (h : start glob source fromCli cli host = .ok (opts, g, d))
    : ∃ config, init opts config host = .ok (g, d) := by
  unfold start at h
  cases hload : cli.loadConfig glob source fromCli with
  | error e =>
    rw [hload] at h
    contradiction
  | ok loaded =>
    cases hinit : init loaded.1 loaded.2 host with
    | error e =>
      rw [hload] at h
      dsimp only [Except.bind, bind] at h
      rw [hinit] at h
      contradiction
    | ok started =>
      rw [hload] at h
      dsimp only [Except.bind, bind] at h
      rw [hinit] at h
      dsimp only [Except.bind, bind, pure, Except.pure] at h
      rw [Except.ok.injEq, Prod.mk.injEq, Prod.mk.injEq] at h
      obtain ⟨rfl, rfl, rfl⟩ := h
      exact ⟨loaded.2, hinit⟩

end Started

section Configured

variable (glob : List Char → Option (List Char → Bool)) (source : ConfigSource)
    (fromCli : CliFlag → Bool)
  (cli : Opts) (host : Host) (i : TickInput)

def AtFaceValue : Prop :=
  ∀ opts g d topo, start glob source fromCli cli host = .ok (opts, g, d) → host.topology = some topo
    → FaceValue opts topo g d i

def NumbersInRange : Prop :=
  ∀ opts g d topo, start glob source fromCli cli host = .ok (opts, g, d) → host.topology = some topo
    → InRange opts topo d i

theorem at_face_value_iff
    : AtFaceValue glob source fromCli cli host i ↔ NumbersInRange glob source fromCli cli host i := by
  have hstarted : ∀ {opts g d topo}, start glob source fromCli cli host = .ok (opts, g, d)
      → host.topology = some topo → (FaceValue opts topo g d i ↔ InRange opts topo d i) := by
    intro opts g d topo hstart htopo
    obtain ⟨config, hinit⟩ := start_ok hstart
    obtain ⟨topo', htopo', hcpus, rfl, rfl⟩ := init_ok hinit
    rw [htopo', Option.some.injEq] at htopo
    rw [← htopo]
    exact ⟨inRange_of_faceValue hcpus, faceValue_of_inRange hcpus⟩
  constructor
  . intro h opts g d topo hstart htopo
    exact (hstarted hstart htopo).mp (h opts g d topo hstart htopo)
  . intro h opts g d topo hstart htopo
    exact (hstarted hstart htopo).mpr (h opts g d topo hstart htopo)

end Configured

section SwitchedOff

-- A percentage so high that nothing should ever move.
def switchedOff : Toml.Document ℚ where
  entries := [("options".toList, .table [("imbalance_pct".toList, .integer 92233720369)])]
  wellFormed := by decide

def twoCpus : Topology where
  allCpus := [⟨0, 0⟩, ⟨1, 1⟩]
  allLlcs := [⟨0, [0]⟩, ⟨1, [1]⟩]
  sorted := by decide
  nodup := by decide
  known := by decide

-- A twentieth of a CPU's time is the gap, and the cohort is half of that.
def slightGap : TickInput where
  executed := fun llc => if llc = 0 then 10000000 else 0
  nowMs := 5000
  cohorts := [Balancer.atHome 1 5000000]
  lastMoveAt := ∅
  streak := 1

def switchedOffOpts : Opts := { imbalancePct := 92233720369 }

def switchedOffScheduler : Scheduler :=
  scheduler switchedOffOpts { options := { imbalancePct := some 92233720369 } } twoCpus

def slightLlcs : List LlcLoad := [⟨0, 10000000, 200000000⟩, ⟨1, 0, 200000000⟩]

theorem switchedOff_moves
    : ¬ AtFaceValue (fun _ => none) (.document switchedOff) (fun _ => false) {} { topology := some twoCpus }
        slightGap := by
  intro h
  have hface : FaceValue switchedOffOpts twoCpus (globals switchedOffOpts twoCpus) switchedOffScheduler
      slightGap :=
    h _ _ _ _ rfl rfl
  obtain ⟨max, min, hmax, hmin, hexceeds⟩ := hface.moves (by decide +kernel)
  have hllcs : llcsAt switchedOffScheduler slightGap = slightLlcs := rfl
  rw [hllcs] at hmax hmin
  have hmost : Balancer.maxLoad slightLlcs = some ⟨0, 10000000, 200000000⟩ := by decide +kernel
  have hleast : Balancer.minLoad slightLlcs = some ⟨1, 0, 200000000⟩ := by decide +kernel
  rw [hmost, Option.some.injEq] at hmax
  rw [hleast, Option.some.injEq] at hmin
  rw [← hmax, ← hmin] at hexceeds
  revert hexceeds
  decide +kernel

end SwitchedOff

end Daemon
