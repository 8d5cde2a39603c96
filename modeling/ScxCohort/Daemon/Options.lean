import ScxCohort.Daemon.Config

/-!
This module contains how the daemon starts (`main.rs`): the command line and the configuration file
folded into one set of options, and what the BPF component and the daemon are given from it.
-/

structure Opts where
  sliceUs : UInt64 := 5000
  intervalMs : UInt64 := 200
  stealMin : UInt64 := 2
  stealDelayUs : UInt64 := 500
  imbalancePct : UInt64 := 20
  residencyMs : UInt64 := 2000
  mergeWakesPerSec : ℚ := 300

-- The flags that have a value.
inductive CliFlag where
  | sliceUs
  | intervalMs
  | stealMin
  | stealDelayUs
  | imbalancePct
  | residencyMs
  | mergeWakesPerSec
  | config

-- `--config` names a path. There need not be a file at the default one.
inductive ConfigSource where
  | absent
  | malformed
  | document (doc : Toml.Document ℚ)

inductive StartErr where
  | config (e : ConfigErr)
  -- "config file {:?} not found"
  | configNotFound
  -- "scx_cohort must run as root to load its BPF scheduler ..."
  | notRoot
  -- "failed to discover topology"
  | noTopology
  -- "multi-node (NUMA) systems are out of scope for scx_cohort v1"
  | multiNode
  -- "{} LLCs exceeds MAX_LLCS ({})"
  | tooManyLlcs (n : Nat)
  -- "CPU id range {} exceeds MAX_CPUS ({})"
  | cpuIdRange (n : Nat)
  -- "BPF load failed ..."
  | loadFailed
  deriving DecidableEq

structure Cpu where
  id : Nat
  llcId : LlcId

structure Llc where
  id : LlcId
  allCpus : List Nat

-- The maps of the topology, by ascending ids. An LLC has CPUs of the machine only.
structure Topology where
  nodes : Nat := 1
  allCpus : List Cpu
  allLlcs : List Llc
  sorted : (allLlcs.map (·.id)).Pairwise (· < ·)
  nodup : ∀ l ∈ allLlcs, l.allCpus.Nodup
  known : ∀ l ∈ allLlcs, ∀ cpu ∈ l.allCpus, cpu ∈ allCpus.map (·.id)

structure Host where
  root : Bool := true
  topology : Option Topology
  attaches : Bool := true

namespace Opts

section LoadConfig

-- A value of the file counts where the flag was not given.
def pick {α : Type} (fromCli : Bool) (value : Option α) (cli : α) : α :=
  if fromCli then cli else value.getD cli

def apply (fromCli : CliFlag → Bool) (o : OptionsTable ℚ) (opts : Opts) : Opts where
  sliceUs := pick (fromCli .sliceUs) o.sliceUs opts.sliceUs
  intervalMs := pick (fromCli .intervalMs) o.intervalMs opts.intervalMs
  stealMin := pick (fromCli .stealMin) o.stealMin opts.stealMin
  stealDelayUs := pick (fromCli .stealDelayUs) o.stealDelayUs opts.stealDelayUs
  imbalancePct := pick (fromCli .imbalancePct) o.imbalancePct opts.imbalancePct
  residencyMs := pick (fromCli .residencyMs) o.residencyMs opts.residencyMs
  mergeWakesPerSec := pick (fromCli .mergeWakesPerSec) o.mergeWakesPerSec opts.mergeWakesPerSec

def loadConfig (glob : List Char → Option (List Char → Bool)) (source : ConfigSource)
    (fromCli : CliFlag → Bool)
    (opts : Opts) : Except StartErr (Opts × FileConfig ℚ) :=
  match source with
  | .document doc =>
    match Config.parse glob doc with
    | .ok cfg => .ok (opts.apply fromCli cfg.options, cfg)
    | .error e => .error (.config e)
  | .malformed => .error (.config .malformed)
  | .absent =>
    if fromCli .config then
      .error .configNotFound
    else
      .ok (opts.apply fromCli {}, {})

end LoadConfig

section Init

def tunables (opts : Opts) : Tunables :=
  { stealMin := opts.stealMin, stealDelayNs := opts.stealDelayUs * 1000 }

-- `Duration::from_millis` and `as_nanos() as u64`.
def intervalNs (opts : Opts) : UInt64 := UInt64.ofNat (opts.intervalMs.toNat * 1000000)

end Init

end Opts

namespace Topology

variable (topo : Topology)

def nrCpus : Nat := ((topo.allCpus.map (·.id)).max?).getD 0 + 1

def cpuLlcId (cpu : Nat) : LlcId := ((topo.allCpus.find? fun c => c.id = cpu).map (·.llcId)).getD 0

def llcCpus : List (LlcId × UInt64) := topo.allLlcs.map fun l => (l.id, UInt64.ofNat l.allCpus.length)

end Topology

namespace Daemon

def globals (opts : Opts) (topo : Topology) : Globals where
  sliceNs := opts.sliceUs * 1000
  nrCpus := topo.nrCpus
  nrLlcs := UInt32.ofNat topo.allLlcs.length
  cpuLlcId := topo.cpuLlcId
  tunables := opts.tunables

def scheduler (opts : Opts) (config : FileConfig ℚ) (topo : Topology) : Scheduler where
  intervalNs := opts.intervalNs
  balancer := Balancer.new
    { imbalancePct := opts.imbalancePct, confirmTicks := 2, residencyMs := opts.residencyMs }
  llcCpus := topo.llcCpus
  wakeGraph := { cfg := { mergeWakesPerSec := opts.mergeWakesPerSec } }
  sampleMult := sampleMult opts.tunables
  config := config.toConfig
  spillCfg := { tickNs := opts.intervalMs * 1000000 }

def init (opts : Opts) (config : FileConfig ℚ) (host : Host) : Except StartErr (Globals × Scheduler) :=
  if ¬ host.root then
    .error .notRoot
  else
    match host.topology with
    | none => .error .noTopology
    | some topo =>
      if topo.nodes > 1 then
        .error .multiNode
      else if topo.allLlcs.length > maxLlcs then
        .error (.tooManyLlcs topo.allLlcs.length)
      else if topo.nrCpus > maxCpus then
        .error (.cpuIdRange topo.nrCpus)
      else if ¬ host.attaches then
        .error .loadFailed
      else
        .ok (globals opts topo, scheduler opts config topo)

-- Up to the first `Scheduler::run`.
def start (glob : List Char → Option (List Char → Bool)) (source : ConfigSource)
    (fromCli : CliFlag → Bool)
    (cli : Opts) (host : Host) : Except StartErr (Opts × Globals × Scheduler) := do
  let (opts, config) ← cli.loadConfig glob source fromCli
  let (g, d) ← init opts config host
  return (opts, g, d)

end Daemon
