import ScxCohort.Lib.BoundedMap
import ScxCohort.Common
import ScxCohort.Lib.Proc
import ScxCohort.Bpf.State
import ScxCohort.Bpf.Callbacks
import ScxCohort.Bpf.Lemmas.Frame
import ScxCohort.Bpf.Lemmas.Vtime
import ScxCohort.Bpf.Lemmas.Enqueue
import ScxCohort.Bpf.Lemmas.Credit
import ScxCohort.Bpf.Lemmas.Admit
import ScxCohort.Bpf.Lemmas.Capacity
import ScxCohort.Bpf.Lemmas.Lineage
import ScxCohort.Bpf.Lemmas.Frontier
import ScxCohort.Daemon.Balancer
import ScxCohort.Lib.Transfer
import ScxCohort.Daemon.Lemmas.Balancer
import ScxCohort.Lib.UnionFind
import ScxCohort.Daemon.WakeGraph
import ScxCohort.Daemon.Scheduler
import ScxCohort.Daemon.Lemmas.WakeGraph
import ScxCohort.Daemon.Lemmas.Exec
import ScxCohort.Daemon.Lemmas.Load
import ScxCohort.Daemon.Lemmas.Spill
import ScxCohort.Daemon.System
import ScxCohort.Daemon.Lemmas.Holds
import ScxCohort.Daemon.Lemmas.Fork
import ScxCohort.Daemon.Lemmas.Dangling
import ScxCohort.Bpf.Lemmas.Steal
import ScxCohort.Bpf.Lemmas.Serve
import ScxCohort.Bpf.Lemmas.Overtake
import ScxCohort.Bpf.Lemmas.Refresh
import ScxCohort.Bpf.Lemmas.Roster
import ScxCohort.Daemon.Lemmas.Frame
import ScxCohort.Daemon.Lemmas.Members
import ScxCohort.Daemon.Lemmas.Regroup
import ScxCohort.Daemon.Lemmas.Full
import ScxCohort.Daemon.Lemmas.Hysteresis
import ScxCohort.Daemon.Lemmas.Sticky
import ScxCohort.Daemon.Lemmas.Mirror
import ScxCohort.Daemon.Lemmas.Collect
import ScxCohort.Daemon.Lemmas.Components
import ScxCohort.Bpf.Lemmas.Affinity
import ScxCohort.Daemon.Lemmas.Naming
import ScxCohort.Bpf.Lemmas.Landing
import ScxCohort.Daemon.Lemmas.Homes
import ScxCohort.Daemon.Lemmas.Pin
import ScxCohort.Daemon.Lemmas.Merges
import ScxCohort.Daemon.Lemmas.Sustained
import ScxCohort.Daemon.Lemmas.Coldest
import ScxCohort.Bpf.Lemmas.Ladder
import ScxCohort.Daemon.Lemmas.BestMove
import ScxCohort.Bpf.Lemmas.Clocks
import ScxCohort.Daemon.Lemmas.Observe
import ScxCohort.Daemon.Lemmas.Sampling
import ScxCohort.Daemon.Lemmas.HomeTime
import ScxCohort.Daemon.Lemmas.Rules
import ScxCohort.Daemon.Config
import ScxCohort.Daemon.Lemmas.Grammar
import ScxCohort.Lib.Utf8.Encode
import ScxCohort.Lib.Utf8.Segment
import ScxCohort.Daemon.Lemmas.Comm
import ScxCohort.Lib.Utf8.Slice
import ScxCohort.Daemon.Top
import ScxCohort.Daemon.Options
import ScxCohort.Daemon.Lemmas.FaceValue
import ScxCohort.Daemon.Lemmas.Meets
import ScxCohort.Daemon.Lemmas.Orderly
import ScxCohort.Daemon.Lemmas.Births
import ScxCohort.Daemon.Lemmas.Unique
import ScxCohort.Daemon.Lemmas.Conserve
import ScxCohort.Daemon.Service
import ScxCohort.Daemon.Lemmas.Monitor
import ScxCohort.Daemon.Lemmas.Procs
