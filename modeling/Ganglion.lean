import Ganglion.Lib.OrdMap
import Ganglion.Lib.Arrivals
import Ganglion.Lib.Replay
import Ganglion.Lib.Scan
import Ganglion.Lib.Local
import Ganglion.Lib.Channel
import Ganglion.Lib.Json
import Ganglion.Lib.Text
import Ganglion.Lib.Stream
import Ganglion.Lib.Greedy
import Ganglion.Lib.Disk
import Ganglion.Lib.Arc
import Ganglion.Lib.Numeral
import Ganglion.Core.Types
import Ganglion.Core.Epoch
import Ganglion.Core.Placement
import Ganglion.Core.Replan
import Ganglion.Core.Balance
import Ganglion.Core.Followers
import Ganglion.Core.PlanEpochs
import Ganglion.Core.Durability
import Ganglion.Core.LocalRoles
import Ganglion.Coordination.InMemory
import Ganglion.Runtime.Command
import Ganglion.Runtime.Controller
import Ganglion.Runtime.GenerationCas
import Ganglion.Runtime.Heartbeat
import Ganglion.Runtime.Publication
import Ganglion.Runtime.Fleet
import Ganglion.Runtime.Raft
import Ganglion.Runtime.LogStore
import Ganglion.Runtime.Gapless
import Ganglion.Runtime.Wal
import Ganglion.Runtime.WalWriter
import Ganglion.Runtime.StateMachine
import Ganglion.Runtime.StepLaw
import Ganglion.Runtime.Merge
import Ganglion.Runtime.Counters
import Ganglion.Runtime.Incarnation
import Ganglion.Runtime.Serde
import Ganglion.Runtime.Watch
import Ganglion.Runtime.LeaderWatch
import Ganglion.Runtime.Replica
import Ganglion.Runtime.FileStore
import Ganglion.Runtime.WalTail
import Ganglion.Runtime.WalCompaction
import Ganglion.Runtime.WalReplay
import Ganglion.Runtime.SnapshotFile
import Ganglion.Runtime.SnapshotRuns
import Ganglion.Runtime.Recovery
import Ganglion.Runtime.SharedState
import Ganglion.Runtime.PowerLoss
import Ganglion.Runtime.Pipeline
import Ganglion.Runtime.Outage
import Ganglion.Runtime.Connection
import Ganglion.Runtime.OwnAnswer
import Ganglion.Runtime.Frames
import Ganglion.Runtime.RpcSteps
import Ganglion.Runtime.RpcTrace
import Ganglion.Runtime.Serve
import Ganglion.Runtime.PeerHealth
import Ganglion.Runtime.Suspicion
import Ganglion.Storage.MetadataLog
import Ganglion.Storage.Serde
import Ganglion.Storage.FileMetadataLog
import Ganglion.Storage.TailRecovery
import Ganglion.Storage.FileUpdate
import Ganglion.Storage.Keratin
import Ganglion.Storage.KeratinRuns
import Ganglion.Consensus.MetadataNode
import Ganglion.Consensus.NodeRuns
import Ganglion.Consensus.PlanAndApply
import Ganglion.Consensus.ReplayProfile
import Ganglion.Consensus.Sessions
import Ganglion.Runtime.Failover
