import Xraft.ProtocolTypes
import Xraft.ClusterConfiguration
import Xraft.DurableStores
import Xraft.ConsensusEngine
import Xraft.NodeDriver
import Xraft.ServerRecovery
import Xraft.GuardedExecution
import Xraft.MajorityQuorum
import Xraft.ReplicatedCluster
import Xraft.EngineTransitions
import Xraft.EngineConstruction
import Xraft.PersistOrder
import Xraft.DriverJournal
import Xraft.ActionBatches
import Xraft.DriverTurns
import Xraft.DurableBeforeVisible
import Xraft.ElectionSafety
import Xraft.ApplyPipeline
import Xraft.RecoveredTip
import Xraft.LeaderStamps
import Xraft.LeaderLease
import Xraft.FaultFreeBatches
import Xraft.PositionedLog
import Xraft.RoleScopedState
import Xraft.ElectionMonotone
import Xraft.ApplyTiling
import Xraft.BatchFootprints
import Xraft.LeaderAppendOnly
import Xraft.PreVoteRounds
import Xraft.ActionOutcomes
import Xraft.BatchOutcomes
import Xraft.EngineOutlines
import Xraft.RunningTurns
import Xraft.OrderlyDriver
import Xraft.ProposalWaiters
import Xraft.SnapshotFidelity
import Xraft.OperatorSnapshots
import Xraft.ByteFrames
import Xraft.DecimalText
import Xraft.OrderedMaps
import Xraft.WriteAheadLog
import Xraft.CommitQuorum
import Xraft.ForeignTraffic
import Xraft.CheckQuorumWindow
import Xraft.DivergenceRounds
import Xraft.WorkerExclusion
import Xraft.SnapshotInstall
import Xraft.SnapshotFiles
import Xraft.SnapshotStores
import Xraft.RetainedMaps
import Xraft.SnapshotRetention
import Xraft.SnapshotTransfer
import Xraft.QuorumStateFile
import Xraft.VoterSetBootstrap
import Xraft.WalFrames
import Xraft.SegmentReplay
import Xraft.FileLogRefinement
import Xraft.CrashRecovery
import Xraft.QuorumStateLedger
import Xraft.EpochHistory
import Xraft.MirroredTip
import Xraft.SnapshotWindows
import Xraft.FallibleSteps
import Xraft.SnapshotDirectories
import Xraft.SnapshotCrashes
import Xraft.InterruptedOperations
import Xraft.CrashAtomicity
import Xraft.RepresentationInvariant
import Xraft.RequestLedger
import Xraft.EntryOrigins
