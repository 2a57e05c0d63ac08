import Xraft.NodeDriver

/-! # Server start and recovery

The engine that `start_with_state_machine` rebuilds from the three stores, and the driver's recovery
drain before its first turn.
-/
namespace ServerRecovery

open ProtocolTypes ClusterConfiguration ConsensusEngine DurableStores NodeDriver

/-- The engine seeded from the stores. The log tip is taken from the log store alone. -/
def recoverNode (config : ClusterConfig) (voterSet : Option VoterSet) (rng : List ℕ)
    (hsStore : Option HardState) (logStore : MemoryLogStore)
    (snapshotMeta : Option SnapshotMeta) : RaftNode :=
  let fresh := RaftNode.build config voterSet rng
  let loaded := RaftNode.setLastLog { fresh with hardState := hsStore.getD fresh.hardState }
    logStore.lastIndex logStore.lastTerm
  let snapIndex := (snapshotMeta.map SnapshotMeta.lastIncludedIndex).getD 0
  let persistedCommit := min loaded.hardState.commitIndex logStore.lastIndex
  { loaded with
    commitIndex := max (max loaded.commitIndex snapIndex) persistedCommit
    lastApplied := max loaded.lastApplied snapIndex
    lastSnapshotMeta := snapshotMeta }

def threeVoterConfig (lease : Bool) (n : NodeId) : ClusterConfig where
  nodeId := n
  clusterId := "c"
  voters := sampleVoters
  electionTimeoutMinMs := 20
  electionTimeoutMaxMs := 30
  fetchIntervalMs := 10
  enableCheckQuorum := lease
  enableLeaderLease := lease

def threeVoterSet : VoterSet := .ofRecords sampleRecords

variable {σ : Type} [StateMachine σ]

structure Durable where
  logStore : MemoryLogStore
  hsStore : Option HardState
  snapshotStore : MemorySnapshotStore
  trace : List Effect

def durable (d : Driver σ) : Durable := ⟨d.logStore, d.hsStore, d.snapshotStore, d.trace⟩

def Durable.fresh : Durable := ⟨.new, none, .new, []⟩

def boot (config : ClusterConfig) (voterSet : Option VoterSet) (rng : List ℕ) (maxFetchBatch : ℕ)
    (faults : List (Option Fault)) (store : Durable) (stateMachine : σ)
    (snapshotMeta : Option SnapshotMeta) : Driver σ :=
  { node := recoverNode config voterSet rng store.hsStore store.logStore snapshotMeta
    logStore := store.logStore
    hsStore := store.hsStore
    snapshotStore := store.snapshotStore
    stateMachine := stateMachine
    pending := []
    pendingReads := []
    maxFetchBatch := maxFetchBatch
    haltReason := none
    snapshotWorkerInFlight := false
    snapshotJobs := []
    snapshotDone := []
    faults := faults
    trace := store.trace }

/-- The recovery drain: entries that the recovered commit index covers are applied before the first
turn. -/
def recoveryDrain (d : Driver σ) : Driver σ :=
  let drained := (Driver.processActions { d with node := d.node.drainApplyPipeline.1 }
    d.node.drainApplyPipeline.2 none).1
  if drained.haltReason.isSome then drained.failStopShutdown else drained

def start (config : ClusterConfig) (voterSet : Option VoterSet) (rng : List ℕ) (maxFetchBatch : ℕ)
    (initial : σ) (faults : List (Option Fault)) (store : Durable) : Driver σ :=
  match store.snapshotStore.loadLatestSnapshot with
  | none => recoveryDrain (boot config voterSet rng maxFetchBatch faults store initial none)
  | some (snap, data) =>
    match StateMachine.restore initial data with
    | .ok sm => recoveryDrain (boot config voterSet rng maxFetchBatch faults store sm (some snap))
    | .error e => (boot config voterSet rng maxFetchBatch faults store initial (some snap)).halt
        ("state_machine.restore: " ++ e.display)

theorem start_fresh (config : ClusterConfig) (voterSet : Option VoterSet) (rng : List ℕ)
    (maxFetchBatch : ℕ) (initial : σ) (faults : List (Option Fault)) :
    start config voterSet rng maxFetchBatch initial faults Durable.fresh =
      boot config voterSet rng maxFetchBatch faults Durable.fresh initial none := by
  simp [start, recoveryDrain, boot, recoverNode, Durable.fresh, RaftNode.build, RaftNode.setLastLog,
    MemorySnapshotStore.new, MemorySnapshotStore.loadLatestSnapshot, MemoryLogStore.new,
    MemoryLogStore.lastIndex, MemoryLogStore.lastTerm, RaftNode.drainApplyPipeline,
    RaftNode.maybeApply, RaftNode.maybeTakeSnapshot, Driver.processActions, runActions]

end ServerRecovery
