import Xraft.ClusterConfiguration
import Mathlib.Data.List.Sort

/-! # The consensus engine

`RaftNode` and its handlers, without I/O: every handler returns the next node and the actions the
driver must execute in order. Random draws come from a list; an exhausted list draws the lower
bound. Peer iteration follows the list order, where the source leaves the order open.
-/
namespace ConsensusEngine

open ProtocolTypes ClusterConfiguration

structure ElectionTimer where
  elapsedTicks : ℕ
  timeoutTicks : ℕ
  minTicks : ℕ
  maxTicks : ℕ
  deriving DecidableEq, Repr

def pickInRange (lo hi : ℕ) (rng : List ℕ) : ℕ × List ℕ :=
  if lo = hi then (lo, rng)
  else match rng with
    | [] => (lo, [])
    | r :: rest => (lo + r % (hi - lo + 1), rest)

def ElectionTimer.new (minTicks maxTicks : ℕ) (rng : List ℕ) : ElectionTimer × List ℕ :=
  let draw := pickInRange minTicks maxTicks rng
  (⟨0, draw.1, minTicks, maxTicks⟩, draw.2)

def ElectionTimer.fromConfigMs (minMs maxMs tickIntervalMs : ℕ) (rng : List ℕ) :
    ElectionTimer × List ℕ :=
  let interval := max tickIntervalMs 1
  let minTicks := max (divCeil minMs interval) 1
  let maxTicks := max (divCeil maxMs interval) minTicks
  ElectionTimer.new minTicks maxTicks rng

def ElectionTimer.tick (t : ElectionTimer) : ElectionTimer :=
  { t with elapsedTicks := satAdd t.elapsedTicks 1 }

def ElectionTimer.isExpired (t : ElectionTimer) : Bool := t.timeoutTicks ≤ t.elapsedTicks

structure PeerState where
  lastFetchOffset : ℕ
  lastFetchTime : ℕ
  lastCaughtUpTime : ℕ
  lastFetchSeq : ℕ
  isVoter : Bool
  deriving DecidableEq, Repr

def PeerState.new (isVoter : Bool) : PeerState := ⟨0, 0, 0, 0, isVoter⟩

structure RaftNode where
  id : NodeId
  role : NodeRole
  hardState : HardState
  commitIndex : ℕ
  lastApplied : ℕ
  electionTimer : ElectionTimer
  votesReceived : Finset NodeId
  preVotesReceived : Finset NodeId
  peers : List (NodeId × PeerState)
  voterSet : Option VoterSet
  config : ClusterConfig
  leaderId : Option NodeId
  lastLeaderContactTick : Option ℕ
  logicalTick : ℕ
  lastLogIndex : ℕ
  lastLogTerm : ℕ
  leaderNoOpIndex : Option ℕ
  lastFetchTick : Option ℕ
  lastSnapshotMeta : Option SnapshotMeta
  snapshotInFlight : Bool
  leaderStartedTick : Option ℕ
  checkQuorumElapsedTicks : ℕ
  checkQuorumIntervalTicks : ℕ
  fetchSeq : ℕ
  rng : List ℕ

/-- `HashMap::insert`, keeping the position of a key that is present. -/
def insertPeer (id : NodeId) (p : PeerState) : List (NodeId × PeerState) → List (NodeId × PeerState)
  | [] => [(id, p)]
  | (k, q) :: rest => if k = id then (k, p) :: rest else (k, q) :: insertPeer id p rest

def initialPeers (config : ClusterConfig) (voterSet : Option VoterSet) :
    List (NodeId × PeerState) :=
  let voterPeers := match voterSet with
    | some vs => (vs.voters.filter (fun v => v.nodeId ≠ config.nodeId)).foldl
        (fun m v => insertPeer v.nodeId (PeerState.new true) m) []
    | none => []
  (config.observers.filter (fun o => o ≠ config.nodeId)).foldl
    (fun m o => if (m.map Prod.fst).contains o then m else m ++ [(o, PeerState.new false)])
      voterPeers

def RaftNode.build (config : ClusterConfig) (voterSet : Option VoterSet) (rng : List ℕ) :
    RaftNode :=
  let timer := ElectionTimer.fromConfigMs config.electionTimeoutMinMs config.electionTimeoutMaxMs
    config.tickIntervalMs rng
  { id := config.nodeId
    role := if config.nodeId ∈ config.observers then .observer else .follower
    hardState := ⟨0, none, 0⟩
    commitIndex := 0
    lastApplied := 0
    electionTimer := timer.1
    votesReceived := ∅
    preVotesReceived := ∅
    peers := initialPeers config voterSet
    voterSet := voterSet
    config := config
    leaderId := none
    lastLeaderContactTick := none
    logicalTick := 0
    lastLogIndex := 0
    lastLogTerm := 0
    leaderNoOpIndex := none
    lastFetchTick := none
    lastSnapshotMeta := none
    snapshotInFlight := false
    leaderStartedTick := none
    checkQuorumElapsedTicks := 0
    checkQuorumIntervalTicks :=
      max (divCeil (effectiveCheckQuorumIntervalMs config) (max config.tickIntervalMs 1)) 1
    fetchSeq := 0
    rng := timer.2 }

/-- `new_inner`: the configuration is checked before the node exists. -/
def RaftNode.new (p : VoterParsing) (config : ClusterConfig) (rng : List ℕ) :
    Except XRaftError RaftNode := do
  validate p config
  let voterSet ← buildVoterSet p config
  pure (RaftNode.build config voterSet rng)

def RaftNode.currentTerm (n : RaftNode) : ℕ := n.hardState.currentTerm

def RaftNode.setLastLog (n : RaftNode) (index : ℕ) (term : ℕ) : RaftNode :=
  { n with lastLogIndex := index, lastLogTerm := term }

def RaftNode.resetElectionTimer (n : RaftNode) : RaftNode :=
  { n with
    electionTimer := (ElectionTimer.new n.electionTimer.minTicks n.electionTimer.maxTicks n.rng).1
    rng := (ElectionTimer.new n.electionTimer.minTicks n.electionTimer.maxTicks n.rng).2 }

def RaftNode.updatePeer (n : RaftNode) (id : NodeId) (f : PeerState → PeerState) : RaftNode :=
  { n with peers := n.peers.map (fun p => if p.1 = id then (p.1, f p.2) else p) }

def RaftNode.hasPeer (n : RaftNode) (id : NodeId) : Bool := (n.peers.lookup id).isSome

def RaftNode.isKnownVoter (n : RaftNode) (id : NodeId) : Bool :=
  match n.voterSet with
  | some vs => vs.contains id
  | none => false

def RaftNode.hasElectionQuorum (n : RaftNode) : Bool :=
  match n.voterSet with
  | some vs => vs.quorumSize ≤ (n.votesReceived.filter (· ∈ vs.ids)).card
  | none => false

def RaftNode.hasPreElectionQuorum (n : RaftNode) : Bool :=
  match n.voterSet with
  | some vs => vs.quorumSize ≤ (n.preVotesReceived.filter (· ∈ vs.ids)).card
  | none => false

def RaftNode.countVoters (n : RaftNode) (vs : VoterSet) (test : PeerState → Bool) : ℕ :=
  (if n.id ∈ vs.ids then 1 else 0) +
    (n.peers.filter (fun p => decide (p.1 ∈ vs.ids) && test p.2)).length

def RaftNode.checkQuorumReachable (n : RaftNode) : Bool :=
  match n.voterSet with
  | some vs => vs.quorumSize ≤ n.countVoters vs
      (fun p => n.logicalTick - p.lastFetchTime < n.checkQuorumIntervalTicks)
  | none => true

def RaftNode.leasePeer (n : RaftNode) (startedTick : ℕ) (p : PeerState) : Bool :=
  startedTick < p.lastFetchTime &&
    decide (n.logicalTick - p.lastFetchTime < n.checkQuorumIntervalTicks)

def RaftNode.hasActiveLease (n : RaftNode) : Bool :=
  if !n.config.enableLeaderLease then false
  else if n.role ≠ .leader then false
  else match n.voterSet, n.leaderStartedTick with
    | some vs, some startedTick => vs.quorumSize ≤ n.countVoters vs (n.leasePeer startedTick)
    | _, _ => false

def RaftNode.candidateLogIsUpToDate (n : RaftNode) (lastLogIndex : ℕ) (lastLogTerm : ℕ) :
    Bool :=
  if n.lastLogTerm < lastLogTerm then true
  else if lastLogTerm < n.lastLogTerm then false
  else n.lastLogIndex ≤ lastLogIndex

def RaftNode.leaderRecentlyActive (n : RaftNode) : Bool :=
  if n.role = .leader then true
  else match n.lastLeaderContactTick with
    | some t => n.logicalTick - t < n.electionTimer.timeoutTicks
    | none => false

def RaftNode.buildVoteResponse (n : RaftNode) (granted : Bool) : VoteResponse :=
  ⟨n.config.clusterId, 0, n.currentTerm, granted, n.leaderId⟩

def RaftNode.buildPreVoteResponse (n : RaftNode) (granted : Bool) : PreVoteResponse :=
  ⟨n.config.clusterId, 0, n.currentTerm, granted, n.leaderId⟩

def RaftNode.voterOffsets (n : RaftNode) (vs : VoterSet) : List ℕ :=
  vs.voters.filterMap (fun v =>
    if v.nodeId = n.id then some n.lastLogIndex
    else match n.peers.lookup v.nodeId with
      | some p => if p.isVoter then some p.lastFetchOffset else none
      | none => some 0)

/-- The commit index a leader may move to: the quorum-th largest offset, when it is beyond the
current one and not below the no-op of this leadership. -/
def RaftNode.tryAdvanceCommitIndex (n : RaftNode) : Option ℕ :=
  if n.role ≠ .leader then none
  else match n.voterSet, n.leaderNoOpIndex with
    | some vs, some noOpIndex =>
      match ((n.voterOffsets vs).insertionSort (· ≥ ·))[vs.quorumSize - 1]? with
      | some candidate =>
        if candidate ≤ n.commitIndex then none
        else if candidate < noOpIndex then none
        else some candidate
      | none => none
    | _, _ => none

def RaftNode.maybeApply (n : RaftNode) : RaftNode × List Action :=
  if n.commitIndex ≤ n.lastApplied then (n, [])
  else ({ n with lastApplied := n.commitIndex },
    [.applyToStateMachine (satAdd n.lastApplied 1) n.commitIndex])

def RaftNode.maybeTakeSnapshot (n : RaftNode) : RaftNode × List Action :=
  let snapIndex := (n.lastSnapshotMeta.map SnapshotMeta.lastIncludedIndex).getD 0
  if n.snapshotInFlight then (n, [])
  else if n.config.maxLogEntriesBeforeCompaction < n.commitIndex - snapIndex then
    ({ n with snapshotInFlight := true }, [.takeSnapshot n.commitIndex])
  else (n, [])

def RaftNode.drainApplyPipeline (n : RaftNode) : RaftNode × List Action :=
  (n.maybeApply.1.maybeTakeSnapshot.1, n.maybeApply.2 ++ n.maybeApply.1.maybeTakeSnapshot.2)

def RaftNode.advanceCommit (n : RaftNode) : RaftNode × List Action :=
  match n.tryAdvanceCommitIndex with
  | some candidate => RaftNode.drainApplyPipeline { n with commitIndex := candidate }
  | none => (n, [])

/-- Steps down to `term`, persisting it when it is new. Observers stay observers. -/
def RaftNode.becomeFollower (n : RaftNode) (term : ℕ) (leaderId : Option NodeId) :
    RaftNode × List Action :=
  let raised := n.currentTerm < term
  let steppingDown := n.role = .leader ∨ n.role = .candidate ∨ n.role = .preCandidate
  (RaftNode.resetElectionTimer { n with
      hardState :=
        if raised then { n.hardState with currentTerm := term, votedFor := none } else n.hardState
      role := if n.role = .observer then .observer else .follower
      leaderId := leaderId
      lastLeaderContactTick := if leaderId.isSome then some n.logicalTick else none
      votesReceived := ∅
      preVotesReceived := ∅
      leaderNoOpIndex := none
      lastFetchTick := none
      leaderStartedTick := none
      checkQuorumElapsedTicks := 0 },
    (if raised then [.persistHardState] else []) ++ (if steppingDown then [.stepDown] else []))

def RaftNode.voterPeerIds (n : RaftNode) : List NodeId :=
  (n.peers.filter (fun p => p.2.isVoter)).map Prod.fst

def RaftNode.noOpEntry (n : RaftNode) : Entry := ⟨satAdd n.lastLogIndex 1, n.currentTerm, .noOp⟩

def RaftNode.enterLeader (n : RaftNode) : RaftNode :=
  RaftNode.resetElectionTimer { n with
    role := .leader
    leaderId := some n.id
    lastLeaderContactTick := some n.logicalTick
    votesReceived := ∅
    preVotesReceived := ∅
    lastFetchTick := none
    leaderStartedTick := some n.logicalTick
    checkQuorumElapsedTicks := 0
    peers := n.peers.map (fun p => (p.1, { p.2 with
      lastFetchOffset := 0
      lastFetchTime := n.logicalTick
      lastCaughtUpTime := n.logicalTick }))
    lastLogIndex := n.noOpEntry.index
    lastLogTerm := n.noOpEntry.term
    leaderNoOpIndex := some n.noOpEntry.index }

def RaftNode.becomeLeader (n : RaftNode) : RaftNode × List Action :=
  (n.enterLeader.advanceCommit.1,
    [.becomeLeader, .appendEntries [n.noOpEntry]] ++ n.enterLeader.advanceCommit.2)

def RaftNode.enterCandidate (n : RaftNode) : RaftNode :=
  RaftNode.resetElectionTimer { n with
    role := .candidate
    hardState := { n.hardState with
      currentTerm := satAdd n.currentTerm 1
      votedFor := some n.id }
    leaderId := none
    lastLeaderContactTick := none
    preVotesReceived := ∅
    votesReceived := {n.id}
    leaderNoOpIndex := none
    lastFetchTick := none
    leaderStartedTick := none
    checkQuorumElapsedTicks := 0 }

def RaftNode.voteRequest (n : RaftNode) : VoteRequest :=
  ⟨n.config.clusterId, 0, n.currentTerm, n.id, n.lastLogIndex, n.lastLogTerm⟩

def RaftNode.voteRequests (n : RaftNode) : List Action :=
  n.voterPeerIds.map (fun p => .sendMessage p (.voteRequest n.voteRequest))

/-- Opens an election: term and own vote are persisted before any request leaves. -/
def RaftNode.becomeCandidate (n : RaftNode) : RaftNode × List Action :=
  if n.enterCandidate.hasElectionQuorum then
    (n.enterCandidate.becomeLeader.1,
      .persistHardState :: n.enterCandidate.voteRequests ++ n.enterCandidate.becomeLeader.2)
  else (n.enterCandidate, .persistHardState :: n.enterCandidate.voteRequests)

def RaftNode.enterPreCandidate (n : RaftNode) : RaftNode :=
  RaftNode.resetElectionTimer { n with
    role := .preCandidate
    leaderId := none
    lastLeaderContactTick := none
    votesReceived := ∅
    preVotesReceived := {n.id}
    leaderNoOpIndex := none
    lastFetchTick := none
    leaderStartedTick := none
    checkQuorumElapsedTicks := 0 }

def RaftNode.preVoteRequest (n : RaftNode) : PreVoteRequest :=
  ⟨n.config.clusterId, 0, satAdd n.currentTerm 1, n.id, n.lastLogIndex, n.lastLogTerm⟩

def RaftNode.preVoteRequests (n : RaftNode) : List Action :=
  n.voterPeerIds.map (fun p => .sendMessage p (.preVoteRequest n.preVoteRequest))

def RaftNode.becomePreCandidate (n : RaftNode) : RaftNode × List Action :=
  if n.enterPreCandidate.hasPreElectionQuorum then
    (n.enterPreCandidate.becomeCandidate.1,
      n.enterPreCandidate.preVoteRequests ++ n.enterPreCandidate.becomeCandidate.2)
  else (n.enterPreCandidate, n.enterPreCandidate.preVoteRequests)

def RaftNode.fetchIntervalTicks (n : RaftNode) : ℕ :=
  max (divCeil n.config.fetchIntervalMs (max n.config.tickIntervalMs 1)) 1

def RaftNode.fetchRequest (n : RaftNode) : FetchRequest :=
  ⟨n.config.clusterId, n.currentTerm, n.id, satAdd n.lastLogIndex 1, n.lastLogTerm⟩

def RaftNode.maybeBuildFetchRequest (n : RaftNode) : Option FetchRequest :=
  match n.lastFetchTick with
  | none => some n.fetchRequest
  | some t => if n.fetchIntervalTicks ≤ n.logicalTick - t then some n.fetchRequest else none

/-- A due fetch goes to the known leader, or to every other voter while no leader is known. -/
def RaftNode.scheduleFetch (n : RaftNode) : RaftNode × List Action :=
  if n.role = .follower ∨ n.role = .observer then
    match n.maybeBuildFetchRequest with
    | none => (n, [])
    | some req =>
      let targets := match n.leaderId with
        | some leader => [leader]
        | none => n.voterPeerIds.filter (fun p => p ≠ n.id)
      (if targets = [] then n else { n with lastFetchTick := some n.logicalTick },
        targets.map (fun p => .sendMessage p (.fetchRequest req)))
  else (n, [])

def RaftNode.electionTimeout (n : RaftNode) (actions : List Action) : RaftNode × List Action :=
  if n.electionTimer.isExpired ∧
      (n.role = .follower ∨ n.role = .preCandidate ∨ n.role = .candidate) then
    (n.becomePreCandidate.1, actions ++ n.becomePreCandidate.2)
  else (n, actions)

def RaftNode.advanceClock (n : RaftNode) : RaftNode :=
  { n with logicalTick := satAdd n.logicalTick 1, electionTimer := n.electionTimer.tick }

def RaftNode.countCheckQuorum (n : RaftNode) : RaftNode :=
  if n.role = .leader ∧ n.config.enableCheckQuorum then
    let elapsed := satAdd n.checkQuorumElapsedTicks 1
    { n with checkQuorumElapsedTicks :=
        if n.checkQuorumIntervalTicks ≤ elapsed then 0 else elapsed }
  else n

def RaftNode.quorumLost (n : RaftNode) : Bool :=
  decide (n.role = .leader) && n.config.enableCheckQuorum &&
    decide (n.checkQuorumIntervalTicks ≤ satAdd n.checkQuorumElapsedTicks 1) &&
    !n.checkQuorumReachable

def RaftNode.handleTick (n : RaftNode) : RaftNode × List Action :=
  let fetched := n.advanceClock.scheduleFetch.1
  let actions := n.advanceClock.scheduleFetch.2
  if fetched.quorumLost then
    let down := fetched.countCheckQuorum.becomeFollower fetched.currentTerm none
    (down.1, actions ++ down.2)
  else fetched.countCheckQuorum.electionTimeout actions

/-- The inline step-down of a vote request. Unlike `becomeFollower` it keeps the no-op index and the
fetch schedule, and an observer never gets here. -/
def RaftNode.adoptTerm (n : RaftNode) (term : ℕ) : RaftNode :=
  RaftNode.resetElectionTimer { n with
    hardState := { n.hardState with currentTerm := term, votedFor := none }
    role := .follower
    leaderId := none
    lastLeaderContactTick := none
    votesReceived := ∅
    preVotesReceived := ∅
    leaderStartedTick := none
    checkQuorumElapsedTicks := 0 }

def RaftNode.castVote (n : RaftNode) (candidate : NodeId) : RaftNode :=
  RaftNode.resetElectionTimer
    { n with hardState := { n.hardState with votedFor := some candidate } }

def RaftNode.adoptNewer (n : RaftNode) (term : ℕ) : RaftNode :=
  if n.currentTerm < term then n.adoptTerm term else n

def RaftNode.grantsVote (n : RaftNode) (req : VoteRequest) : Bool :=
  n.candidateLogIsUpToDate req.lastLogIndex req.lastLogTerm &&
    (decide (n.hardState.votedFor = none) || decide (n.hardState.votedFor = some req.candidateId))

def RaftNode.handleVoteRequest (n : RaftNode) (req : VoteRequest) : RaftNode × List Action :=
  if req.clusterId ≠ n.config.clusterId then (n, [])
  else if n.role = .observer then (n, [])
  else if !n.isKnownVoter req.candidateId then (n, [])
  else if req.term < n.currentTerm then
    (n, [.sendMessage req.candidateId (.voteResponse (n.buildVoteResponse false))])
  else
    let newer := n.currentTerm < req.term
    let steppingDown := newer ∧
      (n.role = .leader ∨ n.role = .candidate ∨ n.role = .preCandidate)
    let adopted := n.adoptNewer req.term
    let granted := adopted.grantsVote req
    let changed := newer ∨ (granted ∧ adopted.hardState.votedFor ≠ some req.candidateId)
    let voted := if granted then adopted.castVote req.candidateId else adopted
    (voted,
      (if changed then [.persistHardState] else []) ++ (if steppingDown then [.stepDown] else []) ++
        [.sendMessage req.candidateId (.voteResponse (voted.buildVoteResponse granted))])

def RaftNode.handleVoteResponse (n : RaftNode) (sender : NodeId) (resp : VoteResponse) :
    RaftNode × List Action :=
  if resp.clusterId ≠ n.config.clusterId then (n, [])
  else if !n.isKnownVoter sender then (n, [])
  else if n.currentTerm < resp.term then n.becomeFollower resp.term none
  else if n.role ≠ .candidate ∨ resp.term ≠ n.currentTerm then (n, [])
  else if resp.voteGranted then
    let counted : RaftNode := { n with votesReceived := insert sender n.votesReceived }
    if counted.hasElectionQuorum then counted.becomeLeader else (counted, [])
  else (n, [])

def RaftNode.handlePreVoteRequest (n : RaftNode) (req : PreVoteRequest) : List Action :=
  if req.clusterId ≠ n.config.clusterId then []
  else if n.role = .observer then []
  else if !n.isKnownVoter req.candidateId then []
  else
    let termOk := decide (n.currentTerm < req.nextTerm)
    let logOk := n.candidateLogIsUpToDate req.lastLogIndex req.lastLogTerm
    let granted := termOk && logOk && !n.leaderRecentlyActive
    [.sendMessage req.candidateId (.preVoteResponse (n.buildPreVoteResponse granted))]

def RaftNode.handlePreVoteResponse (n : RaftNode) (sender : NodeId) (resp : PreVoteResponse) :
    RaftNode × List Action :=
  if resp.clusterId ≠ n.config.clusterId then (n, [])
  else if !n.isKnownVoter sender then (n, [])
  else if n.currentTerm < resp.term then n.becomeFollower resp.term none
  else if n.role ≠ .preCandidate then (n, [])
  else if resp.voteGranted then
    let counted : RaftNode := { n with preVotesReceived := insert sender n.preVotesReceived }
    if counted.hasPreElectionQuorum then counted.becomeCandidate else (counted, [])
  else (n, [])

def RaftNode.stampPeer (n : RaftNode) (p : PeerState) : PeerState :=
  { p with lastFetchTime := n.logicalTick, lastFetchSeq := satAdd n.fetchSeq 1 }

/-- A fetch refreshes the peer's liveness; its offset moves only once the driver confirms it. -/
def RaftNode.stampFetch (n : RaftNode) (replica : NodeId) : RaftNode :=
  { n.updatePeer replica n.stampPeer with
    fetchSeq := satAdd n.fetchSeq 1
    lastLeaderContactTick := some n.logicalTick }

def RaftNode.snapshotCovering (n : RaftNode) (fetchOffset : ℕ) : Option SnapshotMeta :=
  n.lastSnapshotMeta.filter
    (fun snap => fetchOffset ≤ snap.lastIncludedIndex && decide (snap.id ≠ ""))

def RaftNode.handleFetchRequest (n : RaftNode) (req : FetchRequest) : RaftNode × List Action :=
  if req.clusterId ≠ n.config.clusterId then (n, [])
  else if req.replicaId = n.id then (n, [])
  else if !n.isKnownVoter req.replicaId && !n.hasPeer req.replicaId then (n, [])
  else if n.currentTerm < req.leaderEpoch then n.becomeFollower req.leaderEpoch none
  else if n.role ≠ .leader then (n, [])
  else if req.fetchOffset = 0 then (n, [])
  else
    match n.snapshotCovering req.fetchOffset with
    | some snap => (n.stampFetch req.replicaId,
        [.redirectToSnapshot req.replicaId n.config.clusterId n.currentTerm n.id
          n.commitIndex snap])
    | none => (n.stampFetch req.replicaId,
        [.serveFetch req.replicaId n.config.clusterId n.currentTerm n.id n.commitIndex
          req.fetchOffset req.lastFetchedEpoch])

def RaftNode.creditPeer (n : RaftNode) (confirmed : ℕ) (p : PeerState) : PeerState :=
  let offset := max p.lastFetchOffset (min confirmed n.lastLogIndex)
  { p with
    lastFetchOffset := offset
    lastCaughtUpTime := if offset = n.lastLogIndex then n.logicalTick else p.lastCaughtUpTime }

def RaftNode.handleFetchRequestAcked (n : RaftNode) (replica : NodeId) (confirmed : ℕ) :
    RaftNode × List Action :=
  if n.role ≠ .leader then (n, [])
  else if !n.isKnownVoter replica && !n.hasPeer replica then (n, [])
  else (n.updatePeer replica (n.creditPeer confirmed)).advanceCommit

/-- The `windows(2)` test on a batch: consecutive indices and terms that do not regress. -/
def contiguousBatch : List Entry → Bool
  | a :: b :: rest =>
    decide (b.index = satAdd a.index 1) && decide (a.term ≤ b.term) && contiguousBatch (b :: rest)
  | _ => true

def RaftNode.followLeader (n : RaftNode) (leader : NodeId) : RaftNode × List Action :=
  if n.role = .candidate ∨ n.role = .preCandidate then n.becomeFollower n.currentTerm (some leader)
  else ({ n with leaderId := some leader }, [])

def RaftNode.heardFromLeader (n : RaftNode) : RaftNode :=
  RaftNode.resetElectionTimer { n with lastLeaderContactTick := some n.logicalTick }

/-- Term and leader fencing of a fetch response: the node that goes on to read the payload, or
`none` when the response is dropped without a trace. -/
def RaftNode.acceptLeader (n : RaftNode) (resp : FetchResponse) :
    Option (RaftNode × List Action) :=
  if resp.clusterId ≠ n.config.clusterId then none
  else if !resp.isLeader then none
  else if !n.isKnownVoter resp.leaderId then none
  else if resp.leaderEpoch < n.currentTerm then none
  else
    let raised := if n.currentTerm < resp.leaderEpoch
      then n.becomeFollower resp.leaderEpoch (some resp.leaderId) else (n, [])
    if raised.1.role = .leader then none
    else if raised.1.leaderId ≠ none ∧ raised.1.leaderId ≠ some resp.leaderId then none
    else
      let followed := raised.1.followLeader resp.leaderId
      some (followed.1.heardFromLeader, raised.2 ++ followed.2)

/-- Truncates to the leader's answer and asks again right behind it, claiming the leader's epoch. -/
def RaftNode.resolveDivergence (n : RaftNode) (leader : NodeId) (de : DivergingEpoch) :
    RaftNode × List Action :=
  let truncateFrom := satAdd de.endOffset 1
  ({ n with lastFetchTick := some n.logicalTick },
    [.truncateLog (.suffixFromInclusive truncateFrom),
      .sendMessage leader
        (.fetchRequest ⟨n.config.clusterId, n.currentTerm, n.id, truncateFrom, de.epoch⟩)])

def RaftNode.requestSnapshot (n : RaftNode) (leader : NodeId) (redirect : SnapshotRedirect) :
    RaftNode × List Action :=
  ({ n with lastFetchTick := some n.logicalTick },
    [.sendMessage leader (.fetchSnapshotRequest
      ⟨n.config.clusterId, n.currentTerm, n.id, redirect.snapshotId, 0, 0⟩)])

def RaftNode.takeEntries (n : RaftNode) (entries : List Entry) : Option (RaftNode × List Action) :=
  match entries.head?, entries.getLast? with
  | some first, some last =>
    if first.index ≠ satAdd n.lastLogIndex 1 then none
    else if !contiguousBatch entries then none
    else some (n.setLastLog last.index last.term, [.appendEntries entries])
  | _, _ => some (n, [])

def RaftNode.observeHighWatermark (n : RaftNode) (highWatermark : ℕ) :
    RaftNode × List Action :=
  let newCommit := min highWatermark n.lastLogIndex
  if n.commitIndex < newCommit then
    RaftNode.drainApplyPipeline { n with commitIndex := newCommit }
  else (n, [])

def RaftNode.handleFetchResponse (n : RaftNode) (resp : FetchResponse) : RaftNode × List Action :=
  match n.acceptLeader resp with
  | none => (n, [])
  | some (accepted, actions) =>
    match resp.snapshotRedirect, resp.divergingEpoch with
    | some redirect, _ =>
      let r := accepted.requestSnapshot resp.leaderId redirect
      (r.1, actions ++ r.2)
    | none, some de =>
      let r := accepted.resolveDivergence resp.leaderId de
      (r.1, actions ++ r.2)
    | none, none =>
      match accepted.takeEntries resp.entries with
      | none => (accepted, actions)
      | some (taken, appends) =>
        let r := taken.observeHighWatermark resp.highWatermark
        (r.1, actions ++ appends ++ r.2)

def RaftNode.handleClientPropose (n : RaftNode) (command : Bytes) : RaftNode × List Action :=
  if n.role ≠ .leader then (n, [])
  else
    let entry : Entry := ⟨satAdd n.lastLogIndex 1, n.currentTerm, .command command⟩
    let r := (n.setLastLog entry.index entry.term).advanceCommit
    (r.1, .appendEntries [entry] :: r.2)

def isSnapshotMetaNewer (current : Option SnapshotMeta) (candidate : SnapshotMeta) : Bool :=
  match current with
  | none => true
  | some prior => prior.lastIncludedIndex < candidate.lastIncludedIndex

def RaftNode.handleSnapshotComplete (n : RaftNode) (metadata : SnapshotMeta) :
    RaftNode × List Action :=
  if isSnapshotMetaNewer n.lastSnapshotMeta metadata then
    ({ n with snapshotInFlight := false, lastSnapshotMeta := some metadata },
      [.truncateLog (.prefixThroughInclusive metadata.lastIncludedIndex)])
  else ({ n with snapshotInFlight := false }, [])

def RaftNode.handleSnapshotInstalled (n : RaftNode) (metadata : SnapshotMeta) : RaftNode :=
  let through := metadata.lastIncludedIndex
  { n with
    lastApplied := max n.lastApplied through
    commitIndex := max n.commitIndex through
    lastLogIndex := max n.lastLogIndex through
    lastLogTerm := if n.lastLogIndex < through then metadata.lastIncludedTerm else n.lastLogTerm
    lastSnapshotMeta :=
      if isSnapshotMetaNewer n.lastSnapshotMeta metadata then some metadata else n.lastSnapshotMeta
    snapshotInFlight := false }

def RaftNode.handleFetchSnapshotReceived (n : RaftNode) (metadata : SnapshotMeta) (data : Bytes) :
    List Action :=
  if metadata.lastIncludedIndex ≤ n.lastApplied then [] else [.installSnapshot metadata data]

def RaftNode.step (n : RaftNode) : Input → RaftNode × List Action
  | .tick => n.handleTick
  | .voteRequest req => n.handleVoteRequest req
  | .voteResponse sender response => n.handleVoteResponse sender response
  | .preVoteRequest req => (n, n.handlePreVoteRequest req)
  | .preVoteResponse sender response => n.handlePreVoteResponse sender response
  | .fetchRequest req => n.handleFetchRequest req
  | .fetchResponse resp => n.handleFetchResponse resp
  | .clientPropose command => n.handleClientPropose command
  | .fetchRequestAcked replica confirmed => n.handleFetchRequestAcked replica confirmed
  | .snapshotComplete metadata => n.handleSnapshotComplete metadata
  | .snapshotInstalled metadata => (n.handleSnapshotInstalled metadata, [])
  | .fetchSnapshotReceived metadata data => (n, n.handleFetchSnapshotReceived metadata data)

end ConsensusEngine
