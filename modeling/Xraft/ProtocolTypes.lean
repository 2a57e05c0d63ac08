import Mathlib.Data.List.Dedup
import Mathlib.Data.Finset.Card

/-! # Protocol vocabulary

Identifiers, configuration, log entries, messages and actions of the consensus engine.
`VoterSet`, `HardState` and `LogIndex` are declared outside the shipped sources and are rebuilt from
their uses. Terms, indices and counters are `u64`, here naturals; arithmetic saturates
where the source saturates.
-/
namespace ProtocolTypes

abbrev NodeId := ℕ
abbrev Bytes := List UInt8

def u64Max : ℕ := 18446744073709551615

def satAdd (a b : ℕ) : ℕ := min (a + b) u64Max

def satMul (a b : ℕ) : ℕ := min (a * b) u64Max

def divCeil (a b : ℕ) : ℕ := (a + b - 1) / b

theorem satAdd_eq {a b : ℕ} (h : a + b ≤ u64Max) : satAdd a b = a + b := by
  simp [satAdd, h]

theorem le_satAdd {a b : ℕ} (h : a ≤ u64Max) : a ≤ satAdd a b := by
  simp only [satAdd, le_inf_iff]
  omega

/-- The `Display` texts of the newtypes around `u64`. -/
def displayNodeId (n : ℕ) : String := s!"NodeId({n})"
def displayIndex (i : ℕ) : String := s!"LogIndex({i})"

structure Endpoint where
  host : String
  port : ℕ
  deriving DecidableEq, Repr

structure VoterConfig where
  nodeId : ℕ
  directoryId : String
  host : String
  port : ℕ
  deriving DecidableEq, Repr

structure VoterRecord where
  nodeId : NodeId
  directoryId : ℕ
  endpoints : List Endpoint
  deriving DecidableEq, Repr

/-- A voter set. `quorum_size` and `contains` are declared outside the shipped sources; the two laws
are what is assumed of them. Several records may share one node id. -/
structure VoterSet where
  voters : List VoterRecord
  quorumSize : ℕ
  contains : NodeId → Bool
  quorumSize_law : quorumSize = (voters.map VoterRecord.nodeId).toFinset.card / 2 + 1
  contains_law : ∀ id, contains id = true ↔ id ∈ (voters.map VoterRecord.nodeId).toFinset

def VoterSet.ids (vs : VoterSet) : Finset NodeId := (vs.voters.map VoterRecord.nodeId).toFinset

theorem VoterSet.quorumSize_eq (vs : VoterSet) : vs.quorumSize = vs.ids.card / 2 + 1 :=
  vs.quorumSize_law

@[simp] theorem VoterSet.contains_iff (vs : VoterSet) (id : NodeId) :
    vs.contains id = true ↔ id ∈ vs.ids := vs.contains_law id

theorem VoterSet.eq_of_voters {vs vs' : VoterSet} (h : vs.voters = vs'.voters) : vs = vs' := by
  have hcontains : vs.contains = vs'.contains := by
    funext id
    rw [Bool.eq_iff_iff, vs.contains_law, vs'.contains_law, h]
  have hquorum : vs.quorumSize = vs'.quorumSize := by
    rw [vs.quorumSize_law, vs'.quorumSize_law, h]
  cases vs
  cases vs'
  cases h
  cases hcontains
  cases hquorum
  rfl

instance : DecidableEq VoterSet := fun vs vs' =>
  decidable_of_iff (vs.voters = vs'.voters) ⟨VoterSet.eq_of_voters, congrArg VoterSet.voters⟩

instance : Repr VoterSet := ⟨fun vs => reprPrec vs.voters⟩

def VoterSet.ofRecords (records : List VoterRecord) : VoterSet where
  voters := records
  quorumSize := (records.map VoterRecord.nodeId).toFinset.card / 2 + 1
  contains id := decide (id ∈ records.map VoterRecord.nodeId)
  quorumSize_law := rfl
  contains_law id := by simp

inductive XRaftError
  | storage (message : String)
  | transport (message : String)
  | notLeader (leaderHint : Option NodeId)
  | electionTimeout
  | invalidTerm (message : String)
  | logInconsistency (message : String)
  | shutdown
  | config (message : String)
  | corruptSnapshot (message : String)
  | snapshotNotFound (id : String)
  | unsupported (message : String)
  deriving DecidableEq, Repr

def XRaftError.display : XRaftError → String
  | .storage m => s!"storage error: {m}"
  | .transport m => s!"transport error: {m}"
  | .notLeader none => "not leader; current leader hint: None"
  | .notLeader (some n) => s!"not leader; current leader hint: Some({displayNodeId n})"
  | .electionTimeout => "election timeout"
  | .invalidTerm m => s!"invalid term: {m}"
  | .logInconsistency m => s!"log inconsistency: {m}"
  | .shutdown => "shutdown in progress"
  | .config m => s!"configuration error: {m}"
  | .corruptSnapshot m => s!"corrupt snapshot: {m}"
  | .snapshotNotFound m => s!"snapshot not found: {m}"
  | .unsupported m => s!"unsupported: {m}"

theorem bind_eq_ok {ε α β : Type} {x : Except ε α} {f : α → Except ε β} {b : β} :
    (x >>= f) = .ok b ↔ ∃ a, x = .ok a ∧ f a = .ok b := by
  cases x with
  | error e => simp [bind, Except.bind]
  | ok a => simp [bind, Except.bind]

theorem guard_eq_ok {ε α : Type} {c : Prop} [Decidable c] {e : ε} {x : Except ε α} {a : α} :
    (if c then .error e else x) = .ok a ↔ ¬c ∧ x = .ok a := by
  split_ifs with h <;> simp [h]

inductive NodeRole
  | follower
  | preCandidate
  | candidate
  | leader
  | observer
  deriving DecidableEq, Repr

structure HardState where
  currentTerm : ℕ
  votedFor : Option NodeId
  commitIndex : ℕ
  deriving DecidableEq, Repr

structure SnapshotMeta where
  lastIncludedIndex : ℕ
  lastIncludedTerm : ℕ
  id : String
  voterSet : Option VoterSet
  sizeBytes : Option ℕ
  deriving DecidableEq, Repr

inductive EntryPayload
  | command (bytes : Bytes)
  | noOp
  | configChange (voterSet : VoterSet)
  | snapshot (metadata : SnapshotMeta)
  deriving DecidableEq, Repr

structure Entry where
  index : ℕ
  term : ℕ
  payload : EntryPayload
  deriving DecidableEq, Repr

/-- Configuration of one node, with the defaults of the configuration file. Listen addresses, TLS
and RPC limits only concern the transport and are left out. -/
structure ClusterConfig where
  nodeId : NodeId
  clusterId : String
  voters : List VoterConfig := []
  electionTimeoutMinMs : ℕ := 150
  electionTimeoutMaxMs : ℕ := 300
  fetchIntervalMs : ℕ := 50
  tickIntervalMs : ℕ := 10
  maxLogEntriesBeforeCompaction : ℕ := 100000
  observers : List ℕ := []
  enableCheckQuorum : Bool := true
  enableLeaderLease : Bool := false
  checkQuorumIntervalMs : Option ℕ := none

structure VoteRequest where
  clusterId : String
  leaderEpoch : ℕ
  term : ℕ
  candidateId : NodeId
  lastLogIndex : ℕ
  lastLogTerm : ℕ
  deriving DecidableEq, Repr

structure VoteResponse where
  clusterId : String
  leaderEpoch : ℕ
  term : ℕ
  voteGranted : Bool
  leaderHint : Option NodeId
  deriving DecidableEq, Repr

structure PreVoteRequest where
  clusterId : String
  leaderEpoch : ℕ
  nextTerm : ℕ
  candidateId : NodeId
  lastLogIndex : ℕ
  lastLogTerm : ℕ
  deriving DecidableEq, Repr

structure PreVoteResponse where
  clusterId : String
  leaderEpoch : ℕ
  term : ℕ
  voteGranted : Bool
  leaderHint : Option NodeId
  deriving DecidableEq, Repr

structure FetchRequest where
  clusterId : String
  leaderEpoch : ℕ
  replicaId : NodeId
  fetchOffset : ℕ
  lastFetchedEpoch : ℕ
  deriving DecidableEq, Repr

structure DivergingEpoch where
  epoch : ℕ
  endOffset : ℕ
  deriving DecidableEq, Repr

structure SnapshotRedirect where
  snapshotId : String
  lastIncludedIndex : ℕ
  lastIncludedTerm : ℕ
  deriving DecidableEq, Repr

structure FetchResponse where
  clusterId : String
  leaderEpoch : ℕ
  leaderId : NodeId
  highWatermark : ℕ
  entries : List Entry
  divergingEpoch : Option DivergingEpoch
  snapshotRedirect : Option SnapshotRedirect
  isLeader : Bool
  deriving DecidableEq, Repr

structure FetchSnapshotRequest where
  clusterId : String
  leaderEpoch : ℕ
  replicaId : NodeId
  snapshotId : String
  offset : ℕ
  maxBytes : ℕ
  deriving DecidableEq, Repr

structure FetchSnapshotChunk where
  clusterId : String
  leaderEpoch : ℕ
  chunkIndex : ℕ
  data : Bytes
  done : Bool
  metadata : Option SnapshotMeta
  deriving DecidableEq, Repr

inductive OutboundMessage
  | voteRequest (req : VoteRequest)
  | voteResponse (resp : VoteResponse)
  | preVoteRequest (req : PreVoteRequest)
  | preVoteResponse (resp : PreVoteResponse)
  | fetchRequest (req : FetchRequest)
  | fetchResponse (resp : FetchResponse)
  | fetchSnapshotRequest (req : FetchSnapshotRequest)
  deriving DecidableEq, Repr

inductive Input
  | tick
  | voteRequest (req : VoteRequest)
  | voteResponse (sender : NodeId) (response : VoteResponse)
  | preVoteRequest (req : PreVoteRequest)
  | preVoteResponse (sender : NodeId) (response : PreVoteResponse)
  | fetchRequest (req : FetchRequest)
  | fetchResponse (resp : FetchResponse)
  | clientPropose (command : Bytes)
  | fetchRequestAcked (replicaId : NodeId) (confirmedOffset : ℕ)
  | snapshotComplete (metadata : SnapshotMeta)
  | snapshotInstalled (metadata : SnapshotMeta)
  | fetchSnapshotReceived (metadata : SnapshotMeta) (data : Bytes)

inductive LogTruncation
  | suffixFromInclusive (fromIndexInclusive : ℕ)
  | prefixThroughInclusive (throughIndexInclusive : ℕ)
  deriving DecidableEq, Repr

inductive Action
  | persistHardState
  | appendEntries (entries : List Entry)
  | sendMessage (dest : NodeId) (message : OutboundMessage)
  | applyToStateMachine (first last : ℕ)
  | takeSnapshot (throughIndex : ℕ)
  | installSnapshot (metadata : SnapshotMeta) (data : Bytes)
  | becomeLeader
  | stepDown
  | serveFetch (dest : NodeId) (clusterId : String) (leaderEpoch : ℕ) (leaderId : NodeId)
      (highWatermark fetchOffset : ℕ) (lastFetchedEpoch : ℕ)
  | redirectToSnapshot (dest : NodeId) (clusterId : String) (leaderEpoch : ℕ) (leaderId : NodeId)
      (highWatermark : ℕ) (snapshotMetadata : SnapshotMeta)
  | truncateLog (truncation : LogTruncation)
  deriving DecidableEq

end ProtocolTypes
