import Xraft.ConsensusEngine
import Xraft.DurableStores

/-! # The node driver

The driver executes the engine's actions against the stores, the router and the state machine. Each
store call consumes one entry of `faults`; a torn fault takes effect and still reports failure.
`trace` records everything the driver made durable, applied, sent or answered, oldest first.
Logging, metrics and the graceful shutdown are left out.
-/
namespace NodeDriver

open ProtocolTypes ConsensusEngine DurableStores

/-- The application behind the log. `beginSnapshot` captures a view whose serialization may fail. -/
class StateMachine (σ : Type) where
  apply : σ → ℕ → Bytes → Except XRaftError σ
  query : σ → Bytes → Except XRaftError Bytes
  beginSnapshot : σ → Except XRaftError (Except XRaftError Bytes)
  restore : σ → Bytes → Except XRaftError σ

inductive NoOpStateMachine
  | mk

instance : StateMachine NoOpStateMachine where
  apply sm _ _ := .ok sm
  query _ _ := .ok []
  beginSnapshot _ := .ok (.ok [])
  restore sm _ := .ok sm

structure Fault where
  error : XRaftError
  torn : Bool

abbrev RequestId := ℕ

structure TriggeredSnapshotInfo where
  lastIncludedIndex : ℕ
  lastIncludedTerm : ℕ
  sizeBytes : ℕ
  deriving DecidableEq

inductive Effect
  | persist (state : HardState)
  | append (entries : List Entry)
  | flush
  | truncate (fromIndex : ℕ)
  | purge (through : ℕ)
  | anchor (term : ℕ) (index : ℕ)
  | saveSnapshot (metadata : SnapshotMeta)
  | storeFailed (error : XRaftError)
  | snapshotFailed (error : XRaftError)
  | apply (entry : Entry)
  | dispatch (dest : NodeId) (message : OutboundMessage)
  | voteReply (req : VoteRequest) (result : Except XRaftError VoteResponse)
  | preVoteReply (req : PreVoteRequest) (result : Except XRaftError PreVoteResponse)
  | fetchReply (req : FetchRequest) (result : Except XRaftError FetchResponse)
  | fetchSnapshotReply (req : FetchSnapshotRequest)
      (result : Except XRaftError (List FetchSnapshotChunk))
  | clientReply (request : RequestId) (result : Except XRaftError ℕ)
  | queryReply (request : RequestId) (result : Except XRaftError Bytes)
  | snapshotReply (request : RequestId) (result : Except XRaftError TriggeredSnapshotInfo)
  deriving DecidableEq

structure PendingRead where
  query : Bytes
  reply : RequestId
  readIndex : ℕ
  readBaselineSeq : ℕ
  deadlineTick : ℕ

structure SnapshotJob where
  throughIndex : ℕ
  throughTerm : ℕ
  voterSet : Option VoterSet
  serializer : Except XRaftError Bytes
  reply : Option RequestId

structure SnapshotCompletion where
  throughIndex : ℕ
  throughTerm : ℕ
  metadata : SnapshotMeta
  result : Except XRaftError Unit
  reply : Option RequestId

structure Driver (σ : Type) where
  node : RaftNode
  logStore : MemoryLogStore
  hsStore : Option HardState
  snapshotStore : MemorySnapshotStore
  stateMachine : σ
  pending : List (ℕ × RequestId)
  pendingReads : List PendingRead
  maxFetchBatch : ℕ
  haltReason : Option String
  snapshotWorkerInFlight : Bool
  snapshotJobs : List SnapshotJob
  snapshotDone : List SnapshotCompletion
  faults : List (Option Fault)
  trace : List Effect

variable {σ : Type}

def maxPendingReads : ℕ := 1024

def Driver.emit (d : Driver σ) (effects : List Effect) : Driver σ :=
  { d with trace := d.trace ++ effects }

def Driver.halt (d : Driver σ) (reason : String) : Driver σ :=
  { d with haltReason := some (d.haltReason.getD reason) }

def Driver.nextFault (d : Driver σ) : Option Fault :=
  d.faults.headD none

def Driver.afterCall (d : Driver σ) : Driver σ := { d with faults := d.faults.tail }

def Driver.durably (d : Driver σ) (write : Driver σ → Driver σ) (effect : Effect)
    (failed : XRaftError → Effect) : Driver σ × Option XRaftError :=
  match d.nextFault with
  | none => ((write d.afterCall).emit [effect], none)
  | some f =>
    if f.torn then ((write d.afterCall).emit [effect, failed f.error], some f.error)
    else (d.afterCall.emit [failed f.error], some f.error)

/-- The hard state about to be saved never claims a commit index beyond the log. -/
def Driver.clampCommit (d : Driver σ) : Driver σ :=
  { d with node := { d.node with hardState := { d.node.hardState with
      commitIndex := min d.node.commitIndex d.logStore.lastIndex } } }

def Driver.persistHardState (d : Driver σ) : Driver σ × Option XRaftError :=
  d.clampCommit.durably (fun d => { d with hsStore := some d.node.hardState })
    (.persist d.clampCommit.node.hardState) .storeFailed

def Driver.appendLog (d : Driver σ) (entries : List Entry) : Driver σ × Option XRaftError :=
  match d.logStore.append entries with
  | .error e => (d.emit [.storeFailed e], some e)
  | .ok logStore =>
    d.durably (fun d => { d with logStore := logStore }) (.append entries) .storeFailed

def Driver.flushLog (d : Driver σ) : Driver σ × Option XRaftError :=
  d.durably (fun d => d) .flush .storeFailed

def Driver.truncateLog (d : Driver σ) (fromIndex : ℕ) : Driver σ × Option XRaftError :=
  d.durably (fun d => { d with logStore := d.logStore.truncateFrom fromIndex })
    (.truncate fromIndex) .storeFailed

def Driver.purgeLog (d : Driver σ) (through : ℕ) : Driver σ × Option XRaftError :=
  d.durably (fun d => { d with logStore := d.logStore.purgePrefix through }) (.purge through)
    .storeFailed

def Driver.anchorLog (d : Driver σ) (term : ℕ) (index : ℕ) :
    Driver σ × Option XRaftError :=
  d.durably (fun d => { d with logStore := d.logStore.updateSnapshotAnchor term index })
    (.anchor term index) .storeFailed

def Driver.saveSnapshot (d : Driver σ) (metadata : SnapshotMeta) (data : Bytes) :
    Driver σ × Option XRaftError :=
  match d.snapshotStore.saveSnapshot metadata data with
  | .error e => (d.emit [.snapshotFailed e], some e)
  | .ok store => d.durably (fun d => { d with snapshotStore := store }) (.saveSnapshot metadata)
      .snapshotFailed

structure CapturedResponse where
  vote : Option VoteResponse := none
  preVote : Option PreVoteResponse := none
  fetch : Option FetchResponse := none
  error : Option XRaftError := none

def CapturedResponse.merge (c other : CapturedResponse) : CapturedResponse :=
  ⟨c.vote.or other.vote, c.preVote.or other.preVote, c.fetch.or other.fetch, c.error.or other.error⟩

structure Outcome (σ : Type) where
  driver : Driver σ
  captured : CapturedResponse
  broke : Bool

def haltBatch (d : Driver σ) (captured : CapturedResponse) (message : String) : Outcome σ :=
  ⟨d.halt message, { captured with error := some (.storage message) }, true⟩

def haltOnError {ε : Type} (captured : CapturedResponse) (text : ε → String) :
    Driver σ × Option ε → Outcome σ
  | (d, some e) => haltBatch d captured (text e)
  | (d, none) => ⟨d, captured, false⟩

def Driver.resolveWaiters (d : Driver σ) (due : ℕ → Bool)
    (result : Except XRaftError ℕ) : Driver σ :=
  let answers := (d.pending.filter (fun w => due w.1)).map
    (fun w => Effect.clientReply w.2 result)
  Driver.emit { d with pending := d.pending.filter (fun w => !due w.1) } answers

/-- The log tip the engine should mirror: the log's last entry, or a snapshot beyond it. -/
def Driver.effectiveLogTip (d : Driver σ) : ℕ × ℕ :=
  match d.node.lastSnapshotMeta with
  | some snap =>
    if d.logStore.lastIndex < snap.lastIncludedIndex
    then (snap.lastIncludedIndex, snap.lastIncludedTerm)
    else (d.logStore.lastIndex, d.logStore.lastTerm)
  | none => (d.logStore.lastIndex, d.logStore.lastTerm)

def Driver.mirrorLogTip (d : Driver σ) : Driver σ :=
  { d with node := d.node.setLastLog d.effectiveLogTip.1 d.effectiveLogTip.2 }

/-- The end of `epoch` as the leader knows it; an unreadable or unknown epoch has none. -/
def Driver.lookupEpochEnd (d : Driver σ) (epoch : ℕ) : Driver σ × Option ℕ :=
  match d.nextFault with
  | some _ => (d.afterCall, none)
  | none => (d.afterCall, d.logStore.endOffsetForEpoch epoch)

/-- Divergence test of a fetch at `fetchOffset > 1`: `actual` is the leader's term right before the
offset. An unknown epoch falls back to the leader's own tip. -/
def Driver.divergingEpoch (d : Driver σ) (actual : Option ℕ) (lastFetchedEpoch : ℕ) :
    Driver σ × Option DivergingEpoch :=
  if actual = some lastFetchedEpoch then (d, none)
  else
    let looked := d.lookupEpochEnd lastFetchedEpoch
    let tip := d.effectiveLogTip
    match looked.2 with
    | some precise => (looked.1, some ⟨lastFetchedEpoch, precise⟩)
    | none => (looked.1, some ⟨max tip.2 (actual.getD 0), tip.1⟩)

def Driver.readBatch (d : Driver σ) (blank : FetchResponse) (fetchOffset : ℕ) :
    Driver σ × Except XRaftError FetchResponse :=
  let last := satAdd fetchOffset d.maxFetchBatch
  match d.nextFault with
  | some f => (d.afterCall, .error (.storage
      (s!"get_range({displayIndex fetchOffset}, {displayIndex last}) failed during fetch: " ++
        f.error.display)))
  | none => (d.afterCall, .ok { blank with entries := d.logStore.getRange fetchOffset last })

def Driver.answerFrom (d : Driver σ) (blank : FetchResponse) (fetchOffset : ℕ)
    (lastFetchedEpoch : ℕ) (actual : Option ℕ) : Driver σ × Except XRaftError FetchResponse :=
  match d.divergingEpoch actual lastFetchedEpoch with
  | (d', some de) => (d', .ok { blank with divergingEpoch := some de })
  | (d', none) => d'.readBatch blank fetchOffset

def Driver.materializeFetchResponse (d : Driver σ) (clusterId : String) (leaderEpoch : ℕ)
    (leaderId : NodeId) (highWatermark fetchOffset : ℕ) (lastFetchedEpoch : ℕ) :
    Driver σ × Except XRaftError FetchResponse :=
  let blank : FetchResponse :=
    ⟨clusterId, leaderEpoch, leaderId, highWatermark, [], none, none, true⟩
  match d.node.snapshotCovering fetchOffset with
  | some snap =>
    let redirect : SnapshotRedirect := ⟨snap.id, snap.lastIncludedIndex, snap.lastIncludedTerm⟩
    (d, .ok { blank with snapshotRedirect := some redirect })
  | none =>
    if fetchOffset ≤ 1 then d.readBatch blank fetchOffset
    else
      let prev := fetchOffset - 1
      match d.node.lastSnapshotMeta.filter (fun snap => snap.lastIncludedIndex = prev) with
      | some snap => d.answerFrom blank fetchOffset lastFetchedEpoch (some snap.lastIncludedTerm)
      | none =>
        match d.nextFault with
        | some f => (d.afterCall, .error (.storage
            (s!"term_at({displayIndex prev}) failed during fetch: " ++ f.error.display)))
        | none => d.afterCall.answerFrom blank fetchOffset lastFetchedEpoch (d.logStore.termAt prev)

variable [StateMachine σ]

def Driver.applyEntry (d : Driver σ) (last : ℕ) (entry : Entry) :
    Driver σ × Option String :=
  let settle (d : Driver σ) : Driver σ :=
    (d.emit [.apply entry]).resolveWaiters (fun i => i = entry.index) (.ok entry.index)
  match entry.payload with
  | .command bytes =>
    match StateMachine.apply d.stateMachine entry.index bytes with
    | .ok sm => (settle { d with stateMachine := sm }, none)
    | .error e =>
      let message := s!"state machine apply at {displayIndex entry.index} failed: " ++ e.display
      (d.resolveWaiters (fun i => entry.index ≤ i ∧ i ≤ last) (.error (.storage message)),
        some message)
  | _ => (settle d, none)

def Driver.applyEntries (d : Driver σ) (last : ℕ) : List Entry → Driver σ × Option String
  | [] => (d, none)
  | entry :: rest =>
    match d.applyEntry last entry with
    | (d', none) => d'.applyEntries last rest
    | (d', some message) => (d', some message)

/-- The position at which a range read leaves the expected index line. -/
def indexGap (first : ℕ) (entries : List Entry) : Option (ℕ × Entry) :=
  (entries.zipIdx.find? (fun p => p.1.index ≠ first + p.2)).map (fun p => (p.2, p.1))

/-- Reads `first..=last` and applies it in order; any irregular read fails the waiters in range. -/
def Driver.applyCommitted (d : Driver σ) (first last : ℕ) : Driver σ × Option String :=
  let refuse (d : Driver σ) (message : String) : Driver σ × Option String :=
    (d.resolveWaiters (fun i => first ≤ i ∧ i ≤ last) (.error (.storage message)), some message)
  let range := s!"{displayIndex first}..={displayIndex last}"
  if last < first then (d, some s!"apply: invalid range {range} (from > to)")
  else if u64Max ≤ last then (d, some s!"apply: range end overflow for to={displayIndex last}")
  else match d.nextFault with
    | some f => refuse d.afterCall
        (s!"apply: read range {range} failed: " ++ f.error.display)
    | none =>
      let entries := d.logStore.getRange first (last + 1)
      let expected := last - first + 1
      if entries.length ≠ expected then
        refuse d.afterCall (s!"apply: log_store.get_range({range}) returned " ++
          s!"{entries.length} entries, expected {expected}")
      else match indexGap first entries with
        | some (position, entry) =>
          refuse d.afterCall (s!"apply: log_store.get_range({range}) returned entry at " ++
            s!"{displayIndex entry.index} at position {position}, expected " ++
            displayIndex (first + position))
        | none => d.afterCall.applyEntries last entries

def Driver.dispatchSnapshotWorker (d : Driver σ) (throughIndex : ℕ)
    (reply : Option RequestId) : Driver σ × Option XRaftError :=
  if d.snapshotWorkerInFlight then
    (d, some (.storage ("dispatch_snapshot_worker: another worker still in flight; " ++
      "engine/operator gating is broken")))
  else match d.nextFault with
    | some f => (d.afterCall, some f.error)
    | none =>
      match d.logStore.termAt throughIndex with
      | none => (d.afterCall,
          some (.storage "TakeSnapshot: cannot snapshot without a configured voter_set"))
      | some throughTerm =>
        match StateMachine.beginSnapshot d.stateMachine with
        | .error e => (d.afterCall, some (.storage
            (s!"state machine begin_snapshot at {displayIndex throughIndex} failed: " ++
              e.display)))
        | .ok serializer =>
          ({ d.afterCall with
            snapshotWorkerInFlight := true
            snapshotJobs := d.snapshotJobs ++
              [⟨throughIndex, throughTerm, d.node.voterSet, serializer, reply⟩] }, none)

/-- Persists, restores and anchors a leader's snapshot, then drops or cuts the log behind it. -/
def Driver.handleInstallSnapshot (d : Driver σ) (metadata : SnapshotMeta) (data : Bytes) :
    Driver σ × Option XRaftError :=
  let place := s!"(term={metadata.lastIncludedTerm}, index={metadata.lastIncludedIndex})"
  let failed (d : Driver σ) (what : String) (e : XRaftError) : Driver σ × Option XRaftError :=
    (d, some (.storage (what ++ e.display)))
  let feedback := { metadata with
    id := canonicalId metadata.lastIncludedTerm metadata.lastIncludedIndex }
  let installed (d : Driver σ) : Driver σ :=
    Driver.mirrorLogTip { d with node := d.node.handleSnapshotInstalled feedback }
  let flushed (d : Driver σ) (mode : String) : Driver σ × Option XRaftError :=
    match d.flushLog with
    | (d', some e) => failed d' s!"log flush (install-snapshot {mode}) at {place} failed: " e
    | (d', none) => (installed d', none)
  if metadata.lastIncludedIndex ≤ d.node.lastApplied then (d, none)
  else match d.saveSnapshot metadata data with
    | (d₁, some e) => failed d₁ s!"save_snapshot (install) at {place} failed: " e
    | (d₁, none) =>
      match d₁.anchorLog metadata.lastIncludedTerm metadata.lastIncludedIndex with
      | (d₂, some e) => failed d₂
          s!"log_store.update_snapshot_anchor (install) at {place} failed BEFORE log mutation: " e
      | (d₂, none) =>
        match StateMachine.restore d₂.stateMachine data with
        | .error e => failed d₂ s!"state machine restore at {place} failed: " e
        | .ok sm =>
          let d₃ := { d₂ with stateMachine := sm }
          match d₃.nextFault with
          | some f => failed d₃.afterCall ("term_at(" ++
              displayIndex metadata.lastIncludedIndex ++
              ") failed before install-snapshot log wipe: ") f.error
          | none =>
            if d₃.logStore.termAt metadata.lastIncludedIndex = some metadata.lastIncludedTerm then
              match d₃.afterCall.purgeLog metadata.lastIncludedIndex with
              | (d₄, some e) => failed d₄
                  s!"log purge_prefix (install-snapshot retain) at {place} failed: " e
              | (d₄, none) => flushed d₄ "retain"
            else
              match d₃.afterCall.truncateLog 1 with
              | (d₄, some e) => failed d₄
                  s!"log truncate (install-snapshot wipe) at {place} failed: " e
              | (d₄, none) => flushed d₄ "wipe"

/-- A response to the inbound caller is captured once; everything else goes to the router. -/
def sendOrCapture (origin : Option NodeId) (d : Driver σ) (captured : CapturedResponse)
    (dest : NodeId) (message : OutboundMessage) : Outcome σ :=
  let routed : Outcome σ := ⟨d.emit [.dispatch dest message], captured, false⟩
  if some dest ≠ origin then routed
  else match message with
    | .voteResponse r =>
      if captured.vote.isNone then ⟨d, { captured with vote := some r }, false⟩ else routed
    | .preVoteResponse r =>
      if captured.preVote.isNone then ⟨d, { captured with preVote := some r }, false⟩ else routed
    | .fetchResponse r =>
      if captured.fetch.isNone then ⟨d, { captured with fetch := some r }, false⟩ else routed
    | _ => routed

def Driver.failWaiters (d : Driver σ) (error : XRaftError) : Driver σ :=
  Driver.emit { d with pending := [], pendingReads := [] }
    (d.pending.map (fun w => .clientReply w.2 (.error error)) ++
      d.pendingReads.map (fun r => .queryReply r.reply (.error error)))

/-- Appends and flushes; a failure answers the waiters of the batch before it halts. -/
def runAppend (d : Driver σ) (captured : CapturedResponse) (entries : List Entry) : Outcome σ :=
  let abandon (d : Driver σ) (message : String) : Outcome σ :=
    haltBatch (d.resolveWaiters (fun i => entries.any (fun e => e.index = i))
      (.error (.storage message))) captured message
  match d.appendLog entries with
  | (d', some e) => abandon d' ("log append failed: " ++ e.display)
  | (d', none) =>
    match d'.flushLog with
    | (d'', some e) => abandon d'' ("log flush after append failed: " ++ e.display)
    | (d'', none) => ⟨d'', captured, false⟩

/-- A suffix cut re-reads the log tip; a prefix cut leaves the tip alone. -/
def runTruncate (d : Driver σ) (captured : CapturedResponse) : LogTruncation → Outcome σ
  | .suffixFromInclusive fromIndex =>
    match d.truncateLog fromIndex with
    | (d', some e) => haltBatch d' captured ("log truncate failed: " ++ e.display)
    | (d', none) =>
      match d'.flushLog with
      | (d'', some e) => haltBatch d'' captured ("log flush after truncate failed: " ++ e.display)
      | (d'', none) => ⟨d''.mirrorLogTip, captured, false⟩
  | .prefixThroughInclusive through =>
    match d.purgeLog through with
    | (d', some e) => haltBatch d' captured ("log purge_prefix failed: " ++ e.display)
    | (d', none) =>
      match d'.flushLog with
      | (d'', some e) =>
        haltBatch d'' captured ("log flush after purge_prefix failed: " ++ e.display)
      | (d'', none) => ⟨d'', captured, false⟩

abbrev Nested (σ : Type) := Driver σ → Option NodeId → List Action → Driver σ × CapturedResponse

/-- Answers a fetch from the log and, when nothing diverged, credits the replica with the offset it
claims to have reached. -/
def runServeFetch (nested : Nested σ) (origin : Option NodeId) (d : Driver σ)
    (captured : CapturedResponse) (dest : NodeId) (clusterId : String) (leaderEpoch : ℕ)
    (leaderId : NodeId) (highWatermark fetchOffset : ℕ) (lastFetchedEpoch : ℕ) :
    Outcome σ :=
  match d.materializeFetchResponse clusterId leaderEpoch leaderId highWatermark fetchOffset
      lastFetchedEpoch with
  | (d', .error e) => ⟨d', { captured with error := captured.error.or (some e) }, false⟩
  | (d', .ok resp) =>
    let sent := sendOrCapture origin d' captured dest (.fetchResponse resp)
    if resp.divergingEpoch.isNone ∧ resp.snapshotRedirect.isNone ∧ 0 < fetchOffset then
      let acked := sent.driver.node.step (.fetchRequestAcked dest (fetchOffset - 1))
      let inner := nested { sent.driver with node := acked.1 } origin acked.2
      ⟨inner.1, sent.captured.merge inner.2, inner.1.haltReason.isSome⟩
    else sent

def runAction (nested : Nested σ) (origin : Option NodeId) (d : Driver σ)
    (captured : CapturedResponse) : Action → Outcome σ
  | .persistHardState =>
    haltOnError captured (fun e => "hard-state persist failed: " ++ e.display) d.persistHardState
  | .appendEntries entries => runAppend d captured entries
  | .truncateLog truncation => runTruncate d captured truncation
  | .applyToStateMachine first last =>
    haltOnError captured (fun reason => reason) (d.applyCommitted first last)
  | .takeSnapshot throughIndex =>
    haltOnError captured (fun e => "snapshot dispatch failed: " ++ e.display)
      (d.dispatchSnapshotWorker throughIndex none)
  | .installSnapshot metadata data =>
    haltOnError captured (fun e => "snapshot install failed: " ++ e.display)
      (d.handleInstallSnapshot metadata data)
  | .becomeLeader => ⟨d, captured, false⟩
  | .stepDown => ⟨d.failWaiters (.notLeader d.node.leaderId), captured, false⟩
  | .sendMessage dest message => sendOrCapture origin d captured dest message
  | .serveFetch dest clusterId leaderEpoch leaderId highWatermark fetchOffset lastFetchedEpoch =>
    runServeFetch nested origin d captured dest clusterId leaderEpoch leaderId highWatermark
      fetchOffset lastFetchedEpoch
  | .redirectToSnapshot dest clusterId leaderEpoch leaderId highWatermark snap =>
    sendOrCapture origin d captured dest (.fetchResponse
      ⟨clusterId, leaderEpoch, leaderId, highWatermark, [], none,
        some ⟨snap.id, snap.lastIncludedIndex, snap.lastIncludedTerm⟩, true⟩)

def runActions (nested : Nested σ) (origin : Option NodeId) :
    Driver σ → CapturedResponse → List Action → Driver σ × CapturedResponse
  | d, captured, [] => (d, captured)
  | d, captured, action :: rest =>
    let o := runAction nested origin d captured action
    if o.broke then (o.driver, o.captured) else runActions nested origin o.driver o.captured rest

/-- An acknowledged fetch only applies and snapshots, so the inner batch never nests again. -/
def processAcked : Nested σ := fun d origin actions =>
  runActions (fun d _ _ => (d, {})) origin d {} actions

def Driver.processActions (d : Driver σ) (actions : List Action) (origin : Option NodeId) :
    Driver σ × CapturedResponse :=
  runActions processAcked origin d {} actions

def Driver.feed (d : Driver σ) (input : Input) (origin : Option NodeId) :
    Driver σ × CapturedResponse :=
  Driver.processActions { d with node := (d.node.step input).1 } (d.node.step input).2 origin

def Driver.defaultDenyVote (d : Driver σ) : VoteResponse :=
  ⟨d.node.config.clusterId, d.node.currentTerm, d.node.currentTerm, false, d.node.leaderId⟩

def Driver.defaultDenyPreVote (d : Driver σ) : PreVoteResponse :=
  ⟨d.node.config.clusterId, d.node.currentTerm, d.node.currentTerm, false, d.node.leaderId⟩

def Driver.defaultDenyFetch (d : Driver σ) : FetchResponse :=
  ⟨d.node.config.clusterId, d.node.currentTerm, d.node.leaderId.getD d.node.id, d.node.commitIndex,
    [], none, none, false⟩

/-- The answer of an inbound call: an error wins over whatever was captured. -/
def answer {α : Type} (captured : CapturedResponse) (response : Option α) (fallback : α) :
    Except XRaftError α :=
  match captured.error with
  | some e => .error e
  | none => .ok (response.getD fallback)

def Driver.handleInboundVote (d : Driver σ) (req : VoteRequest) : Driver σ :=
  let r := d.feed (.voteRequest req) (some req.candidateId)
  r.1.emit [.voteReply req (answer r.2 r.2.vote r.1.defaultDenyVote)]

def Driver.handleInboundPreVote (d : Driver σ) (req : PreVoteRequest) : Driver σ :=
  let r := d.feed (.preVoteRequest req) (some req.candidateId)
  r.1.emit [.preVoteReply req (answer r.2 r.2.preVote r.1.defaultDenyPreVote)]

def Driver.handleInboundFetch (d : Driver σ) (req : FetchRequest) : Driver σ :=
  let r := d.feed (.fetchRequest req) (some req.replicaId)
  r.1.emit [.fetchReply req (answer r.2 r.2.fetch r.1.defaultDenyFetch)]

def Driver.handleInboundFetchSnapshot (d : Driver σ) (req : FetchSnapshotRequest) : Driver σ :=
  let refuse (d : Driver σ) (e : XRaftError) : Driver σ :=
    d.emit [.fetchSnapshotReply req (.error e)]
  let ourTerm := d.node.currentTerm
  if req.clusterId ≠ d.node.config.clusterId then
    refuse d (.transport (s!"FetchSnapshot cluster_id mismatch: expected " ++
      s!"{d.node.config.clusterId}, got {req.clusterId}"))
  else if req.replicaId = d.node.id then
    refuse d (.transport "FetchSnapshot self-loopback rejected")
  else if d.node.role ≠ .leader then refuse d (.notLeader d.node.leaderId)
  else if !d.node.isKnownVoter req.replicaId && !d.node.hasPeer req.replicaId then
    refuse d (.transport (s!"FetchSnapshot from unknown replica {displayNodeId req.replicaId} " ++
      "(not a voter and not a tracked peer)"))
  else if ourTerm < req.leaderEpoch then
    let down := d.node.becomeFollower req.leaderEpoch none
    let r := Driver.processActions { d with node := down.1 } down.2 none
    match r.2.error with
    | some e => refuse r.1 e
    | none => refuse r.1 (.notLeader r.1.node.leaderId)
  else if req.leaderEpoch < ourTerm then
    refuse d (.transport
      s!"FetchSnapshot leader_epoch mismatch: caller={req.leaderEpoch}, ours={ourTerm}")
  else match d.nextFault with
    | some f => refuse d.afterCall f.error
    | none =>
      match d.snapshotStore.findById req.snapshotId with
      | none => refuse d.afterCall (.snapshotNotFound req.snapshotId)
      | some metadata =>
        match d.afterCall.nextFault with
        | some f => refuse d.afterCall.afterCall f.error
        | none =>
          match d.snapshotStore.snapshotReaderFromOffset metadata req.maxBytes req.offset
              (if req.maxBytes = 0 then none else some req.maxBytes) with
          | .error e => refuse d.afterCall.afterCall e
          | .ok items => d.afterCall.afterCall.emit [.fetchSnapshotReply req (.ok (items.map
              (fun c => ⟨d.node.config.clusterId, ourTerm, c.chunkIndex, c.data, c.done,
                c.metadata⟩)))]

/-- A finished snapshot stream is installed only from the recognised leader of the current term. -/
def Driver.handleFetchSnapshotResult (d : Driver σ) (peer : NodeId) (clusterId : String)
    (leaderEpoch : ℕ) (metadata : Option SnapshotMeta) (data : Bytes) : Driver σ :=
  if clusterId ≠ d.node.config.clusterId then d
  else if d.node.currentTerm < leaderEpoch then
    let down := d.node.becomeFollower leaderEpoch none
    (Driver.processActions { d with node := down.1 } down.2 none).1
  else if leaderEpoch < d.node.currentTerm then d
  else if d.node.leaderId ≠ some peer then d
  else match metadata with
    | none => d
    | some snap => (d.feed (.fetchSnapshotReceived snap data) none).1

def Driver.handleClientCommand (d : Driver σ) (request : RequestId) (command : Bytes) : Driver σ :=
  if d.node.role ≠ .leader then
    d.emit [.clientReply request (.error (.notLeader d.node.leaderId))]
  else
    let stepped := d.node.step (.clientPropose command)
    let postLast := stepped.1.lastLogIndex
    let appended := stepped.2.any (fun a => match a with
      | .appendEntries entries => entries.any (fun e => e.index = postLast)
      | _ => false)
    let registered : Driver σ :=
      if postLast = d.node.lastLogIndex + 1 ∧ appended then
        { d with node := stepped.1, pending := d.pending ++ [(postLast, request)] }
      else Driver.emit { d with node := stepped.1 }
        [.clientReply request (.error (.notLeader stepped.1.leaderId))]
    (registered.processActions stepped.2 none).1

/-- Reads locally under an active lease (or with leases off); otherwise defers the read until a
quorum has fetched again. -/
def Driver.handleClientQuery (d : Driver σ) (request : RequestId) (query : Bytes) : Driver σ :=
  if d.node.role ≠ .leader then
    d.emit [.queryReply request (.error (.notLeader d.node.leaderId))]
  else if !d.node.config.enableLeaderLease || d.node.hasActiveLease then
    d.emit [.queryReply request (StateMachine.query d.stateMachine query)]
  else if maxPendingReads ≤ d.pendingReads.length then
    d.emit [.queryReply request (.error (.notLeader none))]
  else
    { d with pendingReads :=
      d.pendingReads ++ [⟨query, request, d.node.commitIndex, d.node.fetchSeq,
        satAdd d.node.logicalTick (satMul d.node.checkQuorumIntervalTicks 2)⟩] }

def RaftNode.hasReadIndexQuorumProof (n : RaftNode) (readBaselineSeq : ℕ) : Bool :=
  match n.voterSet with
  | some vs => vs.quorumSize ≤ n.countVoters vs (fun p => readBaselineSeq < p.lastFetchSeq)
  | none => false

/-- The verdict on one deferred read; `none` keeps it waiting. -/
def Driver.readVerdict (d : Driver σ) (read : PendingRead) : Option (Except XRaftError Bytes) :=
  if d.node.role ≠ .leader then some (.error (.notLeader d.node.leaderId))
  else if read.deadlineTick < d.node.logicalTick then some (.error (.notLeader none))
  else if RaftNode.hasReadIndexQuorumProof d.node read.readBaselineSeq ∧
      read.readIndex ≤ d.node.lastApplied then
    some (StateMachine.query d.stateMachine read.query)
  else none

def Driver.drainPendingReads (d : Driver σ) : Driver σ :=
  Driver.emit { d with pendingReads := d.pendingReads.filter (fun r => (d.readVerdict r).isNone) }
    (d.pendingReads.filterMap (fun r => (d.readVerdict r).map (fun v => .queryReply r.reply v)))

def Driver.handleTriggerSnapshot (d : Driver σ) (request : RequestId) : Driver σ :=
  if d.node.role ≠ .leader then
    d.emit [.snapshotReply request (.error (.notLeader d.node.leaderId))]
  else if d.node.snapshotInFlight || d.snapshotWorkerInFlight then
    d.emit [.snapshotReply request (.error (.config
      "snapshot already in flight; retry after current snapshot completes"))]
  else
    match Driver.dispatchSnapshotWorker { d with node := { d.node with snapshotInFlight := true } }
        d.node.commitIndex (some request) with
    | (d', none) => d'
    | (d', some e) =>
      Driver.halt { d' with
        node := { d'.node with snapshotInFlight := false }
        snapshotWorkerInFlight := false }
        ("operator-triggered snapshot dispatch failed: " ++ e.display)

/-- The background worker: serializes the captured view and saves it under its canonical id. It
shares the snapshot store with the driver and may finish at any later time. -/
def Driver.runSnapshotWorker (d : Driver σ) : Driver σ :=
  match d.snapshotJobs with
  | [] => d
  | job :: rest =>
    let base : SnapshotMeta := ⟨job.throughIndex, job.throughTerm, "", job.voterSet, none⟩
    let named (size : Option ℕ) : SnapshotMeta :=
      { base with id := canonicalId job.throughTerm job.throughIndex, sizeBytes := size }
    let finish (d : Driver σ) (metadata : SnapshotMeta) (result : Except XRaftError Unit) :
        Driver σ :=
      { d with
        snapshotJobs := rest
        snapshotDone := d.snapshotDone ++
          [⟨job.throughIndex, job.throughTerm, metadata, result, job.reply⟩] }
    match job.serializer with
    | .error e => finish d (named none) (.error (.storage
        (s!"state machine snapshot serialize at {displayIndex job.throughIndex} failed: " ++
          e.display)))
    | .ok data =>
      match d.saveSnapshot { base with sizeBytes := some data.length } data with
      | (d', some e) => finish d' (named none) (.error (.storage
          (s!"save_snapshot at (term={job.throughTerm}, index={job.throughIndex}) failed: " ++
            e.display)))
      | (d', none) => finish d' (named (some data.length)) (.ok ())

def Driver.replySnapshot (d : Driver σ) (reply : Option RequestId)
    (result : Except XRaftError TriggeredSnapshotInfo) : Driver σ :=
  match reply with
  | some request => d.emit [.snapshotReply request result]
  | none => d

/-- A finished worker raises the log's anchor before the engine asks for the prefix to be purged. -/
def Driver.handleSnapshotCompleted (d : Driver σ) : Driver σ :=
  match d.snapshotDone with
  | [] => d
  | c :: rest =>
    let place := s!"(term={c.throughTerm}, index={c.throughIndex})"
    let idle := { d with snapshotDone := rest, snapshotWorkerInFlight := false }
    let fail (d : Driver σ) (message : String) : Driver σ :=
      (d.replySnapshot c.reply (.error (.storage message))).halt message
    match c.result with
    | .error e => fail idle (s!"background snapshot at {place} failed: " ++ e.display)
    | .ok _ =>
      match idle.anchorLog c.throughTerm c.throughIndex with
      | (d', some e) => fail d'
          (s!"log_store.update_snapshot_anchor at {place} failed: " ++ e.display)
      | (d', none) =>
        let r := d'.feed (.snapshotComplete c.metadata) none
        match r.2.error with
        | some e => r.1.replySnapshot c.reply (.error e)
        | none => r.1.replySnapshot c.reply (.ok ⟨c.metadata.lastIncludedIndex,
            c.metadata.lastIncludedTerm, c.metadata.sizeBytes.getD 0⟩)

/-- What the driver's select loop can pick up. Failed outbound calls change nothing. -/
inductive DriverEvent
  | tick
  | inboundVote (req : VoteRequest)
  | inboundPreVote (req : PreVoteRequest)
  | inboundFetch (req : FetchRequest)
  | inboundFetchSnapshot (req : FetchSnapshotRequest)
  | voteResult (peer : NodeId) (response : VoteResponse)
  | preVoteResult (peer : NodeId) (response : PreVoteResponse)
  | fetchResult (response : FetchResponse)
  | fetchSnapshotResult (peer : NodeId) (clusterId : String) (leaderEpoch : ℕ)
      (metadata : Option SnapshotMeta) (data : Bytes)
  | client (request : RequestId) (command : Bytes)
  | query (request : RequestId) (query : Bytes)
  | triggerSnapshot (request : RequestId)
  | snapshotCompleted

def fetchOf : DriverEvent → Option FetchRequest
  | .inboundFetch req => some req
  | _ => none

def Driver.handleDriverEvent (d : Driver σ) : DriverEvent → Driver σ
  | .tick => (d.feed .tick none).1
  | .inboundVote req => d.handleInboundVote req
  | .inboundPreVote req => d.handleInboundPreVote req
  | .inboundFetch req => d.handleInboundFetch req
  | .inboundFetchSnapshot req => d.handleInboundFetchSnapshot req
  | .voteResult peer response => (d.feed (.voteResponse peer response) none).1
  | .preVoteResult peer response => (d.feed (.preVoteResponse peer response) none).1
  | .fetchResult response => (d.feed (.fetchResponse response) none).1
  | .fetchSnapshotResult peer clusterId leaderEpoch metadata data =>
    d.handleFetchSnapshotResult peer clusterId leaderEpoch metadata data
  | .client request command => d.handleClientCommand request command
  | .query request q => d.handleClientQuery request q
  | .triggerSnapshot request => d.handleTriggerSnapshot request
  | .snapshotCompleted => d.handleSnapshotCompleted

/-- Answers everything that still waits. The reason stays set: it marks the loop as left. -/
def Driver.failStopShutdown (d : Driver σ) : Driver σ :=
  let error := XRaftError.storage (d.haltReason.getD "")
  let stopped := d.failWaiters error
  Driver.emit { stopped with snapshotDone := [], snapshotWorkerInFlight := false }
    (d.snapshotDone.filterMap
      (fun c => c.reply.map (fun request => .snapshotReply request (.error error))))

/-- One turn of the select loop; a driver that has halted takes no further turn. -/
def Driver.turn (d : Driver σ) (event : DriverEvent) : Driver σ :=
  if d.haltReason.isSome then d
  else
    let handled := (d.handleDriverEvent event).drainPendingReads
    if handled.haltReason.isSome then handled.failStopShutdown else handled

end NodeDriver
