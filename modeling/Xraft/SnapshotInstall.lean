import Xraft.OrderlyDriver

/-! # Installing a leader's snapshot

What a quiescent follower keeps of its log when the leader's snapshot arrives: the entries behind
the snapshot if its own entry at the snapshot has the snapshot's term, and nothing otherwise. A
snapshot that is not ahead of the applied entries changes nothing.
-/
namespace SnapshotInstall

open ProtocolTypes ConsensusEngine DurableStores NodeDriver EngineTransitions PersistOrder
open FaultFreeBatches PositionedLog ActionOutcomes BatchOutcomes TurnOutcomes RunningTurns
open OrderlyDriver ApplyPipeline ServerRecovery DurableBeforeVisible GuardedExecution

variable {σ : Type} {d d' : Driver σ}

/-- A running follower that has applied what it knows to be committed, over a log that is contiguous
from an earlier snapshot, or from the beginning, on. -/
structure QuiescentFollower (d : Driver σ) : Prop where
  running : d.haltReason = none
  role : d.node.role = .follower
  applied : d.node.lastApplied = d.node.commitIndex
  covered : snapIndex d.node.lastSnapshotMeta ≤ d.node.lastApplied
  log : ∃ base, base ≤ d.node.lastApplied ∧ Positioned base d.logStore.entries

def tipBehind (snap : SnapshotMeta) (entries : List Entry) : ℕ × ℕ :=
  match entries.getLast? with
  | some e => (e.index, e.term)
  | none => (snap.lastIncludedIndex, snap.lastIncludedTerm)

def retained (snap : SnapshotMeta) (log : MemoryLogStore) : List Entry :=
  if log.termAt snap.lastIncludedIndex = some snap.lastIncludedTerm
  then log.entries.filter (fun e => snap.lastIncludedIndex < e.index) else []

theorem behindSnapshot_entries {s : MemoryLogStore} {base : ℕ} (h : Positioned base s.entries)
    (snap : SnapshotMeta) : (behindSnapshot s snap).entries = retained snap s := by
  have hanchor : (s.updateSnapshotAnchor snap.lastIncludedTerm snap.lastIncludedIndex).entries =
      s.entries := by
    unfold MemoryLogStore.updateSnapshotAnchor
    split
    · split_ifs <;> rfl
    · rfl
  unfold behindSnapshot retained MemoryLogStore.termAt
  dsimp only
  rw [hanchor]
  split_ifs
  · show List.filter _ (s.updateSnapshotAnchor _ _).entries = _
    rw [hanchor]
  · show List.filter _ (s.updateSnapshotAnchor _ _).entries = _
    rw [hanchor, List.filter_eq_nil_iff]
    intro e he
    have := (h.index_of_mem he).1
    simp only [decide_eq_true_eq]
    omega

theorem retained_above {snap : SnapshotMeta} {log : MemoryLogStore} {e : Entry}
    (h : e ∈ retained snap log) : snap.lastIncludedIndex < e.index := by
  unfold retained at h
  split_ifs at h
  · simpa using (List.mem_filter.mp h).2
  · cases h

/-- The engine mirrors the end of the log, or the snapshot when nothing is left behind it. -/
theorem effectiveLogTip_behind {snap : SnapshotMeta} (hpos : 0 < snap.lastIncludedIndex)
    (hmeta : d.node.lastSnapshotMeta = some snap)
    (habove : ∀ e ∈ d.logStore.entries, snap.lastIncludedIndex < e.index) :
    d.effectiveLogTip = tipBehind snap d.logStore.entries := by
  unfold Driver.effectiveLogTip tipBehind MemoryLogStore.lastIndex MemoryLogStore.lastTerm
  rw [hmeta]
  cases hlast : d.logStore.entries.getLast? with
  | none => exact if_pos hpos
  | some e =>
    have hlt := habove e (List.mem_of_getLast? hlast)
    exact if_neg (not_lt.mpr hlt.le)

theorem becomePreCandidate_fetchless (n : RaftNode) (dest : NodeId) (req : FetchRequest) :
    Action.sendMessage dest (.fetchRequest req) ∉ n.becomePreCandidate.2 := by
  have hcandidate : ∀ k : RaftNode,
      Action.sendMessage dest (.fetchRequest req) ∉ k.becomeCandidate.2 := by
    intro k h
    have hvotes : Action.sendMessage dest (.fetchRequest req) ∉
        Action.persistHardState :: k.enterCandidate.voteRequests := by
      simp [RaftNode.voteRequests]
    unfold RaftNode.becomeCandidate at h
    split_ifs at h
    · rcases List.mem_append.mp h with h | h
      · exact hvotes h
      · rcases List.mem_append.mp h with h | h
        · simp at h
        · exact (advanceCommit_applies _ _ h).elim
    · exact hvotes h
  intro h
  have hpolls : Action.sendMessage dest (.fetchRequest req) ∉
      n.enterPreCandidate.preVoteRequests := by
    simp [RaftNode.preVoteRequests]
  unfold RaftNode.becomePreCandidate at h
  split_ifs at h
  · rcases List.mem_append.mp h with h | h
    · exact hpolls h
    · exact hcandidate _ h
  · exact hpolls h

theorem tick_fetches {n : RaftNode} {dest : NodeId} {req : FetchRequest}
    (h : Action.sendMessage dest (.fetchRequest req) ∈ (n.step .tick).2) :
    req = n.fetchRequest := by
  have hfetch : Action.sendMessage dest (.fetchRequest req) ∈ n.advanceClock.scheduleFetch.2 := by
    rw [RaftNode.step, handleTick_eq] at h
    split_ifs at h
    · rcases List.mem_append.mp h with h | h
      · exact h
      · exfalso
        rcases List.mem_append.mp h with h | h <;> split_ifs at h <;> simp at h
    · unfold RaftNode.electionTimeout at h
      split_ifs at h
      · rcases List.mem_append.mp h with h | h
        · exact h
        · exact absurd h (becomePreCandidate_fetchless _ _ _)
      · exact h
  obtain ⟨dest', heq⟩ := scheduleFetch_sends hfetch
  obtain ⟨-, hmsg⟩ := Action.sendMessage.inj heq
  exact OutboundMessage.fetchRequest.inj hmsg

variable [StateMachine σ]

structure Retained (d : Driver σ) (snap : SnapshotMeta) (data : Bytes) (d' : Driver σ) : Prop where
  log : d'.logStore.entries = retained snap d.logStore
  restored : StateMachine.restore d.stateMachine data = .ok d'.stateMachine
  saved : d.snapshotStore.saveSnapshot snap data = .ok d'.snapshotStore
  applied : d'.node.lastApplied = snap.lastIncludedIndex
  committed : d'.node.commitIndex = snap.lastIncludedIndex
  snapshot : ∃ m, d'.node.lastSnapshotMeta = some m ∧ m.lastIncludedTerm = snap.lastIncludedTerm ∧
    m.lastIncludedIndex = snap.lastIncludedIndex
  tip : (d'.node.lastLogIndex, d'.node.lastLogTerm) = tipBehind snap d'.logStore.entries
  fetch : ∀ dest req, Action.sendMessage dest (.fetchRequest req) ∈ (d'.node.step .tick).2 →
    req.fetchOffset = min (d'.node.lastLogIndex + 1) u64Max

theorem Installed.retained (hq : QuiescentFollower d) {snap : SnapshotMeta} {data : Bytes}
    (h : Installed d snap data d') : Retained d snap data d' := by
  obtain ⟨store, sm, hstore, hsm, hkept⟩ := h.after
  obtain ⟨base, hbase, hpos⟩ := hq.log
  have hnew := h.newer
  have happlied := hq.applied
  have hcovered := hq.covered
  have hnewer : isSnapshotMetaNewer d.node.lastSnapshotMeta (renamed snap) = true :=
    isSnapshotMetaNewer_iff.mpr (.inr (by
      show _ < snap.lastIncludedIndex
      omega))
  let target : Driver σ := { d with
    node := d.node.handleSnapshotInstalled (renamed snap)
    logStore := behindSnapshot d.logStore snap
    snapshotStore := store
    stateMachine := sm }
  have hmeta : target.node.lastSnapshotMeta = some (renamed snap) := if_pos hnewer
  have hentries : target.logStore.entries = SnapshotInstall.retained snap d.logStore :=
    behindSnapshot_entries hpos snap
  have htip : target.effectiveLogTip = tipBehind snap target.logStore.entries := by
    refine (effectiveLogTip_behind ?_ hmeta ?_).trans rfl
    · show 0 < snap.lastIncludedIndex
      omega
    · intro e he
      rw [hentries] at he
      exact retained_above he
  have hcore : core d'.node = core target.mirrorLogTip.node := hkept.node
  have hmirror : (d'.node.lastLogIndex, d'.node.lastLogTerm) = target.effectiveLogTip := by
    have hpair : ((core d'.node).lastLogIndex, (core d'.node).lastLogTerm) =
        ((core target.mirrorLogTip.node).lastLogIndex,
          (core target.mirrorLogTip.node).lastLogTerm) := by rw [hcore]
    exact hpair
  have hlog : d'.logStore = target.logStore := hkept.logStore
  refine ⟨hlog ▸ hentries, hkept.stateMachine ▸ hsm, hkept.snapshotStore ▸ hstore, ?_, ?_, ?_, ?_,
    fun dest req hreq => ?_⟩
  · have hsame : (core d'.node).lastApplied = (core target.mirrorLogTip.node).lastApplied := by
      rw [hcore]
    refine hsame.trans ?_
    show max d.node.lastApplied snap.lastIncludedIndex = _
    omega
  · have hsame : (core d'.node).commitIndex = (core target.mirrorLogTip.node).commitIndex := by
      rw [hcore]
    refine hsame.trans ?_
    show max d.node.commitIndex snap.lastIncludedIndex = _
    omega
  · have hsame : (core d'.node).lastSnapshotMeta =
        (core target.mirrorLogTip.node).lastSnapshotMeta := by rw [hcore]
    exact ⟨renamed snap, hsame.trans hmeta, rfl, rfl⟩
  · rw [hmirror, htip, hlog]
  · rw [tick_fetches hreq]
    rfl

def received (d : Driver σ) (leader : NodeId) (snap : SnapshotMeta) (data : Bytes) : DriverEvent :=
  .fetchSnapshotResult leader d.node.config.clusterId d.node.currentTerm (some snap) data

theorem handle_received {leader : NodeId} (hleader : d.node.leaderId = some leader)
    (snap : SnapshotMeta) (data : Bytes) : d.handleDriverEvent (received d leader snap data) =
      (d.feed (.fetchSnapshotReceived snap data) none).1 := by
  simp only [received, Driver.handleDriverEvent, Driver.handleFetchSnapshotResult]
  rw [if_neg (by simp), if_neg (lt_irrefl _), if_neg (lt_irrefl _), if_neg (by simp [hleader])]

theorem install_obeys_retain_rule (hq : QuiescentFollower d) {leader : NodeId}
    (hleader : d.node.leaderId = some leader) (snap : SnapshotMeta) (data : Bytes) :
    (d.node.lastApplied < snap.lastIncludedIndex →
        (d.turn (received d leader snap data)).haltReason = none →
        Retained d snap data (d.turn (received d leader snap data))) ∧
      (snap.lastIncludedIndex ≤ d.node.lastApplied →
        (d.turn (received d leader snap data)).node = d.node ∧
        (d.turn (received d leader snap data)).logStore = d.logStore ∧
        (d.turn (received d leader snap data)).hsStore = d.hsStore ∧
        (d.turn (received d leader snap data)).snapshotStore = d.snapshotStore ∧
        (d.turn (received d leader snap data)).stateMachine = d.stateMachine) := by
  have hhandle := handle_received hleader snap data
  refine ⟨fun hnew hrunning => ?_, fun hold => ?_⟩
  · obtain ⟨-, hhandled, hkept⟩ := turn_running hrunning
    have hfeed : (d.feed (.fetchSnapshotReceived snap data) none).1 =
        (haltOnError {} (fun e => "snapshot install failed: " ++ XRaftError.display e)
          (d.handleInstallSnapshot snap data)).driver := by
      simp only [Driver.feed, RaftNode.step, RaftNode.handleFetchSnapshotReceived,
        if_neg (not_le.mpr hnew), processActions_one]
      rfl
    rw [hhandle, hfeed] at hhandled hkept
    have houtcome := handleInstallSnapshot_outcome d snap data
    rcases hr : d.handleInstallSnapshot snap data with ⟨d₁, _ | e⟩ <;>
      rw [hr] at houtcome hhandled hkept
    · rcases houtcome with ⟨-, ⟨hle, -⟩ | hinstalled⟩ | ⟨hfailed, -⟩
      · omega
      · obtain ⟨store, sm, hstore, hsm, hafter⟩ := hinstalled.after
        exact Installed.retained hq ⟨hnew, store, sm, hstore, hsm, hafter.trans hkept⟩
      · exact absurd rfl hfailed
    · exact absurd hhandled (by simp [haltOnError, haltBatch, Driver.halt])
  · have hfeed : (d.feed (.fetchSnapshotReceived snap data) none).1 = d := by
      simp only [Driver.feed, RaftNode.step, RaftNode.handleFetchSnapshotReceived, if_pos hold]
      rfl
    have hturn : d.turn (received d leader snap data) = d.drainPendingReads := by
      unfold Driver.turn
      rw [if_neg (by simp [hq.running]), hhandle, hfeed]
      exact if_neg (by simp [Driver.drainPendingReads, Driver.emit, hq.running])
    rw [hturn]
    exact ⟨rfl, rfl, rfl, rfl, rfl⟩

/-! ## A follower with an uncommitted suffix -/

def suffixed : Driver NoOpStateMachine :=
  (start (threeVoterConfig false 1) (some threeVoterSet) [] 64 .mk [] Durable.fresh).turn
    (.fetchResult ⟨"c", 1, 2, 1, [⟨1, 1, .noOp⟩, ⟨2, 1, .noOp⟩, ⟨3, 1, .noOp⟩], none, none, true⟩)

def snapshotAt (index : ℕ) : SnapshotMeta := ⟨index, 1, "", some threeVoterSet, none⟩

theorem suffixed_quiescent : QuiescentFollower suffixed := by
  refine ⟨by decide +kernel, by decide +kernel, by decide +kernel, by decide +kernel, 0,
    Nat.zero_le _, ?_⟩
  have hlog : suffixed.logStore.entries = [⟨1, 1, .noOp⟩, ⟨2, 1, .noOp⟩, ⟨3, 1, .noOp⟩] := by
    decide +kernel
  rw [hlog]
  intro i e he
  rcases i with _ | _ | _ | i <;> simp at he <;> simp [← he]

/-- The entry behind the snapshot stays. -/
theorem install_obeys_retain_rule_keeps_suffix :
    let d' := suffixed.turn (received suffixed 2 (snapshotAt 2) [])
    Retained suffixed (snapshotAt 2) [] d' ∧ d'.logStore.entries = [⟨3, 1, .noOp⟩] := by
  intro d'
  have hrule := install_obeys_retain_rule suffixed_quiescent
    (by decide +kernel : suffixed.node.leaderId = some 2) (snapshotAt 2) []
  have hkept : Retained suffixed (snapshotAt 2) [] d' :=
    hrule.1 (by decide +kernel) (by decide +kernel)
  refine ⟨hkept, ?_⟩
  rw [hkept.log]
  decide +kernel

/-- Behind a snapshot at the end of the index space the follower asks for the snapshot's own
index. -/
theorem last_index_is_fetched_again :
    let d' := suffixed.turn (received suffixed 2 (snapshotAt u64Max) [])
    QuiescentFollower suffixed ∧ suffixed.node.lastApplied < u64Max ∧ d'.haltReason = none ∧
      d'.node.lastLogIndex = u64Max ∧ ∃ dest req,
        Action.sendMessage dest (.fetchRequest req) ∈ (d'.node.step .tick).2 ∧
          req.fetchOffset = u64Max ∧ req.fetchOffset ≠ d'.node.lastLogIndex + 1 := by
  refine ⟨suffixed_quiescent, by decide +kernel, by decide +kernel, by decide +kernel, 2,
    ⟨"c", 1, 1, u64Max, 1⟩, by decide +kernel, rfl, by decide +kernel⟩

end SnapshotInstall
