import Xraft.ApplyPipeline
import Xraft.DurableBeforeVisible

/-! # The log tip after a restart

The recovered engine takes its log tip from the log store alone. It is the true tip exactly when no
snapshot reaches beyond the log.
-/
namespace RecoveredTip

open ProtocolTypes ConsensusEngine DurableStores NodeDriver ServerRecovery ApplyPipeline
open DurableBeforeVisible GuardedExecution ClusterConfiguration EngineTransitions

variable {σ : Type}

def Behind (req : VoteRequest) (tip : ℕ × ℕ) : Prop :=
  req.lastLogTerm < tip.2 ∨ req.lastLogTerm = tip.2 ∧ req.lastLogIndex < tip.1

def Grants (n : RaftNode) (req : VoteRequest) : Prop :=
  ∃ resp, resp.voteGranted = true ∧
    Action.sendMessage req.candidateId (.voteResponse resp) ∈ (n.handleVoteRequest req).2

/-- The engine's indices are in order, it mirrors the effective log tip, and it votes for no
candidate behind that tip. -/
structure TrueTip (d : Driver σ) : Prop where
  applied : d.node.lastApplied ≤ d.node.commitIndex
  committed : d.node.commitIndex ≤ d.node.lastLogIndex
  tip : (d.node.lastLogIndex, d.node.lastLogTerm) = d.effectiveLogTip
  votes : ∀ req, Grants d.node req → ¬Behind req d.effectiveLogTip

theorem grants_upToDate {n : RaftNode} {req : VoteRequest} (h : Grants n req) :
    n.candidateLogIsUpToDate req.lastLogIndex req.lastLogTerm = true := by
  obtain ⟨resp, hg, hmem⟩ := h
  rcases handleVoteRequest_cases n req with heq | ⟨-, heq | ⟨-, heq⟩⟩ <;> rw [heq] at hmem
  · exact absurd hmem List.not_mem_nil
  · obtain rfl : resp = n.buildVoteResponse false := by simpa [refusing] using hmem
    cases hg
  · have hresp : (n.adoptNewer req.term).grantsVote req = true := by
      rcases mem_answering hmem with h | h | h
      · cases h
      · cases h
      · obtain ⟨-, hm⟩ := Action.sendMessage.inj h
        obtain rfl := OutboundMessage.voteResponse.inj hm
        exact hg
    have hlog := (Bool.and_eq_true_iff.mp hresp).1
    unfold RaftNode.adoptNewer at hlog
    split_ifs at hlog
    · exact hlog
    · exact hlog

theorem not_behind_of_upToDate {n : RaftNode} {req : VoteRequest}
    (h : n.candidateLogIsUpToDate req.lastLogIndex req.lastLogTerm = true) :
    ¬Behind req (n.lastLogIndex, n.lastLogTerm) := by
  unfold RaftNode.candidateLogIsUpToDate at h
  rintro (hb | ⟨hb, hb'⟩)
  · have hb : req.lastLogTerm < n.lastLogTerm := hb
    rw [if_neg (by omega), if_pos hb] at h
    cases h
  · have hb : req.lastLogTerm = n.lastLogTerm := hb
    have hb' : req.lastLogIndex < n.lastLogIndex := hb'
    rw [if_neg (by omega), if_neg (by omega)] at h
    have := of_decide_eq_true h
    omega

theorem trueTip_of_tip {d : Driver σ} (applied : d.node.lastApplied ≤ d.node.commitIndex)
    (committed : d.node.commitIndex ≤ d.node.lastLogIndex)
    (tip : (d.node.lastLogIndex, d.node.lastLogTerm) = d.effectiveLogTip) : TrueTip d :=
  ⟨applied, committed, tip, fun _ hg => tip ▸ not_behind_of_upToDate (grants_upToDate hg)⟩

structure RecoveredFrom (logStore : MemoryLogStore) (snapshotMeta : Option SnapshotMeta)
    (d : Driver σ) : Prop where
  log : d.logStore = logStore
  snapshot : d.node.lastSnapshotMeta = snapshotMeta
  lastLogIndex : d.node.lastLogIndex = logStore.lastIndex
  lastLogTerm : d.node.lastLogTerm = logStore.lastTerm
  applied : d.node.lastApplied ≤ d.node.commitIndex
  covered : ∀ snap, snapshotMeta = some snap → snap.lastIncludedIndex ≤ d.node.commitIndex
  within : (∀ snap, snapshotMeta = some snap → snap.lastIncludedIndex ≤ logStore.lastIndex) →
    d.node.commitIndex ≤ logStore.lastIndex

theorem boot_recoveredFrom (config : ClusterConfig) (voterSet : Option VoterSet) (rng : List ℕ)
    (maxFetchBatch : ℕ) (faults : List (Option Fault)) (store : Durable) (sm : σ)
    (snapshotMeta : Option SnapshotMeta) : RecoveredFrom store.logStore snapshotMeta
      (boot config voterSet rng maxFetchBatch faults store sm snapshotMeta) := by
  constructor
  · rfl
  · rfl
  · rfl
  · rfl
  · exact le_trans (by rfl) (le_max_left _ _)
  · rintro snap rfl
    exact le_trans (le_max_right _ _) (le_max_left _ _)
  · intro hsnap
    refine max_le (max_le (Nat.zero_le _) ?_) (min_le_right _ _)
    cases snapshotMeta with
    | none => exact Nat.zero_le _
    | some snap => exact hsnap snap rfl

variable [StateMachine σ]

/-- The drain applies up to the commit index and moves nothing else. -/
theorem recoveryDrain_recoveredFrom {logStore : MemoryLogStore} {snapshotMeta : Option SnapshotMeta}
    {d : Driver σ} (h : RecoveredFrom logStore snapshotMeta d) :
    RecoveredFrom logStore snapshotMeta (recoveryDrain d) := by
  obtain ⟨w, hbatch⟩ := runActions_piped processAcked none
    (drainApplyPipeline_applies d.node) { d with node := d.node.drainApplyPipeline.1 } {}
  have hp : Piped { d with node := d.node.drainApplyPipeline.1 } (Driver.processActions
      { d with node := d.node.drainApplyPipeline.1 } d.node.drainApplyPipeline.2 none).1 w :=
    hbatch.piped
  have hdrained : RecoveredFrom logStore snapshotMeta (Driver.processActions
      { d with node := d.node.drainApplyPipeline.1 } d.node.drainApplyPipeline.2 none).1 := by
    obtain ⟨a, s, ha, hnode⟩ : ∃ a s, a ≤ d.node.commitIndex ∧
        d.node.drainApplyPipeline.1 = { d.node with lastApplied := a, snapshotInFlight := s } := by
      simp only [RaftNode.drainApplyPipeline, RaftNode.maybeApply, RaftNode.maybeTakeSnapshot]
      split_ifs
      · exact ⟨_, _, h.applied, rfl⟩
      · exact ⟨_, _, h.applied, rfl⟩
      · exact ⟨_, _, h.applied, rfl⟩
      · exact ⟨_, _, le_rfl, rfl⟩
      · exact ⟨_, _, le_rfl, rfl⟩
      · exact ⟨_, _, le_rfl, rfl⟩
    have hn := hp.node.trans hnode
    constructor
    · exact hp.logStore.trans h.log
    · rw [hn]; exact h.snapshot
    · rw [hn]; exact h.lastLogIndex
    · rw [hn]; exact h.lastLogTerm
    · rw [hn]; exact ha
    · rw [hn]; exact h.covered
    · rw [hn]; exact h.within
  unfold recoveryDrain
  dsimp only
  split_ifs
  · exact ⟨hdrained.log, hdrained.snapshot, hdrained.lastLogIndex, hdrained.lastLogTerm,
      hdrained.applied, hdrained.covered, hdrained.within⟩
  · exact hdrained

theorem start_recoveredFrom (config : ClusterConfig) (voterSet : Option VoterSet) (rng : List ℕ)
    (maxFetchBatch : ℕ) (initial : σ) (faults : List (Option Fault)) (store : Durable) :
    RecoveredFrom store.logStore (store.snapshotStore.loadLatestSnapshot.map Prod.fst)
      (start config voterSet rng maxFetchBatch initial faults store) := by
  unfold start
  split
  · rename_i hnone
    rw [hnone]
    exact recoveryDrain_recoveredFrom (boot_recoveredFrom _ _ _ _ _ _ _ _)
  · rename_i snap data hsome
    rw [hsome]
    split
    · exact recoveryDrain_recoveredFrom (boot_recoveredFrom _ _ _ _ _ _ _ _)
    · have hboot := boot_recoveredFrom config voterSet rng maxFetchBatch faults store initial
        (some snap)
      exact ⟨hboot.log, hboot.snapshot, hboot.lastLogIndex, hboot.lastLogTerm, hboot.applied,
        hboot.covered, hboot.within⟩

/-- A driver started over any stores has the true log tip exactly when the latest snapshot does not
reach beyond the log. -/
theorem start_trueTip_iff (config : ClusterConfig) (voterSet : Option VoterSet) (rng : List ℕ)
    (maxFetchBatch : ℕ) (initial : σ) (faults : List (Option Fault)) (store : Durable) :
    TrueTip (start config voterSet rng maxFetchBatch initial faults store) ↔
      ∀ snap data, store.snapshotStore.loadLatestSnapshot = some (snap, data) →
        snap.lastIncludedIndex ≤ store.logStore.lastIndex := by
  have hrec := start_recoveredFrom config voterSet rng maxFetchBatch initial faults store
  constructor
  · intro htip snap data hsnap
    have hcovered := hrec.covered snap (by rw [hsnap]; rfl)
    calc snap.lastIncludedIndex
        ≤ (start config voterSet rng maxFetchBatch initial faults store).node.commitIndex :=
          hcovered
      _ ≤ (start config voterSet rng maxFetchBatch initial faults store).node.lastLogIndex :=
        htip.committed
      _ = store.logStore.lastIndex := hrec.lastLogIndex
  · intro hsnap
    have hmeta : ∀ snap, store.snapshotStore.loadLatestSnapshot.map Prod.fst = some snap →
        snap.lastIncludedIndex ≤ store.logStore.lastIndex := by
      intro snap h
      obtain ⟨⟨snap', data⟩, hload, rfl⟩ := Option.map_eq_some_iff.mp h
      exact hsnap snap' data hload
    refine trueTip_of_tip hrec.applied ?_ ?_
    · rw [hrec.lastLogIndex]
      exact hrec.within hmeta
    · rw [hrec.lastLogIndex, hrec.lastLogTerm, Driver.effectiveLogTip, hrec.log, hrec.snapshot]
      cases hs : store.snapshotStore.loadLatestSnapshot.map Prod.fst with
      | none => rfl
      | some snap =>
        have := hmeta snap hs
        dsimp only
        rw [if_neg (by omega)]

def compactingConfig : ClusterConfig where
  nodeId := 1
  clusterId := "c"
  voters := sampleVoters.take 1
  electionTimeoutMinMs := 20
  electionTimeoutMaxMs := 30
  fetchIntervalMs := 10
  maxLogEntriesBeforeCompaction := 1

abbrev compacting (store : Durable) : Driver NoOpStateMachine :=
  start compactingConfig (some (.ofRecords (sampleRecords.take 1))) [] 64 .mk [] store

/-- The voter commits two entries, snapshots and purges both, and restarts with an empty log. -/
theorem compacted_log_loses_tip :
    let d := replay Driver.live (compacting Durable.fresh)
      [.turn .tick, .turn .tick, .turn (.client 0 []), .snapshotWorker, .turn .snapshotCompleted]
    validate sampleParsing compactingConfig = .ok () ∧ Life (compacting Durable.fresh) d ∧
      (compacting (durable d)).node.commitIndex = 2 ∧
      (compacting (durable d)).node.lastLogIndex = 0 ∧
      (compacting (durable d)).effectiveLogTip = (2, 1) ∧ ¬TrueTip (compacting (durable d)) := by
  intro d
  have hcommit : (compacting (durable d)).node.commitIndex = 2 := by decide +kernel
  have hlast : (compacting (durable d)).node.lastLogIndex = 0 := by decide +kernel
  refine ⟨by decide +kernel, replay_execution (admissible_true _ _), hcommit, hlast,
    by decide +kernel, fun htip => ?_⟩
  have := htip.committed
  omega

end RecoveredTip
