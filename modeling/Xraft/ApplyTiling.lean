import Xraft.RoleScopedState

/-! # The apply pipeline tiles the index line

The index ranges an engine hands to the state machine over a whole run, together with the ranges an
installed snapshot jumps over. Each one starts right behind the one before it.
-/
namespace ApplyTiling

open ProtocolTypes ClusterConfiguration ConsensusEngine EngineTransitions GuardedExecution
open EngineConstruction ServerRecovery RoleScopedState
open DurableStores (MemoryLogStore)

/-- A range of indices that is either handed over for application or covered by an install. -/
structure Span where
  first : ℕ
  last : ℕ
  installed : Bool
  deriving DecidableEq

def interval (first last : ℕ) : List ℕ := List.range' first (last + 1 - first)

def Span.indices (s : Span) : List ℕ := interval s.first s.last

def appliedSpan : Action → Option Span
  | .applyToStateMachine first last => some ⟨first, last, false⟩
  | _ => none

def jump (n : RaftNode) : Call → List Span
  | .step (.snapshotInstalled metadata) =>
    if n.lastApplied < metadata.lastIncludedIndex then
      [⟨n.lastApplied + 1, metadata.lastIncludedIndex, true⟩]
    else []
  | _ => []

def spansOf (n : RaftNode) (call : Call) : List Span :=
  (perform n call).2.filterMap appliedSpan ++ jump n call

structure Recorded where
  node : RaftNode
  spans : List Span

def Recorded.next (r : Recorded) (call : Call) : Recorded :=
  ⟨RoleScopedState.next r.node call, r.spans ++ spansOf r.node call⟩

def restored (snapshotMeta : Option SnapshotMeta) : List Span :=
  let snapIndex := (snapshotMeta.map SnapshotMeta.lastIncludedIndex).getD 0
  if 0 < snapIndex then [⟨1, snapIndex, true⟩] else []

/-- The engine that is rebuilt from the stores and drained before its first input. -/
def Recorded.recover (config : ClusterConfig) (voterSet : Option VoterSet) (rng : List ℕ)
    (hsStore : Option HardState) (logStore : MemoryLogStore) (snapshotMeta : Option SnapshotMeta) :
    Recorded :=
  let node := recoverNode config voterSet rng hsStore logStore snapshotMeta
  ⟨node.drainApplyPipeline.1,
    restored snapshotMeta ++ node.drainApplyPipeline.2.filterMap appliedSpan⟩

/-- Where the life of an engine begins; the indices in the stores are `u64` values. -/
inductive Begins : Recorded → Prop
  | new {p : VoterParsing} {config : ClusterConfig} {rng : List ℕ} {n : RaftNode}
      (constructed : RaftNode.new p config rng = .ok n) : Begins ⟨n, []⟩
  | recover (config : ClusterConfig) (voterSet : Option VoterSet) (rng : List ℕ)
      (hsStore : Option HardState) {logStore : MemoryLogStore} {snapshotMeta : Option SnapshotMeta}
      (log : logStore.lastIndex ≤ u64Max)
      (snapshot : ∀ snap ∈ snapshotMeta, snap.lastIncludedIndex ≤ u64Max) :
      Begins (.recover config voterSet rng hsStore logStore snapshotMeta)

/-- The indices an input brings in are `u64` values. -/
def Fits : Call → Prop
  | .step (.fetchResponse resp) => ∀ e ∈ resp.entries, e.index ≤ u64Max
  | .step (.snapshotInstalled metadata) => metadata.lastIncludedIndex ≤ u64Max
  | _ => True

instance (call : Call) : Decidable (Fits call) := by
  unfold Fits
  split <;> infer_instance

abbrev RecordedRun : Recorded → Recorded → Prop := Execution Recorded.next (fun _ call => Fits call)

def IsInstall : Call → Prop
  | .step (.snapshotInstalled _) => True
  | _ => False

structure Advances (n m : RaftNode) : Prop where
  commit : n.commitIndex ≤ m.commitIndex
  applied : n.lastApplied ≤ m.lastApplied
  snapshot : ∀ prior, n.lastSnapshotMeta = some prior → ∃ later,
    m.lastSnapshotMeta = some later ∧ prior.lastIncludedIndex ≤ later.lastIncludedIndex

/-- Applied is at most committed, and every index of the engine is a `u64` value. -/
structure Counted (n : RaftNode) : Prop where
  applied : n.lastApplied ≤ n.commitIndex
  commit : n.commitIndex ≤ u64Max
  tip : n.lastLogIndex ≤ u64Max
  offsets : ∀ p ∈ n.peers, p.2.lastFetchOffset ≤ u64Max

variable {n m : RaftNode} {actions : List Action} {call : Call}

theorem Advances.refl (n : RaftNode) : Advances n n :=
  ⟨le_refl _, le_refl _, fun prior h => ⟨prior, h, le_refl _⟩⟩

theorem Advances.trans {k : RaftNode} (h : Advances n m) (h' : Advances m k) : Advances n k := by
  refine ⟨h.commit.trans h'.commit, h.applied.trans h'.applied, fun prior hp => ?_⟩
  obtain ⟨mid, hmid, hle⟩ := h.snapshot prior hp
  obtain ⟨later, hlater, hle'⟩ := h'.snapshot mid hmid
  exact ⟨later, hlater, hle.trans hle'⟩

theorem satAdd_le (a b : ℕ) : satAdd a b ≤ u64Max := Nat.min_le_right _ _

theorem interval_append {a b c : ℕ} (hab : a ≤ b) (hbc : b ≤ c) :
    interval (a + 1) b ++ interval (b + 1) c = interval (a + 1) c := by
  unfold interval
  have hb : b + 1 = a + 1 + 1 * (b + 1 - (a + 1)) := by omega
  have hc : c + 1 - (a + 1) = (b + 1 - (a + 1)) + (c + 1 - (b + 1)) := by omega
  rw [hc, ← List.range'_append, ← hb]

/-! ## One step of the pipeline -/

/-- Either nothing moves, or the commit index rises and everything up to it is handed over. -/
def Moved (n : RaftNode) (r : RaftNode × List Action) : Prop :=
  (r.1.commitIndex = n.commitIndex ∧ r.1.lastApplied = n.lastApplied ∧
      r.2.filterMap appliedSpan = []) ∨
    (n.commitIndex < r.1.commitIndex ∧ r.1.lastApplied = r.1.commitIndex ∧
      r.2.filterMap appliedSpan = [⟨n.lastApplied + 1, r.1.commitIndex, false⟩])

structure Pipe (n : RaftNode) (r : RaftNode × List Action) : Prop where
  counted : Counted r.1
  snapshot : r.1.lastSnapshotMeta = n.lastSnapshotMeta
  moved : Moved n r

theorem Counted.congr (h : Counted n) (applied : m.lastApplied = n.lastApplied)
    (commit : m.commitIndex = n.commitIndex) (tip : m.lastLogIndex ≤ u64Max)
    (peers : ∀ p ∈ m.peers, p.2.lastFetchOffset ≤ u64Max) : Counted m :=
  ⟨by rw [applied, commit]; exact h.applied, commit ▸ h.commit, tip, peers⟩

theorem SameProgress.counted (h : Counted n) (hs : SameProgress n m) : Counted m :=
  h.congr hs.lastApplied hs.commitIndex (hs.lastLogIndex ▸ h.tip) (hs.peers ▸ h.offsets)

theorem pipe_idle (h : Counted m) (applied : m.lastApplied = n.lastApplied)
    (commit : m.commitIndex = n.commitIndex) (snapshot : m.lastSnapshotMeta = n.lastSnapshotMeta)
    (silent : actions.filterMap appliedSpan = []) : Pipe n (m, actions) :=
  ⟨h, snapshot, .inl ⟨commit, applied, silent⟩⟩

theorem SameProgress.pipe (h : Counted n) (hs : SameProgress n m)
    (silent : actions.filterMap appliedSpan = []) : Pipe n (m, actions) :=
  pipe_idle (SameProgress.counted h hs) hs.lastApplied hs.commitIndex hs.lastSnapshotMeta silent

theorem Pipe.refl (h : Counted n) : Pipe n (n, []) := pipe_idle h rfl rfl rfl rfl

theorem Pipe.prepend {r : RaftNode × List Action} (h : Pipe m r) (actions : List Action)
    (applied : m.lastApplied = n.lastApplied) (commit : m.commitIndex = n.commitIndex)
    (snapshot : m.lastSnapshotMeta = n.lastSnapshotMeta)
    (silent : actions.filterMap appliedSpan = []) : Pipe n (r.1, actions ++ r.2) := by
  refine ⟨h.counted, h.snapshot.trans snapshot, ?_⟩
  unfold Moved
  rw [List.filterMap_append, silent, List.nil_append, ← commit, ← applied]
  exact h.moved

theorem filterMap_sends {α : Type} {peers : List α} {f : α → Action}
    (hf : ∀ p, appliedSpan (f p) = none) : (peers.map f).filterMap appliedSpan = [] := by
  rw [List.filterMap_eq_nil_iff]
  intro a ha
  obtain ⟨p, _, rfl⟩ := List.mem_map.mp ha
  exact hf p

theorem drain_pipe (h : Counted n) {c : ℕ} (hc : n.commitIndex < c) (hmax : c ≤ u64Max) :
    Pipe n (RaftNode.drainApplyPipeline { n with commitIndex := c }) := by
  have happ := h.applied
  have hlt : n.lastApplied < c := by omega
  have hfirst : satAdd n.lastApplied 1 = n.lastApplied + 1 := satAdd_eq (by omega)
  have happly : RaftNode.maybeApply { n with commitIndex := c } =
      ({ n with commitIndex := c, lastApplied := c },
        [.applyToStateMachine (n.lastApplied + 1) c]) := by
    unfold RaftNode.maybeApply
    rw [if_neg (not_le.mpr hlt), hfirst]
  have hcounted : Counted { n with commitIndex := c, lastApplied := c } :=
    ⟨le_refl _, hmax, h.tip, h.offsets⟩
  unfold RaftNode.drainApplyPipeline
  rw [happly]
  unfold RaftNode.maybeTakeSnapshot
  dsimp only
  split_ifs
  · exact ⟨hcounted, rfl, .inr ⟨hc, rfl, rfl⟩⟩
  · exact ⟨⟨le_refl _, hmax, h.tip, h.offsets⟩, rfl, .inr ⟨hc, rfl, rfl⟩⟩
  · exact ⟨hcounted, rfl, .inr ⟨hc, rfl, rfl⟩⟩

theorem tryAdvanceCommitIndex_bounds (h : Counted n) {c : ℕ}
    (hc : n.tryAdvanceCommitIndex = some c) : n.commitIndex < c ∧ c ≤ u64Max := by
  obtain ⟨hlt, rfl | ⟨p, hp, rfl⟩⟩ := tryAdvanceCommitIndex_cases hc
  · exact ⟨hlt, h.tip⟩
  · exact ⟨hlt, h.offsets p hp⟩

theorem advanceCommit_pipe (h : Counted n) : Pipe n n.advanceCommit := by
  unfold RaftNode.advanceCommit
  split
  · rename_i c hc
    obtain ⟨hlt, hle⟩ := tryAdvanceCommitIndex_bounds h hc
    exact drain_pipe h hlt hle
  · exact .refl h

/-! ## The handlers -/

theorem becomeFollower_pipe (h : Counted n) (term : ℕ) (leaderId : Option NodeId) :
    Pipe n (n.becomeFollower term leaderId) := by
  refine SameProgress.pipe h (becomeFollower_sameProgress n term leaderId) ?_
  split_ifs <;> rfl

theorem becomeLeader_pipe (h : Counted n) : Pipe n n.becomeLeader := by
  have henter : Counted n.enterLeader := by
    refine h.congr rfl rfl (satAdd_le _ _) (fun p hp => ?_)
    obtain ⟨q, _, rfl⟩ := List.mem_map.mp hp
    exact Nat.zero_le _
  exact (advanceCommit_pipe henter).prepend _ rfl rfl rfl rfl

theorem becomeCandidate_pipe (h : Counted n) : Pipe n n.becomeCandidate := by
  have henter : Counted n.enterCandidate := h.congr rfl rfl h.tip h.offsets
  have hsilent : (Action.persistHardState :: n.enterCandidate.voteRequests).filterMap appliedSpan =
      [] := by
    rw [List.filterMap_cons]
    exact filterMap_sends (fun _ => rfl)
  unfold RaftNode.becomeCandidate
  split_ifs
  · exact (becomeLeader_pipe henter).prepend _ rfl rfl rfl hsilent
  · exact pipe_idle henter rfl rfl rfl hsilent

theorem becomePreCandidate_pipe (h : Counted n) : Pipe n n.becomePreCandidate := by
  have henter : Counted n.enterPreCandidate := h.congr rfl rfl h.tip h.offsets
  have hsilent : n.enterPreCandidate.preVoteRequests.filterMap appliedSpan = [] :=
    filterMap_sends (fun _ => rfl)
  unfold RaftNode.becomePreCandidate
  split_ifs
  · exact (becomeCandidate_pipe henter).prepend _ rfl rfl rfl hsilent
  · exact pipe_idle henter rfl rfl rfl hsilent

theorem scheduleFetch_silent (n : RaftNode) : n.scheduleFetch.2.filterMap appliedSpan = [] := by
  unfold RaftNode.scheduleFetch
  split_ifs
  · split
    · rfl
    · exact filterMap_sends (fun _ => rfl)
  · rfl

theorem handleTick_pipe (h : Counted n) : Pipe n n.handleTick := by
  obtain ⟨t, c, ht⟩ := ticked_eq n
  have hticked : Counted (ticked n) := by
    rw [ht]
    exact h.congr rfl rfl h.tip h.offsets
  have happlied : (ticked n).lastApplied = n.lastApplied := by rw [ht]
  have hcommit : (ticked n).commitIndex = n.commitIndex := by rw [ht]
  have hsnapshot : (ticked n).lastSnapshotMeta = n.lastSnapshotMeta := by rw [ht]
  have hsilent := scheduleFetch_silent n.advanceClock
  rw [handleTick_eq]
  split_ifs
  · exact (becomeFollower_pipe hticked _ _).prepend _ happlied hcommit hsnapshot hsilent
  · unfold RaftNode.electionTimeout
    split_ifs
    · exact (becomePreCandidate_pipe hticked).prepend _ happlied hcommit hsnapshot hsilent
    · exact pipe_idle hticked happlied hcommit hsnapshot hsilent

theorem handleVoteRequest_pipe (h : Counted n) (req : VoteRequest) :
    Pipe n (n.handleVoteRequest req) := by
  rcases handleVoteRequest_cases n req with heq | ⟨-, heq | ⟨-, heq⟩⟩ <;> rw [heq]
  · exact .refl h
  · exact pipe_idle h rfl rfl rfl rfl
  · refine SameProgress.pipe h (answered_progress n req) (List.filterMap_eq_nil_iff.mpr ?_)
    intro a ha
    rcases mem_answering ha with rfl | rfl | rfl <;> rfl

theorem handleVoteResponse_pipe (h : Counted n) (sender : NodeId) (resp : VoteResponse) :
    Pipe n (n.handleVoteResponse sender resp) := by
  have hcounted : Counted (withVote n sender) := h.congr rfl rfl h.tip h.offsets
  rcases handleVoteResponse_cases n sender resp with heq | heq | ⟨-, heq | ⟨-, heq⟩⟩ <;> rw [heq]
  · exact .refl h
  · exact becomeFollower_pipe h _ _
  · exact pipe_idle hcounted rfl rfl rfl rfl
  · exact (becomeLeader_pipe hcounted).prepend [] rfl rfl rfl rfl

theorem handlePreVoteResponse_pipe (h : Counted n) (sender : NodeId) (resp : PreVoteResponse) :
    Pipe n (n.handlePreVoteResponse sender resp) := by
  have hcounted : Counted (withPreVote n sender) := h.congr rfl rfl h.tip h.offsets
  rcases handlePreVoteResponse_cases n sender resp with heq | heq | ⟨-, heq | ⟨-, heq⟩⟩ <;> rw [heq]
  · exact .refl h
  · exact becomeFollower_pipe h _ _
  · exact pipe_idle hcounted rfl rfl rfl rfl
  · exact (becomeCandidate_pipe hcounted).prepend [] rfl rfl rfl rfl

theorem updatePeer_offsets (h : Counted n) (id : NodeId) {f : PeerState → PeerState}
    (hf : ∀ p, p.lastFetchOffset ≤ u64Max → (f p).lastFetchOffset ≤ u64Max) :
    ∀ p ∈ (n.updatePeer id f).peers, p.2.lastFetchOffset ≤ u64Max := by
  intro p hp
  obtain ⟨q, hq, rfl⟩ := List.mem_map.mp hp
  split_ifs
  · exact hf _ (h.offsets q hq)
  · exact h.offsets q hq

theorem handleFetchRequest_pipe (h : Counted n) (req : FetchRequest) :
    Pipe n (n.handleFetchRequest req) := by
  have hstamp : Counted (n.stampFetch req.replicaId) :=
    h.congr rfl rfl h.tip (updatePeer_offsets h _ (fun _ hp => hp))
  rcases handleFetchRequest_cases n req with heq | heq | ⟨-, ⟨_, heq⟩ | heq⟩ <;> rw [heq]
  · exact .refl h
  · exact becomeFollower_pipe h _ _
  · exact pipe_idle hstamp rfl rfl rfl rfl
  · exact pipe_idle hstamp rfl rfl rfl rfl

theorem handleFetchRequestAcked_pipe (h : Counted n) (replica : NodeId) (confirmed : ℕ) :
    Pipe n (n.handleFetchRequestAcked replica confirmed) := by
  have hcredit : Counted (n.updatePeer replica (n.creditPeer confirmed)) := by
    refine h.congr rfl rfl h.tip (updatePeer_offsets h _ (fun p hp => ?_))
    have htip := h.tip
    simp only [RaftNode.creditPeer]
    omega
  unfold RaftNode.handleFetchRequestAcked
  split_ifs
  · exact .refl h
  · exact .refl h
  · exact (advanceCommit_pipe hcredit).prepend [] rfl rfl rfl rfl

theorem observeHighWatermark_pipe (h : Counted n) (highWatermark : ℕ) :
    Pipe n (n.observeHighWatermark highWatermark) := by
  unfold RaftNode.observeHighWatermark
  dsimp only
  split_ifs with hlt
  · exact drain_pipe h hlt ((Nat.min_le_right _ _).trans h.tip)
  · exact .refl h

theorem takeEntries_counted (h : Counted n) {entries : List Entry}
    (hfit : ∀ e ∈ entries, e.index ≤ u64Max) (ht : n.takeEntries entries = some (m, actions)) :
    Counted m ∧ m.lastApplied = n.lastApplied ∧ m.commitIndex = n.commitIndex ∧
      m.lastSnapshotMeta = n.lastSnapshotMeta ∧ actions.filterMap appliedSpan = [] := by
  rcases takeEntries_spec ht with ⟨_, rfl, rfl⟩ | ⟨_, last, _, hlast, _, _, rfl, rfl⟩
  · exact ⟨h, rfl, rfl, rfl, rfl⟩
  · have hmem : last ∈ entries := List.mem_of_getLast? hlast
    exact ⟨h.congr rfl rfl (hfit last hmem) h.offsets, rfl, rfl, rfl, rfl⟩

theorem handleFetchResponse_pipe (h : Counted n) {resp : FetchResponse}
    (hfit : ∀ e ∈ resp.entries, e.index ≤ u64Max) : Pipe n (n.handleFetchResponse resp) := by
  rcases handleFetchResponse_cases n resp with heq | ⟨m, opening, -, hacc, heq⟩ <;> rw [heq]
  · exact .refl h
  have hs := hacc.progress
  have hopening : opening.filterMap appliedSpan = [] := by
    rw [hacc.actions_eq, List.filterMap_append]
    split_ifs <;> rfl
  have hm : Counted m := SameProgress.counted h hs
  refine Pipe.prepend ?_ _ hs.lastApplied hs.commitIndex hs.lastSnapshotMeta hopening
  rcases payload_cases m resp with
    ⟨_, hp⟩ | ⟨_, -, -, hp⟩ | hp | ⟨taken, appends, htake, hp⟩ <;> rw [hp]
  · exact pipe_idle (hm.congr rfl rfl hm.tip hm.offsets) rfl rfl rfl rfl
  · exact pipe_idle (hm.congr rfl rfl hm.tip hm.offsets) rfl rfl rfl rfl
  · exact .refl hm
  · obtain ⟨hc, happlied, hcommit, hsnap, hsilent⟩ := takeEntries_counted hm hfit htake
    exact (observeHighWatermark_pipe hc resp.highWatermark).prepend _ happlied hcommit hsnap hsilent

theorem handleClientPropose_pipe (h : Counted n) (command : Bytes) :
    Pipe n (n.handleClientPropose command) := by
  unfold RaftNode.handleClientPropose
  split_ifs
  · exact .refl h
  · have hset : Counted (n.setLastLog (satAdd n.lastLogIndex 1) n.currentTerm) :=
      h.congr rfl rfl (satAdd_le _ _) h.offsets
    exact (advanceCommit_pipe hset).prepend
      [.appendEntries [⟨satAdd n.lastLogIndex 1, n.currentTerm, .command command⟩]] rfl rfl rfl rfl

/-- Every call but the two snapshot reports. -/
theorem step_pipe (h : Counted n) {input : Input} (hfit : Fits (.step input))
    (hcomplete : ∀ metadata, input ≠ .snapshotComplete metadata)
    (hinstalled : ∀ metadata, input ≠ .snapshotInstalled metadata) : Pipe n (n.step input) := by
  cases input with
  | tick => exact handleTick_pipe h
  | voteRequest req => exact handleVoteRequest_pipe h req
  | voteResponse sender resp => exact handleVoteResponse_pipe h sender resp
  | preVoteRequest req =>
    refine pipe_idle h rfl rfl rfl (List.filterMap_eq_nil_iff.mpr fun a ha => ?_)
    obtain ⟨-, _, rfl⟩ := mem_handlePreVoteRequest ha
    rfl
  | preVoteResponse sender resp => exact handlePreVoteResponse_pipe h sender resp
  | fetchRequest req => exact handleFetchRequest_pipe h req
  | fetchResponse resp => exact handleFetchResponse_pipe h hfit
  | clientPropose command => exact handleClientPropose_pipe h command
  | fetchRequestAcked replica confirmed => exact handleFetchRequestAcked_pipe h replica confirmed
  | snapshotComplete metadata => exact absurd rfl (hcomplete metadata)
  | snapshotInstalled metadata => exact absurd rfl (hinstalled metadata)
  | fetchSnapshotReceived metadata data =>
    refine pipe_idle h rfl rfl rfl ?_
    unfold RaftNode.handleFetchSnapshotReceived
    split_ifs <;> rfl

/-! ## Whole runs -/

structure Tiled (n : RaftNode) (call : Call) : Prop where
  counted : Counted (next n call)
  advances : Advances n (next n call)
  spans : (n.lastApplied = (next n call).lastApplied ∧ spansOf n call = []) ∨
    (n.lastApplied < (next n call).lastApplied ∧ ∃ installed, spansOf n call =
      [⟨n.lastApplied + 1, (next n call).lastApplied, installed⟩] ∧
      (installed = true ↔ IsInstall call))
  drained : n.commitIndex < (next n call).commitIndex → ¬IsInstall call →
    (next n call).lastApplied = (next n call).commitIndex

theorem Pipe.tiled (hn : Counted n) (h : Pipe n (perform n call)) (hno : ¬IsInstall call) :
    Tiled n call := by
  have hjump : jump n call = [] := by
    unfold jump
    split
    · exact absurd trivial hno
    · rfl
  have happ := hn.applied
  have hspans : spansOf n call = (perform n call).2.filterMap appliedSpan := by
    rw [spansOf, hjump, List.append_nil]
  have hsnap : ∀ prior, n.lastSnapshotMeta = some prior → ∃ later,
      (next n call).lastSnapshotMeta = some later ∧
        prior.lastIncludedIndex ≤ later.lastIncludedIndex :=
    fun prior hp => ⟨prior, h.snapshot.trans hp, le_refl _⟩
  rcases h.moved with ⟨hcommit, happlied, hsilent⟩ | ⟨hcommit, happlied, hspan⟩
  · refine ⟨h.counted, ⟨hcommit.ge, happlied.ge, hsnap⟩, .inl ⟨happlied.symm, ?_⟩, fun hlt => ?_⟩
    · rw [hspans, hsilent]
    · exact absurd hcommit (ne_of_gt hlt)
  · have hlt : n.lastApplied < (next n call).lastApplied := by
      show n.lastApplied < (perform n call).1.lastApplied
      omega
    refine ⟨h.counted, ⟨hcommit.le, hlt.le, hsnap⟩, .inr ⟨hlt, false, ?_, ?_⟩, fun _ _ => happlied⟩
    · rw [hspans, hspan, ← happlied]
      rfl
    · simp [hno]

theorem snapshotComplete_tiled (h : Counted n) (metadata : SnapshotMeta) :
    Tiled n (.step (.snapshotComplete metadata)) := by
  have hnext : Counted (next n (.step (.snapshotComplete metadata))) ∧
      (next n (.step (.snapshotComplete metadata))).commitIndex = n.commitIndex ∧
      (next n (.step (.snapshotComplete metadata))).lastApplied = n.lastApplied ∧
      spansOf n (.step (.snapshotComplete metadata)) = [] := by
    simp only [spansOf, jump, next, perform, RaftNode.step, RaftNode.handleSnapshotComplete]
    split_ifs
    · exact ⟨h.congr rfl rfl h.tip h.offsets, rfl, rfl, rfl⟩
    · exact ⟨h.congr rfl rfl h.tip h.offsets, rfl, rfl, rfl⟩
  obtain ⟨hcounted, hcommit, happlied, hspans⟩ := hnext
  refine ⟨hcounted, ⟨hcommit.ge, happlied.ge, fun prior hp => ?_⟩, .inl ⟨happlied.symm, hspans⟩,
    fun hlt => absurd hcommit (ne_of_gt hlt)⟩
  simp only [next, perform, RaftNode.step, RaftNode.handleSnapshotComplete, isSnapshotMetaNewer, hp]
  split_ifs with hnew
  · exact ⟨metadata, rfl, (of_decide_eq_true hnew).le⟩
  · exact ⟨prior, rfl, le_refl _⟩

theorem snapshotInstalled_tiled (h : Counted n) {metadata : SnapshotMeta}
    (hfit : metadata.lastIncludedIndex ≤ u64Max) :
    Tiled n (.step (.snapshotInstalled metadata)) := by
  have happ := h.applied
  have hcommit := h.commit
  have htip := h.tip
  refine ⟨⟨?_, ?_, ?_, h.offsets⟩, ⟨?_, ?_, fun prior hp => ?_⟩, ?_, fun _ hno => ?_⟩
  · show max _ _ ≤ max _ _
    omega
  · show max _ _ ≤ _
    omega
  · show max _ _ ≤ _
    omega
  · exact Nat.le_max_left _ _
  · exact Nat.le_max_left _ _
  · simp only [next, perform, RaftNode.step, RaftNode.handleSnapshotInstalled, isSnapshotMetaNewer,
      hp]
    split_ifs with hnew
    · exact ⟨metadata, rfl, (of_decide_eq_true hnew).le⟩
    · exact ⟨prior, rfl, le_refl _⟩
  · have hnext : (next n (.step (.snapshotInstalled metadata))).lastApplied =
        max n.lastApplied metadata.lastIncludedIndex := rfl
    rw [hnext]
    simp only [spansOf, jump, perform, RaftNode.step, List.filterMap_nil, List.nil_append]
    split_ifs with hlt
    · rw [max_eq_right hlt.le]
      exact .inr ⟨hlt, true, rfl, by simp [IsInstall]⟩
    · rw [max_eq_left (not_lt.mp hlt)]
      exact .inl ⟨rfl, rfl⟩
  · exact absurd trivial hno

theorem call_tiled (h : Counted n) (hfit : Fits call) : Tiled n call := by
  cases call with
  | becomeFollower term leaderId => exact (becomeFollower_pipe h term leaderId).tiled h id
  | step input =>
    by_cases hcomplete : ∃ metadata, input = .snapshotComplete metadata
    · obtain ⟨metadata, rfl⟩ := hcomplete
      exact snapshotComplete_tiled h metadata
    by_cases hinstalled : ∃ metadata, input = .snapshotInstalled metadata
    · obtain ⟨metadata, rfl⟩ := hinstalled
      exact snapshotInstalled_tiled h hfit
    · have hpipe : Pipe n (perform n (.step input)) := step_pipe h hfit
        (fun metadata he => hcomplete ⟨metadata, he⟩) (fun metadata he => hinstalled ⟨metadata, he⟩)
      refine hpipe.tiled h ?_
      unfold IsInstall
      split
      · rename_i metadata heq
        cases heq
        exact absurd ⟨metadata, rfl⟩ hinstalled
      · exact id

theorem Tiled.indices (h : Tiled n call) :
    interval 1 n.lastApplied ++ (spansOf n call).flatMap Span.indices =
      interval 1 (next n call).lastApplied := by
  rcases h.spans with ⟨heq, hspans⟩ | ⟨hlt, installed, hspans, -⟩
  · rw [hspans, ← heq, List.flatMap_nil, List.append_nil]
  · rw [hspans, List.flatMap_cons, List.flatMap_nil, List.append_nil]
    exact interval_append (Nat.zero_le _) hlt.le

/-- The spans of a run are the index line up to the last applied index. -/
theorem run_tiles {r s : Recorded} (hrun : RecordedRun r s) (h : Counted r.node)
    (hr : r.spans.flatMap Span.indices = interval 1 r.node.lastApplied) :
    Counted s.node ∧ Advances r.node s.node ∧
      s.spans.flatMap Span.indices = interval 1 s.node.lastApplied := by
  induction hrun with
  | refl => exact ⟨h, .refl _, hr⟩
  | @tail u call _ hfit ih =>
    obtain ⟨hu, hadv, hspans⟩ := ih
    have ht : Tiled u.node call := call_tiled hu hfit
    refine ⟨ht.counted, hadv.trans ht.advances, ?_⟩
    show (u.spans ++ spansOf u.node call).flatMap Span.indices = _
    rw [List.flatMap_append, hspans]
    exact ht.indices

theorem build_counted (config : ClusterConfig) (voterSet : Option VoterSet) (rng : List ℕ) :
    Counted (RaftNode.build config voterSet rng) := by
  refine ⟨le_refl _, Nat.zero_le _, Nat.zero_le _, fun p hp => ?_⟩
  exact (initialPeers_offset hp).le.trans (Nat.zero_le _)

theorem recoverNode_counted (config : ClusterConfig) (voterSet : Option VoterSet) (rng : List ℕ)
    (hsStore : Option HardState) {logStore : MemoryLogStore} {snapshotMeta : Option SnapshotMeta}
    (hlog : logStore.lastIndex ≤ u64Max)
    (hsnap : ∀ snap ∈ snapshotMeta, snap.lastIncludedIndex ≤ u64Max) :
    Counted (recoverNode config voterSet rng hsStore logStore snapshotMeta) := by
  have hindex : (snapshotMeta.map SnapshotMeta.lastIncludedIndex).getD 0 ≤ u64Max := by
    cases snapshotMeta with
    | none => exact Nat.zero_le _
    | some snap => exact hsnap snap rfl
  refine ⟨le_max_left _ _, ?_, hlog, (build_counted config voterSet rng).offsets⟩
  exact max_le (max_le (Nat.zero_le _) hindex) ((min_le_right _ _).trans hlog)

theorem drain_tiles (h : Counted n) :
    Counted n.drainApplyPipeline.1 ∧
      interval 1 n.lastApplied ++ (n.drainApplyPipeline.2.filterMap appliedSpan).flatMap
        Span.indices = interval 1 n.drainApplyPipeline.1.lastApplied := by
  rcases h.applied.lt_or_eq with hlt | heq
  · -- the drain of a commit index that rises from the last applied one
    have hbase : Counted { n with commitIndex := n.lastApplied } :=
      ⟨le_refl _, h.applied.trans h.commit, h.tip, h.offsets⟩
    have hpipe := drain_pipe hbase hlt h.commit
    refine ⟨hpipe.counted, ?_⟩
    rcases hpipe.moved with ⟨-, happlied, hspans⟩ | ⟨hrise, happlied, hspans⟩
    · rw [hspans, happlied]
      exact List.append_nil _
    · rw [hspans, happlied, List.flatMap_singleton]
      exact interval_append (Nat.zero_le _) (le_of_lt hrise)
  · have hidle : n.maybeApply = (n, []) := if_pos heq.ge
    unfold RaftNode.drainApplyPipeline
    rw [hidle]
    unfold RaftNode.maybeTakeSnapshot
    dsimp only
    split_ifs
    · exact ⟨h, List.append_nil _⟩
    · exact ⟨h.congr rfl rfl h.tip h.offsets, List.append_nil _⟩
    · exact ⟨h, List.append_nil _⟩

theorem restored_indices (snapshotMeta : Option SnapshotMeta) :
    (restored snapshotMeta).flatMap Span.indices =
      interval 1 ((snapshotMeta.map SnapshotMeta.lastIncludedIndex).getD 0) := by
  unfold restored
  dsimp only
  split_ifs with hpos
  · exact List.flatMap_singleton ..
  · rw [Nat.eq_zero_of_not_pos hpos]
    rfl

theorem Begins.tiles {r : Recorded} (h : Begins r) :
    Counted r.node ∧ r.spans.flatMap Span.indices = interval 1 r.node.lastApplied := by
  cases h with
  | new constructed =>
    obtain ⟨voterSet, rfl, -⟩ := new_build constructed
    exact ⟨build_counted _ voterSet _, rfl⟩
  | recover config voterSet rng hsStore log snapshot =>
    obtain ⟨hcounted, hspans⟩ :=
      drain_tiles (recoverNode_counted config voterSet rng hsStore log snapshot)
    refine ⟨hcounted, ?_⟩
    refine Eq.trans ?_ hspans
    show (restored _ ++ _).flatMap Span.indices = _
    rw [List.flatMap_append, restored_indices]
    exact congrArg (fun index => interval 1 index ++ _) (Nat.zero_max _).symm

/-- Whatever an engine begins with and is fed, the spans of its life are the index line up to the
last applied index, each behind the one before it. -/
theorem apply_pipeline_tiles {r₀ r s : Recorded} (hstart : Begins r₀) (hrun : RecordedRun r₀ r)
    (hrun' : RecordedRun r s) (call : Call) (hfit : Fits call) :
    s.node.lastApplied ≤ s.node.commitIndex ∧ Advances r.node s.node ∧
      s.spans.flatMap Span.indices = interval 1 s.node.lastApplied ∧ Tiled s.node call := by
  obtain ⟨hcounted, hbegun⟩ := hstart.tiles
  obtain ⟨hr, -, hspans⟩ := run_tiles hrun hcounted hbegun
  obtain ⟨hs, hadv, hspans'⟩ := run_tiles hrun' hr hspans
  exact ⟨hs.applied, hadv, hspans', call_tiled hs hfit⟩

def loneConfig : ClusterConfig := { threeVoterConfig false 1 with voters := sampleVoters.take 1 }

abbrev loneVoter : RaftNode :=
  RaftNode.build loneConfig (some (.ofRecords (sampleRecords.take 1))) []

theorem loneVoter_constructed : RaftNode.new sampleParsing loneConfig [] = .ok loneVoter := by
  rfl

def loneProposal : List Call := [.step .tick, .step .tick, .step (.clientPropose [])]

/-- The lone voter with a snapshot through index 3, of which the log keeps the last entry, and one
entry behind it that was committed. -/
def loneRestart : Recorded :=
  .recover loneConfig loneVoter.voterSet [] (some ⟨1, some 1, 4⟩)
    ⟨[⟨3, 1, .noOp⟩, ⟨4, 1, .noOp⟩], [(1, 3)], some (1, 3)⟩
      (some ⟨3, 1, "snapshot-0000000001-00000000000000000003", none, some 0⟩)

theorem apply_pipeline_tiles_lone_voter :
    (replay Recorded.next ⟨loneVoter, []⟩ loneProposal).spans = [⟨1, 1, false⟩, ⟨2, 2, false⟩] ∧
      (replay Recorded.next ⟨loneVoter, []⟩ loneProposal).spans.flatMap Span.indices =
        interval 1 (replay Recorded.next ⟨loneVoter, []⟩ loneProposal).node.lastApplied ∧
      (replay Recorded.next loneRestart loneProposal).spans =
        [⟨1, 3, true⟩, ⟨4, 4, false⟩, ⟨5, 5, false⟩, ⟨6, 6, false⟩] ∧
      (replay Recorded.next loneRestart loneProposal).spans.flatMap Span.indices =
        interval 1 (replay Recorded.next loneRestart loneProposal).node.lastApplied := by
  refine ⟨by decide +kernel, ?_, by decide +kernel, ?_⟩
  · exact (apply_pipeline_tiles (.new loneVoter_constructed) (replay_execution (by decide +kernel))
      (.refl _) (.step .tick) trivial).2.2.1
  · exact (apply_pipeline_tiles (.recover _ _ _ _ (by decide) (by simp [u64Max]))
      (replay_execution (by decide +kernel)) (.refl _) (.step .tick) trivial).2.2.1

end ApplyTiling
