import Xraft.ConsensusEngine

/-! # What an engine step can do

One inversion for the election-relevant part of a step, the outcomes of the handlers for votes and
fetches, and the fields no step ever changes. Later modules argue from these statements.
-/
namespace EngineTransitions

open ProtocolTypes ConsensusEngine

structure Ballot where
  term : ℕ
  vote : Option NodeId
  deriving DecidableEq

/-- A later ballot has a higher term, or the same term and a vote that is not taken back. At
`u64::MAX` the term can rise no further and a new campaign may overwrite the vote. -/
def Ballot.Le (b b' : Ballot) : Prop :=
  b.term < b'.term ∨ (b.term = b'.term ∧ (b.vote = none ∨ b'.vote = b.vote)) ∨
    (u64Max ≤ b.term ∧ u64Max ≤ b'.term)

theorem Ballot.Le.refl (b : Ballot) : b.Le b := .inr (.inl ⟨rfl, .inr rfl⟩)

theorem Ballot.Le.trans {a b c : Ballot} (h : a.Le b) (h' : b.Le c) : a.Le c := by
  by_cases hmax : u64Max ≤ a.term ∧ u64Max ≤ c.term
  · exact .inr (.inr hmax)
  rcases h with h | ⟨h, hv⟩ | ⟨h, hb⟩ <;> rcases h' with h' | ⟨h', hv'⟩ | ⟨h', hc⟩
  · exact .inl (h.trans h')
  · exact .inl (h' ▸ h)
  · exact .inl (by omega)
  · exact .inl (h ▸ h')
  · refine .inr (.inl ⟨h.trans h', ?_⟩)
    rcases hv with hv | hv
    · exact .inl hv
    · rw [hv] at hv'
      exact hv'
  · exact absurd ⟨h ▸ h', hc⟩ hmax
  · exact absurd ⟨h, hb.trans h'.le⟩ hmax
  · exact absurd ⟨h, h' ▸ hb⟩ hmax
  · exact absurd ⟨h, hc⟩ hmax

theorem Ballot.le_campaign (b : Ballot) (vote : Option NodeId) :
    b.Le ⟨satAdd b.term 1, vote⟩ := by
  by_cases h : b.term < u64Max
  · refine .inl ?_
    show b.term < satAdd b.term 1
    rw [satAdd_eq h]
    omega
  · refine .inr (.inr ⟨not_lt.mp h, ?_⟩)
    show u64Max ≤ satAdd b.term 1
    unfold satAdd
    omega

def ballot (n : RaftNode) : Ballot := ⟨n.currentTerm, n.hardState.votedFor⟩

/-! ## Advancing the commit index touches three fields -/

theorem drainApplyPipeline_fst (n : RaftNode) : ∃ a s,
    n.drainApplyPipeline.1 = { n with lastApplied := a, snapshotInFlight := s } := by
  refine ⟨n.maybeApply.1.lastApplied, n.maybeApply.1.maybeTakeSnapshot.1.snapshotInFlight, ?_⟩
  simp only [RaftNode.drainApplyPipeline, RaftNode.maybeApply, RaftNode.maybeTakeSnapshot]
  split_ifs <;> rfl

/-- A leader commits the end of its own log or what it has credited to a peer. -/
theorem tryAdvanceCommitIndex_cases {n : RaftNode} {c : ℕ}
    (h : n.tryAdvanceCommitIndex = some c) : n.commitIndex < c ∧
      (c = n.lastLogIndex ∨ ∃ p ∈ n.peers, p.2.lastFetchOffset = c) := by
  unfold RaftNode.tryAdvanceCommitIndex at h
  split_ifs at h
  split at h
  swap
  · cases h
  split at h
  swap
  · cases h
  rename_i vs noOp _ _ _ candidate hcand
  split_ifs at h with hle
  obtain rfl := Option.some.inj h
  refine ⟨not_le.mp hle, ?_⟩
  have hmem := (List.mem_insertionSort _).mp (List.mem_of_getElem? hcand)
  obtain ⟨v, -, hv⟩ := List.mem_filterMap.mp hmem
  split_ifs at hv
  · exact .inl (Option.some.inj hv).symm
  · split at hv
    · rename_i p hp
      split_ifs at hv
      obtain ⟨l, r, hpeers, -⟩ := List.lookup_eq_some_iff.mp hp
      exact .inr ⟨(v.nodeId, p), by simp [hpeers], Option.some.inj hv⟩
    · have := Option.some.inj hv
      omega

theorem advanceCommit_fst (n : RaftNode) : ∃ c a s,
    n.advanceCommit.1 = { n with commitIndex := c, lastApplied := a, snapshotInFlight := s } := by
  unfold RaftNode.advanceCommit
  split
  · rename_i candidate _
    obtain ⟨a, s, h⟩ := drainApplyPipeline_fst { n with commitIndex := candidate }
    exact ⟨candidate, a, s, h⟩
  · exact ⟨n.commitIndex, n.lastApplied, n.snapshotInFlight, rfl⟩

/-! ## The election-relevant part of a step -/

inductive ElectionMove (n : RaftNode) (input : Input) (n' : RaftNode) : Prop
  | keep (role : n'.role = n.role) (ballot_eq : ballot n' = ballot n)
      (votes : n'.votesReceived = n.votesReceived)
  | relinquish (candidate : n'.role ≠ .candidate) (leader : n'.role ≠ .leader)
      (raised : (ballot n).Le (ballot n'))
      (known : ∀ x, (ballot n').vote = some x →
        (ballot n).vote = some x ∨ n.isKnownVoter x = true)
  | campaign (role : n'.role = .candidate)
      (ballot_eq : ballot n' = ⟨satAdd n.currentTerm 1, some n.id⟩)
      (votes : n'.votesReceived = {n.id})
  | count (sender : NodeId) (resp : VoteResponse) (input_eq : input = .voteResponse sender resp)
      (granted : resp.voteGranted = true) (term : resp.term = n.currentTerm)
      (prior : n.role = .candidate) (role : n'.role = .candidate)
      (ballot_eq : ballot n' = ballot n)
      (votes : n'.votesReceived = insert sender n.votesReceived)
  | win (sender : NodeId) (resp : VoteResponse) (input_eq : input = .voteResponse sender resp)
      (granted : resp.voteGranted = true) (term : resp.term = n.currentTerm)
      (prior : n.role = .candidate) (role : n'.role = .leader)
      (ballot_eq : ballot n' = ballot n)
      (quorum : RaftNode.hasElectionQuorum
        { n with votesReceived := insert sender n.votesReceived } = true)
  | coup (role : n'.role = .leader)
      (ballot_eq : ballot n' = ⟨satAdd n.currentTerm 1, some n.id⟩)
      (quorum : RaftNode.hasElectionQuorum { n with votesReceived := {n.id} } = true)

def SelfVoted (n : RaftNode) : Prop :=
  n.role = .candidate ∨ n.role = .leader → n.hardState.votedFor = some n.id

theorem becomeLeader_standing (n : RaftNode) :
    n.becomeLeader.1.role = .leader ∧ ballot n.becomeLeader.1 = ballot n := by
  obtain ⟨c, a, s, h⟩ := advanceCommit_fst n.enterLeader
  simp only [RaftNode.becomeLeader, h]
  exact ⟨rfl, rfl⟩

theorem becomeFollower_role (n : RaftNode) (t : ℕ) (l : Option NodeId) :
    (n.becomeFollower t l).1.role = if n.role = .observer then .observer else .follower := rfl

theorem becomeFollower_ballot (n : RaftNode) (t : ℕ) (l : Option NodeId) :
    ballot (n.becomeFollower t l).1 = if n.currentTerm < t then ⟨t, none⟩ else ballot n := by
  simp only [RaftNode.becomeFollower, RaftNode.resetElectionTimer, ballot, RaftNode.currentTerm]
  split_ifs with h <;> simp [h]

theorem becomeFollower_move (n : RaftNode) (input : Input) (t : ℕ) (l : Option NodeId) :
    ElectionMove n input (n.becomeFollower t l).1 := by
  refine .relinquish ?_ ?_ ?_ ?_
  · rw [becomeFollower_role]
    split_ifs <;> simp
  · rw [becomeFollower_role]
    split_ifs <;> simp
  · rw [becomeFollower_ballot]
    split_ifs with h
    · exact .inl h
    · exact .refl _
  · rw [becomeFollower_ballot]
    split_ifs
    · exact fun x hx => by cases hx
    · exact fun x hx => .inl hx

theorem becomeCandidate_move (n : RaftNode) (input : Input) :
    ElectionMove n input n.becomeCandidate.1 := by
  simp only [RaftNode.becomeCandidate]
  split_ifs with h
  · obtain ⟨hr, hb⟩ := becomeLeader_standing n.enterCandidate
    exact .coup hr hb h
  · exact .campaign rfl rfl rfl

theorem becomePreCandidate_move (n : RaftNode) (input : Input) :
    ElectionMove n input n.becomePreCandidate.1 := by
  simp only [RaftNode.becomePreCandidate, RaftNode.becomeCandidate]
  split_ifs with hp hq
  · obtain ⟨hr, hb⟩ := becomeLeader_standing n.enterPreCandidate.enterCandidate
    exact .coup hr hb hq
  · exact .campaign rfl rfl rfl
  · exact .relinquish (by simp [RaftNode.enterPreCandidate, RaftNode.resetElectionTimer])
      (by simp [RaftNode.enterPreCandidate, RaftNode.resetElectionTimer]) (.refl _)
      (fun _ h => .inl h)

theorem ElectionMove.congr {n m : RaftNode} {input : Input} {n' : RaftNode}
    (h : ElectionMove m input n') (role : m.role = n.role) (b : ballot m = ballot n)
    (votes : m.votesReceived = n.votesReceived) (id : m.id = n.id)
    (voters : m.voterSet = n.voterSet) : ElectionMove n input n' := by
  have ht : m.currentTerm = n.currentTerm := congrArg Ballot.term b
  cases h with
  | keep hr hb hv => exact .keep (hr.trans role) (hb.trans b) (hv.trans votes)
  | relinquish hc hl hle hk =>
    refine .relinquish hc hl (b ▸ hle) (fun x hx => ?_)
    simpa [RaftNode.isKnownVoter, b, voters] using hk x hx
  | campaign hr hb hv => exact .campaign hr (by rw [hb, ht, id]) (by rw [hv, id])
  | count sender resp hi hg hterm hp hr hb hv =>
    exact .count sender resp hi hg (hterm.trans ht) (role ▸ hp) hr (hb.trans b) (by rw [hv, votes])
  | win sender resp hi hg hterm hp hr hb hq =>
    refine .win sender resp hi hg (hterm.trans ht) (role ▸ hp) hr (hb.trans b) ?_
    simpa [RaftNode.hasElectionQuorum, voters, votes] using hq
  | coup hr hb hq =>
    refine .coup hr (by rw [hb, ht, id]) ?_
    simpa [RaftNode.hasElectionQuorum, voters, id] using hq

theorem electionTimeout_move (n : RaftNode) (input : Input) (actions : List Action) :
    ElectionMove n input (n.electionTimeout actions).1 := by
  unfold RaftNode.electionTimeout
  split_ifs
  · exact becomePreCandidate_move n input
  · exact .keep rfl rfl rfl

theorem scheduleFetch_fst (n : RaftNode) : ∃ t,
    n.scheduleFetch.1 = { n with lastFetchTick := t } := by
  unfold RaftNode.scheduleFetch
  split_ifs
  · split
    · exact ⟨n.lastFetchTick, rfl⟩
    · dsimp only
      split_ifs
      · exact ⟨n.lastFetchTick, rfl⟩
      · exact ⟨some n.logicalTick, rfl⟩
  · exact ⟨n.lastFetchTick, rfl⟩

def ticked (n : RaftNode) : RaftNode := n.advanceClock.scheduleFetch.1.countCheckQuorum

theorem ticked_eq (n : RaftNode) : ∃ t c, ticked n = { n with
    logicalTick := satAdd n.logicalTick 1
    electionTimer := n.electionTimer.tick
    lastFetchTick := t
    checkQuorumElapsedTicks := c } := by
  obtain ⟨t, ht⟩ := scheduleFetch_fst n.advanceClock
  unfold ticked RaftNode.countCheckQuorum
  rw [ht]
  split_ifs
  · exact ⟨t, _, rfl⟩
  · exact ⟨t, n.checkQuorumElapsedTicks, rfl⟩

theorem handleTick_eq (n : RaftNode) :
    n.handleTick = if n.advanceClock.scheduleFetch.1.quorumLost then
      (((ticked n).becomeFollower n.currentTerm none).1,
        n.advanceClock.scheduleFetch.2 ++ ((ticked n).becomeFollower n.currentTerm none).2)
    else (ticked n).electionTimeout n.advanceClock.scheduleFetch.2 := by
  have hterm : n.advanceClock.scheduleFetch.1.currentTerm = n.currentTerm := by
    obtain ⟨t, ht⟩ := scheduleFetch_fst n.advanceClock
    rw [ht]
    rfl
  rw [RaftNode.handleTick, hterm]
  rfl

theorem handleTick_move (n : RaftNode) : ElectionMove n .tick n.handleTick.1 := by
  obtain ⟨t, c, ht⟩ := ticked_eq n
  rw [handleTick_eq]
  split_ifs
  · exact (becomeFollower_move _ _ _ _).congr (by rw [ht]) (by rw [ht]; rfl) (by rw [ht])
      (by rw [ht]) (by rw [ht])
  · exact (electionTimeout_move _ _ _).congr (by rw [ht]) (by rw [ht]; rfl) (by rw [ht])
      (by rw [ht]) (by rw [ht])

/-- A vote within the current term goes to nobody else once it is given. -/
theorem castVote_le {n : RaftNode} {c : NodeId}
    (h : n.hardState.votedFor = none ∨ n.hardState.votedFor = some c) :
    (ballot n).Le (ballot (n.castVote c)) := by
  refine .inr (.inl ⟨rfl, ?_⟩)
  rcases h with h | h
  · exact .inl h
  · exact .inr h.symm

theorem grantsVote_free {n : RaftNode} {req : VoteRequest} (h : n.grantsVote req = true) :
    n.hardState.votedFor = none ∨ n.hardState.votedFor = some req.candidateId := by
  simpa [RaftNode.grantsVote] using (Bool.and_eq_true_iff.mp h).2

def answered (n : RaftNode) (req : VoteRequest) : RaftNode :=
  if (n.adoptNewer req.term).grantsVote req then (n.adoptNewer req.term).castVote req.candidateId
  else n.adoptNewer req.term

theorem answered_le (n : RaftNode) (req : VoteRequest) :
    (ballot n).Le (ballot (answered n req)) := by
  have hadopt : (ballot n).Le (ballot (n.adoptNewer req.term)) := by
    unfold RaftNode.adoptNewer
    split_ifs with h
    · exact .inl h
    · exact .refl _
  unfold answered
  split_ifs with hg
  · exact hadopt.trans (castVote_le (grantsVote_free hg))
  · exact hadopt

theorem answered_role (n : RaftNode) (req : VoteRequest) :
    (answered n req).role = if n.currentTerm < req.term then .follower else n.role := by
  unfold answered RaftNode.adoptNewer
  split_ifs <;> rfl

theorem answered_known {n : RaftNode} {req : VoteRequest}
    (hk : n.isKnownVoter req.candidateId = true) :
    ∀ x, (ballot (answered n req)).vote = some x →
      (ballot n).vote = some x ∨ n.isKnownVoter x = true := by
  intro x hx
  unfold answered at hx
  split_ifs at hx
  · obtain rfl : req.candidateId = x := Option.some.inj hx
    exact .inr hk
  · unfold RaftNode.adoptNewer at hx
    split_ifs at hx
    · cases hx
    · exact .inl hx

theorem answered_move {n : RaftNode} (hs : SelfVoted n) {req : VoteRequest}
    (hk : n.isKnownVoter req.candidateId = true) (input : Input) :
    ElectionMove n input (answered n req) := by
  have hrole := answered_role n req
  by_cases hnew : n.currentTerm < req.term
  · rw [if_pos hnew] at hrole
    exact .relinquish (by simp [hrole]) (by simp [hrole]) (answered_le n req) (answered_known hk)
  · rw [if_neg hnew] at hrole
    by_cases hsl : n.role = .candidate ∨ n.role = .leader
    · -- a candidate or leader has spent its vote on itself, so nothing changes
      unfold answered RaftNode.adoptNewer
      rw [if_neg hnew]
      split_ifs with hg
      · have hc : n.hardState.votedFor = some req.candidateId := by
          rcases grantsVote_free hg with hv | hv
          · rw [hs hsl] at hv; cases hv
          · exact hv
        exact .keep rfl (by simp [ballot, RaftNode.castVote, RaftNode.resetElectionTimer,
          RaftNode.currentTerm, hc]) rfl
      · exact .keep rfl rfl rfl
    · rw [not_or] at hsl
      exact .relinquish (hrole ▸ hsl.1) (hrole ▸ hsl.2) (answered_le n req) (answered_known hk)

/-! ## Outcomes of the handlers -/

structure SameProgress (n m : RaftNode) : Prop where
  id : m.id = n.id
  voterSet : m.voterSet = n.voterSet
  config : m.config = n.config
  interval : m.checkQuorumIntervalTicks = n.checkQuorumIntervalTicks
  peers : m.peers = n.peers
  fetchSeq : m.fetchSeq = n.fetchSeq
  logicalTick : m.logicalTick = n.logicalTick
  lastLogIndex : m.lastLogIndex = n.lastLogIndex
  lastLogTerm : m.lastLogTerm = n.lastLogTerm
  commitIndex : m.commitIndex = n.commitIndex
  lastApplied : m.lastApplied = n.lastApplied
  lastSnapshotMeta : m.lastSnapshotMeta = n.lastSnapshotMeta
  snapshotInFlight : m.snapshotInFlight = n.snapshotInFlight

theorem becomeFollower_sameProgress (n : RaftNode) (t : ℕ) (l : Option NodeId) :
    SameProgress n (n.becomeFollower t l).1 := by
  constructor <;> rfl

def SeeksOrLeads (n : RaftNode) : Prop :=
  n.role = .leader ∨ n.role = .candidate ∨ n.role = .preCandidate

instance (n : RaftNode) : Decidable (SeeksOrLeads n) := by
  unfold SeeksOrLeads
  infer_instance

def withVote (n : RaftNode) (sender : NodeId) : RaftNode :=
  { n with votesReceived := insert sender n.votesReceived }

def withPreVote (n : RaftNode) (sender : NodeId) : RaftNode :=
  { n with preVotesReceived := insert sender n.preVotesReceived }

def redirecting (n : RaftNode) (req : FetchRequest) (snap : SnapshotMeta) :
    RaftNode × List Action :=
  (n.stampFetch req.replicaId,
    [.redirectToSnapshot req.replicaId n.config.clusterId n.currentTerm n.id n.commitIndex snap])

def serving (n : RaftNode) (req : FetchRequest) : RaftNode × List Action :=
  (n.stampFetch req.replicaId, [.serveFetch req.replicaId n.config.clusterId n.currentTerm n.id
    n.commitIndex req.fetchOffset req.lastFetchedEpoch])

def refusing (n : RaftNode) (req : VoteRequest) : RaftNode × List Action :=
  (n, [.sendMessage req.candidateId (.voteResponse (n.buildVoteResponse false))])

def answering (n : RaftNode) (req : VoteRequest) : List Action :=
  (if n.currentTerm < req.term ∨ ((n.adoptNewer req.term).grantsVote req = true ∧
      (n.adoptNewer req.term).hardState.votedFor ≠ some req.candidateId)
    then [.persistHardState] else []) ++
  (if n.currentTerm < req.term ∧ SeeksOrLeads n then [.stepDown] else []) ++
  [.sendMessage req.candidateId (.voteResponse
    ((answered n req).buildVoteResponse ((n.adoptNewer req.term).grantsVote req)))]

structure Weighed (n : RaftNode) (req : VoteRequest) : Prop where
  cluster : req.clusterId = n.config.clusterId
  known : n.isKnownVoter req.candidateId = true
  fresh : ¬req.term < n.currentTerm

theorem handleVoteRequest_cases (n : RaftNode) (req : VoteRequest) :
    n.handleVoteRequest req = (n, []) ∨ n.role ≠ .observer ∧
      (n.handleVoteRequest req = refusing n req ∨
        Weighed n req ∧ n.handleVoteRequest req = (answered n req, answering n req)) := by
  unfold RaftNode.handleVoteRequest
  split_ifs with h₁ h₂ h₃ h₄
  · exact .inl rfl
  · exact .inl rfl
  · exact .inl rfl
  · exact .inr ⟨h₂, .inl rfl⟩
  · exact .inr ⟨h₂, .inr ⟨⟨not_not.mp h₁, by simpa using h₃, h₄⟩, rfl⟩⟩

theorem answered_progress (n : RaftNode) (req : VoteRequest) : SameProgress n (answered n req) := by
  unfold answered RaftNode.adoptNewer
  split_ifs <;> constructor <;> rfl

theorem answered_current {n : RaftNode} {req : VoteRequest} (h : ¬n.currentTerm < req.term) :
    answered n req = n.castVote req.candidateId ∨ answered n req = n := by
  unfold answered RaftNode.adoptNewer
  rw [if_neg h]
  split_ifs
  · exact .inl rfl
  · exact .inr rfl

theorem mem_answering {n : RaftNode} {req : VoteRequest} {a : Action} (h : a ∈ answering n req) :
    a = .persistHardState ∨ a = .stepDown ∨ a = .sendMessage req.candidateId (.voteResponse
      ((answered n req).buildVoteResponse ((n.adoptNewer req.term).grantsVote req))) := by
  rcases List.mem_append.mp h with h | h
  · rcases List.mem_append.mp h with h | h <;> split_ifs at h
    · exact .inl (List.mem_singleton.mp h)
    · cases h
    · exact .inr (.inl (List.mem_singleton.mp h))
    · cases h
  · exact .inr (.inr (List.mem_singleton.mp h))

theorem mem_handlePreVoteRequest {n : RaftNode} {req : PreVoteRequest} {a : Action}
    (h : a ∈ n.handlePreVoteRequest req) : n.role ≠ .observer ∧ ∃ granted,
      a = .sendMessage req.candidateId (.preVoteResponse (n.buildPreVoteResponse granted)) := by
  unfold RaftNode.handlePreVoteRequest at h
  split_ifs at h with h₁ h₂ h₃
  · cases h
  · cases h
  · cases h
  · exact ⟨h₂, _, List.mem_singleton.mp h⟩

theorem handleVoteResponse_cases (n : RaftNode) (sender : NodeId) (resp : VoteResponse) :
    n.handleVoteResponse sender resp = (n, []) ∨
      n.handleVoteResponse sender resp = n.becomeFollower resp.term none ∨
      (n.role = .candidate ∧ resp.term = n.currentTerm ∧ resp.voteGranted = true) ∧
        (n.handleVoteResponse sender resp = (withVote n sender, []) ∨
          (withVote n sender).hasElectionQuorum = true ∧
            n.handleVoteResponse sender resp = (withVote n sender).becomeLeader) := by
  unfold RaftNode.handleVoteResponse
  split_ifs with h₁ h₂ h₃ h₄ h₅
  · exact .inl rfl
  · exact .inl rfl
  · exact .inr (.inl rfl)
  · exact .inl rfl
  · rw [not_or, not_not, not_not] at h₄
    refine .inr (.inr ⟨⟨h₄.1, h₄.2, h₅⟩, ?_⟩)
    dsimp only
    split_ifs with hquorum
    · exact .inr ⟨hquorum, rfl⟩
    · exact .inl rfl
  · exact .inl rfl

theorem handlePreVoteResponse_cases (n : RaftNode) (sender : NodeId) (resp : PreVoteResponse) :
    n.handlePreVoteResponse sender resp = (n, []) ∨
      n.handlePreVoteResponse sender resp = n.becomeFollower resp.term none ∨
      (n.role = .preCandidate ∧ resp.term ≤ n.currentTerm ∧ resp.voteGranted = true) ∧
        (n.handlePreVoteResponse sender resp = (withPreVote n sender, []) ∨
          (withPreVote n sender).hasPreElectionQuorum = true ∧
            n.handlePreVoteResponse sender resp = (withPreVote n sender).becomeCandidate) := by
  unfold RaftNode.handlePreVoteResponse
  split_ifs with h₁ h₂ h₃ h₄ h₅
  · exact .inl rfl
  · exact .inl rfl
  · exact .inr (.inl rfl)
  · exact .inl rfl
  · refine .inr (.inr ⟨⟨not_not.mp h₄, not_lt.mp h₃, h₅⟩, ?_⟩)
    dsimp only
    split_ifs with hquorum
    · exact .inr ⟨hquorum, rfl⟩
    · exact .inl rfl
  · exact .inl rfl

theorem handleFetchRequest_cases (n : RaftNode) (req : FetchRequest) :
    n.handleFetchRequest req = (n, []) ∨
      n.handleFetchRequest req = n.becomeFollower req.leaderEpoch none ∨
      n.role = .leader ∧ ((∃ snap, n.handleFetchRequest req = redirecting n req snap) ∨
        n.handleFetchRequest req = serving n req) := by
  unfold RaftNode.handleFetchRequest
  split_ifs with h₁ h₂ h₃ h₄ h₅ h₆
  · exact .inl rfl
  · exact .inl rfl
  · exact .inl rfl
  · exact .inr (.inl rfl)
  · exact .inl rfl
  · exact .inl rfl
  · refine .inr (.inr ⟨not_not.mp h₅, ?_⟩)
    split
    · exact .inl ⟨_, rfl⟩
    · exact .inr rfl

theorem handleVoteRequest_move {n : RaftNode} (hs : SelfVoted n) (req : VoteRequest) :
    ElectionMove n (.voteRequest req) (n.handleVoteRequest req).1 := by
  rcases handleVoteRequest_cases n req with heq | ⟨-, heq | ⟨hw, heq⟩⟩ <;> rw [heq]
  · exact .keep rfl rfl rfl
  · exact .keep rfl rfl rfl
  · exact answered_move hs hw.known _

theorem handleVoteResponse_move (n : RaftNode) (sender : NodeId) (resp : VoteResponse) :
    ElectionMove n (.voteResponse sender resp) (n.handleVoteResponse sender resp).1 := by
  rcases handleVoteResponse_cases n sender resp with
    heq | heq | ⟨⟨hrole, hterm, hgranted⟩, heq | ⟨hquorum, heq⟩⟩ <;> rw [heq]
  · exact .keep rfl rfl rfl
  · exact becomeFollower_move n _ _ _
  · exact .count sender resp rfl hgranted hterm hrole hrole rfl rfl
  · obtain ⟨hr, hb⟩ := becomeLeader_standing (withVote n sender)
    exact .win sender resp rfl hgranted hterm hrole hr hb hquorum

theorem handlePreVoteResponse_move (n : RaftNode) (sender : NodeId) (resp : PreVoteResponse) :
    ElectionMove n (.preVoteResponse sender resp) (n.handlePreVoteResponse sender resp).1 := by
  rcases handlePreVoteResponse_cases n sender resp with heq | heq | ⟨-, heq | ⟨-, heq⟩⟩ <;> rw [heq]
  · exact .keep rfl rfl rfl
  · exact becomeFollower_move n _ _ _
  · exact .keep rfl rfl rfl
  · exact (becomeCandidate_move _ _).congr rfl rfl rfl rfl rfl

theorem handleFetchRequest_move (n : RaftNode) (req : FetchRequest) :
    ElectionMove n (.fetchRequest req) (n.handleFetchRequest req).1 := by
  rcases handleFetchRequest_cases n req with heq | heq | ⟨-, ⟨_, heq⟩ | heq⟩ <;> rw [heq]
  · exact .keep rfl rfl rfl
  · exact becomeFollower_move n _ _ _
  · exact .keep rfl rfl rfl
  · exact .keep rfl rfl rfl

theorem advanceCommit_move (n : RaftNode) (input : Input) :
    ElectionMove n input n.advanceCommit.1 := by
  obtain ⟨c, a, s, h⟩ := advanceCommit_fst n
  rw [h]
  exact .keep rfl rfl rfl

theorem advanceCommit_ballot (n : RaftNode) : ballot n.advanceCommit.1 = ballot n := by
  obtain ⟨c, a, s, h⟩ := advanceCommit_fst n
  rw [h]
  rfl

theorem handleFetchRequestAcked_ballot (n : RaftNode) (replica : NodeId) (offset : ℕ) :
    ballot (n.handleFetchRequestAcked replica offset).1 = ballot n := by
  unfold RaftNode.handleFetchRequestAcked
  split_ifs
  · rfl
  · rfl
  · exact advanceCommit_ballot _

theorem handleClientPropose_ballot (n : RaftNode) (command : Bytes) :
    ballot (n.handleClientPropose command).1 = ballot n := by
  unfold RaftNode.handleClientPropose
  split_ifs
  · rfl
  · exact advanceCommit_ballot _

theorem handleFetchRequestAcked_move (n : RaftNode) (replica : NodeId) (offset : ℕ) :
    ElectionMove n (.fetchRequestAcked replica offset)
      (n.handleFetchRequestAcked replica offset).1 := by
  unfold RaftNode.handleFetchRequestAcked
  split_ifs
  · exact .keep rfl rfl rfl
  · exact .keep rfl rfl rfl
  · exact (advanceCommit_move _ _).congr rfl rfl rfl rfl rfl

theorem handleClientPropose_move (n : RaftNode) (command : Bytes) :
    ElectionMove n (.clientPropose command) (n.handleClientPropose command).1 := by
  unfold RaftNode.handleClientPropose
  split_ifs
  · exact .keep rfl rfl rfl
  · exact (advanceCommit_move _ _).congr rfl rfl rfl rfl rfl

/-! ## Accepting a leader -/

/-- A response that passes the fencing comes from a voter that leads a term at least the node's own;
the node follows it into that term. -/
structure Accepted (n : RaftNode) (resp : FetchResponse) (m : RaftNode) (actions : List Action) :
    Prop where
  isLeader : resp.isLeader = true
  cluster : resp.clusterId = n.config.clusterId
  fresh : n.currentTerm ≤ resp.leaderEpoch
  role : m.role = if n.role = .observer then .observer else .follower
  prior : n.role = .leader → n.currentTerm < resp.leaderEpoch
  ballot_eq : ballot m = if n.currentTerm < resp.leaderEpoch then ⟨resp.leaderEpoch, none⟩
    else ballot n
  leaderId : m.leaderId = some resp.leaderId
  progress : SameProgress n m
  actions_eq : actions = (if n.currentTerm < resp.leaderEpoch then [.persistHardState] else []) ++
    (if SeeksOrLeads n then [.stepDown] else [])

theorem heardFromLeader_sameProgress (n : RaftNode) : SameProgress n n.heardFromLeader := by
  constructor <;> rfl

theorem SameProgress.trans {n m k : RaftNode} (h : SameProgress n m) (h' : SameProgress m k) :
    SameProgress n k where
  id := h'.id.trans h.id
  voterSet := h'.voterSet.trans h.voterSet
  config := h'.config.trans h.config
  interval := h'.interval.trans h.interval
  peers := h'.peers.trans h.peers
  fetchSeq := h'.fetchSeq.trans h.fetchSeq
  logicalTick := h'.logicalTick.trans h.logicalTick
  lastLogIndex := h'.lastLogIndex.trans h.lastLogIndex
  lastLogTerm := h'.lastLogTerm.trans h.lastLogTerm
  commitIndex := h'.commitIndex.trans h.commitIndex
  lastApplied := h'.lastApplied.trans h.lastApplied
  lastSnapshotMeta := h'.lastSnapshotMeta.trans h.lastSnapshotMeta
  snapshotInFlight := h'.snapshotInFlight.trans h.snapshotInFlight

theorem followLeader_spec {n : RaftNode} (hl : n.role ≠ .leader) (leader : NodeId) :
    SameProgress n (n.followLeader leader).1 ∧
      ballot (n.followLeader leader).1 = ballot n ∧
      (n.followLeader leader).1.role = (if n.role = .observer then .observer else .follower) ∧
      (n.followLeader leader).1.leaderId = some leader ∧
      (n.followLeader leader).2 = (if SeeksOrLeads n then [.stepDown] else []) := by
  unfold RaftNode.followLeader
  by_cases hs : n.role = .candidate ∨ n.role = .preCandidate
  · rw [if_pos hs]
    refine ⟨becomeFollower_sameProgress _ _ _, ?_, becomeFollower_role _ _ _, rfl, ?_⟩
    · rw [becomeFollower_ballot, if_neg (lt_irrefl _)]
    · simp only [RaftNode.becomeFollower, lt_irrefl, if_false, List.nil_append]
      rfl
  · rw [if_neg hs]
    have hns : ¬ SeeksOrLeads n := by
      rintro (h | h)
      · exact hl h
      · exact hs h
    refine ⟨by constructor <;> rfl, rfl, ?_, rfl, (if_neg hns).symm⟩
    show n.role = _
    rw [not_or] at hs
    cases hr : n.role <;> simp_all

theorem acceptLeader_spec {n : RaftNode} {resp : FetchResponse} {m : RaftNode}
    {actions : List Action} (h : n.acceptLeader resp = some (m, actions)) :
    Accepted n resp m actions := by
  unfold RaftNode.acceptLeader at h
  by_cases h₁ : resp.clusterId ≠ n.config.clusterId
  · simp [h₁] at h
  by_cases h₂ : (!resp.isLeader) = true
  · simp [h₁, h₂] at h
  by_cases h₃ : (!n.isKnownVoter resp.leaderId) = true
  · simp [h₁, h₂, h₃] at h
  by_cases h₄ : resp.leaderEpoch < n.currentTerm
  · simp [h₁, h₂, h₃, h₄] at h
  rw [if_neg h₁, if_neg h₂, if_neg h₃, if_neg h₄] at h
  rw [not_not] at h₁
  have h₂ : resp.isLeader = true := by simpa using h₂
  dsimp only at h
  by_cases hraise : n.currentTerm < resp.leaderEpoch
  · -- the step-down into the new term already settles the role
    rw [if_pos hraise] at h
    have hrole := becomeFollower_role n resp.leaderEpoch (some resp.leaderId)
    have hnl : (n.becomeFollower resp.leaderEpoch (some resp.leaderId)).1.role ≠ .leader := by
      rw [hrole]
      split_ifs <;> simp
    rw [if_neg hnl] at h
    split_ifs at h
    obtain ⟨rfl, rfl⟩ : _ = m ∧ _ = actions := by simpa using h
    obtain ⟨hp, hb, hr, hid, ha⟩ := followLeader_spec hnl resp.leaderId
    refine ⟨h₂, h₁, hraise.le, ?_, fun _ => hraise, ?_, hid, ?_, ?_⟩
    · refine hr.trans ?_
      rw [hrole]
      split_ifs <;> simp_all
    · exact hb.trans (becomeFollower_ballot n _ _)
    · exact ((becomeFollower_sameProgress _ _ _).trans hp).trans (heardFromLeader_sameProgress _)
    · have hns : ¬ SeeksOrLeads (n.becomeFollower resp.leaderEpoch (some resp.leaderId)).1 := by
        unfold SeeksOrLeads
        rw [hrole]
        split_ifs <;> simp
      rw [ha, if_neg hns, List.append_nil]
      rfl
  · rw [if_neg hraise] at h
    by_cases hlead : n.role = .leader
    · simp [hlead] at h
    rw [if_neg hlead] at h
    split_ifs at h
    obtain ⟨rfl, rfl⟩ : _ = m ∧ _ = actions := by simpa using h
    obtain ⟨hp, hb, hr, hid, ha⟩ := followLeader_spec hlead resp.leaderId
    refine ⟨h₂, h₁, not_lt.mp h₄, hr, fun hl => absurd hl hlead, ?_, hid, ?_, ?_⟩
    · rw [if_neg hraise]
      exact hb
    · exact hp.trans (heardFromLeader_sameProgress _)
    · rw [ha, if_neg hraise, List.nil_append]

theorem Accepted.relinquishes {n m : RaftNode} {resp : FetchResponse} {actions : List Action}
    (h : Accepted n resp m actions) :
    m.role ≠ .candidate ∧ m.role ≠ .leader ∧ (ballot n).Le (ballot m) ∧
      ∀ x, (ballot m).vote = some x → (ballot n).vote = some x := by
  refine ⟨?_, ?_, ?_, ?_⟩
  · rw [h.role]
    split_ifs <;> simp
  · rw [h.role]
    split_ifs <;> simp
  · rw [h.ballot_eq]
    split_ifs with hlt
    · exact .inl hlt
    · exact .refl _
  · rw [h.ballot_eq]
    split_ifs
    · exact fun x hx => by cases hx
    · exact fun x hx => hx

theorem observeHighWatermark_fst (n : RaftNode) (hw : ℕ) : ∃ c a s,
    (n.observeHighWatermark hw).1 =
      { n with commitIndex := c, lastApplied := a, snapshotInFlight := s } := by
  unfold RaftNode.observeHighWatermark
  dsimp only
  split_ifs
  · obtain ⟨a, s, h⟩ := drainApplyPipeline_fst { n with commitIndex := min hw n.lastLogIndex }
    exact ⟨_, a, s, h⟩
  · exact ⟨n.commitIndex, n.lastApplied, n.snapshotInFlight, rfl⟩

/-- A batch that is taken starts right behind the log and moves the tip to its last entry. -/
theorem takeEntries_spec {n m : RaftNode} {es : List Entry} {actions : List Action}
    (h : n.takeEntries es = some (m, actions)) :
    (es = [] ∧ m = n ∧ actions = []) ∨
      ∃ first last, es.head? = some first ∧ es.getLast? = some last ∧
        first.index = satAdd n.lastLogIndex 1 ∧ contiguousBatch es = true ∧
        m = n.setLastLog last.index last.term ∧ actions = [.appendEntries es] := by
  unfold RaftNode.takeEntries at h
  cases es with
  | nil =>
    simp only [List.head?_nil, List.getLast?_nil, Option.some.injEq, Prod.mk.injEq] at h
    exact .inl ⟨rfl, h.1.symm, h.2.symm⟩
  | cons e es =>
    obtain ⟨last, hlast⟩ : ∃ last, (e :: es).getLast? = some last :=
      ⟨_, List.getLast?_eq_some_getLast (List.cons_ne_nil e es)⟩
    rw [List.head?_cons, hlast] at h
    dsimp only at h
    split_ifs at h with h₁ h₂
    simp only [Option.some.injEq, Prod.mk.injEq] at h
    rw [not_not] at h₁
    exact .inr ⟨e, last, List.head?_cons, hlast, h₁, by simpa using h₂, h.1.symm, h.2.symm⟩

/-- What the payload of an accepted response asks for. -/
def payload (m : RaftNode) (resp : FetchResponse) : RaftNode × List Action :=
  match resp.snapshotRedirect, resp.divergingEpoch with
  | some redirect, _ => m.requestSnapshot resp.leaderId redirect
  | none, some de => m.resolveDivergence resp.leaderId de
  | none, none =>
    match m.takeEntries resp.entries with
    | none => (m, [])
    | some (taken, appends) => ((taken.observeHighWatermark resp.highWatermark).1,
        appends ++ (taken.observeHighWatermark resp.highWatermark).2)

theorem handleFetchResponse_cases (n : RaftNode) (resp : FetchResponse) :
    n.handleFetchResponse resp = (n, []) ∨ ∃ m opening, n.acceptLeader resp = some (m, opening) ∧
      Accepted n resp m opening ∧
      n.handleFetchResponse resp = ((payload m resp).1, opening ++ (payload m resp).2) := by
  unfold RaftNode.handleFetchResponse payload
  cases h : n.acceptLeader resp with
  | none => exact .inl rfl
  | some r =>
    obtain ⟨m, opening⟩ := r
    refine .inr ⟨m, opening, rfl, acceptLeader_spec h, ?_⟩
    dsimp only
    cases resp.snapshotRedirect with
    | some redirect => rfl
    | none =>
      cases resp.divergingEpoch with
      | some de => rfl
      | none =>
        cases m.takeEntries resp.entries with
        | none => rw [List.append_nil]
        | some r =>
          dsimp only
          rw [List.append_assoc]

theorem payload_cases (m : RaftNode) (resp : FetchResponse) :
    (∃ redirect, payload m resp = m.requestSnapshot resp.leaderId redirect) ∨
      (∃ de, resp.snapshotRedirect = none ∧ resp.divergingEpoch = some de ∧
        payload m resp = m.resolveDivergence resp.leaderId de) ∨
      payload m resp = (m, []) ∨
      ∃ taken appends, m.takeEntries resp.entries = some (taken, appends) ∧ payload m resp =
        ((taken.observeHighWatermark resp.highWatermark).1,
          appends ++ (taken.observeHighWatermark resp.highWatermark).2) := by
  unfold payload
  split
  · exact .inl ⟨_, rfl⟩
  · exact .inr (.inl ⟨_, ‹_›, ‹_›, rfl⟩)
  · split
    · exact .inr (.inr (.inl rfl))
    · exact .inr (.inr (.inr ⟨_, _, ‹_›, rfl⟩))

/-- Reading the payload of an accepted response moves the log and what is applied of it. -/
theorem payload_fst (m : RaftNode) (resp : FetchResponse) : ∃ t i e c a s,
    (payload m resp).1 = { m with
      lastFetchTick := t, lastLogIndex := i, lastLogTerm := e
      commitIndex := c, lastApplied := a, snapshotInFlight := s } := by
  rcases payload_cases m resp with
    ⟨_, hp⟩ | ⟨_, -, -, hp⟩ | hp | ⟨taken, appends, htake, hp⟩ <;> rw [hp]
  · exact ⟨_, _, _, _, _, _, rfl⟩
  · exact ⟨_, _, _, _, _, _, rfl⟩
  · exact ⟨_, _, _, _, _, _, rfl⟩
  · obtain ⟨c, a, s, hw⟩ := observeHighWatermark_fst taken resp.highWatermark
    dsimp only
    rw [hw]
    rcases takeEntries_spec htake with ⟨_, rfl, _⟩ | ⟨_, _, _, _, _, _, rfl, _⟩
    · exact ⟨_, _, _, _, _, _, rfl⟩
    · exact ⟨_, _, _, _, _, _, rfl⟩

theorem payload_standing (m : RaftNode) (resp : FetchResponse) :
    (payload m resp).1.role = m.role ∧ ballot (payload m resp).1 = ballot m := by
  obtain ⟨t, i, e, c, a, s, h⟩ := payload_fst m resp
  rw [h]
  exact ⟨rfl, rfl⟩

theorem handleFetchResponse_move (n : RaftNode) (resp : FetchResponse) :
    ElectionMove n (.fetchResponse resp) (n.handleFetchResponse resp).1 := by
  rcases handleFetchResponse_cases n resp with heq | ⟨m, opening, -, hacc, heq⟩ <;> rw [heq]
  · exact .keep rfl rfl rfl
  · obtain ⟨hr, hb⟩ := payload_standing m resp
    obtain ⟨hc, hl, hle, hk⟩ := hacc.relinquishes
    exact .relinquish (hr ▸ hc) (hr ▸ hl) (hb ▸ hle) (fun x hx => .inl (hk x (hb ▸ hx)))

theorem step_move {n : RaftNode} (hs : SelfVoted n) (input : Input) :
    ElectionMove n input (n.step input).1 := by
  cases input with
  | tick => exact handleTick_move n
  | voteRequest req => exact handleVoteRequest_move hs req
  | voteResponse sender resp => exact handleVoteResponse_move n sender resp
  | preVoteRequest req => exact .keep rfl rfl rfl
  | preVoteResponse sender resp => exact handlePreVoteResponse_move n sender resp
  | fetchRequest req => exact handleFetchRequest_move n req
  | fetchResponse resp => exact handleFetchResponse_move n resp
  | clientPropose command => exact handleClientPropose_move n command
  | fetchRequestAcked replica offset => exact handleFetchRequestAcked_move n replica offset
  | snapshotComplete metadata =>
    simp only [RaftNode.step, RaftNode.handleSnapshotComplete]
    split_ifs <;> exact .keep rfl rfl rfl
  | snapshotInstalled metadata => exact .keep rfl rfl rfl
  | fetchSnapshotReceived metadata data => exact .keep rfl rfl rfl

theorem ElectionMove.selfVoted {n m : RaftNode} {input : Input} (h : ElectionMove n input m)
    (hs : SelfVoted n) (hid : m.id = n.id) : SelfVoted m := by
  intro hrole
  rw [hid]
  cases h with
  | keep hr hb _ =>
    have hv : m.hardState.votedFor = n.hardState.votedFor := congrArg Ballot.vote hb
    rw [hv]
    exact hs (hr ▸ hrole)
  | relinquish hc hl _ _ => exact absurd hrole (not_or.mpr ⟨hc, hl⟩)
  | campaign _ hb _ => exact congrArg Ballot.vote hb
  | count _ _ _ _ _ hp _ hb _ => exact (congrArg Ballot.vote hb).trans (hs (.inl hp))
  | win _ _ _ _ _ hp _ hb _ => exact (congrArg Ballot.vote hb).trans (hs (.inl hp))
  | coup _ hb _ => exact congrArg Ballot.vote hb

theorem ElectionMove.le {n m : RaftNode} {input : Input} (h : ElectionMove n input m) :
    (ballot n).Le (ballot m) := by
  cases h with
  | keep _ hb _ => exact hb ▸ .refl _
  | relinquish _ _ hle _ => exact hle
  | campaign _ hb _ => exact hb ▸ Ballot.le_campaign (ballot n) _
  | count _ _ _ _ _ _ _ hb _ => exact hb ▸ .refl _
  | win _ _ _ _ _ _ _ hb _ => exact hb ▸ .refl _
  | coup _ hb _ => exact hb ▸ Ballot.le_campaign (ballot n) _

/-- A new vote goes to a known voter or to the node itself. -/
theorem ElectionMove.vote {n m : RaftNode} {input : Input} (h : ElectionMove n input m)
    {x : NodeId} (hx : (ballot m).vote = some x) :
    (ballot n).vote = some x ∨ n.isKnownVoter x = true ∨ x = n.id := by
  cases h with
  | keep _ hb _ => exact .inl (hb ▸ hx)
  | relinquish _ _ _ hk => exact (hk x hx).imp_right .inl
  | campaign _ hb _ =>
    rw [hb] at hx
    exact .inr (.inr (Option.some.inj hx).symm)
  | count _ _ _ _ _ _ _ hb _ => exact .inl (hb ▸ hx)
  | win _ _ _ _ _ _ _ hb _ => exact .inl (hb ▸ hx)
  | coup _ hb _ =>
    rw [hb] at hx
    exact .inr (.inr (Option.some.inj hx).symm)

/-! ## Fields fixed at construction -/

def peerKinds (n : RaftNode) : List (NodeId × Bool) := n.peers.map (fun p => (p.1, p.2.isVoter))

structure SameIdentity (n m : RaftNode) : Prop where
  id : m.id = n.id
  voterSet : m.voterSet = n.voterSet
  config : m.config = n.config
  interval : m.checkQuorumIntervalTicks = n.checkQuorumIntervalTicks
  peers : peerKinds m = peerKinds n

theorem SameIdentity.refl (n : RaftNode) : SameIdentity n n := ⟨rfl, rfl, rfl, rfl, rfl⟩

theorem SameIdentity.trans {n m k : RaftNode} (h : SameIdentity n m) (h' : SameIdentity m k) :
    SameIdentity n k :=
  ⟨h'.id.trans h.id, h'.voterSet.trans h.voterSet, h'.config.trans h.config,
    h'.interval.trans h.interval, h'.peers.trans h.peers⟩

theorem SameIdentity.of_same {n m k : RaftNode} (h : SameIdentity m k) (id : m.id = n.id)
    (voters : m.voterSet = n.voterSet) (config : m.config = n.config)
    (interval : m.checkQuorumIntervalTicks = n.checkQuorumIntervalTicks)
    (peers : peerKinds m = peerKinds n) : SameIdentity n k :=
  SameIdentity.trans ⟨id, voters, config, interval, peers⟩ h

theorem SameProgress.identity {n m : RaftNode} (h : SameProgress n m) : SameIdentity n m :=
  ⟨h.id, h.voterSet, h.config, h.interval, by rw [peerKinds, h.peers, peerKinds]⟩

theorem updatePeer_identity (n : RaftNode) (id : NodeId) {f : PeerState → PeerState}
    (hf : ∀ p, (f p).isVoter = p.isVoter) : SameIdentity n (n.updatePeer id f) := by
  refine ⟨rfl, rfl, rfl, rfl, ?_⟩
  simp only [peerKinds, RaftNode.updatePeer, List.map_map]
  apply List.map_congr_left
  intro p _
  simp only [Function.comp_apply]
  split_ifs <;> simp [hf]

theorem advanceCommit_identity (n : RaftNode) : SameIdentity n n.advanceCommit.1 := by
  obtain ⟨c, a, s, h⟩ := advanceCommit_fst n
  rw [h]
  exact ⟨rfl, rfl, rfl, rfl, rfl⟩

theorem becomeLeader_identity (n : RaftNode) : SameIdentity n n.becomeLeader.1 := by
  refine .trans (m := n.enterLeader) ⟨rfl, rfl, rfl, rfl, ?_⟩ (advanceCommit_identity _)
  simp [peerKinds, RaftNode.enterLeader, RaftNode.resetElectionTimer, Function.comp_def]

theorem becomeCandidate_identity (n : RaftNode) : SameIdentity n n.becomeCandidate.1 := by
  have h : SameIdentity n n.enterCandidate := ⟨rfl, rfl, rfl, rfl, rfl⟩
  unfold RaftNode.becomeCandidate
  split_ifs
  · exact h.trans (becomeLeader_identity _)
  · exact h

theorem electionTimeout_identity (n : RaftNode) (actions : List Action) :
    SameIdentity n (n.electionTimeout actions).1 := by
  have h : SameIdentity n n.enterPreCandidate := ⟨rfl, rfl, rfl, rfl, rfl⟩
  unfold RaftNode.electionTimeout RaftNode.becomePreCandidate
  split_ifs
  · exact h.trans (becomeCandidate_identity _)
  · exact h
  · exact .refl n

theorem ticked_identity (n : RaftNode) : SameIdentity n (ticked n) := by
  obtain ⟨t, c, ht⟩ := ticked_eq n
  rw [ht]
  exact ⟨rfl, rfl, rfl, rfl, rfl⟩

theorem handleTick_identity (n : RaftNode) : SameIdentity n n.handleTick.1 := by
  rw [handleTick_eq]
  split_ifs
  · exact (ticked_identity n).trans (becomeFollower_sameProgress _ _ _).identity
  · exact (ticked_identity n).trans (electionTimeout_identity _ _)

theorem handleFetchResponse_identity (n : RaftNode) (resp : FetchResponse) :
    SameIdentity n (n.handleFetchResponse resp).1 := by
  rcases handleFetchResponse_cases n resp with heq | ⟨m, opening, -, hacc, heq⟩ <;> rw [heq]
  · exact .refl n
  · obtain ⟨t, i, e, c, a, s, hm⟩ := payload_fst m resp
    refine hacc.progress.identity.trans ?_
    dsimp only
    rw [hm]
    exact ⟨rfl, rfl, rfl, rfl, rfl⟩

theorem step_identity (n : RaftNode) (input : Input) : SameIdentity n (n.step input).1 := by
  cases input with
  | tick => exact handleTick_identity n
  | voteRequest req =>
    rw [RaftNode.step]
    rcases handleVoteRequest_cases n req with heq | ⟨-, heq | ⟨-, heq⟩⟩ <;> rw [heq]
    · exact .refl n
    · exact .refl n
    · exact (answered_progress n req).identity
  | voteResponse sender resp =>
    rw [RaftNode.step]
    rcases handleVoteResponse_cases n sender resp with heq | heq | ⟨-, heq | ⟨-, heq⟩⟩ <;> rw [heq]
    · exact .refl n
    · exact (becomeFollower_sameProgress _ _ _).identity
    · exact ⟨rfl, rfl, rfl, rfl, rfl⟩
    · exact (becomeLeader_identity _).of_same rfl rfl rfl rfl rfl
  | preVoteRequest req => exact .refl n
  | preVoteResponse sender resp =>
    rw [RaftNode.step]
    rcases handlePreVoteResponse_cases n sender resp with heq | heq | ⟨-, heq | ⟨-, heq⟩⟩ <;>
      rw [heq]
    · exact .refl n
    · exact (becomeFollower_sameProgress _ _ _).identity
    · exact ⟨rfl, rfl, rfl, rfl, rfl⟩
    · exact (becomeCandidate_identity _).of_same rfl rfl rfl rfl rfl
  | fetchRequest req =>
    have hstamp : SameIdentity n (n.stampFetch req.replicaId) :=
      (updatePeer_identity n req.replicaId (f := n.stampPeer) (fun _ => rfl)).trans
        ⟨rfl, rfl, rfl, rfl, rfl⟩
    rw [RaftNode.step]
    rcases handleFetchRequest_cases n req with heq | heq | ⟨-, ⟨_, heq⟩ | heq⟩ <;> rw [heq]
    · exact .refl n
    · exact (becomeFollower_sameProgress _ _ _).identity
    · exact hstamp
    · exact hstamp
  | fetchResponse resp => exact handleFetchResponse_identity n resp
  | clientPropose command =>
    simp only [RaftNode.step, RaftNode.handleClientPropose]
    split_ifs
    · exact .refl n
    · exact (advanceCommit_identity _).of_same rfl rfl rfl rfl rfl
  | fetchRequestAcked replica offset =>
    simp only [RaftNode.step, RaftNode.handleFetchRequestAcked]
    split_ifs
    · exact .refl n
    · exact .refl n
    · exact (updatePeer_identity n replica (f := n.creditPeer offset) (fun _ => rfl)).trans
        (advanceCommit_identity _)
  | snapshotComplete metadata =>
    simp only [RaftNode.step, RaftNode.handleSnapshotComplete]
    split_ifs <;> exact ⟨rfl, rfl, rfl, rfl, rfl⟩
  | snapshotInstalled metadata => exact ⟨rfl, rfl, rfl, rfl, rfl⟩
  | fetchSnapshotReceived metadata data => exact .refl n

end EngineTransitions
