import Xraft.ElectionSafety
import Xraft.LeaderStamps
import Xraft.BatchFootprints

/-! # Pre-vote rounds

A pre-vote response names neither the term nor the log position it was asked about, and a node that
polls counts every grant it receives. What a promotion then rests on depends on the round that each
delivered grant answers.
-/
namespace PreVoteRounds

open ProtocolTypes ClusterConfiguration ConsensusEngine DurableStores NodeDriver ServerRecovery
open EngineTransitions PersistOrder DriverJournal DriverTurns LeaderStamps FaultFreeBatches
  BatchFootprints
open ReplicatedCluster GuardedExecution MajorityQuorum ElectionSafety DurableBeforeVisible

/-! ## The tally of one engine -/

/-- The request belongs to the round that `n` runs: its next term and its log position. -/
structure Asks (n : RaftNode) (req : PreVoteRequest) : Prop where
  nextTerm : req.nextTerm = satAdd n.currentTerm 1
  lastLogIndex : req.lastLogIndex = n.lastLogIndex
  lastLogTerm : req.lastLogTerm = n.lastLogTerm

instance (n : RaftNode) (req : PreVoteRequest) : Decidable (Asks n req) :=
  decidable_of_iff (req.nextTerm = satAdd n.currentTerm 1 ∧ req.lastLogIndex = n.lastLogIndex ∧
    req.lastLogTerm = n.lastLogTerm)
    ⟨fun h => ⟨h.1, h.2.1, h.2.2⟩, fun h => ⟨h.nextTerm, h.lastLogIndex, h.lastLogTerm⟩⟩

structure SameRound (n m : RaftNode) : Prop where
  term : m.currentTerm = n.currentTerm
  lastLogIndex : m.lastLogIndex = n.lastLogIndex
  lastLogTerm : m.lastLogTerm = n.lastLogTerm

variable {n m : RaftNode} {event : DriverEvent} {r : RaftNode × List Action}

theorem SameRound.asks (h : SameRound n m) {req : PreVoteRequest} (ha : Asks n req) :
    Asks m req := by
  refine ⟨?_, ?_, ?_⟩
  · rw [h.term]
    exact ha.nextTerm
  · rw [h.lastLogIndex]
    exact ha.lastLogIndex
  · rw [h.lastLogTerm]
    exact ha.lastLogTerm

inductive Polls (n m : RaftNode) : DriverEvent → Prop
  | opens (event : DriverEvent) (tally : m.preVotesReceived = {n.id}) : Polls n m event
  | keeps (event : DriverEvent) (prior : n.role = .preCandidate) (round : SameRound n m)
      (tally : m.preVotesReceived = n.preVotesReceived) : Polls n m event
  | counts (sender : NodeId) (resp : PreVoteResponse) (prior : n.role = .preCandidate)
      (round : SameRound n m) (granted : resp.voteGranted = true)
      (term : resp.term ≤ n.currentTerm)
      (tally : m.preVotesReceived = insert sender n.preVotesReceived) :
      Polls n m (.preVoteResult sender resp)

/-- How a node came to open an election in a new term: by a pre-vote quorum, or alone. -/
inductive Promotes (n m : RaftNode) : DriverEvent → Prop
  | quorum (sender : NodeId) (resp : PreVoteResponse) (prior : n.role = .preCandidate)
      (granted : resp.voteGranted = true) (term : resp.term ≤ n.currentTerm)
      (raised : m.currentTerm = satAdd n.currentTerm 1)
      (reached : RaftNode.hasPreElectionQuorum
        { n with preVotesReceived := insert sender n.preVotesReceived } = true) :
      Promotes n m (.preVoteResult sender resp)
  | alone (raised : m.currentTerm = satAdd n.currentTerm 1)
      (reached : n.enterPreCandidate.hasPreElectionQuorum = true) : Promotes n m .tick

structure Polling (n : RaftNode) (event : DriverEvent) (r : RaftNode × List Action) : Prop where
  polls : Polls n r.1 event
  quiet : ∀ a ∈ r.2, ¬Reshapes a

theorem polling_idle (event : DriverEvent) (prior : n.role = .preCandidate)
    (round : SameRound n r.1) (tally : r.1.preVotesReceived = n.preVotesReceived)
    (quiet : ∀ a ∈ r.2, ¬Reshapes a) : Polling n event r := ⟨.keeps event prior round tally, quiet⟩

theorem polling_refl (event : DriverEvent) (prior : n.role = .preCandidate) :
    Polling n event (n, []) := polling_idle event prior ⟨rfl, rfl, rfl⟩ rfl (by simp)

theorem becomeFollower_retires (n : RaftNode) (t : ℕ) (l : Option NodeId) :
    (n.becomeFollower t l).1.role = .observer ∨ (n.becomeFollower t l).1.role = .follower := by
  rw [becomeFollower_role]
  split_ifs
  · exact .inl rfl
  · exact .inr rfl

theorem becomeFollower_ne {t : ℕ} {l : Option NodeId} {role : NodeRole} (ho : role ≠ .observer)
    (hf : role ≠ .follower) : (n.becomeFollower t l).1.role ≠ role := by
  intro h
  rcases becomeFollower_retires n t l with hr | hr
  · exact ho (h.symm.trans hr)
  · exact hf (h.symm.trans hr)

theorem becomeCandidate_ne (n : RaftNode) : n.becomeCandidate.1.role ≠ .preCandidate := by
  unfold RaftNode.becomeCandidate
  split_ifs
  · rw [(becomeLeader_standing n.enterCandidate).1]
    simp
  · simp [RaftNode.enterCandidate, RaftNode.resetElectionTimer]

theorem handleTick_polls (h : n.handleTick.1.role = .preCandidate) :
    Polling n .tick n.handleTick := by
  obtain ⟨t, c, ht⟩ := ticked_eq n
  have hfetch : ∀ a ∈ n.advanceClock.scheduleFetch.2, ¬Reshapes a := by
    intro a ha
    obtain ⟨dest, rfl⟩ := scheduleFetch_sends ha
    exact id
  rw [handleTick_eq] at h ⊢
  split_ifs at h ⊢
  · exact absurd h (becomeFollower_ne (by simp) (by simp))
  · unfold RaftNode.electionTimeout RaftNode.becomePreCandidate at h ⊢
    split_ifs at h ⊢
    · exact absurd h (becomeCandidate_ne _)
    · refine ⟨.opens _ (by rw [ht]; rfl), fun a ha => ?_⟩
      rcases List.mem_append.mp ha with ha | ha
      · exact hfetch a ha
      · obtain ⟨dest, _, rfl⟩ := List.mem_map.mp ha
        exact id
    · rw [ht] at h ⊢
      exact polling_idle _ h ⟨rfl, rfl, rfl⟩ rfl hfetch

theorem handleVoteRequest_polls {req : VoteRequest}
    (h : (n.handleVoteRequest req).1.role = .preCandidate) :
    Polling n event (n.handleVoteRequest req) := by
  rcases handleVoteRequest_cases n req with heq | ⟨-, heq | ⟨-, heq⟩⟩ <;> rw [heq] at h ⊢
  · exact polling_refl event h
  · exact polling_idle event h ⟨rfl, rfl, rfl⟩ rfl (by simp [refusing, Reshapes])
  · have hquiet : ∀ a ∈ answering n req, ¬Reshapes a := by
      intro a ha
      rcases mem_answering ha with rfl | rfl | rfl <;> exact id
    rw [answered_role] at h
    split_ifs at h with hnew
    -- a vote within the term leaves round and tally alone
    rcases answered_current hnew with hsame | hsame <;> rw [hsame]
    · exact polling_idle event h ⟨rfl, rfl, rfl⟩ rfl hquiet
    · exact polling_idle event h ⟨rfl, rfl, rfl⟩ rfl hquiet

theorem handleVoteResponse_polls {sender : NodeId} {resp : VoteResponse}
    (h : (n.handleVoteResponse sender resp).1.role = .preCandidate) :
    Polling n event (n.handleVoteResponse sender resp) := by
  rcases handleVoteResponse_cases n sender resp with
    heq | heq | ⟨⟨hrole, -⟩, heq | ⟨-, heq⟩⟩ <;> rw [heq] at h ⊢
  · exact polling_refl event h
  · exact absurd h (becomeFollower_ne (by simp) (by simp))
  · cases hrole.symm.trans h
  · cases (becomeLeader_standing (withVote n sender)).1.symm.trans h

theorem handlePreVoteResponse_polls {sender : NodeId} {resp : PreVoteResponse}
    (h : (n.handlePreVoteResponse sender resp).1.role = .preCandidate) :
    Polling n (.preVoteResult sender resp) (n.handlePreVoteResponse sender resp) := by
  rcases handlePreVoteResponse_cases n sender resp with
    heq | heq | ⟨⟨hrole, hterm, hgranted⟩, heq | ⟨-, heq⟩⟩ <;> rw [heq] at h ⊢
  · exact polling_refl _ h
  · exact absurd h (becomeFollower_ne (by simp) (by simp))
  · exact ⟨.counts sender resp hrole ⟨rfl, rfl, rfl⟩ hgranted hterm rfl, by simp⟩
  · exact absurd h (becomeCandidate_ne _)

theorem handlePreVoteRequest_quiet {req : PreVoteRequest} {a : Action}
    (ha : a ∈ n.handlePreVoteRequest req) : ¬Reshapes a := by
  obtain ⟨-, _, rfl⟩ := mem_handlePreVoteRequest ha
  exact id

theorem handleFetchRequest_polls {req : FetchRequest}
    (h : (n.handleFetchRequest req).1.role = .preCandidate) :
    Polling n event (n.handleFetchRequest req) := by
  rcases handleFetchRequest_cases n req with heq | heq | ⟨hrole, ⟨_, heq⟩ | heq⟩ <;> rw [heq] at h ⊢
  · exact polling_refl event h
  · exact absurd h (becomeFollower_ne (by simp) (by simp))
  · cases hrole.symm.trans h
  · cases hrole.symm.trans h

theorem Accepted.retires {k : RaftNode} {resp : FetchResponse} {opening : List Action}
    (h : Accepted n resp k opening) {role : NodeRole} (ho : role ≠ .observer)
    (hf : role ≠ .follower) : (payload k resp).1.role ≠ role := by
  rw [(payload_standing k resp).1, h.role]
  split_ifs
  · exact ho.symm
  · exact hf.symm

theorem handleFetchResponse_polls {resp : FetchResponse}
    (h : (n.handleFetchResponse resp).1.role = .preCandidate) :
    Polling n event (n.handleFetchResponse resp) := by
  rcases handleFetchResponse_cases n resp with heq | ⟨k, opening, -, hacc, heq⟩ <;> rw [heq] at h ⊢
  · exact polling_refl event h
  · exact absurd h (Accepted.retires hacc (by simp) (by simp))

theorem handleClientPropose_polls {command : Bytes}
    (h : (n.handleClientPropose command).1.role = .preCandidate) :
    Polling n event (n.handleClientPropose command) := by
  unfold RaftNode.handleClientPropose at h ⊢
  split_ifs at h ⊢ with hrole
  · exact polling_refl event h
  · rw [not_not] at hrole
    obtain ⟨c, a, s, hadv⟩ := advanceCommit_fst
      (n.setLastLog (satAdd n.lastLogIndex 1) n.currentTerm)
    dsimp only at h
    rw [hadv] at h
    have hpoll : n.role = .preCandidate := h
    rw [hrole] at hpoll
    cases hpoll

theorem handleSnapshotComplete_polls {metadata : SnapshotMeta}
    (h : (n.handleSnapshotComplete metadata).1.role = .preCandidate) :
    Polling n event (n.handleSnapshotComplete metadata) := by
  unfold RaftNode.handleSnapshotComplete at h ⊢
  split_ifs at h ⊢
  · exact polling_idle event h ⟨rfl, rfl, rfl⟩ rfl (by simp [Reshapes])
  · exact polling_idle event h ⟨rfl, rfl, rfl⟩ rfl (by simp)

theorem drives_polls (h : Drives n event r) (hr : r.1.role = .preCandidate)
    (hev : ∀ peer clusterId epoch metadata data,
      event ≠ .fetchSnapshotResult peer clusterId epoch metadata data) : Polling n event r := by
  cases h with
  | idle event flag => exact polling_idle event hr ⟨rfl, rfl, rfl⟩ rfl (by simp)
  | step hin =>
    cases event <;> simp only [inputOf, Option.some.injEq, reduceCtorEq] at hin <;> subst hin
    · exact handleTick_polls hr
    · exact handleVoteRequest_polls hr
    · refine polling_idle _ hr ⟨rfl, rfl, rfl⟩ rfl (fun a ha => ?_)
      exact handlePreVoteRequest_quiet ha
    · exact handleFetchRequest_polls hr
    · exact handleVoteResponse_polls hr
    · exact handlePreVoteResponse_polls hr
    · exact handleFetchResponse_polls hr
    · exact handleClientPropose_polls hr
  | outrun req => exact absurd hr (becomeFollower_ne (by simp) (by simp))
  | overtaken peer clusterId epoch metadata data => exact absurd rfl (hev _ _ _ _ _)
  | received clusterId epoch snap data leader => exact absurd rfl (hev _ _ _ _ _)
  | completed metadata => exact handleSnapshotComplete_polls hr

/-! ## Promotions -/

def Stands (n : RaftNode) : Prop := n.role = .candidate ∨ n.role = .leader

theorem becomeFollower_not_stands (t : ℕ) (l : Option NodeId) : ¬Stands (n.becomeFollower t l).1 :=
  not_or.mpr ⟨becomeFollower_ne (by simp) (by simp), becomeFollower_ne (by simp) (by simp)⟩

theorem handleTick_promotes (ht : n.currentTerm < n.handleTick.1.currentTerm)
    (hr : Stands n.handleTick.1) : Promotes n n.handleTick.1 .tick := by
  obtain ⟨t, c, heq⟩ := ticked_eq n
  have hterm : (ticked n).currentTerm = n.currentTerm := by rw [heq]; rfl
  rw [handleTick_eq] at ht hr ⊢
  split_ifs at ht hr ⊢
  · exact absurd hr (becomeFollower_not_stands _ _)
  · unfold RaftNode.electionTimeout RaftNode.becomePreCandidate at ht hr ⊢
    split_ifs at ht hr ⊢ with hdue hquorum
    · refine .alone ?_ ?_
      · rw [becomeCandidate_term]
        show satAdd (ticked n).currentTerm 1 = _
        rw [hterm]
      · rw [heq] at hquorum
        exact hquorum
    · exact absurd ht (not_lt.mpr hterm.le)
    · exact absurd ht (not_lt.mpr hterm.le)

theorem handlePreVoteResponse_promotes {sender : NodeId} {resp : PreVoteResponse}
    (ht : n.currentTerm < (n.handlePreVoteResponse sender resp).1.currentTerm)
    (hr : Stands (n.handlePreVoteResponse sender resp).1) :
    Promotes n (n.handlePreVoteResponse sender resp).1 (.preVoteResult sender resp) := by
  rcases handlePreVoteResponse_cases n sender resp with
    heq | heq | ⟨⟨hrole, hterm, hgranted⟩, heq | ⟨hquorum, heq⟩⟩ <;> rw [heq] at ht hr ⊢
  · exact absurd ht (lt_irrefl _)
  · exact absurd hr (becomeFollower_not_stands _ _)
  · exact absurd ht (lt_irrefl _)
  · exact .quorum sender resp hrole hgranted hterm (becomeCandidate_term _) hquorum

theorem handleVoteRequest_not_promotes {req : VoteRequest}
    (ht : n.currentTerm < (n.handleVoteRequest req).1.currentTerm) :
    ¬Stands (n.handleVoteRequest req).1 := by
  rcases handleVoteRequest_cases n req with heq | ⟨-, heq | ⟨hw, heq⟩⟩ <;> rw [heq] at ht ⊢
  · exact absurd ht (lt_irrefl _)
  · exact absurd ht (lt_irrefl _)
  · rw [answered_term hw.fresh] at ht
    have hrole := answered_role n req
    rw [if_pos ht] at hrole
    rintro (h | h) <;> rw [hrole] at h <;> cases h

theorem handleVoteResponse_not_promotes {sender : NodeId} {resp : VoteResponse}
    (ht : n.currentTerm < (n.handleVoteResponse sender resp).1.currentTerm) :
    ¬Stands (n.handleVoteResponse sender resp).1 := by
  rcases handleVoteResponse_cases n sender resp with heq | heq | ⟨-, heq | ⟨-, heq⟩⟩ <;>
    rw [heq] at ht ⊢
  · exact absurd ht (lt_irrefl _)
  · exact becomeFollower_not_stands _ _
  · exact absurd ht (lt_irrefl _)
  · -- a won election keeps the term it was held in
    have hterm := congrArg Ballot.term (becomeLeader_standing (withVote n sender)).2
    exact absurd ht (not_lt.mpr hterm.le)

theorem handleFetchRequest_not_promotes {req : FetchRequest}
    (ht : n.currentTerm < (n.handleFetchRequest req).1.currentTerm) :
    ¬Stands (n.handleFetchRequest req).1 := by
  rcases handleFetchRequest_cases n req with heq | heq | ⟨-, ⟨_, heq⟩ | heq⟩ <;> rw [heq] at ht ⊢
  · exact absurd ht (lt_irrefl _)
  · exact becomeFollower_not_stands _ _
  · exact absurd ht (lt_irrefl _)
  · exact absurd ht (lt_irrefl _)

theorem handleFetchResponse_not_promotes {resp : FetchResponse}
    (ht : n.currentTerm < (n.handleFetchResponse resp).1.currentTerm) :
    ¬Stands (n.handleFetchResponse resp).1 := by
  rcases handleFetchResponse_cases n resp with heq | ⟨k, opening, -, hacc, heq⟩ <;> rw [heq] at ht ⊢
  · exact absurd ht (lt_irrefl _)
  · exact not_or.mpr ⟨Accepted.retires hacc (by simp) (by simp),
      Accepted.retires hacc (by simp) (by simp)⟩

/-- Only a pre-vote quorum, or the timeout of a lone voter, opens an election in a new term. -/
theorem drives_promotes (h : Drives n event r) (ht : n.currentTerm < r.1.currentTerm)
    (hr : Stands r.1) : Promotes n r.1 event := by
  cases h with
  | idle event flag => exact absurd ht (lt_irrefl _)
  | step hin =>
    cases event <;> simp only [inputOf, Option.some.injEq, reduceCtorEq] at hin <;> subst hin
    · exact handleTick_promotes ht hr
    · exact absurd hr (handleVoteRequest_not_promotes ht)
    · exact absurd ht (lt_irrefl _)
    · exact absurd hr (handleFetchRequest_not_promotes ht)
    · exact absurd hr (handleVoteResponse_not_promotes ht)
    · exact handlePreVoteResponse_promotes ht hr
    · exact absurd hr (handleFetchResponse_not_promotes ht)
    · rename_i command
      have hterm := congrArg Ballot.term (handleClientPropose_ballot n command)
      exact absurd ht (not_lt.mpr hterm.le)
  | outrun req => exact absurd hr (becomeFollower_not_stands _ _)
  | overtaken peer clusterId epoch metadata data => exact absurd hr (becomeFollower_not_stands _ _)
  | received clusterId epoch snap data leader => exact absurd ht (lt_irrefl _)
  | completed metadata =>
    unfold RaftNode.handleSnapshotComplete at ht
    split_ifs at ht <;> exact absurd ht (lt_irrefl _)

/-! ## Turns -/

section Turns

variable {σ : Type} [StateMachine σ] {d : Driver σ}

theorem Polls.congr {k : RaftNode} (h : Polls n m event) (hcore : core k = core m) :
    Polls n k event := by
  have hround : ∀ {x : RaftNode}, SameRound x m → SameRound x k := by
    intro x hx
    have hindex : (core k).lastLogIndex = (core m).lastLogIndex := congrArg _ hcore
    have hlogTerm : (core k).lastLogTerm = (core m).lastLogTerm := congrArg _ hcore
    have hterm := congrArg Ballot.term (core_standing hcore).ballot
    exact ⟨hterm.trans hx.term, hindex.trans hx.lastLogIndex, hlogTerm.trans hx.lastLogTerm⟩
  have htally := (core_standing hcore).preVotesReceived
  cases h with
  | opens event tally => exact .opens event (htally.trans tally)
  | keeps event prior round tally => exact .keeps event prior (hround round) (htally.trans tally)
  | counts sender resp prior round granted term tally =>
    exact .counts sender resp prior (hround round) granted term (htally.trans tally)

theorem turn_polls (hr : (d.turn event).node.role = .preCandidate)
    (hev : ∀ peer clusterId epoch metadata data,
      event ≠ .fetchSnapshotResult peer clusterId epoch metadata data) :
    Polls d.node (d.turn event).node event := by
  obtain ⟨r, origin, pre, hdrives, hpre, _, hnode, _⟩ := (turn_driven d event).batch
  have hst := runActions_standing origin r.2 pre {}
  have hrole : r.1.role = .preCandidate := by
    rw [← hpre, ← hst.role]
    exact (congrArg RaftNode.role hnode).symm.trans hr
  have hpoll := drives_polls hdrives hrole hev
  have hcore := runActions_core origin hpoll.quiet pre {}
  rw [hpre] at hcore
  rw [hnode]
  exact hpoll.polls.congr hcore

theorem turn_promotes (ht : d.node.currentTerm < (d.turn event).node.currentTerm)
    (hr : Stands (d.turn event).node) : Promotes d.node (d.turn event).node event := by
  obtain ⟨r, origin, pre, hdrives, hpre, _, hnode, _⟩ := (turn_driven d event).batch
  have hst : SameStanding r.1 (d.turn event).node := by
    rw [hnode, ← hpre]
    exact runActions_standing origin r.2 pre {}
  have hterm : (d.turn event).node.currentTerm = r.1.currentTerm := congrArg Ballot.term hst.ballot
  have hstands : Stands r.1 := by
    unfold Stands at hr ⊢
    rwa [hst.role] at hr
  cases drives_promotes hdrives (hterm ▸ ht) hstands with
  | quorum sender resp prior granted term raised reached =>
    exact .quorum sender resp prior granted term (hterm.trans raised) reached
  | alone raised reached => exact .alone (hterm.trans raised) reached

end Turns

/-! ## Rounds in a cluster -/

section Rounds

variable {σ : Type} {c : Cluster σ}

/-- `v` has granted a request of `n` that belongs to the round the engine `k` runs. -/
def Backs (c : Cluster σ) (v n : NodeId) (k : RaftNode) : Prop :=
  ∃ req resp, Effect.preVoteReply req (.ok resp) ∈ (c.nodes v).trace ∧ resp.voteGranted = true ∧
    req.candidateId = n ∧ Asks k req

theorem Backs.grows {c' : Cluster σ} (h : Grows c c') {v n : NodeId} {k k' : RaftNode}
    (hround : SameRound k k') (hb : Backs c v n k) : Backs c' v n k' := by
  obtain ⟨req, resp, hmem, hg, hn, ha⟩ := hb
  exact ⟨req, resp, (h v).subset hmem, hg, hn, hround.asks ha⟩

/-- A grant that would add a voter to the tally of a polling node answers the round it runs. -/
def AnswersRound (c : Cluster σ) : Event → Prop
  | .deliver source position =>
    match c.sent source position with
    | some (.preVoteReply req (.ok resp)) =>
      resp.voteGranted = true → (c.nodes req.candidateId).node.role = .preCandidate →
        resp.term ≤ (c.nodes req.candidateId).node.currentTerm →
        source ∉ (c.nodes req.candidateId).node.preVotesReceived →
          Asks (c.nodes req.candidateId).node req
    | _ => True
  | _ => True

instance (c : Cluster σ) (e : Event) : Decidable (AnswersRound c e) := by
  unfold AnswersRound
  split
  · split <;> infer_instance
  · infer_instance

theorem turnOf_not_transfer {e : Event} {n : NodeId} {event : DriverEvent}
    (hturn : c.turnOf e = some (n, event)) (peer : NodeId) (clusterId : String) (epoch : ℕ)
    (metadata : Option SnapshotMeta) (data : Bytes) :
    event ≠ .fetchSnapshotResult peer clusterId epoch metadata data := by
  rintro rfl
  exact turnOf_replied hturn

/-- A delivered grant that the polling node has not counted yet comes from a voter that backs it. -/
theorem backs_of_delivery {e : Event} (hok : AnswersRound c e) {n sender : NodeId}
    {resp : PreVoteResponse} (hturn : c.turnOf e = some (n, .preVoteResult sender resp))
    (hg : resp.voteGranted = true) (hrole : (c.nodes n).node.role = .preCandidate)
    (hterm : resp.term ≤ (c.nodes n).node.currentTerm)
    (hnew : sender ∉ (c.nodes n).node.preVotesReceived) :
    Backs c sender n (c.nodes n).node := by
  obtain ⟨position, req, rfl, hsent, rfl⟩ := turnOf_replied hturn
  have hmem : Effect.preVoteReply req (.ok resp) ∈ (c.nodes sender).trace :=
    List.mem_of_getElem? hsent
  unfold AnswersRound at hok
  dsimp only at hok
  rw [hsent] at hok
  exact ⟨req, resp, hmem, hg, rfl, hok hg hrole hterm hnew⟩

def RoundInvariant (members : Finset NodeId) (c : Cluster σ) : Prop :=
  ∀ n ∈ members, (c.nodes n).node.role = .preCandidate →
    ∀ v ∈ (c.nodes n).node.preVotesReceived, v ≠ n → Backs c v n (c.nodes n).node

theorem RoundInvariant.insert {members : Finset NodeId} {e : Event} {n sender : NodeId}
    {resp : PreVoteResponse} (h : RoundInvariant members c) (hn : n ∈ members)
    (hok : AnswersRound c e) (hturn : c.turnOf e = some (n, .preVoteResult sender resp))
    (hg : resp.voteGranted = true) (hrole : (c.nodes n).node.role = .preCandidate)
    (hterm : resp.term ≤ (c.nodes n).node.currentTerm) :
    ∀ v ∈ insert sender (c.nodes n).node.preVotesReceived, v ≠ n →
      Backs c v n (c.nodes n).node := by
  intro v hv hne
  by_cases hold : v ∈ (c.nodes n).node.preVotesReceived
  · exact h n hn hrole v hold hne
  · obtain rfl : v = sender := (Finset.mem_insert.mp hv).resolve_right hold
    exact backs_of_delivery hok hturn hg hrole hterm hold

variable [StateMachine σ] {T : Topology σ}

theorem launch_ne {n : NodeId} {rng : List ℕ} {faults : List (Option Fault)} {store : Durable}
    {role : NodeRole} (ho : role ≠ .observer) (hf : role ≠ .follower) :
    (T.launch n rng faults store).node.role ≠ role := by
  obtain ⟨sm, snap, hran⟩ : ∃ sm snap, RanFrom n
      (boot (T.config n) (some T.voterSet) rng (T.maxFetchBatch n) faults store sm snap)
      (recoverNode (T.config n) (some T.voterSet) rng store.hsStore store.logStore snap)
      (T.launch n rng faults store) :=
    start_ran (T.config n) (some T.voterSet) rng (T.maxFetchBatch n) T.initial faults store
  rw [hran.ran.standing.role]
  exact recoverNode_role ho hf

theorem next_rounds {e : Event} (hinv : ElectionInvariant T c)
    (h : RoundInvariant T.members c) (hok : AnswersRound c e) :
    RoundInvariant T.members (T.next c e) := by
  have hgrows := next_grows hinv e
  intro n hn
  rcases next_cases T c e with heq | ⟨m, d, hm, hacts, heq⟩
  · rw [heq]
    exact h n hn
  by_cases hnm : n = m
  swap
  · have hsame : (T.next c e).nodes n = c.nodes n := by rw [heq, update_ne c d hnm]
    rw [hsame]
    exact fun hrole v hv hne => (h n hn hrole v hv hne).grows hgrows ⟨rfl, rfl, rfl⟩
  subst hnm
  have hd : (T.next c e).nodes n = d := by rw [heq, update_self]
  rw [hd]
  have hunmoved : d.node = (c.nodes n).node → d.node.role = .preCandidate →
      ∀ v ∈ d.node.preVotesReceived, v ≠ n → Backs (T.next c e) v n d.node := by
    intro hnode
    rw [hnode]
    exact fun hrole v hv hne => (h n hn hrole v hv hne).grows hgrows ⟨rfl, rfl, rfl⟩
  rcases acts_cases hacts with ⟨event, hturn, rfl⟩ | ⟨_, rfl⟩ | ⟨faults, _, rfl⟩ |
    ⟨rng, faults, _, rfl⟩
  · intro hrole v hv hne
    cases turn_polls hrole (turnOf_not_transfer hturn) with
    | opens event tally =>
      rw [tally, (hinv.record n hn).node_id] at hv
      exact absurd (Finset.mem_singleton.mp hv) hne
    | keeps event prior round tally =>
      exact (h n hn prior v (tally ▸ hv) hne).grows hgrows round
    | counts sender resp prior round granted term tally =>
      exact (h.insert hn hok hturn granted prior term v (tally ▸ hv) hne).grows hgrows round
  · exact hunmoved (runSnapshotWorker_node _)
  · exact hunmoved rfl
  · exact fun hrole => absurd hrole (launch_ne (by simp) (by simp))

theorem reachable_rounds (h : T.Reachable AnswersRound c) : RoundInvariant T.members c := by
  have hstep : ∀ s e, (ElectionInvariant T s ∧ RoundInvariant T.members s) → AnswersRound s e →
      ElectionInvariant T (T.next s e) ∧ RoundInvariant T.members (T.next s e) :=
    fun s e hs hok => ⟨next_preserves hs.1 e, next_rounds hs.1 hs.2 hok⟩
  refine (Execution.invariant hstep h ⟨initial_electionInvariant T, fun n _ hrole => ?_⟩).2
  exact absurd hrole (launch_ne (by simp) (by simp))

/-- The pre-votes a promotion counts: those of the round so far and the one just delivered, or the
node's own when it is alone. -/
def counted (n : RaftNode) : DriverEvent → Finset NodeId
  | .preVoteResult sender _ => insert sender n.preVotesReceived
  | _ => {n.id}

theorem hasPreElectionQuorum_majority {voters : VoterSet} (h : m.hasPreElectionQuorum = true)
    (hvs : m.voterSet = some voters) :
    IsMajority voters.ids (m.preVotesReceived.filter (· ∈ voters.ids)) := by
  unfold RaftNode.hasPreElectionQuorum at h
  rw [hvs] at h
  refine ⟨fun v hv => (Finset.mem_filter.mp hv).2, ?_⟩
  rw [← VoterSet.quorumSize_eq]
  exact of_decide_eq_true h

/-- In a run in which every grant counted answers the round of the node that counts it, a candidacy
in a new term rests on a majority whose other members all granted that term for the log position
the node has at its promotion. -/
theorem candidacy_backed_by_round (T : Topology σ) {c : Cluster σ} {e : Event}
    (hc : T.Reachable AnswersRound c) (he : AnswersRound c e) {n : NodeId} (hn : n ∈ T.members)
    (raised : (c.nodes n).node.currentTerm < ((T.next c e).nodes n).node.currentTerm)
    (stands : Stands ((T.next c e).nodes n).node) :
    ∃ event, c.turnOf e = some (n, event) ∧
      IsMajority T.voterSet.ids
        ((counted (c.nodes n).node event).filter (· ∈ T.voterSet.ids)) ∧
      ∀ v ∈ counted (c.nodes n).node event, v ≠ n →
        ∃ req resp, Effect.preVoteReply req (.ok resp) ∈ (c.nodes v).trace ∧
          resp.voteGranted = true ∧ req.candidateId = n ∧
          req.nextTerm = ((T.next c e).nodes n).node.currentTerm ∧
          req.lastLogIndex = (c.nodes n).node.lastLogIndex ∧
          req.lastLogTerm = (c.nodes n).node.lastLogTerm := by
  have hinv := reachable_electionInvariant hc
  have hrec := hinv.record n hn
  rcases next_cases T c e with heq | ⟨m, d, hm, hacts, heq⟩
  · rw [heq] at raised
    exact absurd raised (lt_irrefl _)
  by_cases hnm : n = m
  swap
  · rw [heq, update_ne c d hnm] at raised
    exact absurd raised (lt_irrefl _)
  subst hnm
  have hd : (T.next c e).nodes n = d := by rw [heq, update_self]
  rw [hd] at raised stands ⊢
  rcases acts_cases hacts with ⟨event, hturn, rfl⟩ | ⟨_, rfl⟩ | ⟨faults, _, rfl⟩ |
    ⟨rng, faults, _, rfl⟩
  · refine ⟨event, hturn, ?_⟩
    cases turn_promotes raised stands with
    | quorum sender resp prior granted term hterm reached =>
      refine ⟨hasPreElectionQuorum_majority reached hrec.voterSet, fun v hv hne => ?_⟩
      obtain ⟨req, resp, hmem, hg, hto, ha⟩ :=
        (reachable_rounds hc).insert hn he hturn granted prior term v hv hne
      exact ⟨req, resp, hmem, hg, hto, ha.nextTerm.trans hterm.symm, ha.lastLogIndex,
        ha.lastLogTerm⟩
    | alone hterm reached =>
      refine ⟨hasPreElectionQuorum_majority reached hrec.voterSet, fun v hv hne => ?_⟩
      have hself : v = (c.nodes n).node.id := Finset.mem_singleton.mp hv
      exact absurd (hself.trans hrec.node_id) hne
  · rw [runSnapshotWorker_node] at raised
    exact absurd raised (lt_irrefl _)
  · exact absurd raised (lt_irrefl _)
  · exact absurd stands (not_or.mpr ⟨launch_ne (by simp) (by simp), launch_ne (by simp) (by simp)⟩)

def firstPoll : List Event := [.tick 1, .tick 1, .deliver 1 4, .deliver 1 5]

theorem candidacy_backed_by_round_first_poll :
    ∃ c e, (threeVoters false).Reachable AnswersRound c ∧ AnswersRound c e ∧
      (c.nodes 1).node.currentTerm < (((threeVoters false).next c e).nodes 1).node.currentTerm ∧
      Stands (((threeVoters false).next c e).nodes 1).node ∧
      ∃ event, c.turnOf e = some (1, event) ∧
        IsMajority (threeVoters false).voterSet.ids
          ((counted (c.nodes 1).node event).filter (· ∈ (threeVoters false).voterSet.ids)) ∧
        ∀ v ∈ counted (c.nodes 1).node event, v ≠ 1 →
          ∃ req resp, Effect.preVoteReply req (.ok resp) ∈ (c.nodes v).trace ∧
            resp.voteGranted = true ∧ req.candidateId = 1 ∧
            req.nextTerm = (((threeVoters false).next c e).nodes 1).node.currentTerm ∧
            req.lastLogIndex = (c.nodes 1).node.lastLogIndex ∧
            req.lastLogTerm = (c.nodes 1).node.lastLogTerm := by
  have hc : (threeVoters false).Reachable AnswersRound (replay (threeVoters false).next
      (threeVoters false).initialCluster firstPoll) := replay_execution (by decide +kernel)
  have he : AnswersRound (replay (threeVoters false).next (threeVoters false).initialCluster
      firstPoll) (.deliver 2 0) := by decide +kernel
  have hraised : ((replay (threeVoters false).next (threeVoters false).initialCluster
      firstPoll).nodes 1).node.currentTerm < (((threeVoters false).next (replay
        (threeVoters false).next (threeVoters false).initialCluster firstPoll)
        (.deliver 2 0)).nodes 1).node.currentTerm := by decide +kernel
  have hstands : Stands (((threeVoters false).next (replay (threeVoters false).next
      (threeVoters false).initialCluster firstPoll) (.deliver 2 0)).nodes 1).node := by
    unfold Stands
    decide +kernel
  exact ⟨_, _, hc, he, hraised, hstands,
    candidacy_backed_by_round _ hc he (by decide) hraised hstands⟩

/-- The poll for term 1 succeeds without node 3's grant; node 1 then times out as a candidate and
polls for term 2. -/
def secondPoll : List Event := firstPoll ++ [.deliver 2 0, .tick 1, .tick 1]

def concernsTermOne : Effect → Bool
  | .preVoteReply req (.ok _) => req.nextTerm = 1
  | _ => true

/-- Node 3's late grant for term 1 carries node 1 to term 2, for which node 3 was never asked. -/
theorem late_grant_opens_next_term :
    ∃ c, (threeVoters false).Reachable (fun _ _ => True) c ∧
      (c.nodes 1).node.currentTerm = 1 ∧
      (((threeVoters false).next c (.deliver 3 0)).nodes 1).node.currentTerm = 2 ∧
      (((threeVoters false).next c (.deliver 3 0)).nodes 1).node.role = .candidate ∧
      (∃ resp, c.turnOf (.deliver 3 0) = some (1, .preVoteResult 3 resp) ∧
        3 ∈ counted (c.nodes 1).node (.preVoteResult 3 resp)) ∧
      ∀ req resp, Effect.preVoteReply req (.ok resp) ∈ (c.nodes 3).trace → req.nextTerm = 1 := by
  have hc : (threeVoters false).Reachable (fun _ _ => True) (replay (threeVoters false).next
      (threeVoters false).initialCluster secondPoll) := replay_execution (admissible_true _ _)
  have hasked : ((replay (threeVoters false).next (threeVoters false).initialCluster
      secondPoll).nodes 3).trace.all concernsTermOne = true := by decide +kernel
  refine ⟨_, hc, by decide +kernel, by decide +kernel, by decide +kernel, ?_, ?_⟩
  · exact ⟨_, rfl, Finset.mem_insert_self _ _⟩
  · intro req resp hmem
    exact of_decide_eq_true (List.all_eq_true.mp hasked _ hmem)

end Rounds

end PreVoteRounds
