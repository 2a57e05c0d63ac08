import Xraft.DriverTurns
import Xraft.MajorityQuorum

/-! # What a leader remembers of its peers

A leader's liveness stamps change only for the peer whose fetch arrives, and start afresh with its
leadership. New votes come from vote requests and from campaigns.
-/
namespace LeaderStamps

open ProtocolTypes ConsensusEngine NodeDriver EngineTransitions DriverJournal DriverTurns
open MajorityQuorum

/-- The stamp of `v` in `m` is the one `n` had, or the event is a fetch of `v`. -/
def StampsKept (n : RaftNode) (event : DriverEvent) (m : RaftNode) : Prop :=
  ∀ v q, (v, q) ∈ m.peers →
    (∃ p, (v, p) ∈ n.peers ∧ q.lastFetchTime = p.lastFetchTime ∧
      q.lastFetchSeq = p.lastFetchSeq) ∨
    ∃ req, event = .inboundFetch req ∧ req.replicaId = v

theorem stampsKept_of_peers {n m : RaftNode} (event : DriverEvent) (h : m.peers = n.peers) :
    StampsKept n event m :=
  fun _ q hq => .inl ⟨q, h ▸ hq, rfl, rfl⟩

inductive LeadMove (n : RaftNode) (event : DriverEvent) (m : RaftNode) : Prop
  | retain (role : n.role = .leader) (term : m.currentTerm = n.currentTerm)
      (started : m.leaderStartedTick = n.leaderStartedTick) (stamps : StampsKept n event m)
  | fresh (prior : n.role ≠ .leader) (started : m.leaderStartedTick = some m.logicalTick)
      (peers : ∀ v p, (v, p) ∈ m.peers → p.lastFetchTime = m.logicalTick)

theorem leadMove_same {n m : RaftNode} (event : DriverEvent) (role : n.role = .leader)
    (term : m.currentTerm = n.currentTerm) (started : m.leaderStartedTick = n.leaderStartedTick)
    (peers : m.peers = n.peers) : LeadMove n event m :=
  .retain role term started (stampsKept_of_peers event peers)

theorem becomeLeader_fresh {n k : RaftNode} (event : DriverEvent) (prior : k.role ≠ .leader) :
    LeadMove k event n.becomeLeader.1 := by
  obtain ⟨c, a, s, h⟩ := advanceCommit_fst n.enterLeader
  have hnode : n.becomeLeader.1 = { n.enterLeader with
    commitIndex := c, lastApplied := a, snapshotInFlight := s } := h
  refine .fresh prior (by rw [hnode]; rfl) (fun v p hp => ?_)
  rw [hnode] at hp ⊢
  obtain ⟨⟨v', p'⟩, _, heq⟩ := List.mem_map.mp hp
  obtain ⟨rfl, rfl⟩ := Prod.mk.inj heq
  rfl

theorem becomeCandidate_leads {n k : RaftNode} (event : DriverEvent) (prior : k.role ≠ .leader)
    (h : n.becomeCandidate.1.role = .leader) : LeadMove k event n.becomeCandidate.1 := by
  unfold RaftNode.becomeCandidate at h ⊢
  split_ifs at h ⊢
  · exact becomeLeader_fresh event prior
  · cases h

theorem becomeFollower_not_leader (n : RaftNode) (t : ℕ) (l : Option NodeId) :
    (n.becomeFollower t l).1.role ≠ .leader := by
  rw [becomeFollower_role]
  split_ifs <;> simp

theorem advanceCommit_leads {n k : RaftNode} (event : DriverEvent) (h : LeadMove k event n) :
    LeadMove k event n.advanceCommit.1 := by
  obtain ⟨c, a, s, hnode⟩ := advanceCommit_fst n
  rw [hnode]
  cases h with
  | retain hr ht hs hst => exact .retain hr ht hs hst
  | fresh hp hs hst => exact .fresh hp hs hst

theorem handleTick_leads {n : RaftNode} (event : DriverEvent) (h : n.handleTick.1.role = .leader) :
    LeadMove n event n.handleTick.1 := by
  obtain ⟨t, c, ht⟩ := ticked_eq n
  have hrole : (ticked n).role = n.role := by rw [ht]
  rw [handleTick_eq] at h ⊢
  split_ifs at h ⊢
  · exact absurd h (becomeFollower_not_leader _ _ _)
  · unfold RaftNode.electionTimeout RaftNode.becomePreCandidate at h ⊢
    split_ifs at h ⊢ with hexp hq
    · refine becomeCandidate_leads event (fun hl => ?_) h
      rw [hrole, hl] at hexp
      simp at hexp
    · cases h
    · rw [hrole] at h
      rw [ht]
      exact leadMove_same event h rfl rfl rfl

theorem handleVoteRequest_leads {n : RaftNode} {req : VoteRequest} (event : DriverEvent)
    (h : (n.handleVoteRequest req).1.role = .leader) :
    LeadMove n event (n.handleVoteRequest req).1 := by
  rcases handleVoteRequest_cases n req with heq | ⟨-, heq | ⟨-, heq⟩⟩ <;> rw [heq] at h ⊢
  · exact leadMove_same event h rfl rfl rfl
  · exact leadMove_same event h rfl rfl rfl
  · rw [answered_role] at h
    split_ifs at h with hnew
    rcases answered_current hnew with hsame | hsame <;> rw [hsame]
    · exact leadMove_same event h rfl rfl rfl
    · exact leadMove_same event h rfl rfl rfl

theorem handleVoteResponse_leads {n : RaftNode} {sender : NodeId} {resp : VoteResponse}
    (event : DriverEvent) (h : (n.handleVoteResponse sender resp).1.role = .leader) :
    LeadMove n event (n.handleVoteResponse sender resp).1 := by
  rcases handleVoteResponse_cases n sender resp with
    heq | heq | ⟨⟨hrole, -⟩, heq | ⟨-, heq⟩⟩ <;> rw [heq] at h ⊢
  · exact leadMove_same event h rfl rfl rfl
  · exact absurd h (becomeFollower_not_leader _ _ _)
  · cases hrole.symm.trans h
  · exact becomeLeader_fresh event (by simp [hrole])

theorem handlePreVoteResponse_leads {n : RaftNode} {sender : NodeId} {resp : PreVoteResponse}
    (event : DriverEvent) (h : (n.handlePreVoteResponse sender resp).1.role = .leader) :
    LeadMove n event (n.handlePreVoteResponse sender resp).1 := by
  rcases handlePreVoteResponse_cases n sender resp with
    heq | heq | ⟨⟨hrole, -⟩, heq | ⟨-, heq⟩⟩ <;> rw [heq] at h ⊢
  · exact leadMove_same event h rfl rfl rfl
  · exact absurd h (becomeFollower_not_leader _ _ _)
  · cases hrole.symm.trans h
  · exact becomeCandidate_leads event (by simp [hrole]) h

theorem handleFetchRequest_leads {n : RaftNode} {req : FetchRequest}
    (h : (n.handleFetchRequest req).1.role = .leader) :
    LeadMove n (.inboundFetch req) (n.handleFetchRequest req).1 := by
  have hstamp : n.role = .leader → LeadMove n (.inboundFetch req) (n.stampFetch req.replicaId) := by
    refine fun hl => .retain hl rfl rfl (fun v q hq => ?_)
    obtain ⟨⟨v', p⟩, hp, heq⟩ := List.mem_map.mp hq
    dsimp only at heq
    split_ifs at heq with hv
    · exact .inr ⟨req, rfl, hv.symm.trans (congrArg Prod.fst heq)⟩
    · obtain ⟨rfl, rfl⟩ := Prod.mk.inj heq
      exact .inl ⟨p, hp, rfl, rfl⟩
  rcases handleFetchRequest_cases n req with heq | heq | ⟨hrole, ⟨_, heq⟩ | heq⟩ <;> rw [heq] at h ⊢
  · exact leadMove_same _ h rfl rfl rfl
  · exact absurd h (becomeFollower_not_leader _ _ _)
  · exact hstamp hrole
  · exact hstamp hrole

theorem EngineMove.leads {n m : RaftNode} {event : DriverEvent} (h : EngineMove n event m)
    (hl : m.role = .leader) : LeadMove n event m := by
  cases h with
  | stay => exact leadMove_same event hl rfl rfl rfl
  | outrun req => exact absurd hl (becomeFollower_not_leader _ _ _)
  | overtaken => exact absurd hl (becomeFollower_not_leader _ _ _)
  | @step _ input hinput =>
    cases event <;> simp only [inputOf, Option.some.injEq, reduceCtorEq] at hinput <;> subst hinput
    case tick => exact handleTick_leads _ hl
    case inboundVote req => exact handleVoteRequest_leads _ hl
    case inboundPreVote req => exact leadMove_same _ hl rfl rfl rfl
    case inboundFetch req => exact handleFetchRequest_leads hl
    case voteResult peer resp => exact handleVoteResponse_leads _ hl
    case preVoteResult peer resp => exact handlePreVoteResponse_leads _ hl
    case fetchResult resp =>
      rw [RaftNode.step] at hl ⊢
      rcases handleFetchResponse_cases n resp with heq | ⟨k, opening, -, hacc, heq⟩ <;>
        rw [heq] at hl ⊢
      · exact leadMove_same _ hl rfl rfl rfl
      · exact absurd ((payload_standing k resp).1 ▸ hl) hacc.relinquishes.2.1
    case client request command =>
      simp only [RaftNode.step, RaftNode.handleClientPropose] at hl ⊢
      split_ifs at hl ⊢ with hr
      · exact absurd hl hr
      · rw [not_not] at hr
        exact advanceCommit_leads _ (leadMove_same _ hr rfl rfl rfl)

/-! ## New votes -/

inductive NewVote (n : RaftNode) (m : RaftNode) : DriverEvent → Prop
  | granted (req : VoteRequest) (term : m.currentTerm = req.term) : NewVote n m (.inboundVote req)
  | campaign (peer : NodeId) (resp : PreVoteResponse) (role : n.role = .preCandidate)
      (term : m.currentTerm = satAdd n.currentTerm 1) : NewVote n m (.preVoteResult peer resp)
  | alone (role : n.role ≠ .leader) (quorum : n.enterPreCandidate.hasPreElectionQuorum = true) :
      NewVote n m .tick

theorem becomeFollower_vote {n : RaftNode} {t : ℕ} {l : Option NodeId} {x : NodeId}
    (h : (ballot (n.becomeFollower t l).1).vote = some x) :
    ballot (n.becomeFollower t l).1 = ballot n := by
  rw [becomeFollower_ballot] at h ⊢
  split_ifs at h ⊢
  · rfl

theorem becomeCandidate_term (n : RaftNode) :
    n.becomeCandidate.1.currentTerm = satAdd n.currentTerm 1 := by
  unfold RaftNode.becomeCandidate
  split_ifs
  · exact congrArg Ballot.term (becomeLeader_standing n.enterCandidate).2
  · rfl

theorem answered_term {n : RaftNode} {req : VoteRequest} (h : ¬req.term < n.currentTerm) :
    (answered n req).currentTerm = req.term := by
  unfold answered RaftNode.adoptNewer
  split_ifs with hnew
  · rfl
  · rfl
  · exact le_antisymm (not_lt.mp h) (not_lt.mp hnew)
  · exact le_antisymm (not_lt.mp h) (not_lt.mp hnew)

theorem handleTick_vote {n : RaftNode} {x : NodeId} (h : (ballot n.handleTick.1).vote = some x) :
    ballot n.handleTick.1 = ballot n ∨ NewVote n n.handleTick.1 .tick := by
  obtain ⟨t, c, ht⟩ := ticked_eq n
  have hb : ballot (ticked n) = ballot n := by rw [ht]; rfl
  rw [handleTick_eq] at h ⊢
  split_ifs at h ⊢
  · exact .inl ((becomeFollower_vote h).trans hb)
  · unfold RaftNode.electionTimeout RaftNode.becomePreCandidate at h ⊢
    split_ifs at h ⊢ with hexp hq
    · refine .inr (.alone (fun hl => ?_) ?_)
      · rw [ht, hl] at hexp
        simp at hexp
      · rw [ht] at hq
        exact hq
    · exact .inl hb
    · exact .inl hb

theorem handleFetchResponse_vote {n : RaftNode} {resp : FetchResponse} {x : NodeId}
    (h : (ballot (n.handleFetchResponse resp).1).vote = some x) :
    ballot (n.handleFetchResponse resp).1 = ballot n := by
  rcases handleFetchResponse_cases n resp with heq | ⟨k, opening, -, hacc, heq⟩ <;> rw [heq] at h ⊢
  · rw [(payload_standing k resp).2, hacc.ballot_eq] at h ⊢
    split_ifs at h ⊢
    · rfl

theorem EngineMove.vote {n m : RaftNode} {event : DriverEvent} (h : EngineMove n event m)
    {x : NodeId} (hx : (ballot m).vote = some x) :
    ballot m = ballot n ∨ NewVote n m event := by
  cases h with
  | stay => exact .inl rfl
  | outrun req => exact .inl (becomeFollower_vote hx)
  | overtaken => exact .inl (becomeFollower_vote hx)
  | @step _ input hinput =>
    cases event <;> simp only [inputOf, Option.some.injEq, reduceCtorEq] at hinput <;> subst hinput
    case tick => exact handleTick_vote hx
    case inboundVote req =>
      simp only [RaftNode.step]
      rcases handleVoteRequest_cases n req with heq | ⟨-, heq | ⟨hw, heq⟩⟩ <;> rw [heq]
      · exact .inl rfl
      · exact .inl rfl
      · exact .inr (.granted req (answered_term hw.fresh))
    case inboundPreVote req => exact .inl rfl
    case inboundFetch req =>
      rw [RaftNode.step] at hx ⊢
      rcases handleFetchRequest_cases n req with heq | heq | ⟨-, ⟨_, heq⟩ | heq⟩ <;>
        rw [heq] at hx ⊢
      · exact .inl rfl
      · exact .inl (becomeFollower_vote hx)
      · exact .inl rfl
      · exact .inl rfl
    case voteResult peer resp =>
      rw [RaftNode.step] at hx ⊢
      rcases handleVoteResponse_cases n peer resp with heq | heq | ⟨-, heq | ⟨-, heq⟩⟩ <;>
        rw [heq] at hx ⊢
      · exact .inl rfl
      · exact .inl (becomeFollower_vote hx)
      · exact .inl rfl
      · exact .inl (becomeLeader_standing _).2
    case preVoteResult peer resp =>
      rw [RaftNode.step] at hx ⊢
      rcases handlePreVoteResponse_cases n peer resp with
        heq | heq | ⟨⟨hrole, -⟩, heq | ⟨-, heq⟩⟩ <;> rw [heq] at hx ⊢
      · exact .inl rfl
      · exact .inl (becomeFollower_vote hx)
      · exact .inl rfl
      · exact .inr (.campaign peer resp hrole (becomeCandidate_term _))
    case fetchResult resp => exact .inl (handleFetchResponse_vote hx)
    case client request command => exact .inl (handleClientPropose_ballot n command)

/-! ## Clocks -/

structure ClocksForward (n m : RaftNode) : Prop where
  tick : n.logicalTick ≤ u64Max → n.logicalTick ≤ m.logicalTick ∧ m.logicalTick ≤ u64Max
  seq : n.fetchSeq ≤ u64Max → n.fetchSeq ≤ m.fetchSeq ∧ m.fetchSeq ≤ u64Max

theorem clocksForward_same {n m : RaftNode} (tick : m.logicalTick = n.logicalTick)
    (seq : m.fetchSeq = n.fetchSeq) : ClocksForward n m :=
  ⟨fun h => ⟨tick.ge, tick ▸ h⟩, fun h => ⟨seq.ge, seq ▸ h⟩⟩

theorem ClocksForward.trans {n m k : RaftNode} (h : ClocksForward n m) (h' : ClocksForward m k) :
    ClocksForward n k := by
  constructor
  · intro hn
    obtain ⟨hle, hm⟩ := h.tick hn
    exact ⟨hle.trans (h'.tick hm).1, (h'.tick hm).2⟩
  · intro hn
    obtain ⟨hle, hm⟩ := h.seq hn
    exact ⟨hle.trans (h'.seq hm).1, (h'.seq hm).2⟩

theorem SameProgress.clocks {n m : RaftNode} (h : SameProgress n m) : ClocksForward n m :=
  clocksForward_same h.logicalTick h.fetchSeq

theorem advanceCommit_clocks (n : RaftNode) : ClocksForward n n.advanceCommit.1 := by
  obtain ⟨c, a, s, h⟩ := advanceCommit_fst n
  rw [h]
  exact clocksForward_same rfl rfl

theorem becomeLeader_clocks (n : RaftNode) : ClocksForward n n.becomeLeader.1 := by
  have h : ClocksForward n n.enterLeader := clocksForward_same rfl rfl
  exact h.trans (advanceCommit_clocks n.enterLeader)

theorem becomeCandidate_clocks (n : RaftNode) : ClocksForward n n.becomeCandidate.1 := by
  have h : ClocksForward n n.enterCandidate := clocksForward_same rfl rfl
  unfold RaftNode.becomeCandidate
  split_ifs
  · exact h.trans (becomeLeader_clocks _)
  · exact h

theorem handleTick_clocks (n : RaftNode) : ClocksForward n n.handleTick.1 := by
  have hticked : ClocksForward n (ticked n) := by
    obtain ⟨t, c, ht⟩ := ticked_eq n
    rw [ht]
    exact ⟨fun h => ⟨le_satAdd h, min_le_right _ _⟩, fun h => ⟨le_rfl, h⟩⟩
  have hpre : ClocksForward (ticked n) (ticked n).enterPreCandidate := clocksForward_same rfl rfl
  rw [handleTick_eq]
  split_ifs
  · exact hticked.trans (SameProgress.clocks (becomeFollower_sameProgress _ _ _))
  · refine hticked.trans ?_
    unfold RaftNode.electionTimeout RaftNode.becomePreCandidate
    split_ifs
    · exact hpre.trans (becomeCandidate_clocks _)
    · exact hpre
    · exact clocksForward_same rfl rfl

theorem handleFetchResponse_clocks (n : RaftNode) (resp : FetchResponse) :
    ClocksForward n (n.handleFetchResponse resp).1 := by
  rcases handleFetchResponse_cases n resp with heq | ⟨m, opening, -, hacc, heq⟩ <;> rw [heq]
  · exact clocksForward_same rfl rfl
  · obtain ⟨t, i, e, c, a, s, hm⟩ := payload_fst m resp
    refine (SameProgress.clocks hacc.progress).trans ?_
    dsimp only
    rw [hm]
    exact clocksForward_same rfl rfl

theorem step_clocks (n : RaftNode) (input : Input) : ClocksForward n (n.step input).1 := by
  have hsame : ClocksForward n n := clocksForward_same rfl rfl
  cases input with
  | tick => exact handleTick_clocks n
  | voteRequest req =>
    simp only [RaftNode.step]
    rcases handleVoteRequest_cases n req with heq | ⟨-, heq | ⟨-, heq⟩⟩ <;> rw [heq]
    · exact hsame
    · exact hsame
    · exact SameProgress.clocks (answered_progress n req)
  | preVoteRequest req => exact hsame
  | fetchRequest req =>
    rw [RaftNode.step]
    rcases handleFetchRequest_cases n req with heq | heq | ⟨-, ⟨_, heq⟩ | heq⟩ <;> rw [heq]
    · exact hsame
    · exact SameProgress.clocks (becomeFollower_sameProgress _ _ _)
    · exact ⟨fun h => ⟨le_rfl, h⟩, fun h => ⟨le_satAdd h, min_le_right _ _⟩⟩
    · exact ⟨fun h => ⟨le_rfl, h⟩, fun h => ⟨le_satAdd h, min_le_right _ _⟩⟩
  | voteResponse sender resp =>
    rw [RaftNode.step]
    rcases handleVoteResponse_cases n sender resp with heq | heq | ⟨-, heq | ⟨-, heq⟩⟩ <;> rw [heq]
    · exact hsame
    · exact SameProgress.clocks (becomeFollower_sameProgress _ _ _)
    · exact clocksForward_same rfl rfl
    · exact (clocksForward_same rfl rfl).trans (becomeLeader_clocks _)
  | preVoteResponse sender resp =>
    rw [RaftNode.step]
    rcases handlePreVoteResponse_cases n sender resp with heq | heq | ⟨-, heq | ⟨-, heq⟩⟩ <;>
      rw [heq]
    · exact hsame
    · exact SameProgress.clocks (becomeFollower_sameProgress _ _ _)
    · exact clocksForward_same rfl rfl
    · exact (clocksForward_same rfl rfl).trans (becomeCandidate_clocks _)
  | fetchResponse resp => exact handleFetchResponse_clocks n resp
  | clientPropose command =>
    simp only [RaftNode.step, RaftNode.handleClientPropose]
    split_ifs
    · exact hsame
    · have h : ClocksForward n (n.setLastLog (satAdd n.lastLogIndex 1) n.currentTerm) :=
        clocksForward_same rfl rfl
      exact h.trans (advanceCommit_clocks _)
  | fetchRequestAcked replica offset =>
    simp only [RaftNode.step, RaftNode.handleFetchRequestAcked]
    split_ifs
    · exact hsame
    · exact hsame
    · have h : ClocksForward n (n.updatePeer replica (n.creditPeer offset)) :=
        clocksForward_same rfl rfl
      exact h.trans (advanceCommit_clocks _)
  | snapshotComplete metadata =>
    simp only [RaftNode.step, RaftNode.handleSnapshotComplete]
    split_ifs <;> exact clocksForward_same rfl rfl
  | snapshotInstalled metadata => exact clocksForward_same rfl rfl
  | fetchSnapshotReceived metadata data => exact hsame

theorem EngineMove.clocks {n m : RaftNode} {event : DriverEvent} (h : EngineMove n event m) :
    ClocksForward n m := by
  cases h with
  | stay => exact clocksForward_same rfl rfl
  | step _ => exact step_clocks n _
  | outrun req => exact SameProgress.clocks (becomeFollower_sameProgress _ _ _)
  | overtaken => exact SameProgress.clocks (becomeFollower_sameProgress _ _ _)

/-! ## Counted voters -/

/-- The voters a count reaches: the node itself and the tracked peers that pass the test. -/
def counted (n : RaftNode) (vs : VoterSet) (test : PeerState → Bool) : Finset NodeId :=
  (if n.id ∈ vs.ids then {n.id} else ∅) ∪
    ((n.peers.filter (fun p => decide (p.1 ∈ vs.ids) && test p.2)).map Prod.fst).toFinset

structure Tracks (n : RaftNode) : Prop where
  nodup : (n.peers.map Prod.fst).Nodup
  others : n.id ∉ n.peers.map Prod.fst

theorem mem_counted {n : RaftNode} {vs : VoterSet} {test : PeerState → Bool} {v : NodeId}
    (h : v ∈ counted n vs test) :
    v ∈ vs.ids ∧ (v = n.id ∨ ∃ p, (v, p) ∈ n.peers ∧ test p = true) := by
  rcases Finset.mem_union.mp h with h | h
  · split_ifs at h with hid
    · rw [Finset.mem_singleton.mp h]
      exact ⟨hid, .inl rfl⟩
    · exact absurd h (Finset.notMem_empty v)
  · obtain ⟨⟨v', p⟩, hp, rfl⟩ := List.mem_map.mp (List.mem_toFinset.mp h)
    obtain ⟨hmem, htest⟩ := List.mem_filter.mp hp
    simp only [Bool.and_eq_true, decide_eq_true_eq] at htest
    exact ⟨htest.1, .inr ⟨p, hmem, htest.2⟩⟩

theorem card_counted {n : RaftNode} (h : Tracks n) (vs : VoterSet) (test : PeerState → Bool) :
    (counted n vs test).card = n.countVoters vs test := by
  have hsub : ((n.peers.filter (fun p => decide (p.1 ∈ vs.ids) && test p.2)).map Prod.fst).Sublist
      (n.peers.map Prod.fst) := List.filter_sublist.map _
  have hdisjoint : Disjoint (if n.id ∈ vs.ids then ({n.id} : Finset NodeId) else ∅)
      ((n.peers.filter (fun p => decide (p.1 ∈ vs.ids) && test p.2)).map Prod.fst).toFinset := by
    split_ifs
    · rw [Finset.disjoint_singleton_left, List.mem_toFinset]
      exact fun hmem => h.others (hsub.subset hmem)
    · exact Finset.disjoint_empty_left _
  rw [counted, Finset.card_union_of_disjoint hdisjoint,
    List.toFinset_card_of_nodup (h.nodup.sublist hsub), List.length_map, RaftNode.countVoters]
  split_ifs <;> rfl

theorem counted_majority {n : RaftNode} (h : Tracks n) {vs : VoterSet} {test : PeerState → Bool}
    (hq : vs.quorumSize ≤ n.countVoters vs test) : IsMajority vs.ids (counted n vs test) :=
  ⟨fun _ hv => (mem_counted hv).1, by rwa [card_counted h, ← vs.quorumSize_eq]⟩

theorem keys_of_kinds {n m : RaftNode} (h : peerKinds m = peerKinds n) :
    m.peers.map Prod.fst = n.peers.map Prod.fst := by
  have hkeys := congrArg (List.map Prod.fst) h
  simpa [peerKinds, Function.comp_def] using hkeys

theorem tracks_of_kinds {n m : RaftNode} (h : peerKinds m = peerKinds n) (hid : m.id = n.id)
    (hn : Tracks n) : Tracks m := by
  have hkeys := keys_of_kinds h
  exact ⟨hkeys ▸ hn.nodup, by rw [hkeys, hid]; exact hn.others⟩

end LeaderStamps
