import Xraft.PersistOrder
import Xraft.RoleScopedState

/-! # Election state of one engine

Terms and votes over every sequence of calls on one engine, whoever sends them: they only move
forward, they are persisted before a message relies on them, and an observer takes no part.
-/
namespace ElectionMonotone

open ProtocolTypes ClusterConfiguration ConsensusEngine EngineTransitions PersistOrder
open GuardedExecution EngineConstruction ServerRecovery RoleScopedState

def Carries (term : ℕ) : OutboundMessage → Prop
  | .voteRequest r => r.term = term ∨ r.leaderEpoch = term
  | .voteResponse r => r.term = term ∨ r.leaderEpoch = term
  | .preVoteRequest r => r.nextTerm = term ∨ r.leaderEpoch = term
  | .preVoteResponse r => r.term = term ∨ r.leaderEpoch = term
  | .fetchRequest r => r.leaderEpoch = term
  | .fetchResponse r => r.leaderEpoch = term
  | .fetchSnapshotRequest r => r.leaderEpoch = term

def Grants : OutboundMessage → Prop
  | .voteResponse r => r.voteGranted = true
  | .preVoteResponse r => r.voteGranted = true
  | _ => False

def Electoral : OutboundMessage → Prop
  | .voteRequest _ => True
  | .preVoteRequest _ => True
  | m => Grants m

/-- Every message that speaks for `term` or grants a vote stands behind a persist. -/
def PersistsFirst (term : ℕ) (actions : List Action) : Prop :=
  ∀ before dest m after, actions = before ++ .sendMessage dest m :: after →
    Carries term m ∨ Grants m → .persistHardState ∈ before

/-- From `n` to `m` the term does not fall, and within one term a vote is not taken back. -/
structure Forward (n m : RaftNode) : Prop where
  term : n.currentTerm ≤ m.currentTerm
  vote : m.currentTerm = n.currentTerm →
    n.hardState.votedFor = none ∨ m.hardState.votedFor = n.hardState.votedFor

structure Recovered (fresh n : RaftNode) : Prop where
  identity : SameIdentity fresh n
  role : n.role = fresh.role

def BelowMax (n : RaftNode) (_ : Call) : Prop := n.currentTerm < u64Max

instance (n : RaftNode) (call : Call) : Decidable (BelowMax n call) := by
  unfold BelowMax
  infer_instance

variable {n m fresh : RaftNode} {actions : List Action} {call : Call}

/-! ## The persist of a new ballot -/

def Opens (term : ℕ) (actions : List Action) : Prop :=
  ∃ fetches rest, actions = fetches ++ .persistHardState :: rest ∧
    ∀ a ∈ fetches, ∃ dest req, a = .sendMessage dest (.fetchRequest req) ∧ req.leaderEpoch < term

theorem opens_of_head {rest : List Action} (term : ℕ) : Opens term (.persistHardState :: rest) :=
  ⟨[], rest, rfl, fun _ ha => absurd ha List.not_mem_nil⟩

theorem Opens.persistsFirst {term : ℕ} (h : Opens term actions) : PersistsFirst term actions := by
  obtain ⟨fetches, rest, rfl, hfetch⟩ := h
  intro before dest m after heq hm
  rcases List.append_eq_append_iff.mp heq with ⟨mid, hbefore, hrest⟩ | ⟨mid, hfetches, hrest⟩
  · cases mid with
    | nil => cases hrest
    | cons a mid =>
      obtain ⟨rfl, -⟩ := List.cons.inj hrest
      rw [hbefore]
      exact List.mem_append_right _ List.mem_cons_self
  · -- the message is one of the fetches, and those are of an older term
    cases mid with
    | nil => cases hrest
    | cons a mid =>
      obtain ⟨rfl, -⟩ := List.cons.inj hrest
      have hmem : Action.sendMessage dest m ∈ fetches := by
        rw [hfetches]
        exact List.mem_append_right _ List.mem_cons_self
      obtain ⟨dest', req, heq', hlt⟩ := hfetch _ hmem
      injection heq' with _ hm'
      subst hm'
      rcases hm with hm | hm
      · exact absurd hm hlt.ne
      · exact hm.elim

theorem becomeFollower_opens {t : ℕ} {l : Option NodeId} (term : ℕ)
    (hb : ballot (n.becomeFollower t l).1 ≠ ballot n) : Opens term (n.becomeFollower t l).2 := by
  have hlt : n.currentTerm < t := by
    by_contra hlt
    rw [becomeFollower_ballot, if_neg hlt] at hb
    exact hb rfl
  simp only [RaftNode.becomeFollower]
  rw [if_pos hlt]
  exact opens_of_head term

theorem becomeCandidate_opens (n : RaftNode) (term : ℕ) : Opens term n.becomeCandidate.2 := by
  unfold RaftNode.becomeCandidate
  split_ifs <;> exact opens_of_head term

theorem becomeCandidate_ballot (n : RaftNode) :
    ballot n.becomeCandidate.1 = ⟨satAdd n.currentTerm 1, some n.id⟩ := by
  unfold RaftNode.becomeCandidate
  split_ifs
  · exact (becomeLeader_standing n.enterCandidate).2
  · rfl

theorem Opens.fetches {term : ℕ} {fetches : List Action} (h : Opens term actions)
    (hf : ∀ a ∈ fetches, ∃ dest req, a = .sendMessage dest (.fetchRequest req) ∧
      req.leaderEpoch < term) : Opens term (fetches ++ actions) := by
  obtain ⟨more, rest, rfl, hmore⟩ := h
  refine ⟨fetches ++ more, rest, by rw [List.append_assoc], fun a ha => ?_⟩
  exact (List.mem_append.mp ha).elim (hf a) (hmore a)

theorem handleTick_opens (hp : VoterPeers n) (hmax : n.currentTerm < u64Max)
    (hb : ballot n.handleTick.1 ≠ ballot n) : Opens n.handleTick.1.currentTerm n.handleTick.2 := by
  obtain ⟨t, c, ht⟩ := ticked_eq n
  have hballot : ballot (ticked n) = ballot n := by rw [ht]; rfl
  have hterm : (ticked n).currentTerm = n.currentTerm := congrArg Ballot.term hballot
  have hpeers : VoterPeers (ticked n) := hp.congr (ticked_identity n)
  have hfetch : ∀ a ∈ n.advanceClock.scheduleFetch.2, ∃ dest req,
      a = .sendMessage dest (.fetchRequest req) ∧ req.leaderEpoch < n.currentTerm + 1 := by
    intro a ha
    obtain ⟨dest, rfl⟩ := scheduleFetch_sends ha
    exact ⟨dest, _, rfl, Nat.lt_succ_self _⟩
  rw [handleTick_eq] at hb ⊢
  split_ifs at hb ⊢ with hlost
  · rw [← hballot, ← hterm] at hb
    rw [becomeFollower_ballot, if_neg (lt_irrefl _)] at hb
    exact absurd rfl hb
  · unfold RaftNode.electionTimeout RaftNode.becomePreCandidate at hb ⊢
    split_ifs at hb ⊢ with hdue hquorum
    · have hnone : (ticked n).enterPreCandidate.preVoteRequests = [] := by
        unfold RaftNode.preVoteRequests
        rw [List.map_eq_nil_iff]
        exact hpeers.lone hquorum
      have hnew : (ticked n).enterPreCandidate.becomeCandidate.1.currentTerm =
          n.currentTerm + 1 := by
        have := congrArg Ballot.term (becomeCandidate_ballot (ticked n).enterPreCandidate)
        refine this.trans ?_
        show satAdd (ticked n).currentTerm 1 = _
        rw [hterm, satAdd_eq hmax]
      dsimp only
      rw [hnone, hnew, List.nil_append]
      exact (becomeCandidate_opens _ _).fetches hfetch
    · exact absurd hballot hb
    · exact absurd hballot hb

theorem handleVoteRequest_opens {req : VoteRequest} (term : ℕ)
    (hb : ballot (n.handleVoteRequest req).1 ≠ ballot n) :
    Opens term (n.handleVoteRequest req).2 := by
  rcases handleVoteRequest_cases n req with heq | ⟨-, heq | ⟨-, heq⟩⟩ <;> rw [heq] at hb ⊢
  · exact absurd rfl hb
  · exact absurd rfl hb
  · have hchanged : n.currentTerm < req.term ∨ ((n.adoptNewer req.term).grantsVote req = true ∧
        (n.adoptNewer req.term).hardState.votedFor ≠ some req.candidateId) := by
      by_contra hno
      rw [not_or] at hno
      exact hb (answered_ballot_eq hno.1 hno.2)
    dsimp only
    rw [answering, if_pos hchanged]
    exact opens_of_head term

theorem handlePreVoteResponse_opens {sender : NodeId} {resp : PreVoteResponse} (term : ℕ)
    (hb : ballot (n.handlePreVoteResponse sender resp).1 ≠ ballot n) :
    Opens term (n.handlePreVoteResponse sender resp).2 := by
  rcases handlePreVoteResponse_cases n sender resp with heq | heq | ⟨-, heq | ⟨-, heq⟩⟩ <;>
    rw [heq] at hb ⊢
  · exact absurd rfl hb
  · exact becomeFollower_opens term hb
  · exact absurd rfl hb
  · exact becomeCandidate_opens _ _

theorem handleVoteResponse_opens {sender : NodeId} {resp : VoteResponse} (term : ℕ)
    (hb : ballot (n.handleVoteResponse sender resp).1 ≠ ballot n) :
    Opens term (n.handleVoteResponse sender resp).2 := by
  rcases handleVoteResponse_cases n sender resp with heq | heq | ⟨-, heq | ⟨-, heq⟩⟩ <;>
    rw [heq] at hb ⊢
  · exact absurd rfl hb
  · exact becomeFollower_opens term hb
  · exact absurd rfl hb
  · exact absurd (becomeLeader_standing _).2 hb

theorem handleFetchRequest_opens {req : FetchRequest} (term : ℕ)
    (hb : ballot (n.handleFetchRequest req).1 ≠ ballot n) :
    Opens term (n.handleFetchRequest req).2 := by
  rcases handleFetchRequest_cases n req with heq | heq | ⟨-, ⟨_, heq⟩ | heq⟩ <;>
    rw [heq] at hb ⊢
  · exact absurd rfl hb
  · exact becomeFollower_opens term hb
  · exact absurd rfl hb
  · exact absurd rfl hb

theorem handleFetchResponse_opens {resp : FetchResponse} (term : ℕ)
    (hb : ballot (n.handleFetchResponse resp).1 ≠ ballot n) :
    Opens term (n.handleFetchResponse resp).2 := by
  rcases handleFetchResponse_cases n resp with heq | ⟨m, opening, -, hacc, heq⟩ <;> rw [heq] at hb ⊢
  · exact absurd rfl hb
  · have hlt : n.currentTerm < resp.leaderEpoch := by
      by_contra hlt
      rw [(payload_standing m resp).2, hacc.ballot_eq, if_neg hlt] at hb
      exact hb rfl
    dsimp only
    rw [hacc.actions_eq, if_pos hlt]
    exact opens_of_head term

theorem perform_opens (hp : VoterPeers n) (hmax : n.currentTerm < u64Max)
    (hb : ballot (next n call) ≠ ballot n) :
    Opens (next n call).currentTerm (perform n call).2 := by
  cases call with
  | becomeFollower term leaderId => exact becomeFollower_opens _ hb
  | step input =>
    cases input with
    | tick => exact handleTick_opens hp hmax hb
    | voteRequest req => exact handleVoteRequest_opens _ hb
    | voteResponse sender resp => exact handleVoteResponse_opens _ hb
    | preVoteRequest req => exact absurd rfl hb
    | preVoteResponse sender resp => exact handlePreVoteResponse_opens _ hb
    | fetchRequest req => exact handleFetchRequest_opens _ hb
    | fetchResponse resp => exact handleFetchResponse_opens _ hb
    | clientPropose command => exact absurd (handleClientPropose_ballot n command) hb
    | fetchRequestAcked replica offset =>
      exact absurd (handleFetchRequestAcked_ballot n replica offset) hb
    | snapshotComplete metadata =>
      simp only [next, perform, RaftNode.step, RaftNode.handleSnapshotComplete] at hb
      split_ifs at hb <;> exact absurd rfl hb
    | snapshotInstalled metadata => exact absurd rfl hb
    | fetchSnapshotReceived metadata data => exact absurd rfl hb

/-! ## Observers -/

/-- What a call on an observer can do: it stays one, keeps its vote or drops it, and its messages
have no part in an election. -/
structure Observing (n : RaftNode) (r : RaftNode × List Action) : Prop where
  role : r.1.role = .observer
  vote : ∀ x, r.1.hardState.votedFor = some x → n.hardState.votedFor = some x
  sends : ∀ dest m, .sendMessage dest m ∈ r.2 → ¬Electoral m

theorem observing_silent {r : RaftNode × List Action} (role : r.1.role = .observer)
    (vote : r.1.hardState.votedFor = n.hardState.votedFor)
    (quiet : ∀ a ∈ r.2, Quiet a) : Observing n r := by
  refine ⟨role, fun x hx => vote ▸ hx, fun dest m hm => ?_⟩
  exact (quiet _ hm).elim

theorem becomeFollower_observing (h : n.role = .observer) (term : ℕ) (leaderId : Option NodeId) :
    Observing n (n.becomeFollower term leaderId) := by
  refine ⟨?_, fun x hx => ?_, fun dest m hm => ?_⟩
  · rw [becomeFollower_role, if_pos h]
  · have hv : (ballot (n.becomeFollower term leaderId).1).vote = some x := hx
    rw [becomeFollower_ballot] at hv
    split_ifs at hv
    exact hv
  · simp only [RaftNode.becomeFollower, h] at hm
    split_ifs at hm <;> simp_all

theorem handleTick_observing (h : n.role = .observer) : Observing n n.handleTick := by
  obtain ⟨t, ht⟩ := scheduleFetch_fst n.advanceClock
  obtain ⟨t', c, htick⟩ := ticked_eq n
  have hlost : n.advanceClock.scheduleFetch.1.quorumLost = false := by
    rw [ht]
    simp [RaftNode.quorumLost, RaftNode.advanceClock, h]
  have hrole : (ticked n).role = .observer := by rw [htick]; exact h
  rw [handleTick_eq, if_neg (by simp [hlost])]
  unfold RaftNode.electionTimeout
  rw [if_neg (by simp [hrole])]
  refine ⟨hrole, fun x hx => ?_, fun dest m hm => ?_⟩
  · dsimp only at hx
    rwa [htick] at hx
  · obtain ⟨dest', heq⟩ := scheduleFetch_sends hm
    injection heq with _ hm
    rw [hm]
    exact id

theorem handleFetchResponse_observing (h : n.role = .observer) (resp : FetchResponse) :
    Observing n (n.handleFetchResponse resp) := by
  rcases handleFetchResponse_cases n resp with heq | ⟨m, opening, -, ha, heq⟩ <;> rw [heq]
  · exact observing_silent h rfl (by simp)
  · obtain ⟨hr, hb⟩ := payload_standing m resp
    refine ⟨?_, fun x hx => ?_, fun dest msg hm => ?_⟩
    · rw [hr, ha.role, if_pos h]
    · have hv : (ballot (payload m resp).1).vote = some x := hx
      rw [hb] at hv
      exact ha.relinquishes.2.2.2 x hv
    · have hopen : Action.sendMessage dest msg ∉ opening := by
        rw [ha.actions_eq]
        intro hmem
        split_ifs at hmem <;> simp_all
      have hm := (List.mem_append.mp hm).resolve_left hopen
      rcases payload_cases m resp with
        ⟨_, hp⟩ | ⟨_, -, -, hp⟩ | hp | ⟨taken, appends, htake, hp⟩ <;> rw [hp] at hm
      · simp only [RaftNode.requestSnapshot, List.mem_singleton, Action.sendMessage.injEq] at hm
        rw [hm.2]
        exact id
      · simp only [RaftNode.resolveDivergence, List.mem_cons, List.not_mem_nil, or_false,
          Action.sendMessage.injEq, reduceCtorEq, false_or] at hm
        rw [hm.2]
        exact id
      · cases hm
      · rcases List.mem_append.mp hm with hm | hm
        · rcases takeEntries_spec htake with ⟨_, _, rfl⟩ | ⟨_, _, _, _, _, _, _, rfl⟩
          · cases hm
          · cases List.mem_singleton.mp hm
        · exact (observeHighWatermark_quiet _ _ _ hm).elim

theorem perform_observing (h : n.role = .observer) (call : Call) :
    Observing n (perform n call) := by
  have hidle : Observing n (n, []) := observing_silent h rfl (by simp)
  have hnl : n.role ≠ .leader := by simp [h]
  cases call with
  | becomeFollower term leaderId => exact becomeFollower_observing h term leaderId
  | step input =>
    cases input with
    | tick => exact handleTick_observing h
    | voteRequest req =>
      rw [perform, RaftNode.step]
      rcases handleVoteRequest_cases n req with heq | ⟨hrole, -⟩
      · exact heq ▸ hidle
      · exact absurd h hrole
    | voteResponse sender resp =>
      rw [perform, RaftNode.step]
      rcases handleVoteResponse_cases n sender resp with heq | heq | ⟨⟨hrole, -⟩, -⟩
      · exact heq ▸ hidle
      · exact heq ▸ becomeFollower_observing h _ _
      · cases h.symm.trans hrole
    | preVoteRequest req =>
      exact observing_silent h rfl (fun a ha => absurd h (mem_handlePreVoteRequest ha).1)
    | preVoteResponse sender resp =>
      rw [perform, RaftNode.step]
      rcases handlePreVoteResponse_cases n sender resp with heq | heq | ⟨⟨hrole, -⟩, -⟩
      · exact heq ▸ hidle
      · exact heq ▸ becomeFollower_observing h _ _
      · cases h.symm.trans hrole
    | fetchRequest req =>
      rw [perform, RaftNode.step]
      rcases handleFetchRequest_cases n req with heq | heq | ⟨hrole, -⟩
      · exact heq ▸ hidle
      · exact heq ▸ becomeFollower_observing h _ _
      · exact absurd hrole hnl
    | fetchResponse resp => exact handleFetchResponse_observing h resp
    | clientPropose command =>
      simp only [perform, RaftNode.step, RaftNode.handleClientPropose, if_pos hnl]
      exact hidle
    | fetchRequestAcked replica offset =>
      simp only [perform, RaftNode.step, RaftNode.handleFetchRequestAcked, if_pos hnl]
      exact hidle
    | snapshotComplete metadata =>
      simp only [perform, RaftNode.step, RaftNode.handleSnapshotComplete]
      split_ifs
      · exact observing_silent h rfl (by simp [Quiet])
      · exact observing_silent h rfl (by simp)
    | snapshotInstalled metadata => exact observing_silent h rfl (by simp [perform, RaftNode.step])
    | fetchSnapshotReceived metadata data =>
      refine observing_silent h rfl ?_
      simp only [perform, RaftNode.step, RaftNode.handleFetchSnapshotReceived]
      split_ifs <;> simp [Quiet]

/-! ## Runs -/

theorem Forward.refl (n : RaftNode) : Forward n n := ⟨le_refl _, fun _ => .inr rfl⟩

theorem Forward.trans {k : RaftNode} (h : Forward n m) (h' : Forward m k) : Forward n k := by
  refine ⟨h.term.trans h'.term, fun heq => ?_⟩
  have hm : m.currentTerm = n.currentTerm := by
    have := h.term
    have := h'.term
    omega
  have hk : k.currentTerm = m.currentTerm := heq.trans hm.symm
  rcases h.vote hm with hv | hv
  · exact .inl hv
  · rcases h'.vote hk with hv' | hv'
    · exact .inl (hv ▸ hv')
    · exact .inr (hv'.trans hv)

theorem forward_of_le (hmax : n.currentTerm < u64Max) (h : (ballot n).Le (ballot m)) :
    Forward n m := by
  rcases h with h | ⟨h, hv⟩ | ⟨h, -⟩
  · exact ⟨h.le, fun heq => absurd heq (ne_of_gt h)⟩
  · exact ⟨h.le, fun _ => hv⟩
  · exact absurd hmax (not_lt.mpr h)

theorem perform_move (hs : SelfVoted n) (call : Call) :
    ∃ input, ElectionMove n input (next n call) := by
  cases call with
  | step input => exact ⟨input, step_move hs input⟩
  | becomeFollower term leaderId => exact ⟨.tick, becomeFollower_move n .tick term leaderId⟩

theorem perform_identity (n : RaftNode) (call : Call) : SameIdentity n (next n call) := by
  cases call with
  | step input => exact step_identity n input
  | becomeFollower term leaderId => exact (becomeFollower_sameProgress n term leaderId).identity

structure Standing (fresh n : RaftNode) : Prop where
  selfVoted : SelfVoted n
  peers : VoterPeers n
  observer : fresh.role = .observer → n.role = .observer

theorem Recovered.standing {p : VoterParsing} {config : ClusterConfig} {rng : List ℕ}
    (hnew : RaftNode.new p config rng = .ok fresh) (h : Recovered fresh n) :
    Standing fresh n := by
  obtain ⟨voterSet, rfl, -⟩ := new_build hnew
  refine ⟨?_, (build_voterPeers config voterSet rng).congr h.identity, fun hr => h.role.trans hr⟩
  intro hrole
  rw [h.role] at hrole
  simp only [RaftNode.build] at hrole
  split_ifs at hrole <;> simp at hrole

theorem Standing.next (h : Standing fresh n) (call : Call) : Standing fresh (next n call) := by
  obtain ⟨input, hmove⟩ := perform_move h.selfVoted call
  have hid := perform_identity n call
  exact ⟨hmove.selfVoted h.selfVoted hid.id, h.peers.congr hid,
    fun hr => (perform_observing (h.observer hr) call).role⟩

theorem Standing.run (h : Standing fresh n) (hrun : EngineRun BelowMax n m) :
    Standing fresh m ∧ Forward n m := by
  induction hrun with
  | refl => exact ⟨h, .refl n⟩
  | tail _ hmax ih =>
    obtain ⟨hs, hf⟩ := ih
    obtain ⟨input, hmove⟩ := perform_move hs.selfVoted _
    exact ⟨hs.next _, hf.trans (forward_of_le hmax hmove.le)⟩

theorem election_state_monotone {p : VoterParsing} {config : ClusterConfig} {rng : List ℕ}
    {start : RaftNode} (hnew : RaftNode.new p config rng = .ok fresh)
    (hstart : Recovered fresh start) (hrun : EngineRun BelowMax start n)
    (hrun' : EngineRun BelowMax n m) (call : Call) (hmax : BelowMax m call) :
    Forward n m ∧ Forward m (next m call) ∧
      (ballot (next m call) ≠ ballot m →
        PersistsFirst (next m call).currentTerm (perform m call).2) ∧
      (fresh.role = .observer → Observing m (perform m call)) := by
  obtain ⟨hn, -⟩ := (hstart.standing hnew).run hrun
  obtain ⟨hm, hforward⟩ := hn.run hrun'
  obtain ⟨input, hmove⟩ := perform_move hm.selfVoted call
  refine ⟨hforward, forward_of_le hmax hmove.le, fun hb => ?_, fun hr => ?_⟩
  · exact (perform_opens hm.peers hmax hb).persistsFirst
  · exact perform_observing (hm.observer hr) call

theorem election_state_monotone_first_leadership :
    Forward firstVoter (replay next firstVoter firstLeadership) ∧
      (replay next firstVoter firstLeadership).currentTerm = 1 :=
  ⟨(election_state_monotone firstVoter_constructed ⟨.refl _, rfl⟩ (.refl _)
    (replay_execution (by decide +kernel)) (.step .tick) (by decide +kernel)).1, by decide +kernel⟩

end ElectionMonotone
