import Xraft.EngineConstruction
import Xraft.GuardedExecution
import Xraft.ServerRecovery

/-! # State that belongs to a role

Which fields of the engine are set in which role, over every sequence of calls on one engine. The
inline step-down of a vote request is the only transition that leaves such a field behind.
-/
namespace RoleScopedState

open ProtocolTypes ClusterConfiguration ConsensusEngine EngineTransitions GuardedExecution
open EngineConstruction ServerRecovery

/-- Calls on an engine: its inputs, and the step-down that the driver also calls directly. -/
inductive Call
  | step (input : Input)
  | becomeFollower (term : ℕ) (leaderId : Option NodeId)

def perform (n : RaftNode) : Call → RaftNode × List Action
  | .step input => n.step input
  | .becomeFollower term leaderId => n.becomeFollower term leaderId

def next (n : RaftNode) (call : Call) : RaftNode := (perform n call).1

abbrev EngineRun (ok : RaftNode → Call → Prop) : RaftNode → RaftNode → Prop := Execution next ok

/-- Leader state exists exactly in a leader, tallies only in the election they belong to. -/
structure RoleScoped (n : RaftNode) : Prop where
  noOp : n.leaderNoOpIndex.isSome ↔ n.role = .leader
  started : n.leaderStartedTick.isSome ↔ n.role = .leader
  elapsed : n.role ≠ .leader → n.checkQuorumElapsedTicks = 0
  votes : n.role ≠ .candidate → n.votesReceived = ∅
  preVotes : n.role ≠ .preCandidate → n.preVotesReceived = ∅

instance (n : RaftNode) : Decidable (RoleScoped n) :=
  decidable_of_iff
    ((n.leaderNoOpIndex.isSome ↔ n.role = .leader) ∧
      (n.leaderStartedTick.isSome ↔ n.role = .leader) ∧
      (n.role ≠ .leader → n.checkQuorumElapsedTicks = 0) ∧ (n.role ≠ .candidate →
        n.votesReceived = ∅) ∧ (n.role ≠ .preCandidate → n.preVotesReceived = ∅))
    ⟨fun ⟨h₁, h₂, h₃, h₄, h₅⟩ => ⟨h₁, h₂, h₃, h₄, h₅⟩,
      fun h => ⟨h.noOp, h.started, h.elapsed, h.votes, h.preVotes⟩⟩

/-- A vote request that the engine answers by stepping down from leadership. -/
def Deposes (n : RaftNode) : Call → Prop
  | .step (.voteRequest req) => n.role = .leader ∧ req.clusterId = n.config.clusterId ∧
      n.isKnownVoter req.candidateId = true ∧ n.currentTerm < req.term
  | _ => False

instance (n : RaftNode) (call : Call) : Decidable (Deposes n call) := by
  unfold Deposes
  split <;> infer_instance

variable {n m : RaftNode}

theorem RoleScoped.congr (h : RoleScoped n) (role : m.role = n.role)
    (noOp : m.leaderNoOpIndex = n.leaderNoOpIndex)
    (started : m.leaderStartedTick = n.leaderStartedTick)
    (elapsed : m.role ≠ .leader → m.checkQuorumElapsedTicks = n.checkQuorumElapsedTicks)
    (votes : m.votesReceived = n.votesReceived)
    (preVotes : m.preVotesReceived = n.preVotesReceived) :
    RoleScoped m := by
  refine ⟨?_, ?_, fun hr => ?_, fun hr => ?_, fun hr => ?_⟩
  · rw [noOp, role]
    exact h.noOp
  · rw [started, role]
    exact h.started
  · rw [elapsed hr]
    exact h.elapsed (role ▸ hr)
  · rw [votes]
    exact h.votes (role ▸ hr)
  · rw [preVotes]
    exact h.preVotes (role ▸ hr)

theorem roleScoped_of_cleared (role : n.role ≠ .leader) (noOp : n.leaderNoOpIndex = none)
    (started : n.leaderStartedTick = none) (elapsed : n.checkQuorumElapsedTicks = 0)
    (votes : n.role ≠ .candidate → n.votesReceived = ∅)
    (preVotes : n.role ≠ .preCandidate → n.preVotesReceived = ∅) : RoleScoped n := by
  refine ⟨?_, ?_, fun _ => elapsed, votes, preVotes⟩
  · simp [noOp, role]
  · simp [started, role]

/-! ## The transitions of the role -/

theorem becomeFollower_roleScoped (n : RaftNode) (term : ℕ) (leaderId : Option NodeId) :
    RoleScoped (n.becomeFollower term leaderId).1 := by
  have hrole := becomeFollower_role n term leaderId
  have hne : (n.becomeFollower term leaderId).1.role ≠ .leader := by
    rw [hrole]
    split_ifs <;> simp
  exact roleScoped_of_cleared hne rfl rfl rfl (fun _ => rfl) (fun _ => rfl)

theorem advanceCommit_roleScoped (h : RoleScoped n) : RoleScoped n.advanceCommit.1 := by
  obtain ⟨c, a, s, heq⟩ := advanceCommit_fst n
  rw [heq]
  exact ⟨h.noOp, h.started, h.elapsed, h.votes, h.preVotes⟩

theorem becomeLeader_roleScoped (n : RaftNode) : RoleScoped n.becomeLeader.1 := by
  apply advanceCommit_roleScoped
  exact ⟨⟨fun _ => rfl, fun _ => rfl⟩, ⟨fun _ => rfl, fun _ => rfl⟩, fun _ => rfl, fun _ => rfl,
    fun _ => rfl⟩

theorem becomeCandidate_roleScoped (n : RaftNode) : RoleScoped n.becomeCandidate.1 := by
  unfold RaftNode.becomeCandidate
  split_ifs
  · exact becomeLeader_roleScoped _
  · exact roleScoped_of_cleared nofun rfl rfl rfl (fun h => absurd rfl h) (fun _ => rfl)

theorem becomePreCandidate_roleScoped (n : RaftNode) : RoleScoped n.becomePreCandidate.1 := by
  unfold RaftNode.becomePreCandidate
  split_ifs
  · exact becomeCandidate_roleScoped _
  · exact roleScoped_of_cleared nofun rfl rfl rfl (fun _ => rfl) (fun h => absurd rfl h)

/-! ## The handlers -/

theorem ticked_roleScoped (h : RoleScoped n) : RoleScoped (ticked n) := by
  obtain ⟨t, ht⟩ := scheduleFetch_fst n.advanceClock
  unfold ticked RaftNode.countCheckQuorum
  rw [ht]
  split_ifs with hlead
  · exact h.congr rfl rfl rfl (fun hr => absurd hlead.1 hr) rfl rfl
  · exact h.congr rfl rfl rfl (fun _ => rfl) rfl rfl

theorem handleTick_roleScoped (h : RoleScoped n) : RoleScoped n.handleTick.1 := by
  rw [handleTick_eq]
  split_ifs
  · exact becomeFollower_roleScoped _ _ _
  · unfold RaftNode.electionTimeout
    split_ifs
    · exact becomePreCandidate_roleScoped _
    · exact ticked_roleScoped h

/-- The step-down of a vote request clears all but the no-op index. -/
theorem adoptNewer_roleScoped (h : RoleScoped n) {term : ℕ}
    (hlead : n.role = .leader → ¬n.currentTerm < term) : RoleScoped (n.adoptNewer term) := by
  unfold RaftNode.adoptNewer
  split_ifs with hlt
  · have hrole : n.role ≠ .leader := fun hr => hlead hr hlt
    have hnone : n.leaderNoOpIndex = none := by
      by_contra hs
      exact hrole (h.noOp.mp (Option.isSome_iff_ne_none.mpr hs))
    exact roleScoped_of_cleared nofun hnone rfl rfl (fun _ => rfl) (fun _ => rfl)
  · exact h

theorem handleVoteRequest_roleScoped (h : RoleScoped n) {req : VoteRequest}
    (hd : ¬Deposes n (.step (.voteRequest req))) : RoleScoped (n.handleVoteRequest req).1 := by
  rcases handleVoteRequest_cases n req with heq | ⟨-, heq | ⟨hw, heq⟩⟩ <;> rw [heq]
  · exact h
  · exact h
  · have hadopted : RoleScoped (n.adoptNewer req.term) :=
      adoptNewer_roleScoped h (fun hlead hlt => hd ⟨hlead, hw.cluster, hw.known, hlt⟩)
    unfold answered
    split_ifs
    · exact hadopted.congr rfl rfl rfl (fun _ => rfl) rfl rfl
    · exact hadopted

theorem handleVoteResponse_roleScoped (h : RoleScoped n) (sender : NodeId) (resp : VoteResponse) :
    RoleScoped (n.handleVoteResponse sender resp).1 := by
  rcases handleVoteResponse_cases n sender resp with
    heq | heq | ⟨⟨hrole, -⟩, heq | ⟨-, heq⟩⟩ <;> rw [heq]
  · exact h
  · exact becomeFollower_roleScoped _ _ _
  · exact ⟨h.noOp, h.started, h.elapsed, fun hr => absurd hrole hr, h.preVotes⟩
  · exact becomeLeader_roleScoped _

theorem handlePreVoteResponse_roleScoped (h : RoleScoped n) (sender : NodeId)
    (resp : PreVoteResponse) : RoleScoped (n.handlePreVoteResponse sender resp).1 := by
  rcases handlePreVoteResponse_cases n sender resp with
    heq | heq | ⟨⟨hrole, -⟩, heq | ⟨-, heq⟩⟩ <;> rw [heq]
  · exact h
  · exact becomeFollower_roleScoped _ _ _
  · exact ⟨h.noOp, h.started, h.elapsed, h.votes, fun hr => absurd hrole hr⟩
  · exact becomeCandidate_roleScoped _

theorem handleFetchRequest_roleScoped (h : RoleScoped n) (req : FetchRequest) :
    RoleScoped (n.handleFetchRequest req).1 := by
  rcases handleFetchRequest_cases n req with heq | heq | ⟨-, ⟨_, heq⟩ | heq⟩ <;> rw [heq]
  · exact h
  · exact becomeFollower_roleScoped _ _ _
  · exact h.congr rfl rfl rfl (fun _ => rfl) rfl rfl
  · exact h.congr rfl rfl rfl (fun _ => rfl) rfl rfl

theorem followLeader_roleScoped (h : RoleScoped n) (leader : NodeId) :
    RoleScoped (n.followLeader leader).1 := by
  unfold RaftNode.followLeader
  split_ifs
  · exact becomeFollower_roleScoped _ _ _
  · exact h.congr rfl rfl rfl (fun _ => rfl) rfl rfl

theorem acceptLeader_roleScoped (h : RoleScoped n) {resp : FetchResponse} {actions : List Action}
    (hacc : n.acceptLeader resp = some (m, actions)) : RoleScoped m := by
  unfold RaftNode.acceptLeader at hacc
  dsimp only at hacc
  have hraised : RoleScoped (if n.currentTerm < resp.leaderEpoch
      then n.becomeFollower resp.leaderEpoch (some resp.leaderId) else (n, [])).1 := by
    split_ifs
    · exact becomeFollower_roleScoped _ _ _
    · exact h
  generalize (if n.currentTerm < resp.leaderEpoch
    then n.becomeFollower resp.leaderEpoch (some resp.leaderId) else (n, [])) =
      raised at hraised hacc
  split_ifs at hacc
  obtain ⟨rfl, _⟩ : (raised.1.followLeader resp.leaderId).1.heardFromLeader = m ∧ _ = actions := by
    simpa using hacc
  exact (followLeader_roleScoped hraised _).congr rfl rfl rfl (fun _ => rfl) rfl rfl

theorem handleFetchResponse_roleScoped (h : RoleScoped n) (resp : FetchResponse) :
    RoleScoped (n.handleFetchResponse resp).1 := by
  rcases handleFetchResponse_cases n resp with heq | ⟨m, opening, haccept, -, heq⟩ <;> rw [heq]
  · exact h
  · obtain ⟨t, i, e, c, a, s, hm⟩ := payload_fst m resp
    dsimp only
    rw [hm]
    exact (acceptLeader_roleScoped h haccept).congr rfl rfl rfl (fun _ => rfl) rfl rfl

theorem step_roleScoped (h : RoleScoped n) {input : Input} (hd : ¬Deposes n (.step input)) :
    RoleScoped (n.step input).1 := by
  cases input with
  | tick => exact handleTick_roleScoped h
  | voteRequest req => exact handleVoteRequest_roleScoped h hd
  | voteResponse sender resp => exact handleVoteResponse_roleScoped h sender resp
  | preVoteRequest req => exact h
  | preVoteResponse sender resp => exact handlePreVoteResponse_roleScoped h sender resp
  | fetchRequest req => exact handleFetchRequest_roleScoped h req
  | fetchResponse resp => exact handleFetchResponse_roleScoped h resp
  | clientPropose command =>
    simp only [RaftNode.step, RaftNode.handleClientPropose]
    split_ifs
    · exact h
    · exact advanceCommit_roleScoped (h.congr rfl rfl rfl (fun _ => rfl) rfl rfl)
  | fetchRequestAcked replica offset =>
    simp only [RaftNode.step, RaftNode.handleFetchRequestAcked]
    split_ifs
    · exact h
    · exact h
    · exact advanceCommit_roleScoped (h.congr rfl rfl rfl (fun _ => rfl) rfl rfl)
  | snapshotComplete metadata =>
    simp only [RaftNode.step, RaftNode.handleSnapshotComplete]
    split_ifs
    · exact h.congr rfl rfl rfl (fun _ => rfl) rfl rfl
    · exact h.congr rfl rfl rfl (fun _ => rfl) rfl rfl
  | snapshotInstalled metadata => exact h.congr rfl rfl rfl (fun _ => rfl) rfl rfl
  | fetchSnapshotReceived metadata data => exact h

/-- From a scoped state exactly the depositions leave a field behind. -/
theorem next_roleScoped_iff (h : RoleScoped n) (call : Call) :
    RoleScoped (next n call) ↔ ¬Deposes n call := by
  refine ⟨fun hnext hd => ?_, fun hd => ?_⟩
  · cases call with
    | becomeFollower term leaderId => exact hd
    | step input =>
      cases input with
      | voteRequest req =>
        obtain ⟨hlead, hcluster, hknown, hlt⟩ := hd
        have hadopt : n.adoptNewer req.term = n.adoptTerm req.term := if_pos hlt
        have hkept : (next n (.step (.voteRequest req))).leaderNoOpIndex = n.leaderNoOpIndex ∧
            (next n (.step (.voteRequest req))).role = .follower := by
          simp only [next, perform, RaftNode.step, RaftNode.handleVoteRequest]
          rw [if_neg (by simp [hcluster]), if_neg (by simp [hlead]), if_neg (by simp [hknown]),
            if_neg (by omega)]
          dsimp only
          rw [hadopt]
          split_ifs <;> exact ⟨rfl, rfl⟩
        have hsome := hnext.noOp.mp (by rw [hkept.1]; exact h.noOp.mpr hlead)
        rw [hkept.2] at hsome
        cases hsome
      | _ => exact hd
  · cases call with
    | becomeFollower term leaderId => exact becomeFollower_roleScoped n term leaderId
    | step input => exact step_roleScoped h hd

theorem build_roleScoped (config : ClusterConfig) (voterSet : Option VoterSet) (rng : List ℕ) :
    RoleScoped (RaftNode.build config voterSet rng) := by
  refine roleScoped_of_cleared ?_ rfl rfl rfl (fun _ => rfl) (fun _ => rfl)
  simp only [RaftNode.build]
  split_ifs <;> simp

theorem reached_roleScoped {p : VoterParsing} {config : ClusterConfig} {rng : List ℕ}
    {n₀ : RaftNode} (hnew : RaftNode.new p config rng = .ok n₀)
    (hrun : EngineRun (fun n call => ¬Deposes n call) n₀ n) : RoleScoped n := by
  obtain ⟨voterSet, rfl, -⟩ := new_build hnew
  have hstep : ∀ s call, RoleScoped s → ¬Deposes s call → RoleScoped (next s call) :=
    fun s call h hd => (next_roleScoped_iff h call).mpr hd
  exact Execution.invariant hstep hrun (build_roleScoped _ _ _)

abbrev firstVoter : RaftNode := RaftNode.build (threeVoterConfig false 1) (some threeVoterSet) []

def firstLeadership : List Call :=
  [.step .tick, .step .tick, .step (.preVoteResponse 2 ⟨"c", 0, 0, true, none⟩),
    .step (.voteResponse 2 ⟨"c", 0, 1, true, none⟩)]

theorem firstVoter_constructed :
    RaftNode.new sampleParsing (threeVoterConfig false 1) [] = .ok firstVoter := by
  rfl

theorem reached_roleScoped_first_leadership :
    (replay next firstVoter firstLeadership).role = .leader ∧
      RoleScoped (replay next firstVoter firstLeadership) :=
  ⟨by decide +kernel, reached_roleScoped firstVoter_constructed
    (replay_execution (by decide +kernel))⟩

/-- A vote request of term 2 reaches the leader of term 1: it follows, its no-op index stays. -/
theorem deposed_leader_keeps_noOp :
    RaftNode.new sampleParsing (threeVoterConfig false 1) [] = .ok firstVoter ∧
      EngineRun (fun _ _ => True) firstVoter (replay next firstVoter
        (firstLeadership ++ [.step (.voteRequest ⟨"c", 0, 2, 3, 1, 1⟩)])) ∧
      (replay next firstVoter
        (firstLeadership ++ [.step (.voteRequest ⟨"c", 0, 2, 3, 1, 1⟩)])).role = .follower ∧
      (replay next firstVoter
        (firstLeadership ++ [.step (.voteRequest ⟨"c", 0, 2, 3, 1, 1⟩)])).leaderNoOpIndex =
          some 1 :=
  ⟨firstVoter_constructed,
    replay_execution (admissible_true _ _), by decide +kernel, by decide +kernel⟩

end RoleScopedState
