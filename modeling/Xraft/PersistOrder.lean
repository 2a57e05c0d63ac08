import Xraft.EngineTransitions

/-! # Action order

The engine moves to a new ballot before anything is on disk. Its action lists are ordered so that
every message stands behind the persist that covers it, and so that a list which runs to its end
leaves the new ballot on disk.
-/
namespace PersistOrder

open ProtocolTypes ConsensusEngine EngineTransitions

/-- A message of `self` to `dest` claims no more than the ballot on disk. Only a pre-vote request
names a later term: the one it would campaign in. -/
def Covered (self : NodeId) (b : Ballot) (dest : NodeId) : OutboundMessage → Prop
  | .voteRequest r =>
    r.leaderEpoch ≤ b.term ∧ r.term = b.term ∧ r.candidateId = self ∧ b.vote = some self
  | .voteResponse r => r.leaderEpoch ≤ b.term ∧ r.term ≤ b.term ∧
      (r.voteGranted = true → r.term = b.term ∧ b.vote = some dest)
  | .preVoteRequest r =>
    r.leaderEpoch ≤ b.term ∧ r.nextTerm = satAdd b.term 1 ∧ r.candidateId = self
  | .preVoteResponse r => r.leaderEpoch ≤ b.term ∧ r.term ≤ b.term
  | .fetchRequest r => r.leaderEpoch ≤ b.term ∧ r.replicaId = self
  | .fetchResponse r => r.leaderEpoch ≤ b.term
  | .fetchSnapshotRequest r => r.leaderEpoch ≤ b.term

def ActionCovered (self : NodeId) (b : Ballot) : Action → Prop
  | .sendMessage dest message => Covered self b dest message
  | .serveFetch _ _ leaderEpoch _ _ _ _ => leaderEpoch ≤ b.term
  | .redirectToSnapshot _ _ leaderEpoch _ _ _ => leaderEpoch ≤ b.term
  | _ => True

/-- The ballot on disk after an action that succeeds, for an engine that holds `held`. -/
def persistedAfter (held b : Ballot) : Action → Ballot
  | .persistHardState => held
  | _ => b

def Answers : Action → Prop
  | .sendMessage _ (.voteResponse _) => True
  | .sendMessage _ (.preVoteResponse _) => True
  | .sendMessage _ (.fetchResponse _) => True
  | .serveFetch .. => True
  | .redirectToSnapshot .. => True
  | _ => False

/-- From the ballot `b` on disk, each action is covered when its turn comes, answers come last, and
the list ends with `held` on disk. -/
inductive Settles (self : NodeId) (held : Ballot) : Ballot → List Action → Prop
  | done : Settles self held held []
  | step {b : Ballot} {a : Action} {rest : List Action} (covered : ActionCovered self b a)
      (final : Answers a → b = held)
      (tail : Settles self held (persistedAfter held b a) rest) : Settles self held b (a :: rest)

theorem Settles.nil_inv {self : NodeId} {held b : Ballot} (h : Settles self held b []) :
    b = held := by
  cases h
  rfl

theorem Settles.cons_inv {self : NodeId} {held b : Ballot} {a : Action} {rest : List Action}
    (h : Settles self held b (a :: rest)) : ActionCovered self b a ∧ (Answers a → b = held) ∧
      Settles self held (persistedAfter held b a) rest := by
  cases h with
  | step covered final tail => exact ⟨covered, final, tail⟩

def Quiet : Action → Prop
  | .persistHardState => False
  | .sendMessage _ _ => False
  | .serveFetch .. => False
  | .redirectToSnapshot .. => False
  | _ => True

variable {self : NodeId} {held b : Ballot}

theorem Settles.quiet {xs rest : List Action} (hx : ∀ a ∈ xs, Quiet a)
    (h : Settles self held b rest) : Settles self held b (xs ++ rest) := by
  induction xs with
  | nil => exact h
  | cons a xs ih =>
    have ha : Quiet a := hx a List.mem_cons_self
    have htail := ih (fun a ha => hx a (List.mem_cons_of_mem _ ha))
    cases a <;> first | exact ha.elim | exact .step trivial False.elim htail

theorem settles_of_quiet {xs : List Action} (hx : ∀ a ∈ xs, Quiet a) :
    Settles self held held xs := by
  have h : Settles self held held (xs ++ []) := .quiet hx .done
  rwa [List.append_nil] at h

def CoveredRequest (self : NodeId) (b : Ballot) (a : Action) : Prop :=
  ∃ dest m, a = .sendMessage dest m ∧ Covered self b dest m ∧ ¬Answers (.sendMessage dest m)

theorem Settles.sends {xs rest : List Action} (hx : ∀ a ∈ xs, CoveredRequest self b a)
    (h : Settles self held b rest) : Settles self held b (xs ++ rest) := by
  induction xs with
  | nil => exact h
  | cons a xs ih =>
    obtain ⟨dest, m, rfl, hc, hn⟩ := hx a List.mem_cons_self
    exact .step hc (fun ha => absurd ha hn) (ih (fun a ha => hx a (List.mem_cons_of_mem _ ha)))

theorem settles_of_sends {xs : List Action} (hx : ∀ a ∈ xs, CoveredRequest self held a) :
    Settles self held held xs := by
  have h : Settles self held held (xs ++ []) := .sends hx .done
  rwa [List.append_nil] at h

theorem Settles.persist {rest : List Action} (h : Settles self held held rest) :
    Settles self held b (.persistHardState :: rest) := .step trivial False.elim h

/-- A list that persists whenever the engine's ballot is new. -/
theorem Settles.persist_if {p : Prop} [Decidable p] {rest : List Action} (hb : ¬p → b = held)
    (h : Settles self held held rest) :
    Settles self held b ((if p then [.persistHardState] else []) ++ rest) := by
  split_ifs with hp
  · exact .persist h
  · rw [hb hp]
    exact h

theorem Settles.quiet_if {p : Prop} [Decidable p] {a : Action} (ha : Quiet a) {rest : List Action}
    (h : Settles self held b rest) :
    Settles self held b ((if p then [a] else []) ++ rest) := by
  apply Settles.quiet _ h
  intro x hx
  split_ifs at hx
  · rw [List.mem_singleton.mp hx]
    exact ha
  · exact absurd hx List.not_mem_nil

/-! ## The engine's lists -/

theorem drainApplyPipeline_quiet (n : RaftNode) : ∀ a ∈ n.drainApplyPipeline.2, Quiet a := by
  intro a ha
  simp only [RaftNode.drainApplyPipeline, RaftNode.maybeApply, RaftNode.maybeTakeSnapshot,
    List.mem_append] at ha
  rcases ha with ha | ha <;> split_ifs at ha <;> simp_all [Quiet]

theorem advanceCommit_quiet (n : RaftNode) : ∀ a ∈ n.advanceCommit.2, Quiet a := by
  unfold RaftNode.advanceCommit
  split
  · exact drainApplyPipeline_quiet _
  · simp

theorem observeHighWatermark_quiet (n : RaftNode) (hw : ℕ) :
    ∀ a ∈ (n.observeHighWatermark hw).2, Quiet a := by
  unfold RaftNode.observeHighWatermark
  dsimp only
  split_ifs
  · exact drainApplyPipeline_quiet _
  · simp

theorem becomeLeader_quiet (n : RaftNode) : ∀ a ∈ n.becomeLeader.2, Quiet a := by
  intro a ha
  rcases List.mem_append.mp ha with ha | ha
  · simp only [List.mem_cons, List.not_mem_nil, or_false] at ha
    rcases ha with rfl | rfl <;> trivial
  · exact advanceCommit_quiet _ a ha

theorem becomeFollower_settles (n : RaftNode) (t : ℕ) (l : Option NodeId) :
    Settles self (ballot (n.becomeFollower t l).1) (ballot n) (n.becomeFollower t l).2 := by
  have hd : Settles self (ballot (n.becomeFollower t l).1) (ballot (n.becomeFollower t l).1)
      ((if n.role = .leader ∨ n.role = .candidate ∨ n.role = .preCandidate
        then [Action.stepDown] else []) ++ []) := .quiet_if (a := .stepDown) trivial .done
  rw [List.append_nil] at hd
  refine Settles.persist_if (fun h => ?_) hd
  rw [becomeFollower_ballot, if_neg h]

theorem becomeCandidate_settles (n : RaftNode) :
    Settles n.id (ballot n.becomeCandidate.1) b n.becomeCandidate.2 := by
  have hsend : ∀ a ∈ n.enterCandidate.voteRequests,
      CoveredRequest n.id (ballot n.enterCandidate) a := by
    intro a ha
    obtain ⟨dest, _, rfl⟩ := List.mem_map.mp ha
    exact ⟨dest, _, rfl, ⟨Nat.zero_le _, rfl, rfl, rfl⟩, id⟩
  unfold RaftNode.becomeCandidate
  split_ifs
  · have hb : ballot n.enterCandidate.becomeLeader.1 = ballot n.enterCandidate :=
      (becomeLeader_standing _).2
    dsimp only
    rw [hb, List.cons_append]
    exact .persist (.sends hsend (settles_of_quiet (becomeLeader_quiet _)))
  · exact .persist (settles_of_sends hsend)

theorem becomePreCandidate_settles (n : RaftNode) :
    Settles n.id (ballot n.becomePreCandidate.1) (ballot n) n.becomePreCandidate.2 := by
  have hsend : ∀ a ∈ n.enterPreCandidate.preVoteRequests, CoveredRequest n.id (ballot n) a := by
    intro a ha
    obtain ⟨dest, _, rfl⟩ := List.mem_map.mp ha
    exact ⟨dest, _, rfl, ⟨Nat.zero_le _, rfl, rfl⟩, id⟩
  unfold RaftNode.becomePreCandidate
  split_ifs
  · exact .sends hsend (becomeCandidate_settles n.enterPreCandidate)
  · exact settles_of_sends hsend

theorem maybeBuildFetchRequest_eq {n : RaftNode} {req : FetchRequest}
    (h : n.maybeBuildFetchRequest = some req) : req = n.fetchRequest := by
  unfold RaftNode.maybeBuildFetchRequest at h
  split at h
  · exact (Option.some.inj h).symm
  · split_ifs at h
    exact (Option.some.inj h).symm

theorem scheduleFetch_sends {n : RaftNode} {a : Action} (ha : a ∈ n.scheduleFetch.2) :
    ∃ dest, a = .sendMessage dest (.fetchRequest n.fetchRequest) := by
  unfold RaftNode.scheduleFetch at ha
  split_ifs at ha
  · split at ha
    · exact absurd ha List.not_mem_nil
    · rename_i req hr
      obtain ⟨dest, _, rfl⟩ := List.mem_map.mp ha
      exact ⟨dest, by rw [maybeBuildFetchRequest_eq hr]⟩
  · exact absurd ha List.not_mem_nil

theorem electionTimeout_settles (n : RaftNode) {actions : List Action}
    (h : ∀ a ∈ actions, CoveredRequest n.id (ballot n) a) :
    Settles n.id (ballot (n.electionTimeout actions).1) (ballot n)
      (n.electionTimeout actions).2 := by
  unfold RaftNode.electionTimeout
  split_ifs
  · exact .sends h (becomePreCandidate_settles n)
  · exact settles_of_sends h

theorem handleTick_settles (n : RaftNode) :
    Settles n.id (ballot n.handleTick.1) (ballot n) n.handleTick.2 := by
  obtain ⟨t, c, ht⟩ := ticked_eq n
  have hid : (ticked n).id = n.id := by rw [ht]
  have hb : ballot (ticked n) = ballot n := by rw [ht]; rfl
  have hs : ∀ a ∈ n.advanceClock.scheduleFetch.2, CoveredRequest n.id (ballot n) a := by
    intro a ha
    obtain ⟨dest, rfl⟩ := scheduleFetch_sends ha
    exact ⟨dest, _, rfl, ⟨le_refl _, rfl⟩, id⟩
  rw [handleTick_eq]
  split_ifs
  · refine .sends hs ?_
    rw [← hb]
    exact becomeFollower_settles _ _ _
  · rw [← hid, ← hb] at hs ⊢
    exact electionTimeout_settles _ hs

/-- Without a new term or a new vote the answer leaves the ballot alone. -/
theorem answered_ballot_eq {n : RaftNode} {req : VoteRequest} (hterm : ¬n.currentTerm < req.term)
    (hvote : ¬((n.adoptNewer req.term).grantsVote req = true ∧
      (n.adoptNewer req.term).hardState.votedFor ≠ some req.candidateId)) :
    ballot (answered n req) = ballot n := by
  have had : n.adoptNewer req.term = n := if_neg hterm
  unfold answered
  rw [had] at hvote ⊢
  split_ifs with hg
  · have hv : n.hardState.votedFor = some req.candidateId := by
      by_contra hv
      exact hvote ⟨hg, hv⟩
    simp [ballot, RaftNode.castVote, RaftNode.resetElectionTimer, RaftNode.currentTerm, hv]
  · rfl

theorem handleVoteRequest_settles (n : RaftNode) (req : VoteRequest) :
    Settles n.id (ballot (n.handleVoteRequest req).1) (ballot n) (n.handleVoteRequest req).2 := by
  rcases handleVoteRequest_cases n req with heq | ⟨-, heq | ⟨-, heq⟩⟩ <;> rw [heq]
  · exact .done
  · exact .step ⟨Nat.zero_le _, le_refl _, by simp [RaftNode.buildVoteResponse]⟩ (fun _ => rfl)
      .done
  · dsimp only
    rw [answering, List.append_assoc]
    refine .persist_if ?_ (.quiet_if (a := .stepDown) trivial (.step ?_ (fun _ => rfl) .done))
    · intro hn
      rw [not_or] at hn
      exact (answered_ballot_eq hn.1 hn.2).symm
    · refine ⟨Nat.zero_le _, le_refl _, fun hg => ⟨rfl, ?_⟩⟩
      have hg : (n.adoptNewer req.term).grantsVote req = true := hg
      rw [answered, if_pos hg]
      rfl

theorem handleVoteResponse_settles (n : RaftNode) (sender : NodeId) (resp : VoteResponse) :
    Settles n.id (ballot (n.handleVoteResponse sender resp).1) (ballot n)
      (n.handleVoteResponse sender resp).2 := by
  rcases handleVoteResponse_cases n sender resp with heq | heq | ⟨-, heq | ⟨-, heq⟩⟩ <;> rw [heq]
  · exact .done
  · exact becomeFollower_settles _ _ _
  · exact .done
  · rw [(becomeLeader_standing (withVote n sender)).2]
    exact settles_of_quiet (becomeLeader_quiet _)

theorem handlePreVoteRequest_settles (n : RaftNode) (req : PreVoteRequest) :
    Settles n.id (ballot n) (ballot n) (n.handlePreVoteRequest req) := by
  unfold RaftNode.handlePreVoteRequest
  split_ifs
  · exact .done
  · exact .done
  · exact .done
  · exact .step ⟨Nat.zero_le _, le_refl _⟩ (fun _ => rfl) .done

theorem handlePreVoteResponse_settles (n : RaftNode) (sender : NodeId) (resp : PreVoteResponse) :
    Settles n.id (ballot (n.handlePreVoteResponse sender resp).1) (ballot n)
      (n.handlePreVoteResponse sender resp).2 := by
  rcases handlePreVoteResponse_cases n sender resp with heq | heq | ⟨-, heq | ⟨-, heq⟩⟩ <;> rw [heq]
  · exact .done
  · exact becomeFollower_settles _ _ _
  · exact .done
  · exact becomeCandidate_settles (withPreVote n sender)

theorem handleFetchRequest_settles (n : RaftNode) (req : FetchRequest) :
    Settles n.id (ballot (n.handleFetchRequest req).1) (ballot n) (n.handleFetchRequest req).2 := by
  have hle : n.currentTerm ≤ (ballot n).term := le_refl _
  rcases handleFetchRequest_cases n req with heq | heq | ⟨-, ⟨_, heq⟩ | heq⟩ <;> rw [heq]
  · exact .done
  · exact becomeFollower_settles _ _ _
  · exact .step hle (fun _ => rfl) .done
  · exact .step hle (fun _ => rfl) .done

/-- The payload of an accepted response: at most one request follows the log changes. -/
theorem handleFetchResponse_settles (n : RaftNode) (resp : FetchResponse) :
    Settles n.id (ballot (n.handleFetchResponse resp).1) (ballot n)
      (n.handleFetchResponse resp).2 := by
  rcases handleFetchResponse_cases n resp with heq | ⟨m, opening, -, hacc, heq⟩ <;> rw [heq]
  · exact .done
  have hid : m.id = n.id := hacc.progress.id
  dsimp only
  rw [(payload_standing m resp).2, hacc.actions_eq, List.append_assoc]
  refine .persist_if (fun hn => ?_) (.quiet_if (a := .stepDown) trivial ?_)
  · rw [hacc.ballot_eq, if_neg hn]
  · rcases payload_cases m resp with
      ⟨_, hp⟩ | ⟨_, -, -, hp⟩ | hp | ⟨taken, appends, htake, hp⟩ <;> rw [hp]
    · exact .step (le_refl _) False.elim .done
    · exact .step trivial False.elim (.step ⟨le_refl _, hid⟩ False.elim .done)
    · exact .done
    · refine settles_of_quiet (fun a ha => ?_)
      rcases List.mem_append.mp ha with ha | ha
      · rcases takeEntries_spec htake with ⟨_, _, rfl⟩ | ⟨_, _, _, _, _, _, _, rfl⟩
        · cases ha
        · rw [List.mem_singleton.mp ha]
          trivial
      · exact observeHighWatermark_quiet _ _ a ha

theorem handleFetchRequestAcked_quiet (n : RaftNode) (replica : NodeId) (offset : ℕ) :
    ∀ a ∈ (n.handleFetchRequestAcked replica offset).2, Quiet a := by
  unfold RaftNode.handleFetchRequestAcked
  split_ifs
  · simp
  · simp
  · exact advanceCommit_quiet _

theorem handleClientPropose_quiet (n : RaftNode) (command : Bytes) :
    ∀ a ∈ (n.handleClientPropose command).2, Quiet a := by
  unfold RaftNode.handleClientPropose
  split_ifs
  · simp
  · intro a ha
    rcases List.mem_cons.mp ha with rfl | ha
    · trivial
    · exact advanceCommit_quiet _ a ha

/-- Every action list of the engine is covered by the persists it contains. -/
theorem step_settles (n : RaftNode) (input : Input) :
    Settles n.id (ballot (n.step input).1) (ballot n) (n.step input).2 := by
  have hquiet : ∀ {m : RaftNode} {actions : List Action}, ballot m = ballot n →
      (∀ a ∈ actions, Quiet a) → Settles n.id (ballot m) (ballot n) actions := by
    intro m actions hb hq
    rw [hb]
    exact settles_of_quiet hq
  cases input with
  | tick => exact handleTick_settles n
  | voteRequest req => exact handleVoteRequest_settles n req
  | voteResponse sender resp => exact handleVoteResponse_settles n sender resp
  | preVoteRequest req => exact handlePreVoteRequest_settles n req
  | preVoteResponse sender resp => exact handlePreVoteResponse_settles n sender resp
  | fetchRequest req => exact handleFetchRequest_settles n req
  | fetchResponse resp => exact handleFetchResponse_settles n resp
  | clientPropose command =>
    refine hquiet ?_ (handleClientPropose_quiet n command)
    exact handleClientPropose_ballot n command
  | fetchRequestAcked replica offset =>
    refine hquiet ?_ (handleFetchRequestAcked_quiet n replica offset)
    exact handleFetchRequestAcked_ballot n replica offset
  | snapshotComplete metadata =>
    simp only [RaftNode.step, RaftNode.handleSnapshotComplete]
    split_ifs
    · exact .step trivial False.elim .done
    · exact .done
  | snapshotInstalled metadata => exact .done
  | fetchSnapshotReceived metadata data =>
    simp only [RaftNode.step, RaftNode.handleFetchSnapshotReceived]
    split_ifs
    · exact .done
    · exact .step trivial False.elim .done

end PersistOrder
