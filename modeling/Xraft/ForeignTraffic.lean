import Xraft.RoleScopedState

/-! # Foreign traffic

Messages of another cluster, of strangers and of non-leaders, interleaved with a node's own traffic.
-/
namespace ForeignTraffic

open ProtocolTypes ConsensusEngine EngineTransitions GuardedExecution RoleScopedState

/-- A message that should not concern the node, whatever it says. -/
def Foreign (n : RaftNode) : Input → Prop
  | .voteRequest req => req.clusterId ≠ n.config.clusterId ∨ n.isKnownVoter req.candidateId = false
  | .voteResponse sender resp =>
    resp.clusterId ≠ n.config.clusterId ∨ n.isKnownVoter sender = false
  | .preVoteRequest req =>
    req.clusterId ≠ n.config.clusterId ∨ n.isKnownVoter req.candidateId = false
  | .preVoteResponse sender resp =>
    resp.clusterId ≠ n.config.clusterId ∨ n.isKnownVoter sender = false
  | .fetchRequest req =>
    req.clusterId ≠ n.config.clusterId ∨ req.replicaId = n.id ∨
      (n.isKnownVoter req.replicaId = false ∧ n.hasPeer req.replicaId = false)
  | .fetchResponse resp =>
    resp.clusterId ≠ n.config.clusterId ∨ resp.isLeader = false ∨
      n.isKnownVoter resp.leaderId = false
  | _ => False

instance (n : RaftNode) : (input : Input) → Decidable (Foreign n input)
  | .voteRequest _ | .voteResponse _ _ | .preVoteRequest _ | .preVoteResponse _ _ =>
    inferInstanceAs (Decidable (_ ∨ _))
  | .fetchRequest _ => inferInstanceAs (Decidable (_ ∨ _ ∨ _ ∧ _))
  | .fetchResponse _ => inferInstanceAs (Decidable (_ ∨ _ ∨ _))
  | .tick | .clientPropose _ | .fetchRequestAcked _ _ | .snapshotComplete _ | .snapshotInstalled _
  | .fetchSnapshotReceived _ _ => .isFalse id

def responses (n : RaftNode) : List Input → List (RaftNode × List Action)
  | [] => []
  | input :: rest => n.step input :: responses (n.step input).1 rest

def genuine (schedule : List (Bool × Input)) : List Input :=
  (schedule.filter (fun p => !p.1)).map Prod.snd

def feed (n : RaftNode) (inputs : List Input) : RaftNode :=
  replay (fun m input => (RaftNode.step m input).1) n inputs

/-- No handler touches the node before it has turned foreign input away. -/
theorem step_foreign {n : RaftNode} {input : Input} (h : Foreign n input) :
    n.step input = (n, []) := by
  cases input with
  | tick => cases h
  | voteRequest req =>
    rcases h with h | h
    · simp [RaftNode.step, RaftNode.handleVoteRequest, h]
    · simp [RaftNode.step, RaftNode.handleVoteRequest, h]
  | voteResponse sender resp =>
    rcases h with h | h
    · simp [RaftNode.step, RaftNode.handleVoteResponse, h]
    · simp [RaftNode.step, RaftNode.handleVoteResponse, h]
  | preVoteRequest req =>
    rcases h with h | h
    · simp [RaftNode.step, RaftNode.handlePreVoteRequest, h]
    · simp [RaftNode.step, RaftNode.handlePreVoteRequest, h]
  | preVoteResponse sender resp =>
    rcases h with h | h
    · simp [RaftNode.step, RaftNode.handlePreVoteResponse, h]
    · simp [RaftNode.step, RaftNode.handlePreVoteResponse, h]
  | fetchRequest req =>
    rcases h with h | h | ⟨hvoter, hpeer⟩
    · simp [RaftNode.step, RaftNode.handleFetchRequest, h]
    · simp [RaftNode.step, RaftNode.handleFetchRequest, h]
    · simp [RaftNode.step, RaftNode.handleFetchRequest, hvoter, hpeer]
  | fetchResponse resp =>
    have hdropped : n.acceptLeader resp = none := by
      rcases h with h | h | h
      · simp [RaftNode.acceptLeader, h]
      · simp [RaftNode.acceptLeader, h]
      · simp [RaftNode.acceptLeader, h]
    simp [RaftNode.step, RaftNode.handleFetchResponse, hdropped]
  | clientPropose command => cases h
  | fetchRequestAcked replica offset => cases h
  | snapshotComplete metadata => cases h
  | snapshotInstalled metadata => cases h
  | fetchSnapshotReceived metadata data => cases h

/-! ## What is foreign stays foreign -/

theorem lookup_isSome_kinds (peers : List (NodeId × PeerState)) (id : NodeId) :
    (peers.lookup id).isSome = (peers.map (fun p => (p.1, p.2.isVoter))).any
      (fun p => id == p.1) := by
  induction peers with
  | nil => rfl
  | cons p peers ih =>
    rw [List.lookup_cons, List.map_cons, List.any_cons, ← ih]
    cases id == p.1 <;> rfl

theorem hasPeer_congr {n m : RaftNode} (h : SameIdentity n m) (id : NodeId) :
    m.hasPeer id = n.hasPeer id := by
  have hkinds : m.peers.map (fun p => (p.1, p.2.isVoter)) =
      n.peers.map (fun p => (p.1, p.2.isVoter)) := h.peers
  rw [RaftNode.hasPeer, RaftNode.hasPeer, lookup_isSome_kinds, lookup_isSome_kinds, hkinds]

theorem foreign_congr {n m : RaftNode} (h : SameIdentity n m) (input : Input) :
    Foreign m input ↔ Foreign n input := by
  have hvoter : ∀ id, m.isKnownVoter id = n.isKnownVoter id := fun id => by
    rw [RaftNode.isKnownVoter, RaftNode.isKnownVoter, h.voterSet]
  cases input <;> simp [Foreign, hvoter, hasPeer_congr h, h.config, h.id]

/-! ## Two runs -/

theorem feed_cons (n : RaftNode) (input : Input) (rest : List Input) :
    feed n (input :: rest) = feed (n.step input).1 rest := rfl

/-- Whoever inserts foreign input anywhere changes neither the states nor the actions of the
rest. -/
theorem foreign_inputs_do_not_interfere (n : RaftNode) (schedule : List (Bool × Input))
    (h : ∀ p ∈ schedule, p.1 = true → Foreign n p.2) :
    ((schedule.zip (responses n (schedule.map Prod.snd))).filter (fun r => !r.1.1)).map Prod.snd =
        responses n (genuine schedule) ∧
      feed n (schedule.map Prod.snd) = feed n (genuine schedule) ∧
      ∀ r ∈ schedule.zip (responses n (schedule.map Prod.snd)), Foreign n r.1.2 → r.2.2 = [] := by
  induction schedule generalizing n with
  | nil => exact ⟨rfl, rfl, by simp⟩
  | cons p schedule ih =>
    obtain ⟨inserted, input⟩ := p
    have hsame := step_identity n input
    have hrest : ∀ q ∈ schedule, q.1 = true → Foreign (n.step input).1 q.2 := fun q hq hins =>
      (foreign_congr hsame q.2).mpr (h q (List.mem_cons_of_mem _ hq) hins)
    obtain ⟨hstates, hend, hquiet⟩ := ih _ hrest
    have hfirst : ∀ r ∈ (((inserted, input) :: schedule).zip
        (responses n (((inserted, input) :: schedule).map Prod.snd))),
        Foreign n r.1.2 → r.2.2 = [] := by
      intro r hr hforeign
      rcases List.mem_cons.mp hr with rfl | hr
      · show (n.step input).2 = []
        rw [step_foreign hforeign]
      · exact hquiet r hr ((foreign_congr hsame _).mpr hforeign)
    cases inserted with
    | false =>
      refine ⟨?_, ?_, hfirst⟩
      · exact congrArg (n.step input :: ·) hstates
      · exact hend
    | true =>
      -- an inserted input leaves the node where it was, so the tail runs from the same node
      have hskip : (n.step input).1 = n := by
        rw [step_foreign (h (true, input) List.mem_cons_self rfl)]
      rw [hskip] at hstates hend
      refine ⟨?_, ?_, hfirst⟩
      · simp only [List.map_cons, responses, hskip, List.zip_cons_cons]
        exact hstates
      · rw [List.map_cons, feed_cons, hskip]
        exact hend

/-- A stranger's vote request of a high term between the ticks of voter 1. -/
theorem foreign_inputs_do_not_interfere_strange_candidate :
    let schedule : List (Bool × Input) :=
      [(false, .tick), (true, .voteRequest ⟨"c", 0, 9, 7, 5, 5⟩), (false, .tick)]
    feed firstVoter (schedule.map Prod.snd) = feed firstVoter [.tick, .tick] ∧
      (feed firstVoter [.tick, .tick]).role = .preCandidate := by
  refine ⟨(foreign_inputs_do_not_interfere firstVoter
    [(false, .tick), (true, .voteRequest ⟨"c", 0, 9, 7, 5, 5⟩), (false, .tick)] ?_).2.1, ?_⟩
  · decide +kernel
  · decide +kernel

end ForeignTraffic
