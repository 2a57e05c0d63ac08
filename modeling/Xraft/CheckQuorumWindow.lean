import Xraft.ElectionMonotone
import Xraft.LeaderStamps

/-! # The check-quorum window

A leader counts the voters that fetched within a window and steps down when they are no quorum. The
watch records, beside the engine, the tick at which a leadership began, the ticks processed in it
and the fetches accepted in it.
-/
namespace CheckQuorumWindow

open ProtocolTypes ClusterConfiguration ConsensusEngine EngineTransitions EngineConstruction
open GuardedExecution RoleScopedState ElectionMonotone LeaderStamps ServerRecovery

/-! ## Watched runs -/

def acceptsFetch (n : RaftNode) (req : FetchRequest) : Bool :=
  decide (req.clusterId = n.config.clusterId) && decide (req.replicaId ≠ n.id) &&
    (n.isKnownVoter req.replicaId || n.hasPeer req.replicaId) &&
    decide (req.leaderEpoch ≤ n.currentTerm) && decide (n.role = .leader) &&
    decide (req.fetchOffset ≠ 0)

structure Reign where
  started : ℕ
  ticks : ℕ
  fetches : List (NodeId × ℕ)

def Reign.after (r : Reign) (n : RaftNode) : Call → Reign
  | .step .tick => { r with ticks := r.ticks + 1 }
  | .step (.fetchRequest req) =>
    if acceptsFetch n req then { r with fetches := (req.replicaId, n.logicalTick) :: r.fetches }
    else r
  | _ => r

structure Watch where
  node : RaftNode
  reign : Option Reign

/-- A leadership begins when the node comes to lead and ends when it no longer does. -/
def Watch.next (w : Watch) (call : Call) : Watch :=
  let m := RoleScopedState.next w.node call
  { node := m
    reign := if m.role = .leader then
        some (match w.reign with
          | some r => r.after w.node call
          | none => ⟨m.logicalTick, 0, []⟩)
      else none }

/-- The other voters with a fetch accepted in the leadership at a tick of `(t - window, t]`. -/
def heard (n : RaftNode) (vs : VoterSet) (r : Reign) (window t : ℕ) : Finset NodeId :=
  vs.ids.filter (fun v => v ≠ n.id ∧ ∃ f ∈ r.fetches, f.1 = v ∧ t < f.2 + window ∧ f.2 ≤ t)

theorem heard_mono {n m : RaftNode} {vs : VoterSet} {r r' : Reign} {window window' t t' : ℕ}
    (hid : m.id = n.id) (hfetches : r.fetches ⊆ r'.fetches) (hlow : t' + window ≤ t + window')
    (hhigh : t ≤ t') : heard n vs r window t ⊆ heard m vs r' window' t' := by
  intro v hv
  obtain ⟨hmem, hother, f, hf, hfv, hlo, hhi⟩ := Finset.mem_filter.mp hv
  refine Finset.mem_filter.mpr ⟨hmem, by rw [hid]; exact hother, f, hfetches hf, hfv, ?_, ?_⟩
  · omega
  · omega

/-! ## One call -/

def peerTimes (n : RaftNode) : List (NodeId × ℕ) := n.peers.map (fun p => (p.1, p.2.lastFetchTime))

inductive Tenure (n : RaftNode) (call : Call) (m : RaftNode) : Prop
  | kept (prior : n.role = .leader) (tick : m.logicalTick = n.logicalTick)
      (elapsed : m.checkQuorumElapsedTicks = n.checkQuorumElapsedTicks)
      (times : peerTimes m = peerTimes n) (record : ∀ r : Reign, r.after n call = r)
  | ticked (prior : n.role = .leader) (input : call = .step .tick)
      (reached : n.advanceClock.quorumLost = false) (result : m = n.advanceClock.countCheckQuorum)
  | served (prior : n.role = .leader) (req : FetchRequest)
      (input : call = .step (.fetchRequest req)) (accepted : acceptsFetch n req = true)
      (result : m = n.stampFetch req.replicaId)
  | fresh (prior : n.role ≠ .leader) (elapsed : m.checkQuorumElapsedTicks = 0)
      (times : ∀ p ∈ m.peers, p.2.lastFetchTime = m.logicalTick)

theorem becomeLeader_tenure {n k : RaftNode} {call : Call} (prior : k.role ≠ .leader) :
    Tenure k call n.becomeLeader.1 := by
  obtain ⟨c, a, s, h⟩ := advanceCommit_fst n.enterLeader
  have hnode : n.becomeLeader.1 = { n.enterLeader with
    commitIndex := c, lastApplied := a, snapshotInFlight := s } := h
  refine .fresh prior (by rw [hnode]; rfl) (fun p hp => ?_)
  rw [hnode] at hp ⊢
  obtain ⟨q, -, rfl⟩ := List.mem_map.mp hp
  rfl

theorem becomeCandidate_tenure {n k : RaftNode} {call : Call} (prior : k.role ≠ .leader)
    (h : n.becomeCandidate.1.role = .leader) : Tenure k call n.becomeCandidate.1 := by
  unfold RaftNode.becomeCandidate at h ⊢
  split_ifs at h ⊢
  · exact becomeLeader_tenure prior
  · cases h

/-- A leader does not fetch and has no election timeout. -/
theorem handleTick_leader {n : RaftNode} (h : n.role = .leader) :
    n.handleTick.1 = if n.advanceClock.quorumLost
      then (n.advanceClock.countCheckQuorum.becomeFollower n.currentTerm none).1
      else n.advanceClock.countCheckQuorum := by
  have hfetch : n.advanceClock.scheduleFetch = (n.advanceClock, []) := by
    have hrole : n.advanceClock.role = .leader := h
    simp [RaftNode.scheduleFetch, hrole]
  have hrole : n.advanceClock.countCheckQuorum.role = .leader := by
    unfold RaftNode.countCheckQuorum
    split_ifs <;> exact h
  rw [handleTick_eq, ticked, hfetch]
  split_ifs
  · rfl
  · simp [RaftNode.electionTimeout, hrole]

theorem handleTick_tenure {n : RaftNode} (h : n.handleTick.1.role = .leader) :
    Tenure n (.step .tick) n.handleTick.1 := by
  by_cases hlead : n.role = .leader
  · rw [handleTick_leader hlead] at h ⊢
    split_ifs at h ⊢ with hlost
    · exact absurd h (becomeFollower_not_leader _ _ _)
    · exact .ticked hlead rfl (by simpa using hlost) rfl
  · obtain ⟨t, c, ht⟩ := ticked_eq n
    have hrole : (ticked n).role = n.role := by rw [ht]
    rw [handleTick_eq] at h ⊢
    split_ifs at h ⊢
    · exact absurd h (becomeFollower_not_leader _ _ _)
    · unfold RaftNode.electionTimeout RaftNode.becomePreCandidate at h ⊢
      split_ifs at h ⊢
      · exact becomeCandidate_tenure hlead h
      · cases h
      · exact absurd (hrole ▸ h) hlead

theorem tenure_same {n m : RaftNode} {call : Call} (prior : n.role = .leader)
    (record : ∀ r : Reign, r.after n call = r) (tick : m.logicalTick = n.logicalTick)
    (elapsed : m.checkQuorumElapsedTicks = n.checkQuorumElapsedTicks) (peers : m.peers = n.peers) :
    Tenure n call m :=
  .kept prior tick elapsed (by rw [peerTimes, peers, peerTimes]) record

theorem handleVoteRequest_tenure {n : RaftNode} {req : VoteRequest}
    (h : (n.handleVoteRequest req).1.role = .leader) :
    Tenure n (.step (.voteRequest req)) (n.handleVoteRequest req).1 := by
  rcases handleVoteRequest_cases n req with heq | ⟨-, heq | ⟨-, heq⟩⟩ <;> rw [heq] at h ⊢
  · exact tenure_same h (fun _ => rfl) rfl rfl rfl
  · exact tenure_same h (fun _ => rfl) rfl rfl rfl
  · rw [answered_role] at h
    split_ifs at h with hnew
    rcases answered_current hnew with hsame | hsame <;> rw [hsame]
    · exact tenure_same h (fun _ => rfl) rfl rfl rfl
    · exact tenure_same h (fun _ => rfl) rfl rfl rfl

theorem handleVoteResponse_tenure {n : RaftNode} {sender : NodeId} {resp : VoteResponse}
    (h : (n.handleVoteResponse sender resp).1.role = .leader) :
    Tenure n (.step (.voteResponse sender resp)) (n.handleVoteResponse sender resp).1 := by
  rcases handleVoteResponse_cases n sender resp with
    heq | heq | ⟨⟨hrole, -⟩, heq | ⟨-, heq⟩⟩ <;> rw [heq] at h ⊢
  · exact tenure_same h (fun _ => rfl) rfl rfl rfl
  · exact absurd h (becomeFollower_not_leader _ _ _)
  · cases hrole.symm.trans h
  · exact becomeLeader_tenure (by simp [hrole])

theorem handlePreVoteResponse_tenure {n : RaftNode} {sender : NodeId} {resp : PreVoteResponse}
    (h : (n.handlePreVoteResponse sender resp).1.role = .leader) :
    Tenure n (.step (.preVoteResponse sender resp)) (n.handlePreVoteResponse sender resp).1 := by
  rcases handlePreVoteResponse_cases n sender resp with
    heq | heq | ⟨⟨hrole, -⟩, heq | ⟨-, heq⟩⟩ <;> rw [heq] at h ⊢
  · exact tenure_same h (fun _ => rfl) rfl rfl rfl
  · exact absurd h (becomeFollower_not_leader _ _ _)
  · cases hrole.symm.trans h
  · exact becomeCandidate_tenure (by simp [hrole]) h

theorem handleFetchRequest_tenure {n : RaftNode} {req : FetchRequest}
    (h : (n.handleFetchRequest req).1.role = .leader) :
    Tenure n (.step (.fetchRequest req)) (n.handleFetchRequest req).1 := by
  cases hacc : acceptsFetch n req with
  | false =>
    -- a guard fails, and the node still leads: nothing has changed
    have hrecord : ∀ r : Reign, r.after n (.step (.fetchRequest req)) = r := fun r => by
      simp [Reign.after, hacc]
    have hsame : (n.handleFetchRequest req).1 = n := by
      unfold RaftNode.handleFetchRequest at h ⊢
      split_ifs at h ⊢ with h₁ h₂ h₃ h₄ h₅ h₆
      · rfl
      · rfl
      · rfl
      · exact absurd h (becomeFollower_not_leader _ _ _)
      · rfl
      · rfl
      · exfalso
        simp_all [acceptsFetch]
    rw [hsame] at h ⊢
    exact tenure_same h hrecord rfl rfl rfl
  | true =>
    have hserved : (n.handleFetchRequest req).1 = n.stampFetch req.replicaId := by
      simp only [acceptsFetch, Bool.and_eq_true, Bool.or_eq_true, decide_eq_true_eq] at hacc
      obtain ⟨⟨⟨⟨⟨hcluster, hself⟩, hknown⟩, hepoch⟩, hlead⟩, hoffset⟩ := hacc
      have hsender : (!n.isKnownVoter req.replicaId && !n.hasPeer req.replicaId) = false := by
        rcases hknown with hk | hk <;> simp [hk]
      unfold RaftNode.handleFetchRequest
      simp only [hcluster, hself, hsender, hlead, hoffset, not_lt.mpr hepoch, ne_eq, not_true,
        if_false, Bool.false_eq_true]
      split <;> rfl
    have hlead : n.role = .leader := by
      rw [hserved] at h
      exact h
    exact .served hlead req rfl hacc hserved

theorem updatePeer_times (n : RaftNode) (id : NodeId) {f : PeerState → PeerState}
    (hf : ∀ p, (f p).lastFetchTime = p.lastFetchTime) : peerTimes (n.updatePeer id f) =
      peerTimes n := by
  simp only [peerTimes, RaftNode.updatePeer, List.map_map]
  apply List.map_congr_left
  intro p _
  simp only [Function.comp_apply]
  split_ifs <;> simp [hf]

theorem next_tenure {n : RaftNode} {call : Call}
    (h : (RoleScopedState.next n call).role = .leader) :
    Tenure n call (RoleScopedState.next n call) := by
  cases call with
  | becomeFollower term leaderId => exact absurd h (becomeFollower_not_leader _ _ _)
  | step input =>
    cases input with
    | tick => exact handleTick_tenure h
    | voteRequest req => exact handleVoteRequest_tenure h
    | voteResponse sender resp => exact handleVoteResponse_tenure h
    | preVoteRequest req => exact tenure_same h (fun _ => rfl) rfl rfl rfl
    | preVoteResponse sender resp => exact handlePreVoteResponse_tenure h
    | fetchRequest req => exact handleFetchRequest_tenure h
    | fetchResponse resp =>
      rw [RoleScopedState.next, perform, RaftNode.step] at h ⊢
      rcases handleFetchResponse_cases n resp with heq | ⟨k, opening, -, hacc, heq⟩ <;>
        rw [heq] at h ⊢
      · exact tenure_same h (fun _ => rfl) rfl rfl rfl
      · exact absurd ((payload_standing k resp).1 ▸ h) hacc.relinquishes.2.1
    | clientPropose command =>
      simp only [RoleScopedState.next, perform, RaftNode.step, RaftNode.handleClientPropose] at h ⊢
      split_ifs at h ⊢ with hr
      · exact absurd h hr
      · rw [not_not] at hr
        dsimp only at h ⊢
        obtain ⟨c, a, s, hnode⟩ := advanceCommit_fst
          (n.setLastLog (satAdd n.lastLogIndex 1) n.currentTerm)
        rw [hnode]
        exact tenure_same hr (fun _ => rfl) rfl rfl rfl
    | fetchRequestAcked replica offset =>
      simp only [RoleScopedState.next, perform, RaftNode.step,
        RaftNode.handleFetchRequestAcked] at h ⊢
      split_ifs at h ⊢ with hr
      · exact absurd h hr
      · exact tenure_same h (fun _ => rfl) rfl rfl rfl
      · rw [not_not] at hr
        obtain ⟨c, a, s, hnode⟩ := advanceCommit_fst (n.updatePeer replica (n.creditPeer offset))
        rw [hnode]
        exact .kept hr rfl rfl (updatePeer_times n replica (fun _ => rfl)) (fun _ => rfl)
    | snapshotComplete metadata =>
      simp only [RoleScopedState.next, perform, RaftNode.step,
        RaftNode.handleSnapshotComplete] at h ⊢
      split_ifs at h ⊢
      · exact tenure_same h (fun _ => rfl) rfl rfl rfl
      · exact tenure_same h (fun _ => rfl) rfl rfl rfl
    | snapshotInstalled metadata => exact tenure_same h (fun _ => rfl) rfl rfl rfl
    | fetchSnapshotReceived metadata data => exact tenure_same h (fun _ => rfl) rfl rfl rfl

theorem next_clocks (n : RaftNode) (call : Call) :
    ClocksForward n (RoleScopedState.next n call) := by
  cases call with
  | becomeFollower term leaderId => exact SameProgress.clocks (becomeFollower_sameProgress _ _ _)
  | step input => exact step_clocks n input

/-! ## The record of a leadership -/

/-- The last check found a quorum in its window. Before the first check, and while the clock stands
still at its maximum, there is nothing to say. -/
def Checked (n : RaftNode) (vs : VoterSet) (r : Reign) : Prop :=
  n.logicalTick ≤ r.started + n.checkQuorumElapsedTicks ∨
    ∃ c, c ≤ n.logicalTick ∧ n.logicalTick ≤ c + n.checkQuorumElapsedTicks ∧
      (c = u64Max ∨ r.started + n.checkQuorumIntervalTicks ≤ c) ∧
      (r.started + n.checkQuorumIntervalTicks ≤ c →
        vs.quorumSize ≤ (heard n vs r n.checkQuorumIntervalTicks c).card + 1)

structure Tallied (n : RaftNode) (vs : VoterSet) (r : Reign) : Prop where
  clock : n.logicalTick = min (r.started + r.ticks) u64Max
  begun : r.started ≤ n.logicalTick
  past : ∀ f ∈ r.fetches, f.2 ≤ n.logicalTick
  stamped : ∀ q ∈ peerTimes n, q.2 = r.started ∨ q ∈ r.fetches
  latest : ∀ q ∈ peerTimes n, ∀ f ∈ r.fetches, f.1 = q.1 → f.2 ≤ q.2
  elapsed : n.checkQuorumElapsedTicks < n.checkQuorumIntervalTicks
  phase : n.checkQuorumIntervalTicks ≤ u64Max →
    ∃ k, r.ticks = k * n.checkQuorumIntervalTicks + n.checkQuorumElapsedTicks
  checked : Checked n vs r

/-- The check is due exactly at the multiples of the window. -/
theorem Tallied.due {n : RaftNode} {vs : VoterSet} {r : Reign} (h : Tallied n vs r)
    (hdue : n.checkQuorumIntervalTicks ≤ satAdd n.checkQuorumElapsedTicks 1) :
    ∃ k, r.ticks + 1 = (k + 1) * n.checkQuorumIntervalTicks := by
  have helapsed := h.elapsed
  have hmax : satAdd n.checkQuorumElapsedTicks 1 ≤ u64Max := min_le_right _ _
  have hsucc : satAdd n.checkQuorumElapsedTicks 1 ≤ n.checkQuorumElapsedTicks + 1 := min_le_left _ _
  obtain ⟨k, hk⟩ := h.phase (hdue.trans hmax)
  refine ⟨k, ?_⟩
  rw [Nat.add_mul, Nat.one_mul]
  omega

theorem mem_peerTimes {n : RaftNode} {v : NodeId} {p : PeerState} (h : (v, p) ∈ n.peers) :
    (v, p.lastFetchTime) ∈ peerTimes n := List.mem_map.mpr ⟨(v, p), h, rfl⟩

/-- Every voter that a successful check counts was heard in the window; the stamp of the election
itself is too old for it. -/
theorem reachable_heard {n : RaftNode} {vs : VoterSet} {r : Reign} (htracks : Tracks n)
    (hvs : n.voterSet = some vs) (hreach : n.checkQuorumReachable = true)
    (hstamped : ∀ q ∈ peerTimes n, q.2 = r.started ∨ q ∈ r.fetches)
    (hpast : ∀ f ∈ r.fetches, f.2 ≤ n.logicalTick)
    (hwindow : r.started + n.checkQuorumIntervalTicks ≤ n.logicalTick) :
    vs.quorumSize ≤ (heard n vs r n.checkQuorumIntervalTicks n.logicalTick).card + 1 := by
  have hcount : vs.quorumSize ≤ n.countVoters vs
      (fun p => n.logicalTick - p.lastFetchTime < n.checkQuorumIntervalTicks) := by
    simpa [RaftNode.checkQuorumReachable, hvs] using hreach
  rw [← card_counted htracks] at hcount
  refine hcount.trans ((Finset.card_le_card ?_).trans (Finset.card_insert_le n.id _))
  intro v hv
  obtain ⟨hmem, hself | ⟨p, hp, hrecent⟩⟩ := mem_counted hv
  · rw [hself]
    exact Finset.mem_insert_self _ _
  · have hother : v ≠ n.id := by
      rintro rfl
      exact htracks.others (List.mem_map.mpr ⟨_, hp, rfl⟩)
    have hrecent : n.logicalTick - p.lastFetchTime < n.checkQuorumIntervalTicks := by
      simpa using hrecent
    refine Finset.mem_insert_of_mem (Finset.mem_filter.mpr ⟨hmem, hother, ?_⟩)
    rcases hstamped _ (mem_peerTimes hp) with hgrace | hfetch
    · dsimp only at hgrace
      omega
    · have hpast := hpast _ hfetch
      dsimp only at hpast
      exact ⟨_, hfetch, rfl, by dsimp only; omega, hpast⟩

theorem heard_reachable {n : RaftNode} {vs : VoterSet} {r : Reign} {c : ℕ} (htracks : Tracks n)
    (hvs : n.voterSet = some vs) (hself : n.id ∈ vs.ids)
    (hpeers : ∀ v ∈ vs.ids, v ≠ n.id → v ∈ n.peers.map Prod.fst)
    (hlatest : ∀ q ∈ peerTimes n, ∀ f ∈ r.fetches, f.1 = q.1 → f.2 ≤ q.2)
    (hclock : n.logicalTick ≤ c)
    (hquorum : vs.quorumSize - 1 ≤ (heard n vs r n.checkQuorumIntervalTicks c).card) :
    n.checkQuorumReachable = true := by
  have hcount : vs.quorumSize ≤ n.countVoters vs
      (fun p => n.logicalTick - p.lastFetchTime < n.checkQuorumIntervalTicks) := by
    have hnotin : n.id ∉ heard n vs r n.checkQuorumIntervalTicks c := fun h =>
      (Finset.mem_filter.mp h).2.1 rfl
    have hinsert := Finset.card_insert_of_notMem hnotin
    rw [← card_counted htracks]
    refine le_trans (by omega) (Finset.card_le_card
      (s := insert n.id (heard n vs r n.checkQuorumIntervalTicks c)) ?_)
    intro v hv
    rcases Finset.mem_insert.mp hv with rfl | hv
    · exact Finset.mem_union_left _ (by rw [if_pos hself]; exact Finset.mem_singleton_self _)
    · obtain ⟨hmem, hother, f, hf, rfl, hlow, hhigh⟩ := Finset.mem_filter.mp hv
      obtain ⟨⟨v, p⟩, hp, hkey⟩ := List.mem_map.mp (hpeers _ hmem hother)
      dsimp only at hkey
      have hstamp := hlatest _ (mem_peerTimes hp) f hf hkey.symm
      dsimp only at hstamp
      refine Finset.mem_union_right _ (List.mem_toFinset.mpr (List.mem_map.mpr ⟨(v, p), ?_, hkey⟩))
      refine List.mem_filter.mpr ⟨hp, ?_⟩
      simp only [Bool.and_eq_true, decide_eq_true_eq]
      exact ⟨hkey ▸ hmem, by omega⟩
  simpa [RaftNode.checkQuorumReachable, hvs] using hcount

/-! ## How the record is kept -/

theorem Tallied.kept {n m : RaftNode} {vs : VoterSet} {r : Reign} (h : Tallied n vs r)
    (hsame : SameIdentity n m) (htick : m.logicalTick = n.logicalTick)
    (helapsed : m.checkQuorumElapsedTicks = n.checkQuorumElapsedTicks)
    (htimes : peerTimes m = peerTimes n) : Tallied m vs r := by
  have hheard : ∀ window t, heard m vs r window t = heard n vs r window t := fun window t => by
    rw [heard, heard, hsame.id]
  refine ⟨?_, ?_, ?_, ?_, ?_, ?_, ?_, ?_⟩
  · rw [htick]
    exact h.clock
  · rw [htick]
    exact h.begun
  · rw [htick]
    exact h.past
  · rw [htimes]
    exact h.stamped
  · rw [htimes]
    exact h.latest
  · rw [helapsed, hsame.interval]
    exact h.elapsed
  · rw [helapsed, hsame.interval]
    exact h.phase
  · simp only [Checked, htick, helapsed, hsame.interval, hheard]
    exact h.checked

theorem stampFetch_times {n : RaftNode} {v : NodeId} {q : NodeId × ℕ}
    (h : q ∈ peerTimes (n.stampFetch v)) :
    q = (v, n.logicalTick) ∨ (q.1 ≠ v ∧ q ∈ peerTimes n) := by
  obtain ⟨p, hp, rfl⟩ := List.mem_map.mp h
  obtain ⟨p', hp', rfl⟩ := List.mem_map.mp hp
  dsimp only
  split_ifs with hv
  · exact .inl (by rw [hv]; rfl)
  · exact .inr ⟨hv, List.mem_map.mpr ⟨p', hp', rfl⟩⟩

theorem Tallied.served {n : RaftNode} {vs : VoterSet} {r : Reign} (h : Tallied n vs r)
    (v : NodeId) :
    Tallied (n.stampFetch v) vs { r with fetches := (v, n.logicalTick) :: r.fetches } := by
  refine ⟨h.clock, h.begun, ?_, ?_, ?_, h.elapsed, h.phase, ?_⟩
  · intro f hf
    rcases List.mem_cons.mp hf with rfl | hf
    · exact le_refl _
    · exact h.past f hf
  · intro q hq
    rcases stampFetch_times hq with rfl | ⟨-, hq⟩
    · exact .inr List.mem_cons_self
    · exact (h.stamped q hq).imp_right (List.mem_cons_of_mem _)
  · intro q hq f hf hkey
    rcases stampFetch_times hq with rfl | ⟨hne, hq⟩
    · rcases List.mem_cons.mp hf with rfl | hf
      · exact le_refl _
      · exact h.past f hf
    · rcases List.mem_cons.mp hf with rfl | hf
      · exact absurd hkey.symm hne
      · exact h.latest q hq f hf hkey
  · refine h.checked.imp_right ?_
    rintro ⟨c, hle, hlast, hfirst, hquorum⟩
    refine ⟨c, hle, hlast, hfirst, fun hw => (hquorum hw).trans ?_⟩
    refine Nat.add_le_add_right (Finset.card_le_card (heard_mono rfl ?_ (le_refl _) (le_refl _))) 1
    exact List.subset_cons_self _ _

def Counts (n : RaftNode) (e : ℕ) : Prop :=
  n.advanceClock.countCheckQuorum = { n.advanceClock with checkQuorumElapsedTicks := e }

theorem counts_due {n : RaftNode} (hlead : n.role = .leader)
    (hcheck : n.config.enableCheckQuorum = true)
    (hdue : n.checkQuorumIntervalTicks ≤ satAdd n.checkQuorumElapsedTicks 1) : Counts n 0 := by
  simp [Counts, RaftNode.countCheckQuorum, RaftNode.advanceClock, hlead, hcheck, hdue]

theorem counts_early {n : RaftNode} (hlead : n.role = .leader)
    (hcheck : n.config.enableCheckQuorum = true)
    (hdue : ¬n.checkQuorumIntervalTicks ≤ satAdd n.checkQuorumElapsedTicks 1) :
    Counts n (satAdd n.checkQuorumElapsedTicks 1) := by
  simp [Counts, RaftNode.countCheckQuorum, RaftNode.advanceClock, hlead, hcheck, hdue]

theorem Tallied.clock_next {n : RaftNode} {vs : VoterSet} {r : Reign} (h : Tallied n vs r) :
    satAdd n.logicalTick 1 = min (r.started + (r.ticks + 1)) u64Max := by
  rw [h.clock, satAdd]
  omega

theorem Tallied.clock_forward {n : RaftNode} {vs : VoterSet} {r : Reign} (h : Tallied n vs r) :
    n.logicalTick ≤ satAdd n.logicalTick 1 :=
  le_satAdd (by rw [h.clock]; exact min_le_right _ _)

theorem Tallied.waited {n : RaftNode} {vs : VoterSet} {r : Reign} (h : Tallied n vs r)
    (hearly : ¬n.checkQuorumIntervalTicks ≤ satAdd n.checkQuorumElapsedTicks 1) :
    Tallied { n.advanceClock with checkQuorumElapsedTicks := satAdd n.checkQuorumElapsedTicks 1 } vs
      { r with ticks := r.ticks + 1 } := by
  have hforward := h.clock_forward
  have helapsed := h.elapsed
  refine ⟨h.clock_next, h.begun.trans hforward, fun f hf => (h.past f hf).trans hforward, h.stamped,
    h.latest, not_le.mp hearly, fun hmax => ?_, ?_⟩
  · have hmax : n.checkQuorumIntervalTicks ≤ u64Max := hmax
    obtain ⟨k, hk⟩ := h.phase hmax
    have hsucc : satAdd n.checkQuorumElapsedTicks 1 = n.checkQuorumElapsedTicks + 1 :=
      satAdd_eq (by omega)
    refine ⟨k, ?_⟩
    dsimp only [RaftNode.advanceClock]
    rw [hk, hsucc]
    rfl
  · have hnext : satAdd n.logicalTick 1 ≤ n.logicalTick + 1 := min_le_left _ _
    have hroom : satAdd n.logicalTick 1 ≤ u64Max := min_le_right _ _
    have hsucc : satAdd n.checkQuorumElapsedTicks 1 =
        min (n.checkQuorumElapsedTicks + 1) u64Max := rfl
    dsimp only [Checked, RaftNode.advanceClock]
    rcases h.checked with hearly | ⟨c, hle, hlast, hfirst, hquorum⟩
    · left
      omega
    · exact .inr ⟨c, hle.trans hforward, by omega, hfirst, hquorum⟩

theorem Tallied.passed {n : RaftNode} {vs : VoterSet} {r : Reign} (h : Tallied n vs r)
    (htracks : Tracks n) (hvs : n.voterSet = some vs)
    (hdue : n.checkQuorumIntervalTicks ≤ satAdd n.checkQuorumElapsedTicks 1)
    (hreach : n.advanceClock.checkQuorumReachable = true) :
    Tallied { n.advanceClock with checkQuorumElapsedTicks := 0 } vs
      { r with ticks := r.ticks + 1 } := by
  have hforward := h.clock_forward
  obtain ⟨k, hk⟩ := h.due hdue
  refine ⟨h.clock_next, h.begun.trans hforward, fun f hf => (h.past f hf).trans hforward, h.stamped,
    h.latest, Nat.zero_lt_of_lt h.elapsed, fun _ => ⟨k + 1, hk⟩, .inr ?_⟩
  refine ⟨satAdd n.logicalTick 1, le_refl _, le_refl _, ?_, fun hwindow => ?_⟩
  · have hone : n.checkQuorumIntervalTicks ≤ (k + 1) * n.checkQuorumIntervalTicks :=
      Nat.le_mul_of_pos_left _ (Nat.succ_pos k)
    dsimp only [RaftNode.advanceClock]
    rw [h.clock_next, hk]
    omega
  · exact reachable_heard (n := n.advanceClock) ⟨htracks.nodup, htracks.others⟩ hvs hreach
      h.stamped (fun f hf => (h.past f hf).trans hforward) hwindow

theorem Tallied.ticked {n : RaftNode} {vs : VoterSet} {r : Reign} (h : Tallied n vs r)
    (htracks : Tracks n) (hvs : n.voterSet = some vs) (hlead : n.role = .leader)
    (hcheck : n.config.enableCheckQuorum = true) (hreached : n.advanceClock.quorumLost = false) :
    Tallied n.advanceClock.countCheckQuorum vs { r with ticks := r.ticks + 1 } := by
  by_cases hdue : n.checkQuorumIntervalTicks ≤ satAdd n.checkQuorumElapsedTicks 1
  · have hreach : n.advanceClock.checkQuorumReachable = true := by
      have hrole : n.advanceClock.role = .leader := hlead
      have hconfig : n.advanceClock.config.enableCheckQuorum = true := hcheck
      have hdue' : n.advanceClock.checkQuorumIntervalTicks ≤
          satAdd n.advanceClock.checkQuorumElapsedTicks 1 := hdue
      simpa [RaftNode.quorumLost, hrole, hconfig, hdue'] using hreached
    rw [counts_due hlead hcheck hdue]
    exact h.passed htracks hvs hdue hreach
  · rw [counts_early hlead hcheck hdue]
    exact h.waited hdue

theorem tallied_fresh {m : RaftNode} {vs : VoterSet} (htick : m.logicalTick ≤ u64Max)
    (hinterval : 0 < m.checkQuorumIntervalTicks) (helapsed : m.checkQuorumElapsedTicks = 0)
    (htimes : ∀ p ∈ m.peers, p.2.lastFetchTime = m.logicalTick) :
    Tallied m vs ⟨m.logicalTick, 0, []⟩ := by
  refine ⟨?_, le_refl _, fun f hf => (by cases hf), fun q hq => ?_,
    fun q _ f hf => (by cases hf), ?_, fun _ => ⟨0, ?_⟩, .inl (Nat.le_add_right _ _)⟩
  · dsimp only
    omega
  · obtain ⟨p, hp, rfl⟩ := List.mem_map.mp hq
    exact .inl (htimes p hp)
  · rw [helapsed]
    exact hinterval
  · rw [helapsed, Nat.zero_mul]

/-! ## Runs -/

structure Watched (config : ClusterConfig) (vs : VoterSet) (rng : List ℕ) (w : Watch) : Prop where
  identity : SameIdentity (RaftNode.build config (some vs) rng) w.node
  clock : w.node.logicalTick ≤ u64Max
  leads : w.node.role = .leader ↔ w.reign.isSome
  tallied : ∀ r ∈ w.reign, Tallied w.node vs r

theorem Watched.tracks {config : ClusterConfig} {vs : VoterSet} {rng : List ℕ} {w : Watch}
    (h : Watched config vs rng w) : Tracks w.node := by
  obtain ⟨hnodup, hothers⟩ := initialPeers_otherKeys config (some vs)
  exact tracks_of_kinds h.identity.peers h.identity.id ⟨hnodup, hothers⟩

theorem Watched.next {config : ClusterConfig} {vs : VoterSet} {rng : List ℕ} {w : Watch}
    (hcheck : config.enableCheckQuorum = true) (h : Watched config vs rng w) (call : Call) :
    Watched config vs rng (w.next call) := by
  have hsame := perform_identity w.node call
  have hclock : (RoleScopedState.next w.node call).logicalTick ≤ u64Max :=
    ((next_clocks w.node call).tick h.clock).2
  refine ⟨h.identity.trans hsame, hclock, ?_, ?_⟩
  · simp only [Watch.next]
    split_ifs with hlead
    · simp [hlead]
    · simp [hlead]
  · simp only [Watch.next]
    intro r hr
    split_ifs at hr with hlead
    · obtain rfl := Option.mem_some_iff.mp hr
      cases hreign : w.reign with
      | none =>
        have hprior : w.node.role ≠ .leader := by
          intro hl
          simpa [hreign] using h.leads.mp hl
        have hinterval : 0 < (RoleScopedState.next w.node call).checkQuorumIntervalTicks := by
          rw [(h.identity.trans hsame).interval]
          exact Nat.lt_of_lt_of_le Nat.zero_lt_one (le_max_right _ _)
        cases next_tenure hlead with
        | kept prior => exact absurd prior hprior
        | ticked prior => exact absurd prior hprior
        | served prior => exact absurd prior hprior
        | fresh _ elapsed times => exact tallied_fresh hclock hinterval elapsed times
      | some r =>
        have hprior : w.node.role = .leader := h.leads.mpr (by rw [hreign]; rfl)
        have htallied := h.tallied r hreign
        have hconfig : w.node.config.enableCheckQuorum = true := by
          rw [h.identity.config]
          exact hcheck
        cases next_tenure hlead with
        | kept _ tick elapsed times record =>
          dsimp only
          rw [record r]
          exact htallied.kept hsame tick elapsed times
        | ticked _ input reached result =>
          rw [result, input]
          exact htallied.ticked h.tracks h.identity.voterSet hprior hconfig reached
        | served _ req input accepted result =>
          rw [result, input]
          simp only [Reign.after, accepted, if_true]
          exact htallied.served req.replicaId
        | fresh prior => exact absurd hprior prior
    · cases hr

/-- A leader that outlives its first window has heard from a quorum within the last two; and a
leader that has heard from a quorum in the window of a check is not stepped down by it. -/
theorem check_quorum_bounds_leadership {p : VoterParsing} {config : ClusterConfig}
    {rng : List ℕ} {fresh n₀ : RaftNode} {vs : VoterSet} {w : Watch} {r : Reign}
    (hnew : RaftNode.new p config rng = .ok fresh) (hstart : Recovered fresh n₀)
    (hclock : n₀.logicalTick ≤ u64Max) (hcheck : config.enableCheckQuorum = true)
    (hvs : n₀.voterSet = some vs) (hself : n₀.id ∈ vs.ids)
    (hrun : Execution Watch.next (fun _ _ => True) ⟨n₀, none⟩ w) (hreign : w.reign = some r) :
    let window := w.node.checkQuorumIntervalTicks
    let t := w.node.logicalTick
    (r.started + window ≤ t →
        vs.quorumSize ≤ (insert w.node.id (heard w.node vs r (2 * window) t)).card) ∧
      ((∀ k, 1 ≤ k → r.ticks + 1 = k * window →
          vs.quorumSize - 1 ≤ (heard w.node vs r window (r.started + k * window)).card) →
        w.node.handleTick.1.role = .leader) := by
  obtain ⟨voterSet, rfl, -⟩ := new_build hnew
  obtain rfl : voterSet = some vs := hstart.identity.voterSet.symm.trans hvs
  have hnotLeader : n₀.role ≠ .leader := by
    rw [hstart.role]
    simp only [RaftNode.build]
    split_ifs <;> simp
  have hfirst : Watched config vs rng ⟨n₀, none⟩ :=
    ⟨hstart.identity, hclock, by simp [hnotLeader], fun r hr => (by cases hr)⟩
  have hw : Watched config vs rng w :=
    hrun.invariant (fun _ call h _ => h.next hcheck call) hfirst
  have htallied := hw.tallied r hreign
  have hlead : w.node.role = .leader := hw.leads.mpr (by rw [hreign]; rfl)
  have hid : w.node.id = n₀.id := hw.identity.id.trans hstart.identity.id.symm
  refine ⟨fun hlong => ?_, fun hheard => ?_⟩
  · have helapsed := htallied.elapsed
    rcases htallied.checked with hearly | ⟨c, hle, hlast, hfirst, hquorum⟩
    · omega
    · have hmax := hw.clock
      have hwindow : r.started + w.node.checkQuorumIntervalTicks ≤ c := by omega
      have hnotin : w.node.id ∉ heard w.node vs r (2 * w.node.checkQuorumIntervalTicks)
          w.node.logicalTick := fun h => (Finset.mem_filter.mp h).2.1 rfl
      rw [Finset.card_insert_of_notMem hnotin]
      refine (hquorum hwindow).trans (Nat.add_le_add_right (Finset.card_le_card ?_) 1)
      exact heard_mono rfl (fun _ hf => hf) (by omega) hle
  · have hreach : w.node.checkQuorumIntervalTicks ≤ satAdd w.node.checkQuorumElapsedTicks 1 →
        w.node.advanceClock.checkQuorumReachable = true := by
      intro hdue
      obtain ⟨k, hk⟩ := htallied.due hdue
      have hpeers : ∀ v ∈ vs.ids, v ≠ w.node.id → v ∈ w.node.peers.map Prod.fst := by
        intro v hv hother
        rw [keys_of_kinds hw.identity.peers]
        exact initialPeers_tracks_voters config hv (fun hc => hother (hc.trans hw.identity.id.symm))
      have hnext : satAdd w.node.logicalTick 1 ≤
          r.started + (k + 1) * w.node.checkQuorumIntervalTicks := by
        rw [htallied.clock_next, hk]
        exact min_le_left _ _
      exact heard_reachable (n := w.node.advanceClock) ⟨hw.tracks.nodup, hw.tracks.others⟩
        hw.identity.voterSet (hid ▸ hself) hpeers htallied.latest hnext
        (hheard (k + 1) (Nat.succ_pos k) hk)
    have hkept : w.node.advanceClock.quorumLost = false := by
      by_cases hdue : w.node.checkQuorumIntervalTicks ≤ satAdd w.node.checkQuorumElapsedTicks 1
      · simp [RaftNode.quorumLost, hreach hdue]
      · have hdue' : ¬w.node.advanceClock.checkQuorumIntervalTicks ≤
            satAdd w.node.advanceClock.checkQuorumElapsedTicks 1 := hdue
        simp [RaftNode.quorumLost, hdue']
    rw [handleTick_leader hlead, hkept, if_neg Bool.false_ne_true]
    unfold RaftNode.countCheckQuorum
    split_ifs <;> exact hlead

def guardedConfig : ClusterConfig :=
  { threeVoterConfig true 1 with checkQuorumIntervalMs := some 20 }

abbrev guardedVoter : RaftNode := RaftNode.build guardedConfig (some threeVoterSet) []

/-- Voter 1 is elected by voter 2, which then fetches once before the first check. -/
def backedReign : List Call :=
  firstLeadership ++ [.step .tick, .step (.fetchRequest ⟨"c", 1, 2, 1, 0⟩), .step .tick]

theorem check_quorum_bounds_leadership_first_check :
    let w := replay Watch.next ⟨guardedVoter, none⟩ backedReign
    threeVoterSet.quorumSize ≤ (insert w.node.id (heard w.node threeVoterSet ⟨2, 2, [(2, 3)]⟩
        (2 * w.node.checkQuorumIntervalTicks) w.node.logicalTick)).card ∧
      w.node.logicalTick = 4 ∧ w.node.checkQuorumIntervalTicks = 2 := by
  have hnew : RaftNode.new sampleParsing guardedConfig [] = .ok guardedVoter := rfl
  have hrun : Execution Watch.next (fun _ _ => True) ⟨guardedVoter, none⟩
      (replay Watch.next ⟨guardedVoter, none⟩ backedReign) := replay_execution (admissible_true _ _)
  refine ⟨(check_quorum_bounds_leadership (r := ⟨2, 2, [(2, 3)]⟩) hnew ⟨.refl _, rfl⟩
    (by decide +kernel) rfl rfl (by decide +kernel) hrun rfl).1 (by decide +kernel), ?_⟩
  exact ⟨by decide +kernel, by decide +kernel⟩

end CheckQuorumWindow
