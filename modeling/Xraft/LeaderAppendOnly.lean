import Xraft.BatchFootprints
import Xraft.LeaderStamps
import Xraft.DurableBeforeVisible
import Xraft.ElectionSafety

/-! # A leader only appends

What a driver does while its engine leads one term: entries are added right behind the log, nothing
is cut or installed, and a peer's progress moves only when a served fetch is acknowledged.
-/
namespace LeaderAppendOnly

open ProtocolTypes ConsensusEngine DurableStores NodeDriver EngineTransitions GuardedExecution
open PersistOrder DriverJournal ApplyPipeline FaultFreeBatches DriverTurns LeaderStamps
  BatchFootprints
open ServerRecovery DurableBeforeVisible

def Leads (term : ℕ) (n : RaftNode) : Prop := n.role = .leader ∧ n.currentTerm = term

def peerOffsets (n : RaftNode) : List (NodeId × ℕ) :=
    n.peers.map (fun p => (p.1, p.2.lastFetchOffset))

/-- A leader knows itself as the leader and credits no peer beyond its own log. -/
structure Crowned (n : RaftNode) : Prop where
  leaderId : n.leaderId = some n.id
  bounded : ∀ p ∈ peerOffsets n, p.2 ≤ n.lastLogIndex

/-- Actions of an engine that comes to lead `term` or goes on leading it, served fetches apart. -/
def Royal (n : RaftNode) (term : ℕ) : Action → Prop
  | .appendEntries entries => ∃ payload, entries = [⟨satAdd n.lastLogIndex 1, term, payload⟩]
  | .truncateLog (.suffixFromInclusive _) => False
  | .installSnapshot _ _ => False
  | .serveFetch .. => False
  | _ => True

structure Reigns (n : RaftNode) (r : RaftNode × List Action) : Prop where
  actions : ∀ a ∈ r.2, Royal n r.1.currentTerm a
  tip : n.lastLogIndex ≤ r.1.lastLogIndex
  commit : n.commitIndex ≤ r.1.commitIndex
  crowned : Crowned r.1
  kept : n.role = .leader → peerOffsets r.1 = peerOffsets n

variable {n m k : RaftNode} {actions more : List Action}

theorem Reigns.append (h : Reigns n (m, actions)) (hmore : ∀ a ∈ more, Royal n m.currentTerm a) :
    Reigns n (m, actions ++ more) := by
  refine ⟨fun a ha => ?_, h.tip, h.commit, h.crowned, h.kept⟩
  exact (List.mem_append.mp ha).elim (h.actions a) (hmore a)

theorem Reigns.prepend (h : Reigns n (m, actions)) (hmore : ∀ a ∈ more, Royal n m.currentTerm a) :
    Reigns n (m, more ++ actions) := by
  refine ⟨fun a ha => ?_, h.tip, h.commit, h.crowned, h.kept⟩
  exact (List.mem_append.mp ha).elim (hmore a) (h.actions a)

theorem reigns_idle (h : Crowned n) (tip : m.lastLogIndex = n.lastLogIndex)
    (commit : m.commitIndex = n.commitIndex) (leaderId : m.leaderId = n.leaderId) (id : m.id = n.id)
    (offsets : peerOffsets m = peerOffsets n) (ha : ∀ a ∈ actions, Royal n m.currentTerm a) :
    Reigns n (m, actions) := by
  refine ⟨ha, tip.ge, commit.ge, ⟨?_, ?_⟩, fun _ => offsets⟩
  · rw [leaderId, id]
    exact h.leaderId
  · rw [offsets, tip]
    exact h.bounded

theorem reigns_refl (h : Crowned n) : Reigns n (n, []) :=
  reigns_idle h rfl rfl rfl rfl rfl (by simp)

theorem royal_of_applies {term : ℕ} {a : Action} (h : Applies a) : Royal n term a := by
  cases a <;> first | exact h.elim | trivial

theorem advanceCommit_le (n : RaftNode) : n.commitIndex ≤ n.advanceCommit.1.commitIndex := by
  unfold RaftNode.advanceCommit
  split
  · rename_i candidate hc
    obtain ⟨a, s, h⟩ := drainApplyPipeline_fst { n with commitIndex := candidate }
    rw [h]
    exact (tryAdvanceCommitIndex_cases hc).1.le
  · exact le_refl _

theorem advanceCommit_reigns (h : Reigns n (m, actions)) :
    Reigns n (m.advanceCommit.1, actions ++ m.advanceCommit.2) := by
  have hcommit := advanceCommit_le m
  have hroyal : ∀ a ∈ m.advanceCommit.2, Royal n m.currentTerm a :=
    fun a ha => royal_of_applies (advanceCommit_applies m a ha)
  obtain ⟨c, a, s, heq⟩ := advanceCommit_fst m
  have hend := h.append hroyal
  rw [heq] at hcommit ⊢
  exact ⟨hend.actions, h.tip, h.commit.trans hcommit,
    ⟨h.crowned.leaderId, h.crowned.bounded⟩, h.kept⟩

theorem becomeLeader_reigns (hroom : k.lastLogIndex < u64Max)
    (tip : n.lastLogIndex = k.lastLogIndex) (commit : n.commitIndex = k.commitIndex)
    (prior : k.role ≠ .leader) : Reigns k n.becomeLeader := by
  have hindex : n.noOpEntry.index = k.lastLogIndex + 1 := by
    show satAdd n.lastLogIndex 1 = _
    rw [tip]
    exact satAdd_eq hroom
  apply advanceCommit_reigns
  refine ⟨?_, ?_, commit.ge, ⟨rfl, ?_⟩, fun h => absurd h prior⟩
  · intro a ha
    simp only [List.mem_cons, List.not_mem_nil, or_false] at ha
    rcases ha with rfl | rfl
    · trivial
    · refine ⟨.noOp, ?_⟩
      rw [← tip]
      rfl
  · show k.lastLogIndex ≤ n.noOpEntry.index
    omega
  · intro p hp
    obtain ⟨q, hq, rfl⟩ := List.mem_map.mp hp
    obtain ⟨q', _, rfl⟩ := List.mem_map.mp hq
    exact Nat.zero_le _

theorem royal_sends {term : ℕ} {peers : List NodeId} {message : OutboundMessage} :
    ∀ a ∈ peers.map (fun p => Action.sendMessage p message), Royal n term a := by
  intro a ha
  obtain ⟨p, _, rfl⟩ := List.mem_map.mp ha
  trivial

theorem becomeCandidate_reigns (hroom : k.lastLogIndex < u64Max)
    (tip : n.lastLogIndex = k.lastLogIndex) (commit : n.commitIndex = k.commitIndex)
    (prior : k.role ≠ .leader) (h : n.becomeCandidate.1.role = .leader) :
    Reigns k n.becomeCandidate := by
  unfold RaftNode.becomeCandidate at h ⊢
  split_ifs at h ⊢
  · have hlead : Reigns k n.enterCandidate.becomeLeader :=
      becomeLeader_reigns hroom tip commit prior
    refine hlead.prepend (fun a ha => ?_)
    rcases List.mem_cons.mp ha with rfl | ha
    · trivial
    · exact royal_sends a ha
  · cases h

theorem handleTick_reigns (hroom : n.lastLogIndex < u64Max)
    (hn : n.role = .leader → Crowned n) (h : n.handleTick.1.role = .leader) :
    Reigns n n.handleTick := by
  obtain ⟨t, c, ht⟩ := ticked_eq n
  have hrole : (ticked n).role = n.role := by rw [ht]
  have htip : (ticked n).lastLogIndex = n.lastLogIndex := by rw [ht]
  have hcommit : (ticked n).commitIndex = n.commitIndex := by rw [ht]
  have hfetch : ∀ term, ∀ a ∈ n.advanceClock.scheduleFetch.2, Royal n term a := by
    intro term a ha
    obtain ⟨dest, rfl⟩ := scheduleFetch_sends ha
    trivial
  rw [handleTick_eq] at h ⊢
  split_ifs at h ⊢
  · exact absurd h (becomeFollower_not_leader _ _ _)
  · unfold RaftNode.electionTimeout RaftNode.becomePreCandidate at h ⊢
    split_ifs at h ⊢ with hexp hq
    · have hprior : n.role ≠ .leader := by
        intro hl
        rw [hrole, hl] at hexp
        simp at hexp
      have hlead : Reigns n (ticked n).enterPreCandidate.becomeCandidate :=
        becomeCandidate_reigns hroom htip hcommit hprior h
      exact (hlead.prepend royal_sends).prepend (hfetch _)
    · cases h
    · rw [hrole] at h
      exact reigns_idle (hn h) htip hcommit (by rw [ht]) (by rw [ht]) (by rw [ht]; rfl) (hfetch _)

theorem handleVoteRequest_reigns (hn : n.role = .leader → Crowned n) {req : VoteRequest}
    (h : (n.handleVoteRequest req).1.role = .leader) : Reigns n (n.handleVoteRequest req) := by
  rcases handleVoteRequest_cases n req with heq | ⟨-, heq | ⟨-, heq⟩⟩ <;> rw [heq] at h ⊢
  · exact reigns_refl (hn h)
  · exact reigns_idle (hn h) rfl rfl rfl rfl rfl (by simp [Royal])
  · have hroyal : ∀ a ∈ answering n req, Royal n (answered n req).currentTerm a := by
      intro a ha
      rcases mem_answering ha with rfl | rfl | rfl <;> trivial
    rw [answered_role] at h
    split_ifs at h with hnew
    rcases answered_current hnew with hvote | hvote <;> rw [hvote] at hroyal ⊢
    · exact reigns_idle (hn h) rfl rfl rfl rfl rfl hroyal
    · exact reigns_idle (hn h) rfl rfl rfl rfl rfl hroyal

theorem handleVoteResponse_reigns (hroom : n.lastLogIndex < u64Max)
    (hn : n.role = .leader → Crowned n) {sender : NodeId} {resp : VoteResponse}
    (h : (n.handleVoteResponse sender resp).1.role = .leader) :
    Reigns n (n.handleVoteResponse sender resp) := by
  rcases handleVoteResponse_cases n sender resp with
    heq | heq | ⟨⟨hrole, -⟩, heq | ⟨-, heq⟩⟩ <;> rw [heq] at h ⊢
  · exact reigns_refl (hn h)
  · exact absurd h (becomeFollower_not_leader _ _ _)
  · cases hrole.symm.trans h
  · exact becomeLeader_reigns hroom rfl rfl (by simp [hrole])

theorem handlePreVoteResponse_reigns (hroom : n.lastLogIndex < u64Max)
    (hn : n.role = .leader → Crowned n) {sender : NodeId} {resp : PreVoteResponse}
    (h : (n.handlePreVoteResponse sender resp).1.role = .leader) :
    Reigns n (n.handlePreVoteResponse sender resp) := by
  rcases handlePreVoteResponse_cases n sender resp with
    heq | heq | ⟨⟨hrole, -⟩, heq | ⟨-, heq⟩⟩ <;> rw [heq] at h ⊢
  · exact reigns_refl (hn h)
  · exact absurd h (becomeFollower_not_leader _ _ _)
  · cases hrole.symm.trans h
  · exact becomeCandidate_reigns hroom rfl rfl (by simp [hrole]) h

theorem updatePeer_offsets_eq (n : RaftNode) (id : NodeId) {f : PeerState → PeerState}
    (hf : ∀ p, (f p).lastFetchOffset = p.lastFetchOffset) :
    peerOffsets (n.updatePeer id f) = peerOffsets n := by
  simp only [peerOffsets, RaftNode.updatePeer, List.map_map]
  apply List.map_congr_left
  intro p _
  simp only [Function.comp_apply]
  split_ifs <;> simp [hf]

theorem handleFetchRequest_reigns (hn : n.role = .leader → Crowned n) {req : FetchRequest}
    (h : (n.handleFetchRequest req).1.role = .leader) : Reigns n (n.handleFetchRequest req) ∨
      n.handleFetchRequest req = serving n req ∧ Reigns n (n.stampFetch req.replicaId, []) := by
  have hoffsets : peerOffsets (n.stampFetch req.replicaId) = peerOffsets n :=
    updatePeer_offsets_eq n req.replicaId (fun _ => rfl)
  rcases handleFetchRequest_cases n req with heq | heq | ⟨-, ⟨_, heq⟩ | heq⟩ <;> rw [heq] at h ⊢
  · exact .inl (reigns_refl (hn h))
  · exact absurd h (becomeFollower_not_leader _ _ _)
  · exact .inl (reigns_idle (hn h) rfl rfl rfl rfl hoffsets (by simp [Royal]))
  · exact .inr ⟨rfl, reigns_idle (hn h) rfl rfl rfl rfl hoffsets (by simp)⟩

theorem handleFetchResponse_reigns (hn : n.role = .leader → Crowned n) {resp : FetchResponse}
    (h : (n.handleFetchResponse resp).1.role = .leader) :
    Reigns n (n.handleFetchResponse resp) := by
  rcases handleFetchResponse_cases n resp with heq | ⟨m, opening, -, hacc, heq⟩ <;> rw [heq] at h ⊢
  · exact reigns_refl (hn h)
  · exact absurd ((payload_standing m resp).1 ▸ h) hacc.relinquishes.2.1

theorem handleClientPropose_reigns (hroom : n.lastLogIndex < u64Max)
    (hn : n.role = .leader → Crowned n) {command : Bytes}
    (h : (n.handleClientPropose command).1.role = .leader) :
    Reigns n (n.handleClientPropose command) := by
  unfold RaftNode.handleClientPropose at h ⊢
  split_ifs at h ⊢ with hrole
  · exact reigns_refl (hn h)
  · rw [not_not] at hrole
    have hindex : satAdd n.lastLogIndex 1 = n.lastLogIndex + 1 := satAdd_eq hroom
    have hset : Reigns n (n.setLastLog (satAdd n.lastLogIndex 1) n.currentTerm,
        [.appendEntries [⟨satAdd n.lastLogIndex 1, n.currentTerm, .command command⟩]]) := by
      refine ⟨?_, ?_, le_refl _, ⟨(hn hrole).leaderId, fun p hp => ?_⟩, fun _ => rfl⟩
      · intro a ha
        rw [List.mem_singleton.mp ha]
        exact ⟨.command command, rfl⟩
      · show n.lastLogIndex ≤ satAdd n.lastLogIndex 1
        omega
      · have := (hn hrole).bounded p hp
        show p.2 ≤ satAdd n.lastLogIndex 1
        omega
    exact advanceCommit_reigns hset

/-- Every engine step of the select loop that ends in leadership. -/
theorem drives_reigns {event : DriverEvent} {r : RaftNode × List Action} (h : Drives n event r)
    (hroom : n.lastLogIndex < u64Max) (hn : n.role = .leader → Crowned n)
    (hpeer : ∀ peer clusterId epoch metadata data,
      event = .fetchSnapshotResult peer clusterId epoch metadata data → peer ≠ n.id)
    (hlead : r.1.role = .leader) : Reigns n r ∨ ∃ req, event = .inboundFetch req ∧
      r = serving n req ∧ Reigns n (n.stampFetch req.replicaId, []) := by
  cases h with
  | idle event flag => exact .inl (reigns_idle (hn hlead) rfl rfl rfl rfl rfl (by simp))
  | @step _ input hinput =>
    cases input with
    | tick => exact .inl (handleTick_reigns hroom hn hlead)
    | voteRequest req => exact .inl (handleVoteRequest_reigns hn hlead)
    | voteResponse sender resp => exact .inl (handleVoteResponse_reigns hroom hn hlead)
    | preVoteRequest req =>
      refine .inl (reigns_idle (hn hlead) rfl rfl rfl rfl rfl (fun a ha => ?_))
      obtain ⟨-, _, rfl⟩ := mem_handlePreVoteRequest ha
      trivial
    | preVoteResponse sender resp => exact .inl (handlePreVoteResponse_reigns hroom hn hlead)
    | fetchRequest req =>
      have hevent : event = .inboundFetch req := by
        cases event <;> simp_all [inputOf]
      exact (handleFetchRequest_reigns hn hlead).imp_right (fun h => ⟨req, hevent, h.1, h.2⟩)
    | fetchResponse resp => exact .inl (handleFetchResponse_reigns hn hlead)
    | clientPropose command => exact .inl (handleClientPropose_reigns hroom hn hlead)
    | fetchRequestAcked _ _ | snapshotComplete _ | snapshotInstalled _
    | fetchSnapshotReceived _ _ =>
      cases event <;> simp [inputOf] at hinput
  | outrun req => exact absurd hlead (becomeFollower_not_leader _ _ _)
  | overtaken _ _ _ _ _ => exact absurd hlead (becomeFollower_not_leader _ _ _)
  | @received peer clusterId epoch snap data hleader =>
    -- a leader follows itself, so the snapshot would have to come from the node itself
    have hself := (hn hlead).leaderId
    rw [hleader] at hself
    exact absurd (Option.some.inj hself) (hpeer _ _ _ _ _ rfl)
  | completed metadata =>
    unfold RaftNode.handleSnapshotComplete at hlead ⊢
    split_ifs at hlead ⊢
    · exact .inl (reigns_idle (hn hlead) rfl rfl rfl rfl rfl (by simp [Royal]))
    · exact .inl (reigns_idle (hn hlead) rfl rfl rfl rfl rfl (by simp))

/-! ## The driver's part -/

def Loyal (last term : ℕ) : Effect → Prop
  | .append entries => ∃ payload, entries = [⟨last + 1, term, payload⟩]
  | .truncate _ => False
  | .saveSnapshot _ => False
  | _ => True

theorem loyal_of_leaves {last term : ℕ} {a : Action} (hroom : n.lastLogIndex < u64Max)
    (hlast : n.lastLogIndex = last) (ha : Royal n term a) {x : Effect} (hx : Leaves a x) :
    Loyal last term x := by
  cases x with
  | append entries =>
    obtain rfl : a = .appendEntries entries := hx
    obtain ⟨payload, rfl⟩ := ha
    exact ⟨payload, by rw [satAdd_eq hroom, hlast]⟩
  | truncate k =>
    rcases hx with rfl | ⟨_, _, rfl⟩
    · exact ha.elim
    · exact ha.elim
  | saveSnapshot metadata =>
    obtain ⟨_, _, rfl⟩ := hx
    exact ha.elim
  | _ => trivial

theorem loyal_of_light {last term : ℕ} {x : Effect} (hx : Light x) : Loyal last term x := by
  cases x <;> first | exact hx.elim | trivial

structure Credited (n m : RaftNode) (dest : NodeId) (confirmed : ℕ) : Prop where
  leaderId : m.leaderId = n.leaderId
  id : m.id = n.id
  tip : m.lastLogIndex = n.lastLogIndex
  commit : n.commitIndex ≤ m.commitIndex
  offsets : peerOffsets m = (peerOffsets n).map (fun p =>
    if p.1 = dest then (p.1, max p.2 (min confirmed n.lastLogIndex)) else p)

theorem handleFetchRequestAcked_credited (dest : NodeId) (confirmed : ℕ)
    (h : (n.handleFetchRequestAcked dest confirmed).1 ≠ n) :
    Credited n (n.handleFetchRequestAcked dest confirmed).1 dest confirmed := by
  unfold RaftNode.handleFetchRequestAcked at h ⊢
  split_ifs at h ⊢
  · exact absurd rfl h
  · exact absurd rfl h
  · have hcommit := advanceCommit_le (n.updatePeer dest (n.creditPeer confirmed))
    obtain ⟨c, a, s, heq⟩ := advanceCommit_fst (n.updatePeer dest (n.creditPeer confirmed))
    rw [heq] at hcommit ⊢
    refine ⟨rfl, rfl, rfl, hcommit, ?_⟩
    simp only [peerOffsets, RaftNode.updatePeer, List.map_map]
    apply List.map_congr_left
    intro p _
    simp only [Function.comp_apply]
    split_ifs <;> rfl

theorem core_offsets (h : core m = core n) : peerOffsets m = peerOffsets n := by
  have hpeers : (core m).peers = (core n).peers := congrArg RaftNode.peers h
  exact congrArg (List.map (fun p => (p.1, p.2.lastFetchOffset))) hpeers

variable {σ : Type}

def Acknowledged (d : Driver σ) (event : DriverEvent) (peer : NodeId) : Prop :=
  ∃ req resp, event = .inboundFetch req ∧ req.replicaId = peer ∧
    (Driver.materializeFetchResponse { d with node := (d.node.step (.fetchRequest req)).1 }
      d.node.config.clusterId d.node.currentTerm d.node.id d.node.commitIndex req.fetchOffset
      req.lastFetchedEpoch).2 = .ok resp ∧
    resp.divergingEpoch = none ∧ resp.snapshotRedirect = none

theorem forall₂_kept {d : Driver σ} {event : DriverEvent} (offsets : List (NodeId × ℕ)) :
    List.Forall₂ (fun p q => q.1 = p.1 ∧ p.2 ≤ q.2 ∧ (q.2 ≠ p.2 → Acknowledged d event p.1))
      offsets offsets := by
  induction offsets with
  | nil => exact .nil
  | cons p rest ih => exact .cons ⟨rfl, le_refl _, fun h => absurd rfl h⟩ ih

theorem forall₂_credited {d : Driver σ} {event : DriverEvent} {dest : NodeId} (limit : ℕ)
    (hack : Acknowledged d event dest) (offsets : List (NodeId × ℕ)) :
    List.Forall₂ (fun p q => q.1 = p.1 ∧ p.2 ≤ q.2 ∧ (q.2 ≠ p.2 → Acknowledged d event p.1))
      offsets (offsets.map (fun p => if p.1 = dest then (p.1, max p.2 limit) else p)) := by
  induction offsets with
  | nil => exact .nil
  | cons p rest ih =>
    refine .cons ?_ ih
    dsimp only
    split_ifs with hp
    · exact ⟨rfl, Nat.le_max_left _ _, fun _ => hp ▸ hack⟩
    · exact ⟨rfl, le_refl _, fun h => absurd rfl h⟩

structure Reigned (term : ℕ) (d : Driver σ) (event : DriverEvent) (d' : Driver σ) : Prop where
  tip : d.node.lastLogIndex ≤ d'.node.lastLogIndex
  commit : d.node.commitIndex ≤ d'.node.commitIndex
  effects : Traced (Loyal d.node.lastLogIndex term) d d'
  crowned : Crowned d'.node
  progress : d.node.role = .leader → List.Forall₂ (fun p q => q.1 = p.1 ∧ p.2 ≤ q.2 ∧
    (q.2 ≠ p.2 → Acknowledged d event p.1)) (peerOffsets d.node) (peerOffsets d'.node)

theorem crowned_of_core (h : core m = core n) (hn : Crowned n) : Crowned m := by
  have hleader : (core m).leaderId = (core n).leaderId := congrArg RaftNode.leaderId h
  have hid : (core m).id = (core n).id := congrArg RaftNode.id h
  have htip : (core m).lastLogIndex = (core n).lastLogIndex := congrArg RaftNode.lastLogIndex h
  refine ⟨hleader.trans (hn.leaderId.trans (congrArg some hid.symm)), fun p hp => ?_⟩
  rw [core_offsets h] at hp
  exact (hn.bounded p hp).trans htip.ge

theorem royal_not_reshapes {term : ℕ} {a : Action} (h : Royal n term a) : ¬Reshapes a := by
  intro hr
  cases a with
  | truncateLog t =>
    cases t with
    | suffixFromInclusive k => exact h
    | prefixThroughInclusive k => exact hr
  | installSnapshot metadata data => exact h
  | serveFetch => exact h
  | _ => exact hr

/-- Snapshots come from other nodes, and the log has room. -/
def Permitted (d : Driver σ) : LifeEvent → Prop
  | .turn (.fetchSnapshotResult peer _ _ _ _) => d.node.lastLogIndex < u64Max ∧ peer ≠ d.node.id
  | _ => d.node.lastLogIndex < u64Max

instance (term : ℕ) (n : RaftNode) : Decidable (Leads term n) := by
  unfold Leads
  infer_instance

instance (d : Driver σ) (e : LifeEvent) : Decidable (Permitted d e) := by
  unfold Permitted
  split <;> infer_instance

/-- Over an interval of leadership log, commit index and credits only grow. -/
structure Progressed (n m : RaftNode) : Prop where
  tip : n.lastLogIndex ≤ m.lastLogIndex
  commit : n.commitIndex ≤ m.commitIndex
  offsets : List.Forall₂ (fun p q => q.1 = p.1 ∧ p.2 ≤ q.2) (peerOffsets n) (peerOffsets m)

theorem progressed_refl (n : RaftNode) : Progressed n n := by
  refine ⟨le_refl _, le_refl _, ?_⟩
  induction peerOffsets n with
  | nil => exact .nil
  | cons p rest ih => exact .cons ⟨rfl, le_refl _⟩ ih

theorem offsets_trans {xs ys zs : List (NodeId × ℕ)}
    (h : List.Forall₂ (fun p q => q.1 = p.1 ∧ p.2 ≤ q.2) xs ys)
    (h' : List.Forall₂ (fun p q => q.1 = p.1 ∧ p.2 ≤ q.2) ys zs) :
    List.Forall₂ (fun p q => q.1 = p.1 ∧ p.2 ≤ q.2) xs zs := by
  induction h generalizing zs with
  | nil => exact h'
  | cons hpq _ ih =>
    cases h' with
    | cons hqr hrest => exact .cons ⟨hqr.1.trans hpq.1, hpq.2.trans hqr.2⟩ (ih hrest)

theorem Progressed.trans (h : Progressed n m) (h' : Progressed m k) : Progressed n k :=
  ⟨h.tip.trans h'.tip, h.commit.trans h'.commit, offsets_trans h.offsets h'.offsets⟩

theorem Reigned.progressed {term : ℕ} {d d' : Driver σ} {event : DriverEvent}
    (h : Reigned term d event d') (hl : d.node.role = .leader) : Progressed d.node d'.node :=
  ⟨h.tip, h.commit, (h.progress hl).imp (fun _ _ hpq => ⟨hpq.1, hpq.2.1⟩)⟩

theorem Permitted.room {d : Driver σ} {e : LifeEvent} (h : Permitted d e) :
    d.node.lastLogIndex < u64Max := by
  unfold Permitted at h
  split at h
  · exact h.1
  · exact h

theorem Permitted.peer {d : Driver σ} {event : DriverEvent} (h : Permitted d (.turn event)) :
    ∀ peer clusterId epoch metadata data,
      event = .fetchSnapshotResult peer clusterId epoch metadata data → peer ≠ d.node.id := by
  rintro peer clusterId epoch metadata data rfl
  exact h.2

section Turns

variable [StateMachine σ]

theorem reigned_of_core {d d' pre : Driver σ} {event : DriverEvent} {r : RaftNode × List Action}
    {origin : Option NodeId} {term : ℕ} (hroom : d.node.lastLogIndex < u64Max)
    (hr : Reigns d.node r) (hterm : r.1.currentTerm = term) (hpre : pre.node = r.1)
    (htrace : Traced Light d pre) (hnode : d'.node = (pre.processActions r.2 origin).1.node)
    (hpost : Traced Light (pre.processActions r.2 origin).1 d') : Reigned term d event d' := by
  have hcore : core d'.node = core r.1 := by
    rw [hnode, ← hpre]
    exact runActions_core origin (fun a ha => royal_not_reshapes (hr.actions a ha)) pre {}
  have htip : (core d'.node).lastLogIndex = (core r.1).lastLogIndex :=
    congrArg RaftNode.lastLogIndex hcore
  have hcommit : (core d'.node).commitIndex = (core r.1).commitIndex :=
    congrArg RaftNode.commitIndex hcore
  refine ⟨hr.tip.trans htip.ge, hr.commit.trans hcommit.ge, ?_, crowned_of_core hcore hr.crowned,
    fun hl => ?_⟩
  · have hbatch := runActions_traced origin r.2 pre {}
    refine (htrace.mono (fun x hx => loyal_of_light hx)).trans
      ((hbatch.mono (fun x hx => ?_)).trans (hpost.mono (fun x hx => loyal_of_light hx)))
    obtain ⟨a, ha, hx⟩ := hx
    exact loyal_of_leaves hroom rfl (hterm ▸ hr.actions a ha) hx
  · rw [core_offsets hcore, hr.kept hl]
    exact forall₂_kept _

theorem runActions_singleton (origin : Option NodeId) (d : Driver σ) (c : CapturedResponse)
    (a : Action) : (runActions processAcked origin d c [a]).1 =
      (runAction processAcked origin d c a).driver := by
  unfold runActions
  dsimp only
  split_ifs <;> rfl

/-- A served fetch: the engine only stamps the peer, and credits it once the answer is out. -/
theorem serving_reigned {d : Driver σ} {req : FetchRequest} {term : ℕ}
    (hhalt : d.haltReason = none) (hserve : d.node.handleFetchRequest req = serving d.node req)
    (hr : Reigns d.node (d.node.stampFetch req.replicaId, [])) :
    Reigned term d (.inboundFetch req) (d.turn (.inboundFetch req)) := by
  obtain ⟨hnode, hpost⟩ := turn_after d (.inboundFetch req) hhalt
  have hstep : d.node.step (.fetchRequest req) = serving d.node req := hserve
  have hfeed : (d.feed (.fetchRequest req) (some req.replicaId)).1 = (runServeFetch processAcked
      (some req.replicaId) { d with node := d.node.stampFetch req.replicaId } {} req.replicaId
      d.node.config.clusterId d.node.currentTerm d.node.id d.node.commitIndex req.fetchOffset
      req.lastFetchedEpoch).driver := by
    rw [Driver.feed, hstep]
    exact runActions_singleton _ _ _ _
  have hnode : (d.turn (.inboundFetch req)).node = (runServeFetch processAcked
      (some req.replicaId) { d with node := d.node.stampFetch req.replicaId } {} req.replicaId
      d.node.config.clusterId d.node.currentTerm d.node.id d.node.commitIndex req.fetchOffset
      req.lastFetchedEpoch).driver.node := by
    rw [hnode, ← hfeed]
    rfl
  obtain ⟨hserved, hcases⟩ := runServeFetch_footprint (some req.replicaId)
    { d with node := d.node.stampFetch req.replicaId } {} req.replicaId d.node.config.clusterId
    d.node.currentTerm d.node.id d.node.commitIndex req.fetchOffset req.lastFetchedEpoch
  have heffects : Traced (Loyal d.node.lastLogIndex term) d (d.turn (.inboundFetch req)) := by
    rw [← hfeed] at hserved
    have hreply : Traced Light (d.feed (.fetchRequest req) (some req.replicaId)).1
        (d.handleDriverEvent (.inboundFetch req)) := (Traced.refl _).emit (by simp [Light])
    have hstamp : Traced Light d { d with node := d.node.stampFetch req.replicaId } :=
      traced_same rfl
    exact (hstamp.trans (hserved.trans (hreply.trans hpost))).mono (fun x hx => loyal_of_light hx)
  have hkept : peerOffsets (d.node.stampFetch req.replicaId) = peerOffsets d.node :=
    updatePeer_offsets_eq d.node req.replicaId (fun _ => rfl)
  have hstay : (d.turn (.inboundFetch req)).node = d.node.stampFetch req.replicaId →
      Reigned term d (.inboundFetch req) (d.turn (.inboundFetch req)) := by
    intro heq
    refine ⟨by rw [heq]; exact hr.tip, by rw [heq]; exact hr.commit, heffects,
      by rw [heq]; exact hr.crowned, fun _ => ?_⟩
    rw [heq, hkept]
    exact forall₂_kept _
  rcases hcases with heq | ⟨resp, hresp, hdiv, hredirect, heq⟩
  · exact hstay (hnode.trans heq)
  · have hacked := hnode.trans heq
    dsimp only at hacked
    by_cases hsame : ((d.node.stampFetch req.replicaId).handleFetchRequestAcked req.replicaId
        (req.fetchOffset - 1)).1 = d.node.stampFetch req.replicaId
    · exact hstay (hacked.trans hsame)
    have hcredit := handleFetchRequestAcked_credited req.replicaId (req.fetchOffset - 1) hsame
    have hack : Acknowledged d (.inboundFetch req) req.replicaId :=
      ⟨req, resp, rfl, rfl, by rw [hstep]; exact hresp, hdiv, hredirect⟩
    rw [← hacked] at hcredit
    have hbound : ∀ p ∈ peerOffsets (d.turn (.inboundFetch req)).node,
        p.2 ≤ (d.turn (.inboundFetch req)).node.lastLogIndex := by
      intro p hp
      rw [hcredit.offsets] at hp
      obtain ⟨q, hq, rfl⟩ := List.mem_map.mp hp
      have hle := hr.crowned.bounded q hq
      rw [hcredit.tip]
      split_ifs
      · exact Nat.max_le.mpr ⟨hle, Nat.min_le_right _ _⟩
      · exact hle
    refine ⟨hr.tip.trans hcredit.tip.ge, hr.commit.trans hcredit.commit, heffects,
      ⟨?_, hbound⟩, fun _ => ?_⟩
    · rw [hcredit.leaderId, hcredit.id]
      exact hr.crowned.leaderId
    · rw [hcredit.offsets, hkept]
      exact forall₂_credited _ hack _

theorem turn_reigned {d : Driver σ} {event : DriverEvent} {term : ℕ}
    (hroom : d.node.lastLogIndex < u64Max) (hn : d.node.role = .leader → Crowned d.node)
    (hpeer : ∀ peer clusterId epoch metadata data,
      event = .fetchSnapshotResult peer clusterId epoch metadata data → peer ≠ d.node.id)
    (hlead : Leads term (d.turn event).node) : Reigned term d event (d.turn event) := by
  by_cases hhalt : d.haltReason = none
  swap
  · rw [turn_halted d event hhalt] at hlead ⊢
    exact ⟨le_refl _, le_refl _, .refl d, hn hlead.1, fun _ => forall₂_kept _⟩
  obtain ⟨r, origin, pre, hdrives, hpre, htrace, hnode, hpost⟩ := (turn_driven d event).batch
  have hst : SameStanding pre.node (pre.processActions r.2 origin).1.node :=
    runActions_standing origin r.2 pre {}
  have hrole : r.1.role = .leader := by
    rw [← hpre, ← hst.role, ← hnode]
    exact hlead.1
  have hterm : r.1.currentTerm = term := by
    have hb := congrArg Ballot.term hst.ballot
    rw [← hnode, hpre] at hb
    exact hb.symm.trans hlead.2
  rcases drives_reigns hdrives hroom hn hpeer hrole with hr | ⟨req, rfl, -, -⟩
  · exact reigned_of_core hroom hr hterm hpre htrace hnode hpost
  · -- the fetch itself decides whether it was served
    obtain ⟨hafter, hpost⟩ := turn_after d (.inboundFetch req) hhalt
    have hfeed : (d.handleDriverEvent (.inboundFetch req)).node = (Driver.processActions
        { d with node := (d.node.handleFetchRequest req).1 } (d.node.handleFetchRequest req).2
        (some req.replicaId)).1.node := rfl
    have hst : SameStanding (d.node.handleFetchRequest req).1 (Driver.processActions
        { d with node := (d.node.handleFetchRequest req).1 } (d.node.handleFetchRequest req).2
        (some req.replicaId)).1.node :=
      runActions_standing (some req.replicaId) (d.node.handleFetchRequest req).2
        { d with node := (d.node.handleFetchRequest req).1 } {}
    have hrole : (d.node.handleFetchRequest req).1.role = .leader := by
      rw [← hst.role, ← hfeed, ← hafter]
      exact hlead.1
    have hterm : (d.node.handleFetchRequest req).1.currentTerm = term := by
      have hb := congrArg Ballot.term hst.ballot
      rw [← hfeed, ← hafter] at hb
      exact hb.symm.trans hlead.2
    rcases handleFetchRequest_reigns hn hrole with hr | ⟨hserve, hr⟩
    · have hreply : Traced Light (d.feed (.fetchRequest req) (some req.replicaId)).1
          (d.handleDriverEvent (.inboundFetch req)) := (Traced.refl _).emit (by simp [Light])
      have hset : Traced Light d { d with node := (d.node.handleFetchRequest req).1 } :=
        traced_same rfl
      exact reigned_of_core hroom hr hterm rfl hset (hafter.trans hfeed) (hreply.trans hpost)
    · exact serving_reigned hhalt hserve hr

/-! ## Intervals of leadership -/

def Reigning (term : ℕ) (d : Driver σ) (e : LifeEvent) : Prop :=
  Permitted d e ∧ Leads term d.node ∧ Leads term (Driver.live d e).node

instance (term : ℕ) (d : Driver σ) (e : LifeEvent) : Decidable (Reigning term d e) := by
  unfold Reigning
  infer_instance

theorem live_crowned {d : Driver σ} {e : LifeEvent} (h : d.node.role = .leader → Crowned d.node)
    (hok : Permitted d e) (hlead : (Driver.live d e).node.role = .leader) :
    Crowned (Driver.live d e).node := by
  cases e with
  | turn event => exact (turn_reigned hok.room h hok.peer ⟨hlead, rfl⟩).crowned
  | snapshotWorker =>
    have hnode := runSnapshotWorker_node d
    show Crowned d.runSnapshotWorker.node
    rw [hnode]
    exact h (hnode ▸ hlead)

theorem start_role (config : ClusterConfig) (voterSet : Option VoterSet) (rng : List ℕ)
    (maxFetchBatch : ℕ) (initial : σ) (faults : List (Option Fault)) (store : Durable) :
    (start config voterSet rng maxFetchBatch initial faults store).node.role ≠ .leader := by
  obtain ⟨sm, snap, hran⟩ : ∃ sm snap, RanFrom config.nodeId
      (boot config voterSet rng maxFetchBatch faults store sm snap)
      (recoverNode config voterSet rng store.hsStore store.logStore snap)
      (start config voterSet rng maxFetchBatch initial faults store) :=
    start_ran config voterSet rng maxFetchBatch initial faults store
  rw [hran.ran.standing.role]
  exact ElectionSafety.recoverNode_role (by simp) (by simp)

theorem leader_append_only (config : ClusterConfig) (voterSet : Option VoterSet) (rng : List ℕ)
    (maxFetchBatch : ℕ) (initial : σ) (faults : List (Option Fault)) (store : Durable)
    {d d' : Driver σ} {term : ℕ}
    (hlife : Execution Driver.live Permitted
      (start config voterSet rng maxFetchBatch initial faults store) d)
    (hspan : Execution Driver.live (Reigning term) d d') (event : DriverEvent)
    (hok : Permitted d' (.turn event)) (hlead : Leads term (d'.turn event).node) :
    Progressed d.node d'.node ∧ Reigned term d' event (d'.turn event) := by
  have hcrowned : d.node.role = .leader → Crowned d.node := by
    have hstep : ∀ (s : Driver σ) e, (s.node.role = .leader → Crowned s.node) → Permitted s e →
        ((Driver.live s e).node.role = .leader → Crowned (Driver.live s e).node) :=
      fun s e h hok hl => live_crowned h hok hl
    exact Execution.invariant hstep hlife
      (fun hl => absurd hl (start_role config voterSet rng maxFetchBatch initial faults store))
  have hinterval : Progressed d.node d'.node ∧ (d'.node.role = .leader → Crowned d'.node) := by
    clear hlead hok
    induction hspan with
    | refl => exact ⟨progressed_refl _, hcrowned⟩
    | @tail u e _ hreign ih =>
      obtain ⟨hprog, hu⟩ := ih
      obtain ⟨hok, hbefore, hafter⟩ := hreign
      refine ⟨hprog.trans ?_, fun hl => live_crowned hu hok hl⟩
      cases e with
      | turn event => exact (turn_reigned hok.room hu hok.peer hafter).progressed hbefore.1
      | snapshotWorker =>
        show Progressed u.node u.runSnapshotWorker.node
        rw [runSnapshotWorker_node]
        exact progressed_refl _
  exact ⟨hinterval.1, turn_reigned hok.room hinterval.2 hok.peer hlead⟩

end Turns

def election : List LifeEvent :=
  [.turn .tick, .turn .tick, .turn (.preVoteResult 2 ⟨"c", 0, 0, true, none⟩),
    .turn (.voteResult 2 ⟨"c", 0, 1, true, none⟩)]

theorem leader_append_only_first_proposal :
    Reigned 1 (replay Driver.live (firstVoter []) election) (.client 0 [])
      ((replay Driver.live (firstVoter []) election).turn (.client 0 [])) := by
  have hlife : Execution Driver.live Permitted (firstVoter [])
      (replay Driver.live (firstVoter []) election) := replay_execution (by decide +kernel)
  have hok : Permitted (replay Driver.live (firstVoter []) election) (.turn (.client 0 [])) := by
    decide +kernel
  have hlead :
      Leads 1 ((replay Driver.live (firstVoter []) election).turn (.client 0 [])).node := by
    decide +kernel
  exact (leader_append_only _ _ _ _ _ _ _ hlife (.refl _) (.client 0 []) hok hlead).2

/-- Voter 1 follows voter 2 and installs a snapshot that ends at the last index there is. -/
def fullLog : List LifeEvent :=
  [.turn (.fetchResult ⟨"c", 1, 2, 0, [], none, none, true⟩),
    .turn (.fetchSnapshotResult 2 "c" 1 (some ⟨u64Max, 1, "", some threeVoterSet, none⟩) []),
    .turn .tick, .turn .tick, .turn (.preVoteResult 2 ⟨"c", 0, 1, true, none⟩)]

def lastVote : LifeEvent := .turn (.voteResult 2 ⟨"c", 0, 2, true, none⟩)

/-- A leader whose log ends at `u64::MAX` appends its no-op at the index it already has. -/
theorem saturated_leader_reuses_index :
    Life (firstVoter []) (replay Driver.live (firstVoter []) (fullLog ++ [lastVote])) ∧
      (replay Driver.live (firstVoter []) fullLog).node.lastLogIndex = u64Max ∧
      Leads 2 (replay Driver.live (firstVoter []) (fullLog ++ [lastVote])).node ∧
      .append [⟨u64Max, 2, .noOp⟩] ∉ (replay Driver.live (firstVoter []) fullLog).trace ∧
      .append [⟨u64Max, 2, .noOp⟩] ∈
        (replay Driver.live (firstVoter []) (fullLog ++ [lastVote])).trace := by
  refine ⟨replay_execution (admissible_true _ _), ?_, ?_, ?_, ?_⟩
  · decide +kernel
  · decide +kernel
  · decide +kernel
  · decide +kernel

end LeaderAppendOnly
