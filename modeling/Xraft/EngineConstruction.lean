import Xraft.EngineTransitions

/-! # Constructed engines

What a fresh engine looks like: it is built from a checked configuration, and its tracked peers are
the other voters and the observers, all without progress.
-/
namespace EngineConstruction

open ProtocolTypes ClusterConfiguration ConsensusEngine EngineTransitions

variable {n m : RaftNode}

theorem new_build {p : VoterParsing} {config : ClusterConfig} {rng : List ℕ}
    {n₀ : RaftNode} (h : RaftNode.new p config rng = .ok n₀) :
    ∃ voterSet, n₀ = RaftNode.build config voterSet rng ∧
      buildVoterSet p config = .ok voterSet := by
  unfold RaftNode.new at h
  cases hv : validate p config with
  | error e => simp [hv, bind, Except.bind] at h
  | ok u =>
    cases hb : buildVoterSet p config with
    | error e => simp [hv, hb, bind, Except.bind] at h
    | ok voterSet =>
      refine ⟨voterSet, ?_, rfl⟩
      simp only [hv, hb, bind, Except.bind, pure, Except.pure, Except.ok.injEq] at h
      exact h.symm

/-! ## Initial peers -/

def VoterPeer (self : NodeId) (voters : List VoterRecord) (p : NodeId × PeerState) : Prop :=
  ∃ v ∈ voters, v.nodeId ≠ self ∧ p = (v.nodeId, PeerState.new true)

theorem mem_insertPeer {id : NodeId} {p : PeerState} {q : NodeId × PeerState}
    {peers : List (NodeId × PeerState)} (h : q ∈ insertPeer id p peers) : q = (id, p) ∨
    q ∈ peers := by
  induction peers with
  | nil => exact .inl (List.mem_singleton.mp h)
  | cons r rest ih =>
    obtain ⟨k, r⟩ := r
    simp only [insertPeer] at h
    split_ifs at h with hk
    · rcases List.mem_cons.mp h with rfl | h
      · exact .inl (by rw [hk])
      · exact .inr (List.mem_cons_of_mem _ h)
    · rcases List.mem_cons.mp h with rfl | h
      · exact .inr List.mem_cons_self
      · exact (ih h).imp_right (List.mem_cons_of_mem _)

theorem mem_insertVoters {voters : List VoterRecord} {q : NodeId × PeerState}
    {peers : List (NodeId × PeerState)}
    (h : q ∈ voters.foldl (fun m v => insertPeer v.nodeId (PeerState.new true) m) peers) :
    q ∈ peers ∨ ∃ v ∈ voters, q = (v.nodeId, PeerState.new true) := by
  induction voters generalizing peers with
  | nil => exact .inl h
  | cons v rest ih =>
    rcases ih h with h | ⟨w, hw, hq⟩
    · rcases mem_insertPeer h with rfl | h
      · exact .inr ⟨v, List.mem_cons_self, rfl⟩
      · exact .inl h
    · exact .inr ⟨w, List.mem_cons_of_mem _ hw, hq⟩

theorem mem_insertObservers {observers : List ℕ} {q : NodeId × PeerState}
    {peers : List (NodeId × PeerState)}
    (h : q ∈ observers.foldl (fun m o => if (m.map Prod.fst).contains o then m
      else m ++ [(o, PeerState.new false)]) peers) : q ∈ peers ∨ q.2 = PeerState.new false := by
  induction observers generalizing peers with
  | nil => exact .inl h
  | cons o rest ih =>
    rcases ih h with hmem | hq
    · dsimp only at hmem
      split_ifs at hmem with ho
      · exact .inl hmem
      · rcases List.mem_append.mp hmem with hmem | hmem
        · exact .inl hmem
        · exact .inr (by rw [List.mem_singleton.mp hmem])
    · exact .inr hq

theorem mem_initialPeers {config : ClusterConfig} {voterSet : Option VoterSet}
    {p : NodeId × PeerState} (h : p ∈ initialPeers config voterSet) :
    (∃ vs, voterSet = some vs ∧ VoterPeer config.nodeId vs.voters p) ∨
      p.2 = PeerState.new false := by
  rcases mem_insertObservers h with h | h
  · cases voterSet with
    | none => exact absurd h List.not_mem_nil
    | some vs =>
      rcases mem_insertVoters h with h | ⟨v, hv, hp⟩
      · exact absurd h List.not_mem_nil
      · obtain ⟨hv, hne⟩ := List.mem_filter.mp hv
        exact .inl ⟨vs, rfl, v, hv, by simpa using hne, hp⟩
  · exact .inr h

theorem initialPeers_offset {config : ClusterConfig} {voterSet : Option VoterSet}
    {p : NodeId × PeerState} (h : p ∈ initialPeers config voterSet) : p.2.lastFetchOffset = 0 := by
  rcases mem_initialPeers h with ⟨_, _, v, _, _, rfl⟩ | hp
  · rfl
  · rw [hp]
    rfl

/-! ## Keys of the initial peers -/

theorem insertPeer_keys (id : NodeId) (p : PeerState) (peers : List (NodeId × PeerState)) :
    (insertPeer id p peers).map Prod.fst =
      if id ∈ peers.map Prod.fst then peers.map Prod.fst else peers.map Prod.fst ++ [id] := by
  induction peers with
  | nil => simp [insertPeer]
  | cons q rest ih =>
    obtain ⟨k, q⟩ := q
    by_cases hk : k = id
    · simp [insertPeer, hk]
    · rw [insertPeer, if_neg hk, List.map_cons, ih]
      have hk' : ¬id = k := fun h => hk h.symm
      by_cases hmem : id ∈ rest.map Prod.fst <;> simp_all

def OtherKeys (self : NodeId) (keys : List NodeId) : Prop := keys.Nodup ∧ self ∉ keys

theorem OtherKeys.append {self id : NodeId} {keys : List NodeId} (h : OtherKeys self keys)
    (hid : id ≠ self) (hnew : id ∉ keys) : OtherKeys self (keys ++ [id]) := by
  refine ⟨List.nodup_append.mpr ⟨h.1, List.nodup_singleton _, ?_⟩, ?_⟩
  · intro a ha b hb hab
    rw [List.mem_singleton] at hb
    exact hnew (hb ▸ hab ▸ ha)
  · simp [h.2, hid.symm]

theorem foldl_otherKeys {β : Type} {self : NodeId}
    {f : List (NodeId × PeerState) → β → List (NodeId × PeerState)} {xs : List β}
    (hf : ∀ m, ∀ x ∈ xs, OtherKeys self (m.map Prod.fst) → OtherKeys self ((f m x).map Prod.fst))
    {peers : List (NodeId × PeerState)} (h : OtherKeys self (peers.map Prod.fst)) :
    OtherKeys self ((xs.foldl f peers).map Prod.fst) := by
  induction xs generalizing peers with
  | nil => exact h
  | cons x xs ih =>
    exact ih (fun m y hy => hf m y (List.mem_cons_of_mem _ hy)) (hf _ x List.mem_cons_self h)

theorem initialPeers_otherKeys (config : ClusterConfig) (voterSet : Option VoterSet) :
    OtherKeys config.nodeId ((initialPeers config voterSet).map Prod.fst) := by
  have hnil : OtherKeys config.nodeId (([] : List (NodeId × PeerState)).map Prod.fst) :=
    ⟨List.nodup_nil, List.not_mem_nil⟩
  unfold initialPeers
  apply foldl_otherKeys
  · intro m o ho hm
    have ho : o ≠ config.nodeId := by simpa using (List.mem_filter.mp ho).2
    split_ifs with hc
    · exact hm
    · rw [List.map_append]
      exact hm.append ho (by simpa using hc)
  · cases voterSet with
    | none => exact hnil
    | some vs =>
      apply foldl_otherKeys _ hnil
      intro m v hv hm
      rw [insertPeer_keys]
      split_ifs with hmem
      · exact hm
      · exact hm.append (by simpa using (List.mem_filter.mp hv).2) hmem

theorem foldl_keys_subset {β : Type} {f : List (NodeId × PeerState) → β → List (NodeId × PeerState)}
    (hf : ∀ m x id, id ∈ m.map Prod.fst → id ∈ (f m x).map Prod.fst) {xs : List β} {id : NodeId}
    {peers : List (NodeId × PeerState)} (h : id ∈ peers.map Prod.fst) :
    id ∈ (xs.foldl f peers).map Prod.fst := by
  induction xs generalizing peers with
  | nil => exact h
  | cons x xs ih => exact ih (hf peers x id h)

theorem insertVoters_keys {voters : List VoterRecord} {v : VoterRecord} (h : v ∈ voters)
    (peers : List (NodeId × PeerState)) :
    v.nodeId ∈ (voters.foldl (fun m v => insertPeer v.nodeId (PeerState.new true) m) peers).map
      Prod.fst := by
  have hkeep : ∀ (m : List (NodeId × PeerState)) (w : VoterRecord) (id : NodeId),
      id ∈ m.map Prod.fst → id ∈ (insertPeer w.nodeId (PeerState.new true) m).map Prod.fst := by
    intro m w id hid
    rw [insertPeer_keys]
    split_ifs
    · exact hid
    · exact List.mem_append_left _ hid
  induction voters generalizing peers with
  | nil => cases h
  | cons w rest ih =>
    rcases List.mem_cons.mp h with rfl | h
    · rw [List.foldl_cons]
      refine foldl_keys_subset hkeep ?_
      rw [insertPeer_keys]
      split_ifs with hmem
      · exact hmem
      · exact List.mem_append_right _ (List.mem_singleton_self _)
    · exact ih h _

theorem initialPeers_tracks_voters (config : ClusterConfig) {vs : VoterSet} {v : NodeId}
    (h : v ∈ vs.ids) (hother : v ≠ config.nodeId) :
    v ∈ (initialPeers config (some vs)).map Prod.fst := by
  obtain ⟨r, hr, rfl⟩ : ∃ r ∈ vs.voters, r.nodeId = v := by simpa [VoterSet.ids] using h
  refine foldl_keys_subset ?_
    (insertVoters_keys (List.mem_filter.mpr ⟨hr, by simpa using hother⟩) [])
  intro m o id hid
  split_ifs
  · exact hid
  · rw [List.map_append]
    exact List.mem_append_left _ hid

/-! ## Voter peers -/

/-- The peers that count as voters are members of the voter set other than the node. -/
structure VoterPeers (n : RaftNode) : Prop where
  known : ∀ p ∈ n.voterPeerIds, n.isKnownVoter p = true
  other : n.id ∉ n.voterPeerIds

theorem build_voterPeers (config : ClusterConfig) (voterSet : Option VoterSet) (rng : List ℕ) :
    VoterPeers (RaftNode.build config voterSet rng) := by
  have hmem : ∀ p ∈ (RaftNode.build config voterSet rng).voterPeerIds, ∃ vs, voterSet = some vs ∧
      ∃ v ∈ vs.voters, v.nodeId ≠ config.nodeId ∧ p = v.nodeId := by
    intro p hp
    obtain ⟨q, hq, rfl⟩ := List.mem_map.mp hp
    obtain ⟨hq, hvoter⟩ := List.mem_filter.mp hq
    rcases mem_initialPeers hq with ⟨vs, hvs, v, hv, hne, rfl⟩ | hnew
    · exact ⟨vs, hvs, v, hv, hne, rfl⟩
    · rw [hnew] at hvoter
      cases hvoter
  refine ⟨fun p hp => ?_, fun hp => ?_⟩
  · obtain ⟨vs, rfl, v, hv, -, rfl⟩ := hmem p hp
    show vs.contains v.nodeId = true
    rw [VoterSet.contains_iff, VoterSet.ids, List.mem_toFinset]
    exact List.mem_map_of_mem hv
  · obtain ⟨vs, rfl, v, hv, hne, hid⟩ := hmem _ hp
    exact hne hid.symm

theorem voterPeerIds_eq (n : RaftNode) :
    n.voterPeerIds = ((peerKinds n).filter Prod.snd).map Prod.fst := by
  simp only [RaftNode.voterPeerIds, peerKinds, List.filter_map, List.map_map]
  rfl

theorem VoterPeers.congr (h : VoterPeers n) (hid : SameIdentity n m) : VoterPeers m := by
  have heq : m.voterPeerIds = n.voterPeerIds := by rw [voterPeerIds_eq, voterPeerIds_eq, hid.peers]
  refine ⟨fun p hp => ?_, ?_⟩
  · rw [heq] at hp
    simpa only [RaftNode.isKnownVoter, hid.voterSet] using h.known p hp
  · rw [heq, hid.id]
    exact h.other

/-- A node that its own vote elects has nobody to ask. -/
theorem VoterPeers.lone (h : VoterPeers n)
    (hq : n.enterPreCandidate.hasPreElectionQuorum = true) : n.voterPeerIds = [] := by
  rw [List.eq_nil_iff_forall_not_mem]
  intro p hp
  have hknown := h.known p hp
  have hne : p ≠ n.id := fun he => h.other (he ▸ hp)
  cases hvs : n.voterSet with
  | none => simp [RaftNode.isKnownVoter, hvs] at hknown
  | some vs =>
    have hp : p ∈ vs.ids := by simpa [RaftNode.isKnownVoter, hvs] using hknown
    have hcard : vs.ids.card / 2 + 1 ≤ (({n.id} : Finset NodeId).filter (· ∈ vs.ids)).card := by
      simpa [RaftNode.hasPreElectionQuorum, RaftNode.enterPreCandidate, RaftNode.resetElectionTimer,
        hvs, VoterSet.quorumSize_eq] using hq
    by_cases hself : n.id ∈ vs.ids
    · have hpair : ({p, n.id} : Finset NodeId) ⊆ vs.ids := by
        intro x hx
        rcases Finset.mem_insert.mp hx with rfl | hx
        · exact hp
        · rw [Finset.mem_singleton.mp hx]
          exact hself
      have htwo : 2 ≤ vs.ids.card := by
        rw [← Finset.card_pair hne]
        exact Finset.card_le_card hpair
      have hone : (({n.id} : Finset NodeId).filter (· ∈ vs.ids)).card ≤ 1 :=
        (Finset.card_filter_le _ _).trans (Finset.card_singleton _).le
      omega
    · rw [Finset.filter_singleton, if_neg hself, Finset.card_empty] at hcard
      omega

end EngineConstruction
