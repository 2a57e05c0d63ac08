import Xraft.EngineConstruction
import Xraft.OrderStatistics
import Xraft.ServerRecovery

/-! # The commit index of a leader

`tryAdvanceCommitIndex` takes the quorum-th largest of one offset per voter record, while the quorum
counts node ids. Both agree when no node id has two records, or when there is one node id only.
-/
namespace CommitQuorum

open ProtocolTypes ClusterConfiguration ConsensusEngine EngineTransitions EngineConstruction
open OrderStatistics ServerRecovery

def offsetOf (n : RaftNode) (v : NodeId) : ℕ :=
  if v = n.id then n.lastLogIndex
  else ((n.peers.lookup v).map PeerState.lastFetchOffset).getD 0

def holders (n : RaftNode) (vs : VoterSet) (c : ℕ) : Finset NodeId :=
  vs.ids.filter (fun v => c ≤ offsetOf n v)

/-- An index the leader may commit: new, not below its no-op, and held by a quorum. -/
structure Committable (n : RaftNode) (c : ℕ) : Prop where
  quorum : ∃ vs, n.voterSet = some vs ∧ vs.quorumSize ≤ (holders n vs c).card
  noOp : ∃ k, n.leaderNoOpIndex = some k ∧ k ≤ c
  advances : n.commitIndex < c

/-! ## Voters among the peers -/

theorem insertObservers_fresh {observers : List ℕ} {q : NodeId × PeerState}
    {peers : List (NodeId × PeerState)}
    (h : q ∈ observers.foldl (fun m o => if (m.map Prod.fst).contains o then m
      else m ++ [(o, PeerState.new false)]) peers) : q ∈ peers ∨ q.1 ∉ peers.map Prod.fst := by
  induction observers generalizing peers with
  | nil => exact .inl h
  | cons o rest ih =>
    rcases ih h with hmem | hfresh
    · dsimp only at hmem
      split_ifs at hmem with ho
      · exact .inl hmem
      · rcases List.mem_append.mp hmem with hmem | hmem
        · exact .inl hmem
        · rw [List.mem_singleton.mp hmem]
          exact .inr (by simpa using ho)
    · refine .inr (fun hkey => hfresh ?_)
      dsimp only
      split_ifs
      · exact hkey
      · rw [List.map_append]
        exact List.mem_append_left _ hkey

theorem initialPeers_isVoter {config : ClusterConfig} {vs : VoterSet} {p : NodeId × PeerState}
    (h : p ∈ initialPeers config (some vs)) (hvoter : p.1 ∈ vs.ids) (hother : p.1 ≠ config.nodeId) :
    p.2.isVoter = true := by
  obtain ⟨v, hv, hid⟩ : ∃ v ∈ vs.voters, v.nodeId = p.1 := by
    simpa [VoterSet.ids] using hvoter
  have hmem : v ∈ vs.voters.filter (fun v => v.nodeId ≠ config.nodeId) :=
    List.mem_filter.mpr ⟨hv, by simpa [hid] using hother⟩
  have hkey := insertVoters_keys hmem []
  rw [hid] at hkey
  rcases insertObservers_fresh h with h | h
  · rcases mem_insertVoters h with h | ⟨w, -, rfl⟩
    · exact absurd h List.not_mem_nil
    · rfl
  · exact absurd hkey h

theorem lookup_isVoter {config : ClusterConfig} {vs : VoterSet} {rng : List ℕ} {n : RaftNode}
    (h : SameIdentity (RaftNode.build config (some vs) rng) n) {v : NodeId} (hv : v ∈ vs.ids)
    (hother : v ≠ n.id) {p : PeerState} (hp : n.peers.lookup v = some p) : p.isVoter = true := by
  obtain ⟨before, after, hsplit, -⟩ := List.lookup_eq_some_iff.mp hp
  have hmem : (v, p.isVoter) ∈ peerKinds n :=
    List.mem_map.mpr ⟨(v, p), by rw [hsplit]; simp, rfl⟩
  rw [h.peers] at hmem
  obtain ⟨q, hq, heq⟩ := List.mem_map.mp hmem
  obtain ⟨rfl, hkind⟩ := Prod.mk.inj heq
  rw [← hkind]
  exact initialPeers_isVoter hq hv (fun hid => hother (by rw [h.id]; exact hid))

/-! ## One offset for each voter -/

theorem voterOffsets_eq {n : RaftNode} {vs : VoterSet}
    (h : ∀ v ∈ vs.ids, v ≠ n.id → ∀ p, n.peers.lookup v = some p → p.isVoter = true) :
    n.voterOffsets vs = vs.voters.map (fun v => offsetOf n v.nodeId) := by
  calc n.voterOffsets vs = vs.voters.filterMap (fun v => some (offsetOf n v.nodeId)) := by
        refine List.filterMap_congr (fun v hv => ?_)
        have hid : v.nodeId ∈ vs.ids := List.mem_toFinset.mpr (List.mem_map_of_mem hv)
        by_cases hself : v.nodeId = n.id
        · simp [offsetOf, hself]
        · cases hp : n.peers.lookup v.nodeId with
          | none => simp [offsetOf, hself, hp]
          | some p => simp [offsetOf, hself, hp, h _ hid hself p hp]
    _ = vs.voters.map (fun v => offsetOf n v.nodeId) := congrFun List.filterMap_eq_map _

theorem card_holders {n : RaftNode} {vs : VoterSet}
    (h : (vs.voters.map VoterRecord.nodeId).Nodup) (c : ℕ) :
    (holders n vs c).card =
      (vs.voters.map (fun v => offsetOf n v.nodeId)).countP (fun x => decide (c ≤ x)) := by
  have hlist : holders n vs c =
      ((vs.voters.map VoterRecord.nodeId).filter
        (fun v => decide (c ≤ offsetOf n v))).toFinset := by
    ext v
    simp [holders, VoterSet.ids]
  rw [hlist, List.toFinset_card_of_nodup (h.filter _), ← List.countP_eq_length_filter,
    List.countP_map, List.countP_map]
  rfl

/-- The quorum-th largest offset is the greatest index that a quorum holds if no node id has two
records, and also if all records have one node id. -/
theorem quorum_holds_iff {n : RaftNode} {vs : VoterSet}
    (hpeers : ∀ v ∈ vs.ids, v ≠ n.id → ∀ p, n.peers.lookup v = some p → p.isVoter = true)
    (hcounts : (vs.voters.map VoterRecord.nodeId).Nodup ∨ vs.ids.card ≤ 1) (c : ℕ) :
    vs.quorumSize ≤ (holders n vs c).card ↔
      ∃ x, ((n.voterOffsets vs).insertionSort (· ≥ ·))[vs.quorumSize - 1]? = some x ∧ c ≤ x := by
  have hsize := vs.quorumSize_eq
  rw [← lt_countP_sort_iff, voterOffsets_eq hpeers]
  rcases hcounts with hdistinct | hsingle
  · rw [card_holders hdistinct]
    omega
  · have hone : vs.quorumSize = 1 := by omega
    rw [hone, Nat.sub_self, List.countP_pos_iff, Nat.one_le_iff_ne_zero, ← Nat.pos_iff_ne_zero,
      Finset.card_pos]
    simp [Finset.Nonempty, holders, VoterSet.ids]

/-! ## A node id with two records -/

theorem card_lt_countP {l : List NodeId} {S : Finset NodeId} (hsub : S ⊆ l.toFinset) {v : NodeId}
    (hv : v ∈ S) (htwice : 1 < l.count v) : S.card < l.countP (fun x => decide (x ∈ S)) := by
  have hitems : (l.filter (fun x => decide (x ∈ S))).toFinset = S := by
    ext x
    simpa using fun hx => List.mem_toFinset.mp (hsub hx)
  have hle := List.toFinset_card_le (l.filter (fun x => decide (x ∈ S)))
  rw [hitems, ← List.countP_eq_length_filter] at hle
  refine lt_of_le_of_ne hle (fun heq => ?_)
  have hdedup : (l.filter (fun x => decide (x ∈ S))).dedup =
      l.filter (fun x => decide (x ∈ S)) := by
    apply (List.dedup_sublist _).eq_of_length
    rw [← List.card_toFinset, hitems, heq, List.countP_eq_length_filter]
  have hcount := List.nodup_iff_count_le_one.mp (List.dedup_eq_self.mp hdedup) v
  rw [List.count_filter (by simpa using hv)] at hcount
  omega

/-- A leader that knows of index 2 at the voters in `S` and of index 1 at all others. -/
def reaching (n : RaftNode) (S : Finset NodeId) : RaftNode :=
  { n with
    role := .leader
    commitIndex := 0
    leaderNoOpIndex := some 1
    lastLogIndex := if n.id ∈ S then 2 else 1
    peers := n.peers.map
      (fun p => (p.1, { p.2 with lastFetchOffset := if p.1 ∈ S then 2 else 1 })) }

theorem reaching_identity (n : RaftNode) (S : Finset NodeId) : SameIdentity n (reaching n S) := by
  refine ⟨rfl, rfl, rfl, rfl, ?_⟩
  simp [peerKinds, reaching]

theorem offsetOf_reaching {n : RaftNode} {S : Finset NodeId} {v : NodeId}
    (h : v = n.id ∨ v ∈ n.peers.map Prod.fst) :
    offsetOf (reaching n S) v = if v ∈ S then 2 else 1 := by
  have hlookup (peers : List (NodeId × PeerState)) (hv : v ∈ peers.map Prod.fst) :
      (((peers.map (fun p => (p.1, { p.2 with
        lastFetchOffset := if p.1 ∈ S then 2 else 1 }))).lookup v).map
          PeerState.lastFetchOffset).getD 0 = if v ∈ S then 2 else 1 := by
    induction peers with
    | nil => cases hv
    | cons p rest ih =>
      by_cases hp : v = p.1
      · simp [hp]
      · rw [List.map_cons, List.lookup_cons, beq_false_of_ne hp]
        exact ih ((List.mem_cons.mp hv).resolve_left hp)
  by_cases hself : v = n.id
  · simp [offsetOf, reaching, hself]
  · have hother : v ≠ (reaching n S).id := hself
    rw [offsetOf, if_neg hother]
    exact hlookup n.peers (h.resolve_left hself)

/-! ## Commit advance -/

/-- `tryAdvanceCommitIndex` finds the greatest committable index, and none only if there is none. -/
def AdvancesExactly (n : RaftNode) : Prop :=
  (∀ c, n.tryAdvanceCommitIndex = some c →
      Committable n c ∧ ∀ c', Committable n c' → c' ≤ c) ∧
    (n.tryAdvanceCommitIndex = none → ∀ c, ¬Committable n c)

theorem tryAdvance_spec {n : RaftNode} {vs : VoterSet} (hlead : n.role = .leader)
    (hvs : n.voterSet = some vs) (hquorum : ∀ c, vs.quorumSize ≤ (holders n vs c).card ↔
      ∃ x, ((n.voterOffsets vs).insertionSort (· ≥ ·))[vs.quorumSize - 1]? = some x ∧ c ≤ x) :
    AdvancesExactly n := by
  have hbound : ∀ c, Committable n c → ∃ x,
      ((n.voterOffsets vs).insertionSort (· ≥ ·))[vs.quorumSize - 1]? = some x ∧ c ≤ x := by
    intro c hc
    obtain ⟨vs', hvs', hcard⟩ := hc.quorum
    obtain rfl : vs = vs' := Option.some.inj (hvs.symm.trans hvs')
    exact (hquorum c).mp hcard
  cases hnoOp : n.leaderNoOpIndex with
  | none =>
    have hnone : n.tryAdvanceCommitIndex = none := by
      simp [RaftNode.tryAdvanceCommitIndex, hlead, hvs, hnoOp]
    rw [AdvancesExactly, hnone]
    refine ⟨fun c hc => (by cases hc), fun _ c hc => ?_⟩
    obtain ⟨k, hk, -⟩ := hc.noOp
    rw [hnoOp] at hk
    cases hk
  | some noOpIndex =>
    cases hx : ((n.voterOffsets vs).insertionSort (· ≥ ·))[vs.quorumSize - 1]? with
    | none =>
      have hnone : n.tryAdvanceCommitIndex = none := by
        simp [RaftNode.tryAdvanceCommitIndex, hlead, hvs, hnoOp, hx]
      rw [AdvancesExactly, hnone]
      refine ⟨fun c hc => (by cases hc), fun _ c hc => ?_⟩
      obtain ⟨x, hsome, -⟩ := hbound c hc
      rw [hx] at hsome
      cases hsome
    | some candidate =>
      have hgreatest : ∀ c, Committable n c → c ≤ candidate := by
        intro c hc
        obtain ⟨x, hsome, hle⟩ := hbound c hc
        rw [hx] at hsome
        cases hsome
        exact hle
      have hcandidate : n.tryAdvanceCommitIndex = if candidate ≤ n.commitIndex then none
          else if candidate < noOpIndex then none else some candidate := by
        simp [RaftNode.tryAdvanceCommitIndex, hlead, hvs, hnoOp, hx]
      rw [AdvancesExactly, hcandidate]
      split_ifs with hold hearly
      · refine ⟨fun c hc => (by cases hc), fun _ c hc => ?_⟩
        have := hgreatest c hc
        have := hc.advances
        omega
      · refine ⟨fun c hc => (by cases hc), fun _ c hc => ?_⟩
        obtain ⟨k, hk, hle⟩ := hc.noOp
        rw [hnoOp] at hk
        cases hk
        have := hgreatest c hc
        omega
      · refine ⟨fun c hc => ?_, fun hc => (by cases hc)⟩
        cases hc
        refine ⟨⟨⟨vs, hvs, (hquorum _).mpr ⟨_, hx, le_refl _⟩⟩, ⟨_, hnoOp, ?_⟩, ?_⟩, hgreatest⟩
        · omega
        · omega

theorem mapM_buildRecord_ids {p : VoterParsing} {voters : List VoterConfig}
    {records : List VoterRecord} (h : voters.mapM (buildRecord p) = .ok records) :
    records.map VoterRecord.nodeId = voters.map VoterConfig.nodeId := by
  induction voters generalizing records with
  | nil =>
    cases h
    rfl
  | cons v rest ih =>
    rw [List.mapM_cons] at h
    cases hv : buildRecord p v with
    | error e =>
      rw [hv] at h
      cases h
    | ok r =>
      cases hrest : rest.mapM (buildRecord p) with
      | error e =>
        rw [hv, hrest] at h
        cases h
      | ok rs =>
        rw [hv, hrest] at h
        cases h
        have hid : r.nodeId = v.nodeId := by
          unfold buildRecord at hv
          split at hv
          · cases hv
          · cases hv
            rfl
        rw [List.map_cons, List.map_cons, hid, ih hrest]

theorem buildVoterSet_ids {p : VoterParsing} {config : ClusterConfig} {vs : VoterSet}
    (h : buildVoterSet p config = .ok (some vs)) :
    vs.voters.map VoterRecord.nodeId = config.voters.map VoterConfig.nodeId := by
  exact mapM_buildRecord_ids (buildVoterSet_ok h)

theorem advances_of_counts {config : ClusterConfig} {voterSet : Option VoterSet} {rng : List ℕ}
    {n : RaftNode} (hsame : SameIdentity (RaftNode.build config voterSet rng) n)
    (hlead : n.role = .leader)
    (hcounts : ∀ vs, voterSet = some vs →
      (vs.voters.map VoterRecord.nodeId).Nodup ∨ vs.ids.card ≤ 1) : AdvancesExactly n := by
  have hvs : n.voterSet = voterSet := hsame.voterSet
  cases voterSet with
  | none =>
    refine ⟨fun c hc => ?_, fun _ c hc => ?_⟩
    · simp [RaftNode.tryAdvanceCommitIndex, hlead, hvs] at hc
    · obtain ⟨vs, hsome, -⟩ := hc.quorum
      rw [hvs] at hsome
      cases hsome
  | some vs =>
    refine tryAdvance_spec hlead hvs (quorum_holds_iff ?_ (hcounts vs rfl))
    exact fun v hv hother p hp => lookup_isVoter hsame hv hother hp

/-- A leader commits too early if half of the voters hold an index and one of them has two records:
those records alone are as many as a quorum. -/
theorem reaching_overcounts {config : ClusterConfig} {vs : VoterSet} {rng : List ℕ}
    {S : Finset NodeId} (hsub : S ⊆ vs.ids) {v : NodeId} (hv : v ∈ S)
    (htwice : 1 < (vs.voters.map VoterRecord.nodeId).count v) (hcard : S.card + 1 = vs.quorumSize) :
    ¬AdvancesExactly (reaching (RaftNode.build config (some vs) rng) S) := by
  intro hadvances
  set n := reaching (RaftNode.build config (some vs) rng) S with hn
  have hsame : SameIdentity (RaftNode.build config (some vs) rng) n := reaching_identity _ S
  have hoffset : ∀ w ∈ vs.ids, offsetOf n w = if w ∈ S then 2 else 1 := by
    intro w hw
    refine offsetOf_reaching ?_
    by_cases hself : w = config.nodeId
    · exact .inl hself
    · exact .inr (initialPeers_tracks_voters config hw hself)
  have hrecords : (n.voterOffsets vs).countP (fun x => decide (2 ≤ x)) =
      (vs.voters.map VoterRecord.nodeId).countP (fun w => decide (w ∈ S)) := by
    rw [voterOffsets_eq (fun w hw hother p hp => lookup_isVoter hsame hw hother hp),
      List.countP_map, List.countP_map]
    refine List.countP_congr (fun r hr => ?_)
    have hr : r.nodeId ∈ vs.ids := List.mem_toFinset.mpr (List.mem_map_of_mem hr)
    by_cases hin : r.nodeId ∈ S <;> simp [hoffset _ hr, hin]
  have hmany := card_lt_countP hsub hv htwice
  obtain ⟨x, hx, hle⟩ := (lt_countP_sort_iff (n.voterOffsets vs) (vs.quorumSize - 1) 2).mp
    (by omega)
  have hcommit : n.tryAdvanceCommitIndex = some x := by
    have hlead : n.role = .leader := rfl
    have hvs : n.voterSet = some vs := rfl
    have hnoOp : n.leaderNoOpIndex = some 1 := rfl
    have hzero : n.commitIndex = 0 := rfl
    simp only [RaftNode.tryAdvanceCommitIndex, hlead, hvs, hnoOp, hx, hzero]
    simp only [ne_eq, not_true_eq_false, if_false]
    rw [if_neg (by omega), if_neg (by omega)]
  obtain ⟨vs', hvs', hquorum⟩ := (hadvances.1 x hcommit).1.quorum
  obtain rfl : vs = vs' := Option.some.inj hvs'
  have hfew : holders n vs x ⊆ S := by
    intro w hw
    obtain ⟨hw, hreach⟩ := Finset.mem_filter.mp hw
    by_contra hout
    rw [hoffset w hw, if_neg hout] at hreach
    omega
  have := Finset.card_le_card hfew
  omega

theorem exists_overcounting {config : ClusterConfig} {vs : VoterSet} {rng : List ℕ}
    (hdup : ¬(vs.voters.map VoterRecord.nodeId).Nodup) (hmany : 1 < vs.ids.card) :
    ∃ n, SameIdentity (RaftNode.build config (some vs) rng) n ∧ n.role = .leader ∧
      ¬AdvancesExactly n := by
  have hsize := vs.quorumSize_eq
  obtain ⟨v, htwice⟩ : ∃ v, 1 < (vs.voters.map VoterRecord.nodeId).count v := by
    by_contra hnone
    push Not at hnone
    exact hdup (List.nodup_iff_count_le_one.mpr hnone)
  have hv : v ∈ vs.ids := List.mem_toFinset.mpr (List.count_pos_iff.mp (by omega))
  obtain ⟨S, hvS, hsub, hcard⟩ := Finset.exists_subsuperset_card_eq
    (Finset.singleton_subset_iff.mpr hv)
    (by rw [Finset.card_singleton]; omega : ({v} : Finset NodeId).card ≤ vs.quorumSize - 1)
    (by omega)
  exact ⟨_, reaching_identity _ S, rfl,
    reaching_overcounts hsub (Finset.singleton_subset_iff.mp hvS) htwice (by omega)⟩

/-- Every leader of a configuration advances to the greatest committable index, and stays where it
is only when there is none, exactly when no node id is configured twice or only one node id is
configured. -/
theorem commit_advance_counts_voters {p : VoterParsing} {config : ClusterConfig} {rng : List ℕ}
    {n₀ : RaftNode} (hnew : RaftNode.new p config rng = .ok n₀) :
    (∀ n, SameIdentity n₀ n → n.role = .leader → AdvancesExactly n) ↔
      (config.voters.map VoterConfig.nodeId).Nodup ∨
        ∀ v ∈ config.voters, ∀ w ∈ config.voters, v.nodeId = w.nodeId := by
  obtain ⟨voterSet, rfl, hbuild⟩ := new_build hnew
  have hsingle : ∀ vs, voterSet = some vs → (vs.ids.card ≤ 1 ↔
      ∀ v ∈ config.voters, ∀ w ∈ config.voters, v.nodeId = w.nodeId) := by
    rintro vs rfl
    rw [VoterSet.ids, buildVoterSet_ids hbuild, Finset.card_le_one]
    simp
  constructor
  · intro hall
    by_contra hcounts
    push Not at hcounts
    obtain ⟨hdup, hmany⟩ := hcounts
    have hne : config.voters ≠ [] := by
      intro hempty
      rw [hempty] at hdup
      exact hdup List.nodup_nil
    obtain ⟨vs, rfl⟩ := buildVoterSet_isSome hne hbuild
    rw [← buildVoterSet_ids hbuild] at hdup
    obtain ⟨n, hsame, hlead, hfails⟩ := exists_overcounting hdup
      (not_le.mp (fun hle => by
        obtain ⟨v, hv, w, hw, hdiffer⟩ := hmany
        exact hdiffer ((hsingle vs rfl).mp hle v hv w hw)))
    exact hfails (hall n hsame hlead)
  · intro hcounts n hsame hlead
    refine advances_of_counts hsame hlead ?_
    rintro vs rfl
    rw [buildVoterSet_ids hbuild, hsingle vs rfl]
    exact hcounts

def leading (config : ClusterConfig) (vs : VoterSet) (offset : ℕ) : RaftNode :=
  { (RaftNode.build config (some vs) []).updatePeer 2
    (fun p => { p with lastFetchOffset := offset }) with
    role := .leader
    lastLogIndex := 1
    lastLogTerm := 1
    leaderNoOpIndex := some 1 }

theorem leading_identity (config : ClusterConfig) (vs : VoterSet) (offset : ℕ) :
    SameIdentity (RaftNode.build config (some vs) []) (leading config vs offset) :=
  (updatePeer_identity _ 2 (f := fun p => { p with lastFetchOffset := offset })
    (fun _ => rfl)).trans ⟨rfl, rfl, rfl, rfl, rfl⟩

theorem commit_advance_counts_voters_second_voter :
    Committable (leading (threeVoterConfig false 1) threeVoterSet 1) 1 := by
  have hnew : RaftNode.new sampleParsing (threeVoterConfig false 1) [] =
      .ok (RaftNode.build (threeVoterConfig false 1) (some threeVoterSet) []) := rfl
  exact (((commit_advance_counts_voters hnew).mpr (.inl (by decide +kernel)) _
    (leading_identity _ _ 1) rfl).1 1 (by decide +kernel)).1

def twoDirectories : ClusterConfig :=
  { threeVoterConfig false 1 with
    voters := sampleVoters ++ [⟨1, "00000000-0000-4000-8000-000000000004", "h4", 1⟩] }

def fourRecords : VoterSet :=
  .ofRecords (sampleRecords ++ [⟨1, 0x40008000000000000004, [⟨"h4", 1⟩]⟩])

/-- The leader's two records are a quorum of their own: it commits what no other voter holds. -/
theorem twice_configured_leader_commits_alone :
    (∃ n₀, RaftNode.new sampleParsing twoDirectories [] = .ok n₀ ∧
      SameIdentity n₀ (leading twoDirectories fourRecords 0)) ∧
    (leading twoDirectories fourRecords 0).tryAdvanceCommitIndex = some 1 ∧
    (holders (leading twoDirectories fourRecords 0) fourRecords 1) = {1} ∧
    fourRecords.quorumSize = 2 ∧ ¬Committable (leading twoDirectories fourRecords 0) 1 := by
  have hquorum : fourRecords.quorumSize = 2 := by decide +kernel
  have hholders : holders (leading twoDirectories fourRecords 0) fourRecords 1 = {1} := by
    decide +kernel
  refine ⟨⟨_, rfl, leading_identity twoDirectories fourRecords 0⟩, by decide +kernel, hholders,
    hquorum, fun h => ?_⟩
  obtain ⟨vs, hvs, hcard⟩ := h.quorum
  obtain rfl : fourRecords = vs := Option.some.inj hvs
  rw [hholders, hquorum] at hcard
  exact absurd hcard (by decide)

end CommitQuorum
