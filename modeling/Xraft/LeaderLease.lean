import Xraft.EngineConstruction
import Xraft.LeaderStamps
import Xraft.ElectionSafety

/-! # Leader leases

A lease counts the voters that fetched within the check-quorum window. Nothing in the vote handlers
looks at that window, so the lease excludes a newer leader only in runs where voters hold their
votes back and late fetches stay away.
-/
namespace LeaderLease

open ProtocolTypes ClusterConfiguration ConsensusEngine DurableStores NodeDriver ServerRecovery
open EngineTransitions DriverJournal DriverTurns DurableBeforeVisible GuardedExecution
open MajorityQuorum ReplicatedCluster ElectionSafety LeaderStamps EngineConstruction

variable {σ : Type}

/-- The leader counts `v` towards its lease: `v` fetched in this leadership and within the
window. -/
def CountsOn (n : RaftNode) (v : NodeId) : Prop :=
  ∃ started ∈ n.leaderStartedTick, ∃ p ∈ n.peers, p.1 = v ∧ started < p.2.lastFetchTime ∧
    n.logicalTick - p.2.lastFetchTime < n.checkQuorumIntervalTicks

instance (n : RaftNode) (v : NodeId) : Decidable (CountsOn n v) :=
  inferInstanceAs (Decidable (∃ started ∈ n.leaderStartedTick, ∃ p ∈ n.peers, _))

def Released (T : Topology σ) (c : Cluster σ) (v : NodeId) (t : ℕ) : Prop :=
  ∀ l ∈ T.members, (c.nodes l).node.role = .leader → (c.nodes l).node.currentTerm < t →
    ¬CountsOn (c.nodes l).node v

instance (T : Topology σ) (c : Cluster σ) (v : NodeId) (t : ℕ) : Decidable (Released T c v t) :=
  inferInstanceAs (Decidable (∀ l ∈ T.members, _ → _ → _))

/-- A fetch reaches a leader only while its sender has not moved on to a later term. -/
def FetchesCurrent (c : Cluster σ) (e : Event) : Prop :=
  ∀ turn ∈ c.turnOf e, ∀ req ∈ fetchOf turn.2, (c.nodes turn.1).node.role = .leader →
    (c.nodes req.replicaId).node.currentTerm ≤ (c.nodes turn.1).node.currentTerm

instance (c : Cluster σ) (e : Event) : Decidable (FetchesCurrent c e) :=
  inferInstanceAs (Decidable (∀ turn ∈ c.turnOf e, ∀ req ∈ fetchOf turn.2, _ → _))

/-- The term in which a vote would be cast on an event: that of a vote request, or the next one when
a pre-vote may open a campaign. -/
def voteTerm (n : RaftNode) : DriverEvent → Option ℕ
  | .inboundVote req => some req.term
  | .preVoteResult _ _ => if n.role = .preCandidate then some (n.currentTerm + 1) else none
  | _ => none

/-- Vote requests, and the pre-votes that open a campaign, reach only voters that no leader of a
lower term counts on. -/
def VotesReleased (T : Topology σ) (c : Cluster σ) (e : Event) : Prop :=
  ∀ turn ∈ c.turnOf e, ∀ t ∈ voteTerm (c.nodes turn.1).node turn.2, Released T c turn.1 t

instance (T : Topology σ) (c : Cluster σ) (e : Event) : Decidable (VotesReleased T c e) :=
  inferInstanceAs (Decidable (∀ turn ∈ c.turnOf e, ∀ t ∈ voteTerm _ turn.2, _))

/-! ## The invariant -/

structure LeaseInvariant (T : Topology σ) (c : Cluster σ) : Prop where
  election : ElectionInvariant T c
  tracks : ∀ n ∈ T.members, Tracks (c.nodes n).node
  ticks : ∀ n ∈ T.members, (c.nodes n).node.logicalTick ≤ u64Max
  exclusive : ∀ l ∈ T.members, (c.nodes l).node.role = .leader → ∀ v, v ≠ l → ∀ t x,
    (c.nodes l).node.currentTerm < t → t ≤ u64Max → Cast c v t x →
    ¬CountsOn (c.nodes l).node v

theorem mem_peers_of_standing {m k : RaftNode} (h : SameStanding m k) {v : NodeId} {q : PeerState}
    (hq : (v, q) ∈ k.peers) : ∃ p, (v, p) ∈ m.peers ∧ q.lastFetchTime = p.lastFetchTime ∧
      q.lastFetchSeq = p.lastFetchSeq := by
  have hmem : (v, q.isVoter, q.lastFetchTime, q.lastFetchSeq) ∈ peerStamps k :=
    List.mem_map.mpr ⟨(v, q), hq, rfl⟩
  rw [h.peers] at hmem
  obtain ⟨⟨v', p⟩, hp, heq⟩ := List.mem_map.mp hmem
  obtain ⟨rfl, _, ht, hs⟩ : v' = v ∧ p.isVoter = q.isVoter ∧ p.lastFetchTime = q.lastFetchTime ∧
    p.lastFetchSeq = q.lastFetchSeq := by simpa using heq
  exact ⟨p, hp, ht.symm, hs.symm⟩

theorem countsOn_of_standing {m k : RaftNode} (h : SameStanding m k) {v : NodeId}
    (hk : CountsOn k v) : CountsOn m v := by
  obtain ⟨started, hs, ⟨v, q⟩, hq, rfl, hlt, hw⟩ := hk
  obtain ⟨p, hp, ht, _⟩ := mem_peers_of_standing h hq
  rw [ht] at hlt hw
  rw [h.logicalTick, h.interval] at hw
  exact ⟨started, h.leaderStartedTick ▸ hs, (v, p), hp, rfl, hlt, hw⟩

theorem tracks_of_standing {m k : RaftNode} (h : SameStanding m k) (hm : Tracks m) : Tracks k := by
  have hkeys : k.peers.map Prod.fst = m.peers.map Prod.fst := by
    have := congrArg (List.map Prod.fst) h.peers
    simpa [peerStamps, Function.comp_def] using this
  exact ⟨hkeys ▸ hm.nodup, by rw [hkeys, h.id]; exact hm.others⟩

/-- A leader counts on a voter because it did before, or because the voter's fetch arrives. -/
theorem LeadMove.countsOn {n m : RaftNode} {event : DriverEvent} (h : LeadMove n event m)
    (htick : n.logicalTick ≤ m.logicalTick)
    (interval : m.checkQuorumIntervalTicks = n.checkQuorumIntervalTicks) {v : NodeId}
    (hm : CountsOn m v) : n.role = .leader ∧ m.currentTerm = n.currentTerm ∧
      (CountsOn n v ∨ ∃ req, event = .inboundFetch req ∧ req.replicaId = v) := by
  obtain ⟨started, hs, ⟨v, q⟩, hq, rfl, hlt, hw⟩ := hm
  dsimp only at hlt hw ⊢
  cases h with
  | retain role term hstarted stamps =>
    refine ⟨role, term, ?_⟩
    rcases stamps v q hq with ⟨p, hp, ht, _⟩ | hfetch
    · refine .inl ⟨started, hstarted ▸ hs, (v, p), hp, rfl, ht ▸ hlt, ?_⟩
      rw [ht, interval] at hw
      dsimp only
      omega
    · exact .inr hfetch
  | fresh _ hstarted hpeers =>
    have ht := hpeers v q hq
    rw [hs] at hstarted
    have := Option.some.inj hstarted
    omega

/-! ## Steps -/

theorem LeaseInvariant.update {T : Topology σ} {c : Cluster σ} {n : NodeId} {d : Driver σ}
    (h : LeaseInvariant T c) (helect : ElectionInvariant T (c.update n d))
    (tracks : Tracks d.node) (ticks : d.node.logicalTick ≤ u64Max)
    (casts : ∀ l ∈ T.members, l ≠ n → (c.nodes l).node.role = .leader → ∀ t x,
      (c.nodes l).node.currentTerm < t → t ≤ u64Max →
      (⟨t, some x⟩ : Ballot) ∈ persisted d.trace → ¬CountsOn (c.nodes l).node n)
    (leads : d.node.role = .leader → ∀ v, v ≠ n → ∀ t x, d.node.currentTerm < t → t ≤ u64Max →
      Cast c v t x → ¬CountsOn d.node v) : LeaseInvariant T (c.update n d) := by
  refine ⟨helect, fun m hm => ?_, fun m hm => ?_, fun l hl => ?_⟩
  · by_cases hmn : m = n
    · rw [hmn, update_self]
      exact tracks
    · rw [update_ne c d hmn]
      exact h.tracks m hm
  · by_cases hmn : m = n
    · rw [hmn, update_self]
      exact ticks
    · rw [update_ne c d hmn]
      exact h.ticks m hm
  · by_cases hln : l = n
    · subst hln
      rw [update_self]
      intro hr v hv t x hlt ht hcast
      rw [Cast, update_ne c d hv] at hcast
      exact leads hr v hv t x hlt ht hcast
    · rw [update_ne c d hln]
      intro hr v hv t x hlt ht hcast
      by_cases hvn : v = n
      · subst hvn
        rw [Cast, update_self] at hcast
        exact casts l hl hln hr t x hlt ht hcast
      · rw [Cast, update_ne c d hvn] at hcast
        exact h.exclusive l hl hr v hv t x hlt ht hcast

theorem LeaseInvariant.unmoved {T : Topology σ} {c : Cluster σ} {n : NodeId} {d : Driver σ}
    (h : LeaseInvariant T c) (hn : n ∈ T.members) (helect : ElectionInvariant T (c.update n d))
    (node : d.node = (c.nodes n).node) (hp : persisted d.trace = persisted (c.nodes n).trace) :
    LeaseInvariant T (c.update n d) := by
  refine h.update helect (node ▸ h.tracks n hn) (node ▸ h.ticks n hn) ?_ ?_
  · intro l hl hln hr t x hlt ht hcast
    rw [hp] at hcast
    exact h.exclusive l hl hr n hln.symm t x hlt ht hcast
  · rw [node]
    exact h.exclusive n hn

variable [StateMachine σ]

theorem turn_lease {T : Topology σ} {c : Cluster σ} (h : LeaseInvariant T c) {n : NodeId}
    (hn : n ∈ T.members) {e : Event} {event : DriverEvent} (hturn : c.turnOf e = some (n, event))
    (hfetch : FetchesCurrent c e) (hvotes : VotesReleased T c e)
    (helect : ElectionInvariant T (c.update n ((c.nodes n).turn event))) :
    LeaseInvariant T (c.update n ((c.nodes n).turn event)) := by
  have hrec := h.election.record n hn
  by_cases hhalt : (c.nodes n).haltReason = none
  swap
  · have hstill : (c.nodes n).turn event = c.nodes n := by
      unfold Driver.turn
      rw [if_pos (Option.isSome_iff_ne_none.mpr hhalt)]
    rw [hstill] at helect ⊢
    exact h.unmoved hn helect rfl rfl
  obtain ⟨m, hmove, hran⟩ := turn_handled hrec.settled event
  have hstand := hran.ran.standing
  have hident := hmove.identity
  have hclocks := EngineMove.clocks hmove
  obtain ⟨w, hj, _, hp⟩ := hran.ran.journal
  have htrace : ((c.nodes n).turn event).trace = (c.nodes n).trace ++ w := hj.trace
  refine h.update helect
    (tracks_of_standing hstand (tracks_of_kinds hident.peers hident.id (h.tracks n hn))) ?_ ?_ ?_
  · rw [hstand.logicalTick]
    exact (hclocks.tick (h.ticks n hn)).2
  · intro l hl hln hr t x hlt ht hcast
    rw [htrace, persisted_append, List.mem_append] at hcast
    rcases hcast with hcast | hcast
    · exact h.exclusive l hl hr n hln.symm t x hlt ht hcast
    · obtain ⟨state, hs, hb⟩ := mem_persisted hcast
      have hm : ballot m = ⟨t, some x⟩ := (hp state hs).symm.trans hb
      have hmt : m.currentTerm = t := congrArg Ballot.term hm
      rcases EngineMove.vote hmove (x := x) (by rw [hm]) with hsame | hnew
      · -- the vote was on disk before
        have hdisk : onDisk (c.nodes n) = ⟨t, some x⟩ :=
          (hrec.settled hhalt).trans (hsame.symm.trans hm)
        refine h.exclusive l hl hr n hln.symm t x hlt ht ?_
        rw [Cast, ← hdisk]
        exact hrec.persisted_of_vote (by rw [hdisk])
      · cases hnew with
        | granted req hterm => exact hvotes _ hturn _ rfl l hl hr (by omega)
        | campaign peer resp hrole hterm =>
          refine hvotes _ hturn _ (if_pos hrole) l hl hr ?_
          have : satAdd (c.nodes n).node.currentTerm 1 ≤ (c.nodes n).node.currentTerm + 1 :=
            min_le_left _ _
          show (c.nodes l).node.currentTerm < (c.nodes n).node.currentTerm + 1
          omega
        | alone _ hquorum =>
          -- the only voter is `n`, so nobody else leads
          have hlone := preElection_electorate hrec.voterSet hquorum
          rw [hrec.node_id] at hlone
          exact absurd (Elected.lone h.election hlone (h.election.won l hl hr)) hln
  · intro hr v hv t x hlt ht hcast hcounts
    rw [hstand.role] at hr
    have hterm : ((c.nodes n).turn event).node.currentTerm = m.currentTerm :=
      congrArg Ballot.term hstand.ballot
    obtain ⟨hrole, hmt, hcause⟩ := LeadMove.countsOn (EngineMove.leads hmove hr)
      (hclocks.tick (h.ticks n hn)).1 hident.interval (countsOn_of_standing hstand hcounts)
    rw [hterm, hmt] at hlt
    rcases hcause with hcounted | ⟨req, rfl, rfl⟩
    · exact h.exclusive n hn hrole v hv t x hlt ht hcast hcounted
    · have := hfetch _ hturn _ rfl hrole
      dsimp only at this
      have := Cast.le_current h.election hcast ht
      omega

theorem restart_lease {T : Topology σ} {c : Cluster σ} (h : LeaseInvariant T c) {n : NodeId}
    (hn : n ∈ T.members) (rng : List ℕ) (faults : List (Option Fault))
    (helect : ElectionInvariant T (c.update n (T.launch n rng faults (durable (c.nodes n))))) :
    LeaseInvariant T (c.update n (T.launch n rng faults (durable (c.nodes n)))) := by
  have hrec := h.election.record n hn
  obtain ⟨sm, snapshotMeta, hran⟩ : ∃ sm snapshotMeta, RanFrom n _ _ _ :=
    start_ran (T.config n) (some T.voterSet) rng (T.maxFetchBatch n) T.initial faults
      (durable (c.nodes n))
  have hstand := hran.ran.standing
  obtain ⟨w, hj, _, hp⟩ := hran.ran.journal
  have htracks : Tracks (recoverNode (T.config n) (some T.voterSet) rng (c.nodes n).hsStore
      (c.nodes n).logStore snapshotMeta) := by
    obtain ⟨hnodup, hothers⟩ := initialPeers_otherKeys (T.config n) (some T.voterSet)
    exact ⟨hnodup, hothers⟩
  refine h.update helect (tracks_of_standing hstand htracks) ?_ ?_ ?_
  · rw [Topology.launch, hstand.logicalTick]
    exact Nat.zero_le _
  · intro l hl hln hr t x hlt ht hcast
    refine h.exclusive l hl hr n hln.symm t x hlt ht ?_
    have htrace : (T.launch n rng faults (durable (c.nodes n))).trace = (c.nodes n).trace ++ w :=
      hj.trace
    rw [htrace, persisted_append, List.mem_append] at hcast
    rcases hcast with hcast | hcast
    · exact hcast
    · obtain ⟨state, hs, hb⟩ := mem_persisted hcast
      have hdisk : onDisk (c.nodes n) = ⟨t, some x⟩ :=
        (recoverNode_ballot (T.config n) (some T.voterSet) rng (c.nodes n).hsStore
          (c.nodes n).logStore snapshotMeta).symm.trans ((hp state hs).symm.trans hb)
      rw [Cast, ← hdisk]
      exact hrec.persisted_of_vote (by rw [hdisk])
  · intro hr
    rw [Topology.launch, hstand.role] at hr
    exact absurd hr (recoverNode_role (by simp) (by simp))

theorem next_lease {T : Topology σ} {c : Cluster σ} (h : LeaseInvariant T c) {e : Event}
    (hfetch : FetchesCurrent c e) (hvotes : VotesReleased T c e) :
    LeaseInvariant T (T.next c e) := by
  have helect := next_preserves h.election e
  rcases next_cases T c e with heq | ⟨n, d, hn, hacts, heq⟩
  · rw [heq]
    exact h
  rw [heq] at helect ⊢
  rcases acts_cases hacts with ⟨event, hturn, rfl⟩ | ⟨_, rfl⟩ | ⟨faults, _, rfl⟩ |
    ⟨rng, faults, _, rfl⟩
  · exact turn_lease h hn hturn hfetch hvotes helect
  · obtain ⟨w, store, jobs, done, fs, hw, hworker⟩ := runSnapshotWorker_inert (c.nodes n)
    refine h.unmoved hn helect (by rw [hworker]) ?_
    rw [hworker]
    show persisted ((c.nodes n).trace ++ w) = _
    rw [persisted_append, persisted_passive (fun x hx => (hw x hx).1), List.append_nil]
  · exact h.unmoved hn helect rfl rfl
  · exact restart_lease h hn rng faults helect

theorem initial_lease (T : Topology σ) : LeaseInvariant T T.initialCluster := by
  have hnode : ∀ n, T.initialCluster.nodes n = boot (T.config n) (some T.voterSet) (T.draws n)
      (T.maxFetchBatch n) [] Durable.fresh T.initial none := fun n => start_fresh _ _ _ _ _ _
  refine ⟨initial_electionInvariant T, fun n _ => ?_, fun n _ => ?_, fun l _ hr => ?_⟩
  · rw [hnode]
    obtain ⟨hnodup, hothers⟩ := initialPeers_otherKeys (T.config n) (some T.voterSet)
    exact ⟨hnodup, hothers⟩
  · rw [hnode]
    exact Nat.zero_le _
  · exact absurd hr (launch_role T l _ _ (by simp) (by simp))

/-- The voters behind an active lease, the leader included, form a majority. -/
theorem lease_majority {n : RaftNode} {vs : VoterSet} (hn : Tracks n) (hvs : n.voterSet = some vs)
    (h : n.hasActiveLease = true) : ∃ Q, IsMajority vs.ids Q ∧
      ∀ v ∈ Q, v = n.id ∨ CountsOn n v := by
  unfold RaftNode.hasActiveLease at h
  rw [hvs] at h
  split_ifs at h
  cases hs : n.leaderStartedTick with
  | none => simp [hs] at h
  | some started =>
    rw [hs] at h
    refine ⟨_, counted_majority hn (of_decide_eq_true h), fun v hv => ?_⟩
    refine (mem_counted hv).2.imp_right
      (fun ⟨p, hp, htest⟩ => ⟨started, hs, (v, p), hp, rfl, ?_⟩)
    simpa [RaftNode.leasePeer] using htest

/-- In every run in which votes are held back while a leader of a lower term counts on the voter,
and no fetch of a voter that has moved on reaches a leader, an active lease in term `t` excludes
leaders of later terms. -/
theorem active_lease_excludes_newer_leaders (T : Topology σ) {c : Cluster σ}
    (h : T.Reachable (fun c e => FetchesCurrent c e ∧ VotesReleased T c e) c) {l n : NodeId}
    {t t' : ℕ} (hl : LeaderAt c l t) (hlease : (c.nodes l).node.hasActiveLease = true)
    (hn : LeaderAt c n t') (ht' : t' ≤ u64Max) : t' ≤ t := by
  have hstep : ∀ s e, LeaseInvariant T s → FetchesCurrent s e ∧ VotesReleased T s e →
      LeaseInvariant T (T.next s e) := fun s e hs hok => next_lease hs hok.1 hok.2
  have hinv : LeaseInvariant T c := Execution.invariant hstep h (initial_lease T)
  have hlm : l ∈ T.members := by
    by_contra hout
    exact (hinv.election.outside l hout).2 hl.1
  have hrec := hinv.election.record l hlm
  obtain ⟨Q, hQ, hcounts⟩ := lease_majority (hinv.tracks l hlm) hrec.voterSet hlease
  rcases hn.elected hinv.election with hone | ⟨Q', hQ', hcast⟩
  · obtain rfl : l = n := (hl.elected hinv.election).lone hinv.election hone
    exact (hn.2.symm.trans hl.2).le
  · obtain ⟨v, hv, hv'⟩ := hQ.meet hQ'
    by_contra hlt
    have hlt : (c.nodes l).node.currentTerm < t' := hl.2 ▸ not_le.mp hlt
    by_cases hvl : v = l
    · subst hvl
      have := (hcast v hv').le_current hinv.election ht'
      omega
    · rcases hcounts v hv with hself | hon
      · exact hvl (hself.trans hrec.node_id)
      · exact hinv.exclusive l hlm hl.1 v hvl t' n hlt ht' (hcast v hv') hon

def ticksOf (n : NodeId) (events : List Event) : ℕ :=
  events.countP (fun e => match e with
    | .tick m => m = n
    | _ => false)

def LockStep (members : Finset NodeId) (events : List Event) : Prop :=
  ∀ k ≤ events.length, ∀ a ∈ members, ∀ b ∈ members,
    ticksOf a (events.take k) ≤ ticksOf b (events.take k) + 1

def leaseRun : List Event :=
  [.tick 1, .tick 2, .tick 3, .tick 1, .tick 2, .tick 3, .deliver 1 4, .deliver 2 6, .deliver 1 7,
    .deliver 2 8, .tick 1, .tick 2, .tick 3, .deliver 2 9]

def usurpedRun : List Event :=
  leaseRun ++ [.tick 1, .tick 2, .tick 3, .deliver 2 14, .deliver 3 8, .deliver 2 17, .deliver 3 10]

abbrev leasing (events : List Event) : Cluster NoOpStateMachine :=
  replay (threeVoters true).next (threeVoters true).initialCluster events

theorem active_lease_excludes_newer_leaders_first_lease :
    LeaderAt (leasing leaseRun) 1 1 ∧ ((leasing leaseRun).nodes 1).node.hasActiveLease = true ∧
      1 ≤ 1 := by
  have hrun : (threeVoters true).Reachable
      (fun c e => FetchesCurrent c e ∧ VotesReleased (threeVoters true) c e) (leasing leaseRun) :=
    replay_execution (by decide +kernel)
  have hl : LeaderAt (leasing leaseRun) 1 1 := by unfold LeaderAt; decide +kernel
  have hlease : ((leasing leaseRun).nodes 1).node.hasActiveLease = true := by decide +kernel
  exact ⟨hl, hlease, active_lease_excludes_newer_leaders _ hrun hl hlease hl (by decide)⟩

/-- Two leaders, the older with an active lease, after four ticks of every node. -/
theorem leased_leader_is_usurped :
    LockStep (threeVoters true).members usurpedRun ∧
      (threeVoters true).Reachable (fun _ _ => True) (leasing usurpedRun) ∧
      LeaderAt (leasing usurpedRun) 1 1 ∧
      ((leasing usurpedRun).nodes 1).node.hasActiveLease = true ∧
      LeaderAt (leasing usurpedRun) 2 2 := by
  refine ⟨?_, replay_execution (admissible_true _ _), ?_, by decide +kernel, ?_⟩
  · unfold LockStep; decide +kernel
  · unfold LeaderAt; decide +kernel
  · unfold LeaderAt; decide +kernel

end LeaderLease
