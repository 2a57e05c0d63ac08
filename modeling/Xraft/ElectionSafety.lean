import Xraft.DurableBeforeVisible
import Xraft.ReplicatedCluster
import Xraft.MajorityQuorum
import Mathlib.Data.List.Pairwise

/-! # Election safety

At most one leader per term, over every interleaving, every store failure and every restart. A vote
counts once it is persisted; the traces keep every ballot that ever reached the disk.
-/
namespace ElectionSafety

open ProtocolTypes ClusterConfiguration ConsensusEngine DurableStores NodeDriver ServerRecovery
open EngineTransitions PersistOrder DriverJournal ActionBatches DriverTurns DurableBeforeVisible
open GuardedExecution MajorityQuorum ReplicatedCluster

variable {σ : Type}

/-! ## Persisted ballots -/

def persistedBallot : Effect → Option Ballot
  | .persist state => some (ballotOf state)
  | _ => none

def persisted (trace : List Effect) : List Ballot := trace.filterMap persistedBallot

theorem persisted_append (w w' : List Effect) : persisted (w ++ w') = persisted w ++ persisted w' :=
  List.filterMap_append

theorem mem_persisted {w : List Effect} {b : Ballot} (h : b ∈ persisted w) :
    ∃ state, Effect.persist state ∈ w ∧ ballotOf state = b := by
  obtain ⟨x, hx, hb⟩ := List.mem_filterMap.mp h
  cases x <;> simp [persistedBallot] at hb
  exact ⟨_, hx, hb⟩

theorem persisted_passive {w : List Effect} (h : ∀ x ∈ w, Passive x) : persisted w = [] := by
  rw [persisted, List.filterMap_eq_nil_iff]
  intro x hx
  have := h x hx
  cases x <;> first | rfl | exact this.elim

theorem replay_ballot (l : Ledger) (w : List Effect) :
    (replay Ledger.after l w).ballot = l.ballot ∧ persisted w = [] ∨
      (replay Ledger.after l w).ballot ∈ persisted w := by
  induction w generalizing l with
  | nil => exact .inl ⟨rfl, rfl⟩
  | cons x w ih =>
    have hr : replay Ledger.after l (x :: w) = replay Ledger.after (l.after x) w := rfl
    have hp : persisted (x :: w) = persisted [x] ++ persisted w := persisted_append [x] w
    rw [hr, hp]
    rcases ih (l.after x) with ⟨h, hw⟩ | h
    · cases x with
      | persist state =>
        refine .inr (List.mem_append_left _ ?_)
        rw [h]
        exact List.mem_singleton_self _
      | _ => exact .inl ⟨h, by rw [hw]; rfl⟩
    · exact .inr (List.mem_append_right _ h)

structure Record (voters : VoterSet) (n : NodeId) (d : Driver σ) : Prop where
  node_id : d.node.id = n
  voterSet : d.node.voterSet = some voters
  settled : Settled d
  selfVoted : SelfVoted d.node
  chain : (persisted d.trace).Pairwise Ballot.Le
  below : ∀ b ∈ persisted d.trace, b.Le (onDisk d)
  current : ∀ b ∈ persisted d.trace, b.Le (ballot d.node)
  disk : onDisk d = ⟨0, none⟩ ∨ onDisk d ∈ persisted d.trace
  known : ∀ b ∈ persisted d.trace, ∀ x, b.vote = some x → x ∈ voters.ids ∨ x = n
  heldKnown : ∀ x, (ballot d.node).vote = some x → x ∈ voters.ids ∨ x = n
  granted : ∀ req resp, Effect.voteReply req (.ok resp) ∈ d.trace → resp.voteGranted = true →
    ⟨resp.term, some req.candidateId⟩ ∈ persisted d.trace

variable {voters : VoterSet} {n : NodeId}

/-- A ballot with a vote is on disk only after it was persisted. -/
theorem Record.persisted_of_vote {d : Driver σ} (h : Record voters n d) {x : NodeId}
    (hv : (onDisk d).vote = some x) : onDisk d ∈ persisted d.trace := by
  rcases h.disk with hd | hd
  · rw [hd] at hv
    cases hv
  · exact hd

/-- One vote per term, below `u64::MAX`. -/
theorem Record.vote_unique {d : Driver σ} (h : Record voters n d) {t : ℕ} (ht : t < u64Max)
    {x y : NodeId} (hx : (⟨t, some x⟩ : Ballot) ∈ persisted d.trace)
    (hy : (⟨t, some y⟩ : Ballot) ∈ persisted d.trace) : x = y := by
  have hle : ∀ {a b : NodeId}, (⟨t, some a⟩ : Ballot).Le ⟨t, some b⟩ → a = b := by
    rintro a b (h | ⟨_, h | h⟩ | ⟨h, _⟩)
    · exact absurd h (lt_irrefl _)
    · cases h
    · exact (Option.some.inj h).symm
    · exact absurd h (not_le.mpr ht)
  have hpair : (persisted d.trace).Pairwise (fun a b => a.Le b ∨ b.Le a) :=
    h.chain.imp (fun hab => .inl hab)
  have hsymm : Std.Symm (fun a b : Ballot => a.Le b ∨ b.Le a) := ⟨fun _ _ hab => hab.symm⟩
  rcases List.Pairwise.forall_of_forall (fun a _ => .inl (.refl a)) hpair hx hy with h | h
  · exact hle h
  · exact (hle h).symm

theorem Record.extend {d d₀ d' : Driver σ} {m : RaftNode} (h : Record voters n d)
    (htrace : d₀.trace = d.trace) (hhs : d₀.hsStore = d.hsStore) (hran : RanFrom n d₀ m d')
    (hid : m.id = n) (hvs : m.voterSet = some voters) (hself : SelfVoted m)
    (hle : (onDisk d).Le (ballot m))
    (hknown : ∀ x, (ballot m).vote = some x → x ∈ voters.ids ∨ x = n) : Record voters n d' := by
  obtain ⟨w, hj, _, hp⟩ := hran.ran.journal
  have htrace' : d'.trace = d.trace ++ w := hj.trace.trans (by rw [htrace])
  have hnew : ∀ b ∈ persisted w, b = ballot m := by
    intro b hb
    obtain ⟨state, hs, rfl⟩ := mem_persisted hb
    exact hp state hs
  have hold : ∀ b ∈ persisted d.trace, b.Le (ballot m) := fun b hb => (h.below b hb).trans hle
  have hstand := hran.ran.standing
  have hbase : (ledger { d₀ with node := m }).ballot = onDisk d := onDisk_congr hhs
  have hdisk : onDisk d' = onDisk d ∧ persisted w = [] ∨ onDisk d' ∈ persisted w := by
    rw [hj.disk, ← hbase]
    exact replay_ballot _ w
  refine ⟨hstand.id.trans hid, hstand.voterSet.trans hvs, hran.settled, ?_, ?_, ?_, ?_, ?_, ?_, ?_,
    ?_⟩
  · intro hrole
    have hv : d'.node.hardState.votedFor = m.hardState.votedFor :=
      congrArg Ballot.vote hstand.ballot
    rw [hv, hstand.id]
    exact hself (by rwa [hstand.role] at hrole)
  · rw [htrace', persisted_append, List.pairwise_append]
    refine ⟨h.chain, ?_, fun a ha b hb => by rw [hnew b hb]; exact hold a ha⟩
    refine List.pairwise_of_forall_mem_list (fun a ha b hb => ?_)
    rw [hnew a ha, hnew b hb]
    exact .refl _
  · intro b hb
    rw [htrace', persisted_append, List.mem_append] at hb
    rcases hdisk with ⟨hd, hw⟩ | hd
    · rw [hd]
      rw [hw] at hb
      exact h.below b (by simpa using hb)
    · rw [hnew _ hd]
      rcases hb with hb | hb
      · exact hold b hb
      · rw [hnew b hb]
        exact .refl _
  · intro b hb
    rw [hstand.ballot]
    rw [htrace', persisted_append, List.mem_append] at hb
    rcases hb with hb | hb
    · exact hold b hb
    · rw [hnew b hb]
      exact .refl _
  · rw [htrace', persisted_append]
    rcases hdisk with ⟨hd, _⟩ | hd
    · rw [hd]
      exact h.disk.imp_right (List.mem_append_left _)
    · exact .inr (List.mem_append_right _ hd)
  · intro b hb x hx
    rw [htrace', persisted_append, List.mem_append] at hb
    rcases hb with hb | hb
    · exact h.known b hb x hx
    · exact hknown x (hnew b hb ▸ hx)
  · intro x hx
    exact hknown x (hstand.ballot ▸ hx)
  · intro req resp hmem hg
    rw [htrace', persisted_append, List.mem_append]
    rw [htrace', List.mem_append] at hmem
    rcases hmem with hmem | hmem
    · exact .inl (h.granted req resp hmem hg)
    · -- a new grant was covered by the ballot on disk when it was released
      obtain ⟨before, after, rfl⟩ := List.append_of_mem hmem
      obtain ⟨_, _, hcov⟩ := hj.lawful.at
      obtain ⟨hterm, hvote⟩ := hcov hg
      have hb : (⟨resp.term, some req.candidateId⟩ : Ballot) =
          (replay Ledger.after (ledger { d₀ with node := m }) before).ballot := by
        rw [hterm, ← hvote]
      rw [hb]
      rcases replay_ballot (ledger { d₀ with node := m }) before with ⟨hr, _⟩ | hr
      · rw [hr, hbase] at hvote ⊢
        exact .inl (h.persisted_of_vote hvote)
      · refine .inr ?_
        rw [persisted_append]
        exact List.mem_append_left _ hr

theorem Record.inert {d d' : Driver σ} {w : List Effect} (h : Record voters n d)
    (hw : ∀ x ∈ w, Inert x) (htrace : d'.trace = d.trace ++ w) (hnode : d'.node = d.node)
    (hhs : d'.hsStore = d.hsStore) (hhalt : d'.haltReason = d.haltReason) :
    Record voters n d' := by
  have hp : persisted d'.trace = persisted d.trace := by
    rw [htrace, persisted_append, persisted_passive (fun x hx => (hw x hx).1), List.append_nil]
  have hdisk := onDisk_congr hhs
  refine ⟨hnode ▸ h.node_id, hnode ▸ h.voterSet, ?_, hnode ▸ h.selfVoted, hp ▸ h.chain, ?_, ?_, ?_,
    hp ▸ h.known, hnode ▸ h.heldKnown, ?_⟩
  · intro hh
    rw [hdisk, hnode]
    exact h.settled (hhalt ▸ hh)
  · rw [hp, hdisk]
    exact h.below
  · rw [hp, hnode]
    exact h.current
  · rw [hp, hdisk]
    exact h.disk
  · intro req resp hmem hg
    rw [hp]
    rw [htrace, List.mem_append] at hmem
    rcases hmem with hmem | hmem
    · exact h.granted req resp hmem hg
    · obtain ⟨_, _, hcov⟩ := (hw _ hmem).2 0 ⟨⟨resp.term + 1, none⟩, [], []⟩
      exact absurd (hcov hg).1 (by simp)

/-! ## The cluster -/

/-- `v` has persisted a vote for `x` in term `t`. -/
def Cast (c : Cluster σ) (v : NodeId) (t : ℕ) (x : NodeId) : Prop :=
  (⟨t, some x⟩ : Ballot) ∈ persisted (c.nodes v).trace

/-- A majority has persisted its votes for `x`, or `x` is the only voter. -/
def Elected (voters : VoterSet) (c : Cluster σ) (x : NodeId) (t : ℕ) : Prop :=
  voters.ids = {x} ∨ ∃ Q, IsMajority voters.ids Q ∧ ∀ v ∈ Q, Cast c v t x

def LeaderAt (c : Cluster σ) (n : NodeId) (t : ℕ) : Prop :=
  (c.nodes n).node.role = .leader ∧ (c.nodes n).node.currentTerm = t

variable {T : Topology σ} {c : Cluster σ}

def Grows (c c' : Cluster σ) : Prop := ∀ n, (c.nodes n).trace <+: (c'.nodes n).trace

theorem update_grows {n : NodeId} {d : Driver σ} (hd : (c.nodes n).trace <+: d.trace) :
    Grows c (c.update n d) := by
  intro m
  by_cases hm : m = n
  · rw [hm, update_self]
    exact hd
  · rw [update_ne c d hm]

theorem Cast.grows {c' : Cluster σ} (h : Grows c c') {v x : NodeId} {t : ℕ} (hv : Cast c v t x) :
    Cast c' v t x := by
  obtain ⟨w, hw⟩ := h v
  rw [Cast, ← hw, persisted_append]
  exact List.mem_append_left _ hv

theorem Elected.grows {c' : Cluster σ} (h : Grows c c') {x : NodeId} {t : ℕ}
    (hx : Elected voters c x t) : Elected voters c' x t := by
  rcases hx with hx | ⟨Q, hQ, hcast⟩
  · exact .inl hx
  · exact .inr ⟨Q, hQ, fun v hv => (hcast v hv).grows h⟩

structure ElectionInvariant (T : Topology σ) (c : Cluster σ) : Prop where
  record : ∀ n ∈ T.members, Record T.voterSet n (c.nodes n)
  outside : ∀ n ∉ T.members, (c.nodes n).trace = [] ∧ (c.nodes n).node.role ≠ .leader
  tally : ∀ n ∈ T.members, (c.nodes n).haltReason = none → (c.nodes n).node.role = .candidate →
    ∀ v ∈ (c.nodes n).node.votesReceived, Cast c v (c.nodes n).node.currentTerm n
  won : ∀ n ∈ T.members, (c.nodes n).node.role = .leader →
    Elected T.voterSet c n (c.nodes n).node.currentTerm

theorem ElectionInvariant.update {n : NodeId} {d : Driver σ} (h : ElectionInvariant T c)
    (hn : n ∈ T.members) (hd : (c.nodes n).trace <+: d.trace) (record : Record T.voterSet n d)
    (tally : d.haltReason = none → d.node.role = .candidate →
      ∀ v ∈ d.node.votesReceived, Cast (c.update n d) v d.node.currentTerm n)
    (won : d.node.role = .leader → Elected T.voterSet (c.update n d) n d.node.currentTerm) :
    ElectionInvariant T (c.update n d) := by
  constructor
  · intro m hm
    by_cases hmn : m = n
    · subst hmn
      rw [update_self]
      exact record
    · rw [update_ne c d hmn]
      exact h.record m hm
  · intro m hm
    have hmn : m ≠ n := fun hmn => hm (hmn ▸ hn)
    rw [update_ne c d hmn]
    exact h.outside m hm
  · intro m hm
    by_cases hmn : m = n
    · subst hmn
      rw [update_self]
      exact tally
    · rw [update_ne c d hmn]
      exact fun hh hr v hv => (h.tally m hm hh hr v hv).grows (update_grows hd)
  · intro m hm
    by_cases hmn : m = n
    · subst hmn
      rw [update_self]
      exact won
    · rw [update_ne c d hmn]
      exact fun hr => (h.won m hm hr).grows (update_grows hd)

theorem ElectionInvariant.unmoved {n : NodeId} {d : Driver σ} (h : ElectionInvariant T c)
    (hn : n ∈ T.members) (hd : (c.nodes n).trace <+: d.trace) (record : Record T.voterSet n d)
    (node : d.node = (c.nodes n).node) (halt : d.haltReason = (c.nodes n).haltReason) :
    ElectionInvariant T (c.update n d) := by
  refine h.update hn hd record (fun hh hr v hv => ?_) (fun hr => ?_)
  · rw [node] at hr hv ⊢
    exact (h.tally n hn (halt ▸ hh) hr v hv).grows (update_grows hd)
  · rw [node] at hr ⊢
    exact (h.won n hn hr).grows (update_grows hd)

theorem hasElectionQuorum_majority {m : RaftNode} (hvs : m.voterSet = some voters)
    (h : m.hasElectionQuorum = true) :
    IsMajority voters.ids (m.votesReceived.filter (· ∈ voters.ids)) := by
  unfold RaftNode.hasElectionQuorum at h
  rw [hvs] at h
  refine ⟨fun v hv => (Finset.mem_filter.mp hv).2, ?_⟩
  rw [← VoterSet.quorumSize_eq]
  exact of_decide_eq_true h

/-- A lone voter that elects itself is the electorate. -/
theorem coup_electorate {m : RaftNode} (hvs : m.voterSet = some voters)
    (h : RaftNode.hasElectionQuorum { m with votesReceived := {m.id} } = true) :
    voters.ids = {m.id} := by
  have hmaj := hasElectionQuorum_majority (m := { m with votesReceived := {m.id} }) hvs h
  have hone : ({m.id} : Finset NodeId).filter (· ∈ voters.ids) = {m.id} := by
    rw [Finset.filter_singleton] at hmaj ⊢
    split_ifs at hmaj ⊢ with hmem
    · rfl
    · simpa using hmaj.card
  exact (hone ▸ hmaj).eq_singleton

theorem preElection_electorate {m : RaftNode} (hvs : m.voterSet = some voters)
    (h : m.enterPreCandidate.hasPreElectionQuorum = true) : voters.ids = {m.id} := by
  refine coup_electorate hvs ?_
  simpa [RaftNode.hasPreElectionQuorum, RaftNode.hasElectionQuorum, RaftNode.enterPreCandidate,
    RaftNode.resetElectionTimer, hvs] using h

theorem cast_of_delivery (h : ElectionInvariant T c) {e : Event} {n sender : NodeId}
    {resp : VoteResponse} (hturn : c.turnOf e = some (n, .voteResult sender resp))
    (hg : resp.voteGranted = true) : Cast c sender resp.term n := by
  obtain ⟨position, req, -, hsent, rfl⟩ := turnOf_replied hturn
  have hmem : Effect.voteReply req (.ok resp) ∈ (c.nodes sender).trace :=
    List.mem_of_getElem? hsent
  have hsource : sender ∈ T.members := by
    by_contra hout
    rw [(h.outside sender hout).1] at hmem
    exact absurd hmem List.not_mem_nil
  exact (h.record _ hsource).granted req resp hmem hg

theorem Cast.member (h : ElectionInvariant T c) {v x : NodeId} {t : ℕ} (hv : Cast c v t x) :
    v ∈ T.members := by
  by_contra hout
  rw [Cast, (h.outside v hout).1] at hv
  exact List.not_mem_nil hv

theorem term_le_of_le {b b' : Ballot} (h : b.Le b') (hb : b.term ≤ u64Max) :
    b.term ≤ b'.term := by
  rcases h with h | ⟨h, _⟩ | ⟨_, h⟩
  · exact h.le
  · exact h.le
  · exact hb.trans h

/-- Votes are never cast beyond the voter's current term. -/
theorem Cast.le_current (h : ElectionInvariant T c)
    {v x : NodeId} {t : ℕ} (hv : Cast c v t x) (ht : t ≤ u64Max) :
    t ≤ (c.nodes v).node.currentTerm :=
  term_le_of_le ((h.record v (hv.member h)).current _ hv) ht

theorem Elected.lone (h : ElectionInvariant T c) {a b : NodeId} {t : ℕ}
    (ha : T.voterSet.ids = {a}) (hb : Elected T.voterSet c b t) : b = a := by
  rcases hb with hb | ⟨Q, hQ, hcast⟩
  · exact (Finset.singleton_injective (ha.symm.trans hb)).symm
  · obtain ⟨v, hv, _⟩ := hQ.meet hQ
    obtain rfl : v = a := Finset.mem_singleton.mp (ha ▸ hQ.subset hv)
    have hvote := hcast v hv
    rcases (h.record v (hvote.member h)).known _ hvote b rfl with hk | hk
    · exact Finset.mem_singleton.mp (ha ▸ hk)
    · exact hk

theorem elected_unique (h : ElectionInvariant T c) {a b : NodeId} {t : ℕ} (ht : t < u64Max)
    (ha : Elected T.voterSet c a t) (hb : Elected T.voterSet c b t) : a = b := by
  rcases ha with hone | ⟨Q, hQ, hcast⟩
  · exact (hb.lone h hone).symm
  · rcases hb with hone | ⟨Q', hQ', hcast'⟩
    · exact Elected.lone h hone (.inr ⟨Q, hQ, hcast⟩)
    · obtain ⟨v, hv, hv'⟩ := hQ.meet hQ'
      have hvote := hcast v hv
      exact (h.record v (hvote.member h)).vote_unique ht hvote (hcast' v hv')

theorem LeaderAt.elected (h : ElectionInvariant T c) {n : NodeId} {t : ℕ} (hn : LeaderAt c n t) :
    Elected T.voterSet c n t := by
  have hmem : n ∈ T.members := by
    by_contra hout
    exact (h.outside n hout).2 hn.1
  exact hn.2 ▸ h.won n hmem hn.1

section Steps

variable [StateMachine σ]

theorem turn_preserves (h : ElectionInvariant T c) {n : NodeId} {event : DriverEvent}
    (hn : n ∈ T.members)
    (hcast : ∀ sender resp, event = .voteResult sender resp → resp.voteGranted = true →
      Cast c sender resp.term n) :
    ElectionInvariant T (c.update n ((c.nodes n).turn event)) := by
  have hrec := h.record n hn
  by_cases hhalt : (c.nodes n).haltReason = none
  swap
  · have hstill : (c.nodes n).turn event = c.nodes n := by
      unfold Driver.turn
      rw [if_pos (Option.isSome_iff_ne_none.mpr hhalt)]
    rw [hstill]
    exact h.unmoved hn (List.prefix_refl _) hrec rfl rfl
  obtain ⟨m, hmove, hran⟩ := turn_handled hrec.settled event
  rw [hrec.node_id] at hran
  obtain ⟨input, helect, hinput⟩ := hmove.election hrec.selfVoted
  have hident := hmove.identity
  have hmid : m.id = n := hident.id.trans hrec.node_id
  have hmvs : m.voterSet = some T.voterSet := hident.voterSet.trans hrec.voterSet
  have hdisk : onDisk (c.nodes n) = ballot (c.nodes n).node := hrec.settled hhalt
  have hrec' : Record T.voterSet n ((c.nodes n).turn event) := by
    refine hrec.extend rfl rfl hran hmid hmvs (helect.selfVoted hrec.selfVoted hident.id)
      (hdisk ▸ helect.le) (fun x hx => ?_)
    rcases helect.vote hx with hx | hx | hx
    · exact hrec.heldKnown x hx
    · simp only [RaftNode.isKnownVoter, hrec.voterSet, VoterSet.contains_iff] at hx
      exact .inl hx
    · exact .inr (hx.trans hrec.node_id)
  obtain ⟨w, hj, _⟩ := hran.ran.journal
  have htrace : (c.nodes n).trace <+: ((c.nodes n).turn event).trace := ⟨w, hj.trace.symm⟩
  have hgrows : Grows c (c.update n ((c.nodes n).turn event)) := update_grows htrace
  have hstand := hran.ran.standing
  have hterm : ((c.nodes n).turn event).node.currentTerm = m.currentTerm :=
    congrArg Ballot.term hstand.ballot
  refine h.update hn htrace hrec' (fun hh hr v hv => ?_) (fun hr => ?_)
  · rw [hterm]
    rw [hstand.role] at hr
    rw [hstand.votesReceived] at hv
    cases helect with
    | keep hrole hb hvotes =>
      have ht : m.currentTerm = (c.nodes n).node.currentTerm := congrArg Ballot.term hb
      rw [ht]
      exact (h.tally n hn hhalt (hrole ▸ hr) v (hvotes ▸ hv)).grows hgrows
    | relinquish hc _ _ _ => exact absurd hr hc
    | campaign _ hb hvotes =>
      -- the vote for itself is on disk, or the driver has halted
      rw [hvotes, Finset.mem_singleton, hrec.node_id] at hv
      rw [hrec.node_id] at hb
      have hm : ballot m = ⟨m.currentTerm, some n⟩ := by
        rw [show m.currentTerm = (ballot m).term from rfl, hb]
      have hd := hran.disk hh
      rw [hm] at hd
      rw [hv, Cast, update_self, ← hd]
      exact hrec'.persisted_of_vote (by rw [hd])
    | count sender resp hin hg hrt hprior _ hb hvotes =>
      have ht : m.currentTerm = (c.nodes n).node.currentTerm := congrArg Ballot.term hb
      rw [hvotes, Finset.mem_insert] at hv
      rw [ht]
      rcases hv with rfl | hv
      · exact (hrt ▸ hcast _ resp (hinput _ _ hin) hg).grows hgrows
      · exact (h.tally n hn hhalt hprior v hv).grows hgrows
    | win _ _ _ _ _ _ hrole _ _ => rw [hrole] at hr; cases hr
    | coup hrole _ _ => rw [hrole] at hr; cases hr
  · rw [hterm]
    rw [hstand.role] at hr
    cases helect with
    | keep hrole hb _ =>
      have ht : m.currentTerm = (c.nodes n).node.currentTerm := congrArg Ballot.term hb
      rw [ht]
      exact (h.won n hn (hrole ▸ hr)).grows hgrows
    | relinquish _ hl _ _ => exact absurd hr hl
    | campaign hrole _ _ => rw [hrole] at hr; cases hr
    | count _ _ _ _ _ _ hrole _ _ => rw [hrole] at hr; cases hr
    | win sender resp hin hg hrt hprior _ hb hq =>
      have ht : m.currentTerm = (c.nodes n).node.currentTerm := congrArg Ballot.term hb
      refine .inr ⟨_, hasElectionQuorum_majority (m := { (c.nodes n).node with
        votesReceived := insert sender (c.nodes n).node.votesReceived }) hrec.voterSet hq,
          fun v hv => ?_⟩
      rw [ht]
      rcases Finset.mem_insert.mp (Finset.mem_filter.mp hv).1 with rfl | hv
      · exact (hrt ▸ hcast _ resp (hinput _ _ hin) hg).grows hgrows
      · exact (h.tally n hn hhalt hprior v hv).grows hgrows
    | coup _ _ hq =>
      have hlone := coup_electorate hrec.voterSet hq
      rw [hrec.node_id] at hlone
      exact .inl hlone

theorem recoverNode_role {config : ClusterConfig} {voterSet : Option VoterSet} {rng : List ℕ}
    {hsStore : Option HardState} {logStore : MemoryLogStore} {snapshotMeta : Option SnapshotMeta}
    {r : NodeRole} (ho : r ≠ .observer) (hf : r ≠ .follower) :
    (recoverNode config voterSet rng hsStore logStore snapshotMeta).role ≠ r := by
  show (if config.nodeId ∈ config.observers then NodeRole.observer else .follower) ≠ r
  split_ifs
  · exact ho.symm
  · exact hf.symm

/-- A restarted member takes its ballot from the disk and starts without a role in any election. -/
theorem restart_preserves (h : ElectionInvariant T c) {n : NodeId} (hn : n ∈ T.members)
    (rng : List ℕ) (faults : List (Option Fault)) :
    ElectionInvariant T (c.update n (T.launch n rng faults (durable (c.nodes n)))) := by
  obtain ⟨sm, snapshotMeta, hran⟩ : ∃ sm snapshotMeta, RanFrom n _ _ _ :=
    start_ran (T.config n) (some T.voterSet) rng (T.maxFetchBatch n) T.initial faults
      (durable (c.nodes n))
  have hrec := h.record n hn
  have hb := recoverNode_ballot (T.config n) (some T.voterSet) rng (c.nodes n).hsStore
    (c.nodes n).logStore snapshotMeta
  obtain ⟨w, hj, _⟩ := hran.ran.journal
  refine h.update hn ⟨w, hj.trace.symm⟩ ?_ (fun _ hr => ?_) (fun hr => ?_)
  · refine hrec.extend (by rfl) (by rfl) hran (T.node_id n hn) rfl ?_ ?_ ?_
    · rintro (hr | hr)
      · exact absurd hr (recoverNode_role (by simp) (by simp))
      · exact absurd hr (recoverNode_role (by simp) (by simp))
    · rw [durable, hb]
      exact .refl _
    · intro x hx
      rw [durable, hb] at hx
      exact hrec.known _ (hrec.persisted_of_vote hx) x hx
  · exact absurd (hran.ran.standing.role ▸ hr) (recoverNode_role (by simp) (by simp))
  · exact absurd (hran.ran.standing.role ▸ hr) (recoverNode_role (by simp) (by simp))

/-- The election invariant survives every event, failure and restart. -/
theorem next_preserves (h : ElectionInvariant T c) (e : Event) :
    ElectionInvariant T (T.next c e) := by
  rcases next_cases T c e with heq | ⟨n, d, hn, hacts, heq⟩
  · rw [heq]
    exact h
  rw [heq]
  have hrec := h.record n hn
  rcases acts_cases hacts with ⟨event, hturn, rfl⟩ | ⟨_, rfl⟩ | ⟨faults, _, rfl⟩ |
    ⟨rng, faults, _, rfl⟩
  · exact turn_preserves h hn (fun sender resp hev hg => cast_of_delivery h (hev ▸ hturn) hg)
  · obtain ⟨w, store, jobs, done, fs, hw, hworker⟩ := runSnapshotWorker_inert (c.nodes n)
    rw [hworker]
    exact h.unmoved hn (List.prefix_append _ _) (hrec.inert hw rfl rfl rfl rfl) rfl rfl
  · exact h.unmoved hn (List.prefix_refl _)
      (hrec.inert (w := []) (by simp) (List.append_nil _).symm rfl rfl rfl) rfl rfl
  · exact restart_preserves h hn rng faults

theorem launch_role (T : Topology σ) (n : NodeId) (rng : List ℕ) (faults : List (Option Fault))
    {r : NodeRole} (ho : r ≠ .observer) (hf : r ≠ .follower) :
    (T.launch n rng faults Durable.fresh).node.role ≠ r := by
  rw [Topology.launch, start_fresh]
  exact recoverNode_role ho hf

theorem initial_electionInvariant (T : Topology σ) : ElectionInvariant T T.initialCluster := by
  have htrace : ∀ n, (T.initialCluster.nodes n).trace = [] := fun n => by
    show (T.launch n (T.draws n) [] Durable.fresh).trace = []
    rw [Topology.launch, start_fresh]
    rfl
  have hleader : ∀ n, (T.initialCluster.nodes n).node.role ≠ .leader :=
    fun n => launch_role T n _ _ (by simp) (by simp)
  have hcandidate : ∀ n, (T.initialCluster.nodes n).node.role ≠ .candidate :=
    fun n => launch_role T n _ _ (by simp) (by simp)
  refine ⟨fun n hn => ?_, fun n _ => ⟨htrace n, hleader n⟩,
    fun n _ _ hr => absurd hr (hcandidate n), fun n _ hr => absurd hr (hleader n)⟩
  have hself : SelfVoted (T.initialCluster.nodes n).node := by
    rintro (hr | hr)
    · exact absurd hr (hcandidate n)
    · exact absurd hr (hleader n)
  have hnode : T.initialCluster.nodes n = boot (T.config n) (some T.voterSet) (T.draws n)
      (T.maxFetchBatch n) [] Durable.fresh T.initial none := start_fresh _ _ _ _ _ _
  have hnone : ∀ b, b ∉ persisted (T.initialCluster.nodes n).trace := fun b hb => by
    rw [htrace n] at hb
    exact List.not_mem_nil hb
  refine ⟨?_, ?_, ?_, hself, ?_, fun b hb => absurd hb (hnone b), fun b hb => absurd hb (hnone b),
    ?_, fun b hb => absurd hb (hnone b), ?_, ?_⟩
  · rw [hnode]
    exact T.node_id n hn
  · rw [hnode]
    rfl
  · rw [hnode]
    exact boot_settled _ _ _ _ _ _ _ _
  · rw [htrace n]
    exact .nil
  · rw [hnode]
    exact .inl rfl
  · rw [hnode]
    exact fun x hx => by cases hx
  · rw [htrace n]
    exact fun req resp hmem => absurd hmem List.not_mem_nil

theorem run_electionInvariant {ok : Cluster σ → Event → Prop} {c' : Cluster σ}
    (h : T.Run ok c c') (hc : ElectionInvariant T c) : ElectionInvariant T c' := by
  have hstep : ∀ s e, ElectionInvariant T s → ok s e → ElectionInvariant T (T.next s e) :=
    fun _ e hs _ => next_preserves hs e
  exact Execution.invariant hstep h hc

theorem reachable_electionInvariant {ok : Cluster σ → Event → Prop} (h : T.Reachable ok c) :
    ElectionInvariant T c := run_electionInvariant h (initial_electionInvariant T)

/-! ## At most one leader per term -/

theorem next_grows (h : ElectionInvariant T c) (e : Event) : Grows c (T.next c e) := by
  rcases next_cases T c e with heq | ⟨n, d, hn, hacts, heq⟩
  · rw [heq]
    exact fun n => List.prefix_refl _
  have hd : (c.nodes n).trace <+: d.trace := by
    rcases acts_cases hacts with ⟨event, _, rfl⟩ | ⟨_, rfl⟩ | ⟨faults, _, rfl⟩ |
      ⟨rng, faults, _, rfl⟩
    · obtain ⟨m, _, hran⟩ := turn_handled (h.record n hn).settled event
      obtain ⟨w, hj, _⟩ := hran.ran.journal
      exact ⟨w, hj.trace.symm⟩
    · obtain ⟨w, _, _, _, _, _, hworker⟩ := runSnapshotWorker_inert (c.nodes n)
      rw [hworker]
      exact List.prefix_append _ _
    · exact List.prefix_refl _
    · obtain ⟨sm, snapshotMeta, hran⟩ : ∃ sm snapshotMeta, RanFrom n _ _ _ :=
        start_ran (T.config n) (some T.voterSet) rng (T.maxFetchBatch n) T.initial faults
          (durable (c.nodes n))
      obtain ⟨w, hj, _⟩ := hran.ran.journal
      exact ⟨w, hj.trace.symm⟩
  rw [heq]
  exact update_grows hd

theorem run_grows {ok : Cluster σ → Event → Prop} {c' : Cluster σ} (h : T.Run ok c c')
    (hc : ElectionInvariant T c) : Grows c c' := by
  induction h with
  | refl => exact fun n => List.prefix_refl _
  | tail hrun _ ih => exact fun n => (ih n).trans (next_grows (run_electionInvariant hrun hc) _ n)

/-- Two nodes that lead in the same term, at the same time or at different times of a run, are the
same node. Runs may drop, repeat and reorder messages, fail stores and restart nodes. -/
theorem leaders_of_a_term_agree (T : Topology σ) {c c' : Cluster σ}
    (hc : T.Reachable (fun _ _ => True) c) (hrun : T.Run (fun _ _ => True) c c')
    {a b : NodeId} {t : ℕ} (ht : t < u64Max) (ha : LeaderAt c a t) (hb : LeaderAt c' b t) :
    a = b := by
  have hinv := reachable_electionInvariant hc
  have hinv' := run_electionInvariant hrun hinv
  exact elected_unique hinv' ht ((ha.elected hinv).grows (run_grows hrun hinv)) (hb.elected hinv')

def firstElection : List Event :=
  [.tick 1, .tick 1, .deliver 1 4, .deliver 2 0, .deliver 1 7, .deliver 2 2]

theorem leaders_of_a_term_agree_first_election :
    ∃ c c', (threeVoters false).Reachable (fun _ _ => True) c ∧
      (threeVoters false).Run (fun _ _ => True) c c' ∧ LeaderAt c 1 1 ∧ LeaderAt c' 1 1 ∧
      (1 : NodeId) = 1 := by
  have hc : (threeVoters false).Reachable (fun _ _ => True) (replay (threeVoters false).next
      (threeVoters false).initialCluster firstElection) := replay_execution (admissible_true _ _)
  have hrun : (threeVoters false).Run (fun _ _ => True) (replay (threeVoters false).next
      (threeVoters false).initialCluster firstElection) (replay (threeVoters false).next
      (threeVoters false).initialCluster (firstElection ++ [.tick 1])) := by
    rw [replay_append]
    exact replay_execution (admissible_true _ _)
  have h : LeaderAt (replay (threeVoters false).next (threeVoters false).initialCluster
      firstElection) 1 1 := by unfold LeaderAt; decide +kernel
  have h' : LeaderAt (replay (threeVoters false).next (threeVoters false).initialCluster
      (firstElection ++ [.tick 1])) 1 1 := by unfold LeaderAt; decide +kernel
  exact ⟨_, _, hc, hrun, h, h', leaders_of_a_term_agree _ hc hrun (by decide) h h'⟩

end Steps

end ElectionSafety
