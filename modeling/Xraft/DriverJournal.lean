import Xraft.NodeDriver
import Xraft.PersistOrder
import Xraft.GuardedExecution

/-! # The driver's journal

What a driver adds to its trace, under any pattern of store failures. A ledger follows the trace:
the ballot on disk, the entries that are appended and flushed, and the entries still in between.
Every effect is checked against the ledger it meets.
-/
namespace DriverJournal

open ProtocolTypes ConsensusEngine DurableStores NodeDriver EngineTransitions PersistOrder
open GuardedExecution

def ballotOf (state : HardState) : Ballot := ⟨state.currentTerm, state.votedFor⟩

structure Ledger where
  ballot : Ballot
  flushed : List Entry
  unflushed : List Entry

def Ledger.after (l : Ledger) : Effect → Ledger
  | .persist state => { l with ballot := ballotOf state }
  | .append entries => { l with unflushed := l.unflushed ++ entries }
  | .flush => { l with flushed := l.flushed ++ l.unflushed, unflushed := [] }
  | _ => l

/-- Messages claim no more than the ballot on disk; what is applied or confirmed is flushed. -/
def Ledger.Permits (self : NodeId) (l : Ledger) : Effect → Prop
  | .dispatch dest message => Covered self l.ballot dest message
  | .voteReply req (.ok resp) => Covered self l.ballot req.candidateId (.voteResponse resp)
  | .preVoteReply req (.ok resp) => Covered self l.ballot req.candidateId (.preVoteResponse resp)
  | .fetchReply req (.ok resp) => Covered self l.ballot req.replicaId (.fetchResponse resp)
  | .fetchSnapshotReply _ (.ok chunks) => ∀ c ∈ chunks, c.leaderEpoch ≤ l.ballot.term
  | .apply entry => entry ∈ l.flushed
  | .clientReply _ (.ok index) => ∃ entry ∈ l.flushed, entry.index = index
  | _ => True

abbrev Lawful (self : NodeId) : Ledger → List Effect → Prop :=
  Admissible Ledger.after (Ledger.Permits self)

structure Ledger.Le (l m : Ledger) : Prop where
  ballot : m.ballot = l.ballot
  flushed : ∀ e ∈ l.flushed, e ∈ m.flushed
  unflushed : ∀ e ∈ l.unflushed, e ∈ m.unflushed

theorem Ledger.Le.after {l m : Ledger} (h : l.Le m) (e : Effect) : (l.after e).Le (m.after e) := by
  cases e with
  | persist state => exact ⟨rfl, h.flushed, h.unflushed⟩
  | append entries =>
    refine ⟨h.ballot, h.flushed, fun x hx => ?_⟩
    rcases List.mem_append.mp hx with hx | hx
    · exact List.mem_append_left _ (h.unflushed x hx)
    · exact List.mem_append_right _ hx
  | flush =>
    refine ⟨h.ballot, fun x hx => ?_, fun x hx => hx⟩
    rcases List.mem_append.mp hx with hx | hx
    · exact List.mem_append_left _ (h.flushed x hx)
    · exact List.mem_append_right _ (h.unflushed x hx)
  | _ => exact h

theorem Ledger.Le.permits {self : NodeId} {l m : Ledger} (h : l.Le m) {e : Effect}
    (hp : l.Permits self e) : m.Permits self e := by
  have hb := h.ballot
  cases e with
  | apply entry => exact h.flushed entry hp
  | clientReply request result =>
    cases result with
    | ok index =>
      obtain ⟨entry, he, hi⟩ := hp
      exact ⟨entry, h.flushed entry he, hi⟩
    | error e => trivial
  | dispatch dest message => simpa [Ledger.Permits, hb] using hp
  | voteReply req result => cases result <;> simp_all [Ledger.Permits]
  | preVoteReply req result => cases result <;> simp_all [Ledger.Permits]
  | fetchReply req result => cases result <;> simp_all [Ledger.Permits]
  | fetchSnapshotReply req result => cases result <;> simp_all [Ledger.Permits]
  | _ => trivial

def Refusal : Effect → Prop
  | .voteReply _ (.error _) => True
  | .preVoteReply _ (.error _) => True
  | .fetchReply _ (.error _) => True
  | .fetchSnapshotReply _ (.error _) => True
  | .clientReply _ (.error _) => True
  | .snapshotReply _ (.error _) => True
  | .queryReply _ _ => True
  | _ => False

def Failed (w : List Effect) : Prop := ∃ e, Effect.storeFailed e ∈ w

def FailStop (w : List Effect) : Prop :=
  ∀ before e after, w = before ++ .storeFailed e :: after → ∀ x ∈ after, Refusal x

theorem not_failed_nil : ¬Failed [] := by simp [Failed]

theorem Failed.append_right {w : List Effect} (h : Failed w) (w' : List Effect) :
    Failed (w ++ w') := by
  obtain ⟨e, he⟩ := h
  exact ⟨e, List.mem_append_left _ he⟩

theorem Failed.append_left {w' : List Effect} (h : Failed w') (w : List Effect) :
    Failed (w ++ w') := by
  obtain ⟨e, he⟩ := h
  exact ⟨e, List.mem_append_right _ he⟩

theorem failStop_of_not_failed {w : List Effect} (h : ¬Failed w) : FailStop w := by
  rintro before e after rfl
  exact absurd ⟨e, by simp⟩ h

theorem FailStop.append {w w' : List Effect} (h : FailStop w) (h' : FailStop w')
    (hr : Failed w → ∀ x ∈ w', Refusal x) : FailStop (w ++ w') := by
  intro before e after heq x hx
  rcases List.append_eq_append_iff.mp heq with ⟨a, rfl, rfl⟩ | ⟨a, rfl, ha⟩
  · exact h' _ _ _ rfl x hx
  · cases a with
    | nil => exact h' [] e after (by simpa using ha.symm) x hx
    | cons y a =>
      obtain ⟨rfl, rfl⟩ : Effect.storeFailed e = y ∧ after = a ++ w' := by simpa using ha
      rcases List.mem_append.mp hx with hx | hx
      · exact h before e a rfl x hx
      · exact hr ⟨e, by simp⟩ x hx

variable {σ : Type} {self : NodeId}

def onDisk (d : Driver σ) : Ballot := (d.hsStore.map ballotOf).getD ⟨0, none⟩

def ledger (d : Driver σ) : Ledger := ⟨onDisk d, d.logStore.entries, []⟩

/-- `d` writes `w` to its journal and becomes `d'`. Unless a store failed, the log of `d'` is
settled again. -/
structure Journal (id : NodeId) (d d' : Driver σ) (w : List Effect) : Prop where
  trace : d'.trace = d.trace ++ w
  disk : onDisk d' = (replay Ledger.after (ledger d) w).ballot
  lawful : Lawful id (ledger d) w
  settled : ¬Failed w → ∀ e ∈ d'.logStore.entries, e ∈ (replay Ledger.after (ledger d) w).flushed
  failStop : FailStop w

theorem Journal.refl (d : Driver σ) : Journal self d d [] :=
  ⟨by simp, rfl, trivial, fun _ _ h => h, failStop_of_not_failed not_failed_nil⟩

theorem Refusal.permits {l : Ledger} {e : Effect} (h : Refusal e) : l.Permits self e := by
  cases e with
  | voteReply _ result => cases result <;> simp_all [Refusal, Ledger.Permits]
  | preVoteReply _ result => cases result <;> simp_all [Refusal, Ledger.Permits]
  | fetchReply _ result => cases result <;> simp_all [Refusal, Ledger.Permits]
  | fetchSnapshotReply _ result => cases result <;> simp_all [Refusal, Ledger.Permits]
  | clientReply _ result => cases result <;> simp_all [Refusal, Ledger.Permits]
  | snapshotReply _ result => trivial
  | queryReply _ _ => trivial
  | _ => exact h.elim

def Passive : Effect → Prop
  | .persist _ => False
  | .append _ => False
  | .flush => False
  | .storeFailed _ => False
  | _ => True

theorem Refusal.passive {e : Effect} (h : Refusal e) : Passive e := by
  cases e <;> trivial

theorem replay_passive {l : Ledger} {w : List Effect} (h : ∀ x ∈ w, Passive x) :
    replay Ledger.after l w = l := by
  induction w with
  | nil => rfl
  | cons e w ih =>
    have he : l.after e = l := by
      have := h e List.mem_cons_self
      cases e <;> first | rfl | exact this.elim
    show replay Ledger.after (l.after e) w = l
    rw [he]
    exact ih (fun x hx => h x (List.mem_cons_of_mem _ hx))

theorem replay_refusals {l : Ledger} {w : List Effect} (h : ∀ x ∈ w, Refusal x) :
    replay Ledger.after l w = l := replay_passive (fun x hx => (h x hx).passive)

theorem not_failed_passive {w : List Effect} (h : ∀ x ∈ w, Passive x) : ¬Failed w := by
  rintro ⟨e, he⟩
  exact h _ he

theorem lawful_passive {l : Ledger} {w : List Effect} (h : ∀ x ∈ w, Passive x)
    (hp : ∀ x ∈ w, l.Permits self x) : Lawful self l w := by
  induction w with
  | nil => trivial
  | cons e w ih =>
    refine ⟨hp e List.mem_cons_self, ?_⟩
    have he : l.after e = l := replay_passive (w := [e]) (fun x hx => by
      rw [List.mem_singleton.mp hx]
      exact h e List.mem_cons_self)
    rw [he]
    exact ih (fun x hx => h x (List.mem_cons_of_mem _ hx))
      (fun x hx => hp x (List.mem_cons_of_mem _ hx))

theorem lawful_refusals {l : Ledger} {w : List Effect} (h : ∀ x ∈ w, Refusal x) :
    Lawful self l w :=
  lawful_passive (fun x hx => (h x hx).passive) (fun x hx => (h x hx).permits)

/-- The settled ledger of `d'` claims no more than the journal so far has established. -/
theorem Journal.ledger_le {d d' : Driver σ} {w : List Effect} (h : Journal self d d' w)
    (hf : ¬Failed w) : (ledger d').Le (replay Ledger.after (ledger d) w) :=
  ⟨h.disk.symm, h.settled hf, fun _ he => absurd he List.not_mem_nil⟩

/-- Journals compose; after a failure only refusals may follow. -/
theorem Journal.trans {d d' d'' : Driver σ} {w w' : List Effect} (h : Journal self d d' w)
    (h' : Journal self d' d'' w') (hr : Failed w → ∀ x ∈ w', Refusal x) :
    Journal self d d'' (w ++ w') := by
  have hstep : ∀ (s u : Ledger) e, s.Le u → (s.after e).Le (u.after e) :=
    fun s u e hle => hle.after e
  refine ⟨by rw [h'.trace, h.trace, List.append_assoc], ?_, ?_, ?_,
    h.failStop.append h'.failStop hr⟩
  · rw [replay_append, h'.disk]
    by_cases hf : Failed w
    · rw [replay_refusals (hr hf), replay_refusals (hr hf)]
      exact h.disk
    · exact (replay_rel hstep w' (h.ledger_le hf)).ballot.symm
  · refine admissible_append.mpr ⟨h.lawful, ?_⟩
    by_cases hf : Failed w
    · exact lawful_refusals (hr hf)
    · have hpermits : ∀ (s u : Ledger) e, s.Le u → s.Permits self e → u.Permits self e :=
        fun _ _ _ hle hp => hle.permits hp
      exact h'.lawful.lift hstep hpermits (h.ledger_le hf)
  · intro hf e he
    have hf₁ : ¬Failed w := fun h => hf (h.append_right w')
    have hf₂ : ¬Failed w' := fun h => hf (h.append_left w)
    rw [replay_append]
    exact (replay_rel hstep w' (h.ledger_le hf₁)).flushed e (h'.settled hf₂ e he)

theorem Journal.congr {d d' e e' : Driver σ} {w : List Effect} (h : Journal self d d' w)
    (htrace : e.trace = d.trace) (hhs : e.hsStore = d.hsStore) (hlog : e.logStore = d.logStore)
    (htrace' : e'.trace = d'.trace) (hhs' : e'.hsStore = d'.hsStore)
    (hlog' : e'.logStore = d'.logStore) : Journal self e e' w := by
  have hl : ledger e = ledger d := by simp [ledger, onDisk, hhs, hlog]
  have hd : onDisk e' = onDisk d' := by simp [onDisk, hhs']
  constructor
  · rw [htrace', h.trace, htrace]
  · rw [hd, hl]; exact h.disk
  · rw [hl]; exact h.lawful
  · rw [hl, hlog']; exact h.settled
  · exact h.failStop

theorem journal_emit (d : Driver σ) {w : List Effect} (h : ∀ x ∈ w, Passive x)
    (hp : ∀ x ∈ w, (ledger d).Permits self x) : Journal self d (d.emit w) w where
  trace := rfl
  disk := by rw [replay_passive h]; rfl
  lawful := lawful_passive h hp
  settled _ e he := by rw [replay_passive h]; exact he
  failStop := failStop_of_not_failed (not_failed_passive h)

theorem journal_refusals (d : Driver σ) {w : List Effect} (h : ∀ x ∈ w, Refusal x) :
    Journal self d (d.emit w) w :=
  journal_emit d (fun x hx => (h x hx).passive) (fun x hx => (h x hx).permits)

/-! ## Store calls -/

theorem durably_cases (d : Driver σ) (write : Driver σ → Driver σ) (effect : Effect)
    (failed : XRaftError → Effect) :
    d.durably write effect failed = ((write d.afterCall).emit [effect], none) ∨
      (∃ e, d.durably write effect failed =
        ((write d.afterCall).emit [effect, failed e], some e)) ∨
      ∃ e, d.durably write effect failed = (d.afterCall.emit [failed e], some e) := by
  unfold Driver.durably
  split
  · exact .inl rfl
  · rename_i f _
    split_ifs
    · exact .inr (.inl ⟨f.error, rfl⟩)
    · exact .inr (.inr ⟨f.error, rfl⟩)

def Stores : Effect → Prop
  | .persist _ => True
  | .append _ => True
  | .flush => True
  | .truncate _ => True
  | .purge _ => True
  | .anchor _ _ => True
  | .saveSnapshot _ => True
  | _ => False

theorem lawful_stores {l : Ledger} {w : List Effect} (h : ∀ x ∈ w, Stores x) : Lawful self l w := by
  induction w generalizing l with
  | nil => trivial
  | cons x w ih =>
    refine ⟨?_, ih (fun y hy => h y (List.mem_cons_of_mem _ hy))⟩
    have hx := h x List.mem_cons_self
    cases x <;> first | exact hx.elim | trivial

theorem not_failed_stores {w : List Effect} (h : ∀ x ∈ w, Stores x) : ¬Failed w := by
  rintro ⟨e, he⟩
  exact h _ he

theorem journal_stores {d d' : Driver σ} {w : List Effect} (h : ∀ x ∈ w, Stores x)
    (trace : d'.trace = d.trace ++ w)
    (disk : onDisk d' = (replay Ledger.after (ledger d) w).ballot)
    (settled : ∀ e ∈ d'.logStore.entries, e ∈ (replay Ledger.after (ledger d) w).flushed) :
    Journal self d d' w :=
  ⟨trace, disk, lawful_stores h, fun _ => settled, failStop_of_not_failed (not_failed_stores h)⟩

/-- A store that fails leaves the log as it may be: nothing reads it any more. -/
theorem journal_storeFailed {d d' : Driver σ} {w : List Effect} {e : XRaftError}
    (h : ∀ x ∈ w, Stores x) (trace : d'.trace = d.trace ++ (w ++ [.storeFailed e]))
    (disk : onDisk d' = (replay Ledger.after (ledger d) w).ballot) :
    Journal self d d' (w ++ [.storeFailed e]) := by
  refine ⟨trace, ?_, ?_, fun hf => absurd ⟨e, by simp⟩ hf, ?_⟩
  · rw [replay_append]
    exact disk
  · exact admissible_append.mpr ⟨lawful_stores h, trivial, trivial⟩
  · have hone : FailStop [.storeFailed e] := by
      intro before e' after heq x hx
      have hlen := congrArg List.length heq
      simp only [List.length_cons, List.length_nil, List.length_append] at hlen
      have : after = [] := List.eq_nil_of_length_eq_zero (by omega)
      simp [this] at hx
    exact (failStop_of_not_failed (not_failed_stores h)).append hone
      (fun hf => absurd hf (not_failed_stores h))

/-! ## What executing actions leaves alone -/

def peerStamps (n : RaftNode) : List (NodeId × Bool × ℕ × ℕ) :=
  n.peers.map (fun p => (p.1, p.2.isVoter, p.2.lastFetchTime, p.2.lastFetchSeq))

structure SameStanding (n m : RaftNode) : Prop where
  id : m.id = n.id
  role : m.role = n.role
  ballot : ballot m = ballot n
  votesReceived : m.votesReceived = n.votesReceived
  preVotesReceived : m.preVotesReceived = n.preVotesReceived
  voterSet : m.voterSet = n.voterSet
  config : m.config = n.config
  leaderId : m.leaderId = n.leaderId
  logicalTick : m.logicalTick = n.logicalTick
  leaderNoOpIndex : m.leaderNoOpIndex = n.leaderNoOpIndex
  leaderStartedTick : m.leaderStartedTick = n.leaderStartedTick
  interval : m.checkQuorumIntervalTicks = n.checkQuorumIntervalTicks
  fetchSeq : m.fetchSeq = n.fetchSeq
  peers : peerStamps m = peerStamps n

theorem SameStanding.refl (n : RaftNode) : SameStanding n n := by
  constructor <;> rfl

theorem SameStanding.trans {n m k : RaftNode} (h : SameStanding n m) (h' : SameStanding m k) :
    SameStanding n k where
  id := h'.id.trans h.id
  role := h'.role.trans h.role
  ballot := h'.ballot.trans h.ballot
  votesReceived := h'.votesReceived.trans h.votesReceived
  preVotesReceived := h'.preVotesReceived.trans h.preVotesReceived
  voterSet := h'.voterSet.trans h.voterSet
  config := h'.config.trans h.config
  leaderId := h'.leaderId.trans h.leaderId
  logicalTick := h'.logicalTick.trans h.logicalTick
  leaderNoOpIndex := h'.leaderNoOpIndex.trans h.leaderNoOpIndex
  leaderStartedTick := h'.leaderStartedTick.trans h.leaderStartedTick
  interval := h'.interval.trans h.interval
  fetchSeq := h'.fetchSeq.trans h.fetchSeq
  peers := h'.peers.trans h.peers

theorem handleFetchRequestAcked_standing (n : RaftNode) (replica : NodeId) (offset : ℕ) :
    SameStanding n (n.handleFetchRequestAcked replica offset).1 := by
  have hcredit : SameStanding n (n.updatePeer replica (n.creditPeer offset)) := by
    constructor
    case peers =>
      simp only [peerStamps, RaftNode.updatePeer, List.map_map]
      apply List.map_congr_left
      intro p _
      simp only [Function.comp_apply]
      split_ifs <;> rfl
    all_goals rfl
  unfold RaftNode.handleFetchRequestAcked
  split_ifs
  · exact .refl n
  · exact .refl n
  · obtain ⟨c, a, s, h⟩ := advanceCommit_fst (n.updatePeer replica (n.creditPeer offset))
    rw [h]
    refine hcredit.trans ?_
    constructor <;> rfl

def Persists (b : Ballot) (w : List Effect) : Prop :=
  ∀ state, Effect.persist state ∈ w → ballotOf state = b

theorem persists_passive (b : Ballot) {w : List Effect} (h : ∀ x ∈ w, Passive x) :
    Persists b w := fun _ hs => (h _ hs).elim

theorem Persists.append {b : Ballot} {w w' : List Effect} (h : Persists b w)
    (h' : Persists b w') : Persists b (w ++ w') := by
  intro state hs
  rcases List.mem_append.mp hs with hs | hs
  · exact h state hs
  · exact h' state hs

/-- `d` ran to `d'`. The flag says that the batch is over: no store failed unless it is set. -/
structure Ran (id : NodeId) (d d' : Driver σ) (ended : Bool) : Prop where
  standing : SameStanding d.node d'.node
  journal : ∃ w, Journal id d d' w ∧ (Failed w → ended = true) ∧ Persists (ballot d.node) w

theorem Ran.refl (d : Driver σ) (ended : Bool) : Ran self d d ended :=
  ⟨.refl _, [], .refl d, fun h => absurd h not_failed_nil, by simp [Persists]⟩

theorem Ran.trans {d d' d'' : Driver σ} {ended : Bool} (h : Ran self d d' false)
    (h' : Ran self d' d'' ended) : Ran self d d'' ended := by
  obtain ⟨w, hj, hw, hp⟩ := h.journal
  obtain ⟨w', hj', hw', hp'⟩ := h'.journal
  rw [h.standing.ballot] at hp'
  have hf : ¬Failed w := fun hf => by simp at hw; exact hw hf
  refine ⟨h.standing.trans h'.standing, w ++ w', hj.trans hj' (fun h => absurd h hf), ?_,
    hp.append hp'⟩
  rintro ⟨e, he⟩
  rcases List.mem_append.mp he with he | he
  · exact absurd ⟨e, he⟩ hf
  · exact hw' ⟨e, he⟩

theorem Ran.refuse {d d' : Driver σ} {ended : Bool} (h : Ran self d d' ended) {w : List Effect}
    (hw : ∀ x ∈ w, Refusal x) : Ran self d (d'.emit w) ended := by
  obtain ⟨w₀, hj, h₀, hp⟩ := h.journal
  refine ⟨h.standing, w₀ ++ w, hj.trans (journal_refusals d' hw) (fun _ => hw), ?_,
    hp.append (persists_passive _ (fun x hx => (hw x hx).passive))⟩
  rintro ⟨e, he⟩
  rcases List.mem_append.mp he with he | he
  · exact h₀ ⟨e, he⟩
  · exact (hw _ he).elim

theorem Ran.congr {d d' e : Driver σ} {ended : Bool} (h : Ran self d d' ended)
    (node : SameStanding d'.node e.node) (trace : e.trace = d'.trace)
    (hs : e.hsStore = d'.hsStore) (log : e.logStore = d'.logStore) : Ran self d e ended := by
  obtain ⟨w, hj, hw, hp⟩ := h.journal
  exact ⟨h.standing.trans node, w, hj.congr rfl rfl rfl trace hs log, hw, hp⟩

theorem Ran.emit {d d' : Driver σ} {ended : Bool} (h : Ran self d d' false) {w : List Effect}
    (hw : ∀ x ∈ w, Passive x) (hp : ∀ x ∈ w, (ledger d').Permits self x) :
    Ran self d (d'.emit w) ended :=
  h.trans ⟨.refl _, w, journal_emit d' hw hp, fun hf => absurd hf (not_failed_passive hw),
    persists_passive _ hw⟩

/-! ## Store calls of the driver -/

structure Called {ε : Type} (id : NodeId) (d : Driver σ) (r : Driver σ × Option ε) : Prop where
  ran : Ran id d r.1 r.2.isSome
  halt : r.1.haltReason = d.haltReason

theorem durably_called {d : Driver σ} {write : Driver σ → Driver σ} {effect : Effect}
    (hs : Stores effect) (node : SameStanding d.node (write d.afterCall).node)
    (trace : (write d.afterCall).trace = d.trace)
    (halt : (write d.afterCall).haltReason = d.haltReason)
    (disk : onDisk (write d.afterCall) = ((ledger d).after effect).ballot)
    (settled : ∀ e ∈ (write d.afterCall).logStore.entries,
      e ∈ ((ledger d).after effect).flushed)
    (persists : Persists (ballot d.node) [effect]) :
    Called self d (d.durably write effect .storeFailed) := by
  have hone : ∀ x ∈ [effect], Stores x := by simpa using hs
  rcases durably_cases d write effect .storeFailed with h | ⟨e, h⟩ | ⟨e, h⟩ <;> rw [h]
  · refine ⟨⟨node, [effect], journal_stores hone ?_ disk settled, ?_, persists⟩, halt⟩
    · exact congrArg (· ++ [effect]) trace
    · exact fun hf => absurd hf (not_failed_stores hone)
  · have hj : Journal self d ((write d.afterCall).emit [effect, .storeFailed e])
        ([effect] ++ [.storeFailed e]) :=
      journal_storeFailed hone (congrArg (· ++ [effect, .storeFailed e]) trace) disk
    exact ⟨⟨node, _, hj, fun _ => rfl, persists.append (by simp [Persists])⟩, halt⟩
  · exact ⟨⟨.refl _, [] ++ [.storeFailed e], journal_storeFailed (by simp) rfl rfl, fun _ => rfl,
      by simp [Persists]⟩, rfl⟩

theorem clampCommit_ran (d : Driver σ) : Ran self d d.clampCommit false :=
  (Ran.refl d false).congr (by constructor <;> rfl) rfl rfl rfl

theorem persistHardState_called (d : Driver σ) : Called self d d.persistHardState := by
  have h : Called self d.clampCommit d.persistHardState :=
    durably_called trivial (.refl _) rfl rfl rfl (fun _ he => he) (fun state hs => by
      obtain rfl : state = d.clampCommit.node.hardState := by simpa using hs
      rfl)
  exact ⟨(clampCommit_ran d).trans h.ran, h.halt⟩

theorem persistHardState_disk {d : Driver σ} (h : d.persistHardState.2 = none) :
    onDisk d.persistHardState.1 = ballot d.node := by
  unfold Driver.persistHardState at h ⊢
  rcases durably_cases d.clampCommit (fun d => { d with hsStore := some d.node.hardState })
    (.persist d.clampCommit.node.hardState) .storeFailed with h' | ⟨e, h'⟩ | ⟨e, h'⟩
  · rw [h']
    rfl
  · rw [h'] at h
    cases h
  · rw [h'] at h
    cases h

structure LogCalled {ε : Type} (id : NodeId) (d : Driver σ) (r : Driver σ × Option ε) : Prop where
  called : Called id d r
  disk : r.1.hsStore = d.hsStore

theorem LogCalled.trans {ε ε' : Type} {d : Driver σ} {r : Driver σ × Option ε}
    {r' : Driver σ × Option ε'} (h : LogCalled self d r) (hr : r.2 = none)
    (h' : LogCalled self r.1 r') : LogCalled self d r' := by
  have hran := h.called.ran
  rw [hr] at hran
  exact ⟨⟨hran.trans h'.called.ran, h'.called.halt.trans h.called.halt⟩, h'.disk.trans h.disk⟩

theorem logCalled_of_same {ε : Type} {d d' : Driver σ} (e : Option ε)
    (node : SameStanding d.node d'.node) (trace : d'.trace = d.trace)
    (hs : d'.hsStore = d.hsStore) (log : d'.logStore = d.logStore)
    (halt : d'.haltReason = d.haltReason) : LogCalled self d (d', e) :=
  ⟨⟨(Ran.refl d e.isSome).congr node trace hs log, halt⟩, hs⟩

theorem durably_hsStore {d : Driver σ} {write : Driver σ → Driver σ} {effect : Effect}
    {failed : XRaftError → Effect} (h : (write d.afterCall).hsStore = d.hsStore) :
    (d.durably write effect failed).1.hsStore = d.hsStore := by
  rcases durably_cases d write effect failed with h' | ⟨e, h'⟩ | ⟨e, h'⟩ <;> rw [h']
  · exact h
  · exact h
  · rfl

theorem flushLog_called (d : Driver σ) : LogCalled self d d.flushLog :=
  ⟨durably_called trivial (.refl _) rfl rfl rfl (fun _ he => List.mem_append_left _ he)
    (by simp [Persists]), durably_hsStore rfl⟩

theorem retain_called (d : Driver σ) (p : Entry → Bool) {effect : Effect} (hs : Stores effect)
    (hb : ((ledger d).after effect) = ledger d) (hp : Persists (ballot d.node) [effect]) :
    LogCalled self d
      (d.durably (fun d => { d with logStore := d.logStore.retain p }) effect .storeFailed) := by
  refine ⟨durably_called hs (.refl _) rfl rfl (by rw [hb]; rfl) (fun e he => ?_) hp,
    durably_hsStore rfl⟩
  rw [hb]
  exact (List.mem_filter.mp he).1

theorem truncateLog_called (d : Driver σ) (k : ℕ) : LogCalled self d (d.truncateLog k) :=
  retain_called d _ trivial rfl (by simp [Persists])

theorem purgeLog_called (d : Driver σ) (k : ℕ) : LogCalled self d (d.purgeLog k) :=
  retain_called d _ trivial rfl (by simp [Persists])

theorem updateSnapshotAnchor_entries (s : MemoryLogStore) (term : ℕ) (index : ℕ) :
    (s.updateSnapshotAnchor term index).entries = s.entries := by
  unfold MemoryLogStore.updateSnapshotAnchor
  split
  · split_ifs <;> rfl
  · rfl

theorem anchorLog_called (d : Driver σ) (term : ℕ) (index : ℕ) :
    LogCalled self d (d.anchorLog term index) := by
  refine ⟨durably_called trivial (.refl _) rfl rfl rfl (fun e he => ?_) (by simp [Persists]),
    durably_hsStore rfl⟩
  have he : e ∈ (d.logStore.updateSnapshotAnchor term index).entries := he
  rw [updateSnapshotAnchor_entries] at he
  exact he

theorem refused_called {d : Driver σ} {e : XRaftError} :
    LogCalled self d (d.emit [.storeFailed e], some e) :=
  ⟨⟨⟨.refl _, [] ++ [.storeFailed e], journal_storeFailed (by simp) rfl rfl, fun _ => rfl,
    by simp [Persists]⟩, rfl⟩, rfl⟩

def Inert (x : Effect) : Prop := Passive x ∧ ∀ (id : NodeId) (l : Ledger), l.Permits id x

theorem saveSnapshot_inert (d : Driver σ) (metadata : SnapshotMeta) (data : Bytes) :
    ∃ w store fs, (∀ x ∈ w, Inert x) ∧ (d.saveSnapshot metadata data).1 =
      { d with snapshotStore := store, faults := fs, trace := d.trace ++ w } := by
  unfold Driver.saveSnapshot
  split
  · exact ⟨[.snapshotFailed _], d.snapshotStore, d.faults, by simp [Inert, Passive, Ledger.Permits],
      rfl⟩
  · rename_i store _
    rcases durably_cases d (fun d => { d with snapshotStore := store }) (.saveSnapshot metadata)
      .snapshotFailed with h | ⟨e, h⟩ | ⟨e, h⟩ <;> rw [h]
    · exact ⟨[.saveSnapshot metadata], store, d.faults.tail,
        by simp [Inert, Passive, Ledger.Permits], rfl⟩
    · exact ⟨[.saveSnapshot metadata, .snapshotFailed e], store, d.faults.tail,
        by simp [Inert, Passive, Ledger.Permits], rfl⟩
    · exact ⟨[.snapshotFailed e], d.snapshotStore, d.faults.tail,
        by simp [Inert, Passive, Ledger.Permits], rfl⟩

theorem saveSnapshot_called (d : Driver σ) (metadata : SnapshotMeta) (data : Bytes) :
    LogCalled self d (d.saveSnapshot metadata data) := by
  obtain ⟨w, store, fs, hw, h⟩ := saveSnapshot_inert d metadata data
  have hsaved : Ran self d { d with snapshotStore := store, faults := fs } false :=
    (Ran.refl d false).congr (.refl _) rfl rfl rfl
  refine ⟨⟨?_, by rw [h]⟩, by rw [h]⟩
  rw [h]
  exact hsaved.emit (fun x hx => (hw x hx).1) (fun x hx => (hw x hx).2 _ _)

/-! ## Executing one action -/

/-- An action either succeeds, with the ballot on disk that the action leaves there, or ends the
batch with a halt and an error for the caller. -/
inductive Concluded (self : NodeId) (d : Driver σ) (a : Action) (o : Outcome σ) : Prop
  | went (ran : Ran self d o.driver false) (halt : o.driver.haltReason = d.haltReason)
      (disk : onDisk o.driver = persistedAfter (ballot d.node) (onDisk d) a)
      (broke : o.broke = false)
  | halted (ran : Ran self d o.driver true) (halt : o.driver.haltReason.isSome)
      (error : o.captured.error.isSome) (broke : o.broke = true)

theorem concluded_haltBatch {d d' : Driver σ} {a : Action} (h : Ran self d d' true)
    (captured : CapturedResponse) (message : String) :
    Concluded self d a (haltBatch d' captured message) :=
  .halted (h.congr (.refl _) rfl rfl rfl) rfl rfl rfl

theorem Ran.ended {d d' : Driver σ} {ended : Bool} (h : Ran self d d' ended) :
    Ran self d d' true := by
  obtain ⟨w, hj, _, hp⟩ := h.journal
  exact ⟨h.standing, w, hj, fun _ => rfl, hp⟩

theorem onDisk_congr {d d' : Driver σ} (h : d'.hsStore = d.hsStore) : onDisk d' = onDisk d := by
  rw [onDisk, h, onDisk]

theorem resolveWaiters_refuse {d d' : Driver σ} {ended : Bool} (h : Ran self d d' ended)
    (due : ℕ → Bool) (e : XRaftError) :
    Ran self d (d'.resolveWaiters due (.error e)) ended := by
  have hran : Ran self d { d' with pending := d'.pending.filter (fun w => !due w.1) } ended :=
    h.congr (.refl _) rfl rfl rfl
  refine hran.refuse (fun x hx => ?_)
  obtain ⟨_, _, rfl⟩ := List.mem_map.mp hx
  trivial

/-- Append and flush belong together: in between the log is ahead of what is flushed. -/
theorem runAppend_concluded (d : Driver σ) (captured : CapturedResponse) (entries : List Entry) :
    Concluded self d (.appendEntries entries) (runAppend d captured entries) := by
  have habandon : ∀ {d' : Driver σ}, Ran self d d' true → ∀ message,
      Concluded self d (.appendEntries entries)
        (haltBatch (d'.resolveWaiters (fun i => entries.any (fun e => e.index = i))
          (.error (.storage message))) captured message) :=
    fun h message => concluded_haltBatch (resolveWaiters_refuse h _ _) _ _
  unfold runAppend Driver.appendLog
  cases happend : d.logStore.append entries with
  | error e => exact habandon refused_called.called.ran _
  | ok log =>
    have hlog : log.entries = d.logStore.entries ++ entries := by
      unfold MemoryLogStore.append at happend
      split_ifs at happend
      rw [← Except.ok.inj happend]
    dsimp only
    rcases durably_cases d (fun d => { d with logStore := log }) (.append entries)
      .storeFailed with
      h | ⟨e, h⟩ | ⟨e, h⟩ <;> rw [h]
    · -- appended; the flush decides
      dsimp only
      unfold Driver.flushLog
      rcases durably_cases (Driver.emit { d.afterCall with logStore := log } [.append entries])
        (fun d => d) .flush .storeFailed with h' | ⟨e, h'⟩ | ⟨e, h'⟩ <;> rw [h']
      · refine .went ⟨.refl _, [.append entries, .flush], ?_, ?_, by simp [Persists]⟩ rfl rfl rfl
        · refine journal_stores (by simp [Stores]) (List.append_assoc ..) rfl (fun e he => ?_)
          have he : e ∈ log.entries := he
          rw [hlog] at he
          exact he
        · exact fun hf => absurd hf (not_failed_stores (by simp [Stores]))
      · refine habandon ?_ _
        exact ⟨.refl _, [.append entries, .flush] ++ [.storeFailed e],
          journal_storeFailed (by simp [Stores]) (List.append_assoc ..) rfl, fun _ => rfl,
          by simp [Persists]⟩
      · refine habandon ?_ _
        exact ⟨.refl _, [.append entries] ++ [.storeFailed e],
          journal_storeFailed (by simp [Stores]) (List.append_assoc ..) rfl, fun _ => rfl,
          by simp [Persists]⟩
    · refine habandon ?_ _
      exact ⟨.refl _, [.append entries] ++ [.storeFailed e],
        journal_storeFailed (by simp [Stores]) rfl rfl, fun _ => rfl,
          by simp [Persists]⟩
    · refine habandon ?_ _
      exact ⟨.refl _, [] ++ [.storeFailed e],
        journal_storeFailed (by simp) rfl rfl, fun _ => rfl,
          by simp [Persists]⟩

theorem runTruncate_concluded (d : Driver σ) (captured : CapturedResponse)
    (truncation : LogTruncation) :
    Concluded self d (.truncateLog truncation) (runTruncate d captured truncation) := by
  cases truncation with
  | suffixFromInclusive k =>
    have htruncate : LogCalled self d (d.truncateLog k) := truncateLog_called d k
    simp only [runTruncate]
    rcases hr : d.truncateLog k with ⟨d', _ | e⟩ <;> rw [hr] at htruncate <;> dsimp only
    · have hflush := htruncate.trans rfl (flushLog_called d')
      rcases hr' : d'.flushLog with ⟨d'', _ | e⟩ <;> rw [hr'] at hflush <;> dsimp only
      · exact .went (hflush.called.ran.congr (by constructor <;> rfl) rfl rfl rfl)
          hflush.called.halt (onDisk_congr hflush.disk) rfl
      · exact concluded_haltBatch hflush.called.ran _ _
    · exact concluded_haltBatch htruncate.called.ran _ _
  | prefixThroughInclusive k =>
    have hpurge : LogCalled self d (d.purgeLog k) := purgeLog_called d k
    simp only [runTruncate]
    rcases hr : d.purgeLog k with ⟨d', _ | e⟩ <;> rw [hr] at hpurge <;> dsimp only
    · have hflush := hpurge.trans rfl (flushLog_called d')
      rcases hr' : d'.flushLog with ⟨d'', _ | e⟩ <;> rw [hr'] at hflush <;> dsimp only
      · exact .went hflush.called.ran hflush.called.halt (onDisk_congr hflush.disk) rfl
      · exact concluded_haltBatch hflush.called.ran _ _
    · exact concluded_haltBatch hpurge.called.ran _ _

theorem persistHardState_concluded (d : Driver σ) (captured : CapturedResponse)
    (text : XRaftError → String) :
    Concluded self d .persistHardState (haltOnError captured text d.persistHardState) := by
  have hcall : Called self d d.persistHardState := persistHardState_called d
  have hdisk : d.persistHardState.2 = none → _ := persistHardState_disk
  rcases hr : d.persistHardState with ⟨d', _ | e⟩ <;> rw [hr] at hcall hdisk
  · exact .went hcall.ran hcall.halt (hdisk rfl) rfl
  · exact concluded_haltBatch hcall.ran _ _

theorem resolveWaiters_called {ε : Type} {d d' : Driver σ} (e : ε)
    (h : LogCalled self d (d', some e)) (due : ℕ → Bool) (error : XRaftError) :
    LogCalled self d (d'.resolveWaiters due (.error error), some e) :=
  ⟨⟨resolveWaiters_refuse h.called.ran due error, h.called.halt⟩, h.disk⟩

theorem settle_ran {d : Driver σ} {entry : Entry} (he : entry ∈ d.logStore.entries) :
    Ran self d ((d.emit [.apply entry]).resolveWaiters (fun i => i = entry.index)
      (.ok entry.index)) false := by
  have happlied : Ran self d (d.emit [.apply entry]) false :=
    (Ran.refl d false).emit (by simp [Passive]) (by simpa [Ledger.Permits, ledger] using he)
  have hwait : Ran self d
      { d.emit [.apply entry] with
        pending := d.pending.filter (fun w => !decide (w.1 = entry.index)) } false :=
    happlied.congr (.refl _) rfl rfl rfl
  refine hwait.emit (fun x hx => ?_) (fun x hx => ?_) <;> obtain ⟨_, _, rfl⟩ := List.mem_map.mp hx
  · trivial
  · exact ⟨entry, he, rfl⟩

theorem LogCalled.error {d d' : Driver σ} {e : XRaftError} (h : LogCalled self d (d', some e))
    (e' : XRaftError) : LogCalled self d (d', some e') := ⟨⟨h.called.ran, h.called.halt⟩, h.disk⟩

section Application

variable [StateMachine σ]

theorem applyEntry_called {d : Driver σ} (last : ℕ) {entry : Entry}
    (he : entry ∈ d.logStore.entries) : LogCalled self d (d.applyEntry last entry) := by
  unfold Driver.applyEntry
  split
  · split
    · rename_i sm _
      have hsame : Ran self d { d with stateMachine := sm } false :=
        (Ran.refl d false).congr (.refl _) rfl rfl rfl
      exact ⟨⟨hsame.trans (settle_ran he), rfl⟩, rfl⟩
    · exact resolveWaiters_called _ (logCalled_of_same _ (.refl _) rfl rfl rfl rfl) _ _
  · exact ⟨⟨settle_ran he, rfl⟩, rfl⟩

theorem applyEntry_logStore (d : Driver σ) (last : ℕ) (entry : Entry) :
    (d.applyEntry last entry).1.logStore = d.logStore := by
  unfold Driver.applyEntry
  split
  · split <;> rfl
  · rfl

theorem applyEntries_called {d : Driver σ} (last : ℕ) {entries : List Entry}
    (he : ∀ e ∈ entries, e ∈ d.logStore.entries) :
    LogCalled self d (d.applyEntries last entries) := by
  induction entries generalizing d with
  | nil => exact logCalled_of_same none (.refl _) rfl rfl rfl rfl
  | cons entry rest ih =>
    have hcall : LogCalled self d (d.applyEntry last entry) :=
      applyEntry_called last (he entry List.mem_cons_self)
    have hlog := applyEntry_logStore d last entry
    unfold Driver.applyEntries
    rcases hr : d.applyEntry last entry with ⟨d', _ | message⟩ <;> rw [hr] at hcall hlog
    · have hrest : ∀ e ∈ rest, e ∈ d'.logStore.entries := fun e h => by
        rw [hlog]
        exact he e (List.mem_cons_of_mem _ h)
      exact hcall.trans rfl (ih hrest)
    · exact hcall

theorem applyCommitted_called (d : Driver σ) (first last : ℕ) :
    LogCalled self d (d.applyCommitted first last) := by
  have hcall : ∀ e : Option String, LogCalled self d (d.afterCall, e) :=
    fun e => logCalled_of_same e (.refl _) rfl rfl rfl rfl
  have hrefuse : ∀ message : String, LogCalled self d
      (d.afterCall.resolveWaiters (fun i => first ≤ i ∧ i ≤ last) (.error (.storage message)),
        some message) :=
    fun message => resolveWaiters_called message (hcall (some message)) _ _
  unfold Driver.applyCommitted
  split_ifs
  · exact logCalled_of_same _ (.refl _) rfl rfl rfl rfl
  · exact logCalled_of_same _ (.refl _) rfl rfl rfl rfl
  · split
    · exact hrefuse _
    · dsimp only
      split_ifs
      · exact hrefuse _
      · split
        · exact hrefuse _
        · exact (hcall none).trans rfl
            (applyEntries_called last (fun e h => (List.mem_filter.mp h).1))

theorem dispatchSnapshotWorker_called (d : Driver σ) (through : ℕ)
    (reply : Option RequestId) : LogCalled self d (d.dispatchSnapshotWorker through reply) := by
  unfold Driver.dispatchSnapshotWorker
  split_ifs
  · exact logCalled_of_same _ (.refl _) rfl rfl rfl rfl
  · split
    · exact logCalled_of_same _ (.refl _) rfl rfl rfl rfl
    · split
      · exact logCalled_of_same _ (.refl _) rfl rfl rfl rfl
      · split
        · exact logCalled_of_same _ (.refl _) rfl rfl rfl rfl
        · exact logCalled_of_same _ (.refl _) rfl rfl rfl rfl

/-- Installing a snapshot: every durable step follows the success of the one before. -/
theorem handleInstallSnapshot_called (d : Driver σ) (metadata : SnapshotMeta) (data : Bytes) :
    LogCalled self d (d.handleInstallSnapshot metadata data) := by
  have hflushed : ∀ {d₄ : Driver σ} (n : RaftNode → RaftNode) {r : Driver σ × Option XRaftError},
      (∀ m, SameStanding m (n m)) → LogCalled self d (d₄, (none : Option XRaftError)) →
      (∀ d' e, d₄.flushLog = (d', some e) → ∃ e', r = (d', some e')) →
      (∀ d', d₄.flushLog = (d', none) →
        r = (Driver.mirrorLogTip { d' with node := n d'.node }, none)) → LogCalled self d r := by
    intro d₄ n r hn h hfailed hdone
    have hflush := h.trans rfl (flushLog_called d₄)
    rcases hr : d₄.flushLog with ⟨d', _ | e⟩ <;> rw [hr] at hflush
    · rw [hdone d' hr]
      have hmirror : SameStanding (n d'.node)
          (Driver.mirrorLogTip { d' with node := n d'.node }).node := by constructor <;> rfl
      exact hflush.trans rfl
        (logCalled_of_same none ((hn _).trans hmirror) rfl rfl rfl rfl)
    · obtain ⟨e', heq⟩ := hfailed d' e hr
      rw [heq]
      exact hflush.error _
  unfold Driver.handleInstallSnapshot
  dsimp only
  split_ifs
  · exact logCalled_of_same _ (.refl _) rfl rfl rfl rfl
  have hsave : LogCalled self d (d.saveSnapshot metadata data) := saveSnapshot_called d _ _
  rcases hr₁ : d.saveSnapshot metadata data with ⟨d₁, _ | e⟩ <;> rw [hr₁] at hsave <;> dsimp only
  swap
  · exact hsave.error _
  have hanchor := hsave.trans rfl
    (anchorLog_called d₁ metadata.lastIncludedTerm metadata.lastIncludedIndex)
  rcases hr₂ : d₁.anchorLog metadata.lastIncludedTerm metadata.lastIncludedIndex
    with ⟨d₂, _ | e⟩ <;>
    rw [hr₂] at hanchor <;> dsimp only
  swap
  · exact hanchor.error _
  split
  · exact hanchor.trans rfl (logCalled_of_same _ (.refl _) rfl rfl rfl rfl)
  split
  · exact hanchor.trans rfl (logCalled_of_same _ (.refl _) rfl rfl rfl rfl)
  rename_i sm _ _ _
  have hrestored : LogCalled self d
      (Driver.afterCall { d₂ with stateMachine := sm }, (none : Option XRaftError)) :=
    hanchor.trans rfl (logCalled_of_same _ (.refl _) rfl rfl rfl rfl)
  have hinstalled : ∀ m : RaftNode, SameStanding m (m.handleSnapshotInstalled { metadata with
      id := canonicalId metadata.lastIncludedTerm metadata.lastIncludedIndex }) := by
    intro m
    constructor <;> rfl
  split_ifs
  · have hpurge := hrestored.trans rfl (purgeLog_called _ metadata.lastIncludedIndex)
    rcases hr₄ : (Driver.afterCall { d₂ with stateMachine := sm }).purgeLog
      metadata.lastIncludedIndex with ⟨d₄, _ | e⟩ <;> rw [hr₄] at hpurge <;> dsimp only
    · exact hflushed _ hinstalled hpurge (fun d' e hr => ⟨_, by rw [hr]⟩) (fun d' hr => by rw [hr])
    · exact hpurge.error _
  · have htruncate := hrestored.trans rfl (truncateLog_called _ 1)
    rcases hr₄ : (Driver.afterCall { d₂ with stateMachine := sm }).truncateLog 1 with
      ⟨d₄, _ | e⟩ <;> rw [hr₄] at htruncate <;> dsimp only
    · exact hflushed _ hinstalled htruncate (fun d' e hr => ⟨_, by rw [hr]⟩)
        (fun d' hr => by rw [hr])
    · exact htruncate.error _

end Application

end DriverJournal
