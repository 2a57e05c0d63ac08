import Xraft.DriverMoves
import Xraft.LeaderAppendOnly

/-! # What is written to a log

The engine appends one entry of its own when it leads and the entries of an answer when it follows.
What a node holds, applies and answers fetches with it has appended before, under any store
failures.
-/
namespace LogWrites

open ProtocolTypes ConsensusEngine DurableStores NodeDriver ServerRecovery EngineTransitions
open ApplyPipeline PersistOrder DriverJournal DriverTurns BatchFootprints DriverMoves

/-! ## What the engine appends -/

def Mute (actions : List Action) : Prop := ∀ entries, Action.appendEntries entries ∉ actions

/-- A batch of a leader: one entry of its term behind the log of `n`, written after the ballot. -/
structure Authors (n : RaftNode) (r : RaftNode × List Action) (entry : Entry) : Prop where
  batch : ∃ opening closing, r.2 = opening ++ .appendEntries [entry] :: closing ∧ Mute opening ∧
    Mute closing ∧ (ballot r.1 = ballot n ∨ .persistHardState ∈ opening)
  index : entry.index = satAdd n.lastLogIndex 1
  term : entry.term = r.1.currentTerm
  tip : r.1.lastLogIndex = entry.index
  role : r.1.role = .leader

inductive Contributes (n : RaftNode) (event : DriverEvent) (r : RaftNode × List Action) : Prop
  | mute (mute : Mute r.2)
  | author (entry : Entry) (authors : Authors n r entry)
      (asked : ∀ bytes, entry.payload = .command bytes → ∃ request, event = .client request bytes)
  | copy (resp : FetchResponse) (event_eq : event = .fetchResult resp)
      (entries : ∀ es, .appendEntries es ∈ r.2 → es = resp.entries)

variable {n k : RaftNode} {opening more : List Action} {event : DriverEvent}

theorem Authors.once {r : RaftNode × List Action} {entry : Entry} (h : Authors n r entry)
    {es : List Entry} (hes : .appendEntries es ∈ r.2) : es = [entry] := by
  obtain ⟨opening, closing, hbatch, hopen, hclose, -⟩ := h.batch
  rw [hbatch, List.mem_append, List.mem_cons] at hes
  rcases hes with hes | hes | hes
  · exact absurd hes (hopen es)
  · exact Action.appendEntries.inj hes
  · exact absurd hes (hclose es)

theorem Mute.append (h : Mute opening) (h' : Mute more) : Mute (opening ++ more) :=
  fun es hes => (List.mem_append.mp hes).elim (h es) (h' es)

theorem mute_nil : Mute [] := fun _ h => by cases h

theorem mute_applies (h : ∀ a ∈ more, Applies a) : Mute more := fun _ hes => h _ hes

theorem mute_sends {α : Type} (peers : List α) (f : α → NodeId) (g : α → OutboundMessage) :
    Mute (peers.map (fun p => .sendMessage (f p) (g p))) := by
  intro es hes
  obtain ⟨_, _, h⟩ := List.mem_map.mp hes
  cases h

theorem becomeFollower_mute (n : RaftNode) (term : ℕ) (leader : Option NodeId) :
    Mute (n.becomeFollower term leader).2 := by
  intro es hes
  simp only [RaftNode.becomeFollower] at hes
  split_ifs at hes <;> simp at hes

theorem becomeLeader_contributes (mute : Mute opening) (tip : k.lastLogIndex = n.lastLogIndex)
    (held : ballot k = ballot n ∨ .persistHardState ∈ opening) :
    Contributes n event (k.becomeLeader.1, opening ++ k.becomeLeader.2) := by
  obtain ⟨hrole, hballot⟩ := becomeLeader_standing k
  obtain ⟨c, a, s, hnode⟩ := advanceCommit_fst k.enterLeader
  refine .author k.noOpEntry ⟨⟨opening ++ [.becomeLeader], k.enterLeader.advanceCommit.2, ?_, ?_,
    mute_applies (advanceCommit_applies _), ?_⟩, ?_, ?_, ?_, hrole⟩ (fun _ h => by cases h)
  · simp [RaftNode.becomeLeader]
  · exact mute.append (fun es h => by simp at h)
  · exact held.imp hballot.trans (List.mem_append_left _)
  · exact congrArg (satAdd · 1) tip
  · exact (congrArg Ballot.term hballot).symm
  · show k.enterLeader.advanceCommit.1.lastLogIndex = _
    rw [hnode]
    rfl

theorem becomeCandidate_contributes (mute : Mute opening) (tip : k.lastLogIndex = n.lastLogIndex) :
    Contributes n event (k.becomeCandidate.1, opening ++ k.becomeCandidate.2) := by
  have hopen : Mute (opening ++ (.persistHardState :: k.enterCandidate.voteRequests)) :=
    mute.append (fun es h => by
      rcases List.mem_cons.mp h with h | h
      · cases h
      · exact mute_sends _ _ _ es h)
  unfold RaftNode.becomeCandidate
  split_ifs
  · have hlead : Contributes n event _ :=
      becomeLeader_contributes (k := k.enterCandidate) hopen tip (.inr (by simp))
    rwa [List.append_assoc] at hlead
  · exact .mute hopen

theorem becomePreCandidate_contributes (mute : Mute opening)
    (tip : k.lastLogIndex = n.lastLogIndex) :
    Contributes n event (k.becomePreCandidate.1, opening ++ k.becomePreCandidate.2) := by
  have hopen := mute.append (mute_sends k.enterPreCandidate.voterPeerIds id
    (fun _ => .preVoteRequest k.enterPreCandidate.preVoteRequest))
  unfold RaftNode.becomePreCandidate
  split_ifs
  · have hcandidate : Contributes n event _ :=
      becomeCandidate_contributes (k := k.enterPreCandidate) hopen tip
    rwa [List.append_assoc] at hcandidate
  · exact .mute hopen

theorem handleTick_contributes (n : RaftNode) : Contributes n event n.handleTick := by
  obtain ⟨t, c, ht⟩ := ticked_eq n
  have hsends : Mute n.advanceClock.scheduleFetch.2 := by
    intro es hes
    obtain ⟨dest, h⟩ := scheduleFetch_sends hes
    cases h
  rw [handleTick_eq]
  split_ifs
  · exact .mute (hsends.append (becomeFollower_mute _ _ _))
  · unfold RaftNode.electionTimeout
    split_ifs
    · exact becomePreCandidate_contributes hsends (by rw [ht])
    · exact .mute hsends

theorem handleVoteResponse_contributes (n : RaftNode) (sender : NodeId) (resp : VoteResponse) :
    Contributes n event (n.handleVoteResponse sender resp) := by
  rcases handleVoteResponse_cases n sender resp with heq | heq | ⟨-, heq | ⟨-, heq⟩⟩ <;> rw [heq]
  · exact .mute mute_nil
  · exact .mute (becomeFollower_mute _ _ _)
  · exact .mute mute_nil
  · exact becomeLeader_contributes mute_nil (by rfl) (.inl (by rfl))

theorem handlePreVoteResponse_contributes (n : RaftNode) (sender : NodeId)
    (resp : PreVoteResponse) : Contributes n event (n.handlePreVoteResponse sender resp) := by
  rcases handlePreVoteResponse_cases n sender resp with heq | heq | ⟨-, heq | ⟨-, heq⟩⟩ <;> rw [heq]
  · exact .mute mute_nil
  · exact .mute (becomeFollower_mute _ _ _)
  · exact .mute mute_nil
  · exact becomeCandidate_contributes mute_nil (by rfl)

theorem handleClientPropose_contributes (n : RaftNode) (request : RequestId) (command : Bytes) :
    Contributes n (.client request command) (n.handleClientPropose command) := by
  unfold RaftNode.handleClientPropose
  split_ifs with hrole
  · exact .mute mute_nil
  · rw [not_not] at hrole
    dsimp only
    obtain ⟨c, a, s, hnode⟩ := advanceCommit_fst
      (n.setLastLog (satAdd n.lastLogIndex 1) n.currentTerm)
    refine .author ⟨satAdd n.lastLogIndex 1, n.currentTerm, .command command⟩
      ⟨⟨[], _, rfl, mute_nil, mute_applies (advanceCommit_applies _), .inl ?_⟩, rfl, ?_, ?_, ?_⟩
      (fun bytes h => ⟨request, by rw [EntryPayload.command.inj h]⟩)
    all_goals
      dsimp only
      rw [hnode]
      first | rfl | exact hrole

theorem handleFetchResponse_contributes (n : RaftNode) (resp : FetchResponse) :
    Contributes n (.fetchResult resp) (n.handleFetchResponse resp) := by
  refine .copy resp rfl (fun es hes => ?_)
  rcases handleFetchResponse_cases n resp with heq | ⟨m, opening, -, hacc, heq⟩ <;> rw [heq] at hes
  · cases hes
  · have hopen : Mute opening := by
      intro es hes
      rw [hacc.actions_eq] at hes
      split_ifs at hes <;> simp at hes
    have hes := (List.mem_append.mp hes).resolve_left (hopen es)
    rcases payload_cases m resp with
      ⟨_, hp⟩ | ⟨_, -, -, hp⟩ | hp | ⟨taken, appends, htake, hp⟩ <;> rw [hp] at hes
    · simp [RaftNode.requestSnapshot] at hes
    · simp [RaftNode.resolveDivergence] at hes
    · cases hes
    · rcases List.mem_append.mp hes with hes | hes
      · rcases takeEntries_spec htake with ⟨-, -, rfl⟩ | ⟨_, _, -, -, -, -, -, rfl⟩
        · cases hes
        · exact Action.appendEntries.inj (List.mem_singleton.mp hes)
      · unfold RaftNode.observeHighWatermark at hes
        dsimp only at hes
        split_ifs at hes
        · exact absurd hes (mute_applies (drainApplyPipeline_applies _) es)
        · cases hes

theorem drives_contributes {r : RaftNode × List Action} (h : Drives n event r) :
    Contributes n event r := by
  cases h with
  | idle event flag => exact .mute mute_nil
  | @step _ input hinput =>
    cases event <;> simp only [inputOf, Option.some.injEq, reduceCtorEq] at hinput <;> subst hinput
    case tick => exact handleTick_contributes n
    case voteResult peer response => exact handleVoteResponse_contributes n peer response
    case preVoteResult peer response => exact handlePreVoteResponse_contributes n peer response
    case fetchResult response => exact handleFetchResponse_contributes n response
    case client request command => exact handleClientPropose_contributes n request command
    case inboundVote req =>
      refine .mute (fun es h => ?_)
      rw [RaftNode.step] at h
      rcases handleVoteRequest_cases n req with heq | ⟨-, heq | ⟨-, heq⟩⟩ <;> rw [heq] at h
      · cases h
      · simp [refusing] at h
      · rcases mem_answering h with h | h | h <;> cases h
    case inboundPreVote req =>
      refine .mute (fun es h => ?_)
      obtain ⟨-, _, h⟩ := mem_handlePreVoteRequest h
      cases h
    case inboundFetch req =>
      refine .mute (fun es h => ?_)
      rw [RaftNode.step] at h
      rcases handleFetchRequest_cases n req with heq | heq | ⟨-, ⟨_, heq⟩ | heq⟩ <;> rw [heq] at h
      · cases h
      · exact becomeFollower_mute _ _ _ es h
      · simp [redirecting] at h
      · simp [serving] at h
  | outrun req => exact .mute (becomeFollower_mute _ _ _)
  | overtaken _ _ _ _ _ => exact .mute (becomeFollower_mute _ _ _)
  | received clusterId epoch snap data hleader =>
    refine .mute (fun es h => ?_)
    simp only [RaftNode.handleFetchSnapshotReceived] at h
    split_ifs at h <;> simp at h
  | completed metadata =>
    refine .mute (fun es h => ?_)
    unfold RaftNode.handleSnapshotComplete at h
    split_ifs at h <;> simp at h

/-! ## What a turn writes -/

def appendedBy : Effect → List Entry
  | .append entries => entries
  | _ => []

def logged (w : List Effect) : List Entry := w.flatMap appendedBy

theorem mem_logged {w : List Effect} {x : Entry} :
    x ∈ logged w ↔ ∃ es, Effect.append es ∈ w ∧ x ∈ es := by
  constructor
  · intro h
    obtain ⟨y, hy, hx⟩ := List.mem_flatMap.mp h
    cases y <;> first | exact absurd hx List.not_mem_nil | exact ⟨_, hy, hx⟩
  · rintro ⟨es, hes, hx⟩
    exact List.mem_flatMap.mpr ⟨_, hes, hx⟩

theorem logged_mono {w w' : List Effect} (h : w <+: w') {x : Entry} (hx : x ∈ logged w) :
    x ∈ logged w' := by
  obtain ⟨es, hes, hx⟩ := mem_logged.mp hx
  exact mem_logged.mpr ⟨es, h.subset hes, hx⟩

variable {σ : Type} {d d' : Driver σ}

def shown : Effect → List Entry
  | .apply x => [x]
  | .fetchReply _ (.ok resp) => resp.entries
  | _ => []

/-- What a node holds, has applied or has answered a fetch with. -/
def Met (d : Driver σ) (x : Entry) : Prop := x ∈ d.logStore.entries ∨ ∃ y ∈ d.trace, x ∈ shown y

def Sourced (d : Driver σ) : Prop := ∀ x, Met d x → x ∈ logged d.trace

theorem Sourced.grow (h : Sourced d) {w : List Effect}
    (log : ∀ x ∈ d'.logStore.entries, x ∈ d.logStore.entries ∨ x ∈ logged w)
    (trace : d'.trace = d.trace ++ w) (new : ∀ y ∈ w, ∀ x ∈ shown y, x ∈ logged d.trace) :
    Sourced d' := by
  have hold : ∀ {x}, x ∈ logged d.trace → x ∈ logged d'.trace :=
    fun hx => trace ▸ logged_mono (List.prefix_append _ _) hx
  rintro x (hx | ⟨y, hy, hx⟩)
  · rcases log x hx with hx | hx
    · exact hold (h x (.inl hx))
    · obtain ⟨es, hes, hx⟩ := mem_logged.mp hx
      exact mem_logged.mpr ⟨es, trace ▸ List.mem_append_right _ hes, hx⟩
  · rcases List.mem_append.mp (trace ▸ hy) with hy | hy
    · exact hold (h x (.inr ⟨y, hy, hx⟩))
    · exact hold (new y hy x hx)

theorem written_entries {s : MemoryLogStore} {x : Effect} {e : Entry}
    (h : e ∈ (written s x).entries) : e ∈ s.entries ∨ e ∈ appendedBy x := by
  cases x with
  | append entries => exact List.mem_append.mp h
  | truncate k => exact .inl (List.mem_of_mem_filter h)
  | purge k => exact .inl (List.mem_of_mem_filter h)
  | anchor term index => exact .inl (updateSnapshotAnchor_entries s term index ▸ h)
  | _ => exact .inl h

theorem Move.sourced (h : Move d d') (hd : Sourced d) : Sourced d' := by
  cases h with
  | still same =>
    simp only [view, Prod.mk.injEq] at same
    exact hd.grow (w := []) (fun x hx => .inl (same.1 ▸ hx)) (by simp [same]) (by simp)
  | effect x plain held after =>
    simp only [view, Prod.mk.injEq] at after
    obtain ⟨log, -, -, trace⟩ := after
    refine hd.grow (fun z hz => ?_) trace (fun y hy z hz => ?_)
    · simpa [logged] using written_entries (log ▸ hz)
    · -- among the effects that answer nobody only an application shows an entry
      rw [List.mem_singleton.mp hy] at hz
      cases x with
      | apply e => exact hd z (.inl (List.mem_singleton.mp hz ▸ held e rfl))
      | fetchReply req result => exact absurd trivial plain
      | _ => exact absurd hz List.not_mem_nil
  | outside hw =>
    refine hd.grow (fun _ => .inl) rfl (fun y hy x hx => ?_)
    have hout := hw y hy
    cases y <;> first | exact hout.elim | exact absurd hx List.not_mem_nil
  | resolve due result => exact hd.grow (fun _ => .inl) rfl (by grind [shown])
  | settle verdict => exact hd.grow (fun _ => .inl) rfl (by grind [shown, Option.map_eq_some_iff])
  | fail error => exact hd.grow (fun _ => .inl) rfl (by grind [shown])

theorem Path.sourced (h : Path d d') (hd : Sourced d) : Sourced d' := by
  induction h with
  | refl => exact hd
  | tail _ hm ih => exact Move.sourced hm ih

theorem Intake.sourced (h : Intake d event d') (hd : Sourced d)
    (hevent : ∀ req, event ≠ .inboundFetch req) : Sourced d' := by
  cases h with
  | unasked quiet => exact hd
  | @answer _ x hx =>
    refine hd.grow (fun _ => .inl) rfl (fun y hy z hz => ?_)
    rw [List.mem_singleton.mp hy] at hz
    cases x with
    | fetchReply req result => cases event <;> first | exact hx.elim | exact absurd rfl (hevent _)
    | apply e => cases event <;> exact hx.elim
    | _ => exact absurd hz List.not_mem_nil
  | register request command index => exact hd
  | defer query hreply => exact hd

theorem materializeFetchResponse_entries (d : Driver σ) (clusterId : String) (epoch : ℕ)
    (leader : NodeId) (hw offset fetched : ℕ) (resp : FetchResponse)
    (h : (d.materializeFetchResponse clusterId epoch leader hw offset fetched).2 = .ok resp) :
    resp.entries ⊆ d.logStore.entries := by
  have hread : ∀ (e : Driver σ) (blank : FetchResponse), (e.readBatch blank offset).2 = .ok resp →
      resp.entries ⊆ e.logStore.entries := by
    intro e blank h x hx
    unfold Driver.readBatch at h
    dsimp only at h
    split at h
    · cases h
    · obtain rfl := Except.ok.inj h
      exact List.mem_of_mem_filter hx
  have hanswer : ∀ (e : Driver σ) (blank : FetchResponse) (actual : Option ℕ), blank.entries = [] →
      (e.answerFrom blank offset fetched actual).2 = .ok resp →
      resp.entries ⊆ e.logStore.entries := by
    intro e blank actual hblank h
    obtain ⟨fs, hfs⟩ := ActionBatches.divergingEpoch_driver e actual fetched
    unfold Driver.answerFrom at h
    rcases hr : e.divergingEpoch actual fetched with ⟨d', _ | de⟩ <;> rw [hr] at h hfs <;>
      obtain rfl : d' = _ := hfs
    · exact hread { e with faults := fs } blank h
    · obtain rfl := Except.ok.inj h
      simp [hblank]
  unfold Driver.materializeFetchResponse at h
  dsimp only at h
  split at h
  · obtain rfl := Except.ok.inj h
    simp
  · split_ifs at h
    · exact hread d _ h
    · split at h
      · exact hanswer d _ _ rfl h
      · split at h
        · cases h
        · exact hanswer d.afterCall _ _ rfl h

section Turns

variable [StateMachine σ]

/-- The answer to a fetch has entries of the log only. -/
theorem feed_fetch (d : Driver σ) (req : FetchRequest) {resp : FetchResponse}
    (h : (d.feed (.fetchRequest req) (some req.replicaId)).2.fetch = some resp) :
    resp.entries ⊆ d.logStore.entries := by
  simp only [Driver.feed, Driver.processActions, RaftNode.step, RaftNode.handleFetchRequest] at h
  split_ifs at h
  · cases h
  · cases h
  · cases h
  · exfalso
    revert h
    simp only [RaftNode.becomeFollower]
    generalize ({ d with node := _ } : Driver σ) = e
    rcases hp : e.persistHardState with ⟨e', _ | error⟩
    all_goals split_ifs <;> simp [runActions, runAction, haltOnError, haltBatch, hp]
  · cases h
  · cases h
  split at h
  · simp [runActions, runAction, sendOrCapture] at h
    simp [← h]
  · have hentries := materializeFetchResponse_entries { d with
      node := d.node.stampFetch req.replicaId } d.node.config.clusterId d.node.currentTerm d.node.id
      d.node.commitIndex req.fetchOffset req.lastFetchedEpoch resp
    simp only [runActions, runAction, runServeFetch] at h
    generalize Driver.materializeFetchResponse _ _ _ _ _ _ _ = r at h hentries
    obtain ⟨d', e | answer⟩ := r
    · simp at h
    · have hsame : answer = resp := by
        simp only [sendOrCapture, ne_eq, not_true_eq_false, if_false, Option.isNone_none,
          if_true] at h
        split_ifs at h
        all_goals exact Option.some.inj h
      exact hentries (congrArg Except.ok hsame)

/-- What a node holds, applies and answers with it has appended before. -/
theorem turn_sourced (hd : Sourced d) (event : DriverEvent) : Sourced (d.turn event) := by
  by_cases hhalt : d.haltReason = none
  swap
  · rwa [turn_halted d event hhalt]
  refine Path.sourced (turn_path event hhalt) ?_
  by_cases hfetch : ∃ req, event = .inboundFetch req
  swap
  · obtain ⟨d₁, d₂, hbefore, hintake, hafter⟩ := handleDriverEvent_takes d event
    exact Path.sourced hafter (Intake.sourced hintake (Path.sourced hbefore hd)
      (fun req h => hfetch ⟨req, h⟩))
  obtain ⟨req, rfl⟩ := hfetch
  have hfed := Path.sourced (feed_path d (.fetchRequest req) (some req.replicaId)) hd
  obtain ⟨w, hw, -⟩ := runActions_traced (some req.replicaId) (d.node.step (.fetchRequest req)).2
    { d with node := (d.node.step (.fetchRequest req)).1 } {}
  refine hfed.grow (fun _ => .inl) rfl (fun y hy x hx => ?_)
  have hlog : x ∈ d.logStore.entries := by
    rw [List.mem_singleton.mp hy] at hx
    unfold answer at hx
    split at hx
    · cases hx
    · cases hf : (d.feed (.fetchRequest req) (some req.replicaId)).2.fetch with
      | none =>
        rw [hf] at hx
        exact absurd hx List.not_mem_nil
      | some resp =>
        rw [hf] at hx
        exact feed_fetch d req hf hx
  exact logged_mono ⟨w, hw.symm⟩ (hd x (.inl hlog))

/-! ## One turn -/

theorem runActions_ordered (origin : Option NodeId) {opening : List Action} (closing : List Action)
    (mute : Mute opening) (hp : .persistHardState ∈ opening) (d : Driver σ) (c : CapturedResponse)
    (es : List Entry) : ∃ w, (runActions processAcked origin d c (opening ++ closing)).1.trace =
      d.trace ++ w ∧ (.append es ∈ w → ∃ state, .persist state ∈ w) := by
  induction opening generalizing d c with
  | nil => exact absurd hp List.not_mem_nil
  | cons a rest ih =>
    obtain ⟨w, hw, hleft⟩ := (runAction_footprint origin d c a).2
    have hnone : .append es ∉ w := by
      intro h
      have ha : a = .appendEntries es := hleft _ h
      exact mute es (ha ▸ List.mem_cons_self)
    rw [List.cons_append]
    unfold runActions
    dsimp only
    split_ifs with hbroke
    · exact ⟨w, hw, fun h => absurd h hnone⟩
    rcases List.mem_cons.mp hp with rfl | hp
    · have hdone : w = [.persist d.clampCommit.node.hardState] := by
        have hcall :=
          durably_cases d.clampCommit (fun d => { d with hsStore := some d.node.hardState })
          (.persist d.clampCommit.node.hardState) .storeFailed
        rcases hcall with h | ⟨e, h⟩ | ⟨e, h⟩ <;>
          simp only [runAction, Driver.persistHardState, h, haltOnError, haltBatch] at hbroke hw
        · exact (List.append_cancel_left hw).symm
        · exact absurd trivial hbroke
        · exact absurd trivial hbroke
      obtain ⟨w', hw', -⟩ := runActions_traced origin (rest ++ closing)
        (runAction processAcked origin d c .persistHardState).driver
        (runAction processAcked origin d c .persistHardState).captured
      refine ⟨w ++ w', by rw [hw', hw, List.append_assoc],
        fun _ => ⟨d.clampCommit.node.hardState, ?_⟩⟩
      simp [hdone]
    · obtain ⟨w', hw', hper⟩ := ih (fun es h => mute es (List.mem_cons_of_mem _ h)) hp
        (runAction processAcked origin d c a).driver (runAction processAcked origin d c a).captured
      refine ⟨w ++ w', by rw [hw', hw, List.append_assoc], fun h => ?_⟩
      obtain ⟨state, hs⟩ := hper ((List.mem_append.mp h).resolve_left hnone)
      exact ⟨state, List.mem_append_right _ hs⟩

/-- The entries a turn writes are those of one batch of the engine. -/
structure Writes (d : Driver σ) (event : DriverEvent) (r : RaftNode × List Action)
    (w : List Effect) : Prop where
  drives : Drives d.node event r
  trace : (d.turn event).trace = d.trace ++ w
  standing : SameStanding r.1 (d.turn event).node
  append : ∀ es, .append es ∈ w → .appendEntries es ∈ r.2
  order : ∀ es opening closing, r.2 = opening ++ closing → Mute opening →
    .persistHardState ∈ opening → .append es ∈ w → ∃ state, .persist state ∈ w
  tip : (∀ a ∈ r.2, ¬Reshapes a) → (d.turn event).node.lastLogIndex = r.1.lastLogIndex

theorem turn_writes (d : Driver σ) (event : DriverEvent) : ∃ r w, Writes d event r w := by
  obtain ⟨r, origin, pre, hdrives, hpre, ⟨w₀, htrace₀, hlight₀⟩, hnode, w₂, htrace₂, hlight₂⟩ :=
    (turn_driven d event).batch
  obtain ⟨w₁, htrace₁, hleft⟩ := runActions_traced origin r.2 pre {}
  have hbatch : ∀ es, .append es ∈ w₀ ++ w₁ ++ w₂ → .append es ∈ w₁ := by
    intro es h
    rcases List.mem_append.mp h with h | h
    · exact (List.mem_append.mp h).resolve_left (fun h => hlight₀ _ h)
    · exact absurd (hlight₂ _ h) id
  refine ⟨r, w₀ ++ w₁ ++ w₂, hdrives, ?_, ?_, fun es h => ?_,
    fun es opening closing hr mute hp h => ?_, fun hplain => ?_⟩
  · rw [htrace₂, Driver.processActions, htrace₁, htrace₀]
    simp
  · rw [hnode, ← hpre]
    exact runActions_standing origin r.2 pre {}
  · obtain ⟨a, ha, hleaves⟩ := hleft _ (hbatch es h)
    have : a = .appendEntries es := hleaves
    exact this ▸ ha
  · obtain ⟨w, hw, hper⟩ := runActions_ordered origin closing mute hp pre {} es
    rw [← hr, htrace₁] at hw
    obtain rfl := List.append_cancel_left hw
    obtain ⟨state, hs⟩ := hper (hbatch es h)
    exact ⟨state, by simp [hs]⟩
  · have hcore := runActions_core origin hplain pre {}
    have htip := congrArg RaftNode.lastLogIndex hcore
    rw [hnode, ← hpre]
    exact htip

end Turns

end LogWrites
