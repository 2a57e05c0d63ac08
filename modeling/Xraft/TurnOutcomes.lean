import Xraft.EngineOutlines

/-! # Outcomes of driver turns

Every event of the select loop is one of five shapes: nothing the stores depend on, a batch with an
outline, an install, an operator's trigger, or the completion of a worker. Of a turn that leaves the
driver running we say what became of its log, its state machine, its waiters and its snapshots.
-/
namespace TurnOutcomes

open ProtocolTypes ConsensusEngine DurableStores NodeDriver EngineTransitions GuardedExecution
open ApplyPipeline FaultFreeBatches PositionedLog BatchFootprints ActionOutcomes BatchOutcomes
open EngineOutlines LeaderAppendOnly

variable {σ : Type} {d d' d'' : Driver σ}

theorem drainPendingReads_kept [StateMachine σ] (d : Driver σ) : Kept d d.drainPendingReads := by
  refine ⟨⟨rfl, rfl, rfl, rfl, rfl, rfl, rfl, rfl, rfl, id⟩, _, rfl, fun x hx => ?_⟩
  obtain ⟨r, _, hx⟩ := List.mem_filterMap.mp hx
  obtain ⟨v, _, rfl⟩ := Option.map_eq_some_iff.mp hx
  trivial

theorem replySnapshot_kept (d : Driver σ) (reply : Option RequestId)
    (result : Except XRaftError TriggeredSnapshotInfo) : Kept d (d.replySnapshot reply result) := by
  cases reply with
  | none => exact .refl d
  | some request => exact kept_emit (by simp [Mute])

/-! ## Shapes -/

def installs (d : Driver σ) : DriverEvent → Option (SnapshotMeta × Bytes)
  | .fetchSnapshotResult peer clusterId epoch (some snap) data =>
    if clusterId = d.node.config.clusterId ∧ epoch = d.node.currentTerm ∧
        d.node.leaderId = some peer ∧ d.node.lastApplied < snap.lastIncludedIndex
    then some (snap, data) else none
  | _ => none

theorem installs_newer {event : DriverEvent} {snap : SnapshotMeta} {data : Bytes}
    (h : installs d event = some (snap, data)) : d.node.lastApplied < snap.lastIncludedIndex := by
  unfold installs at h
  split at h
  · split_ifs at h with hnew
    obtain ⟨rfl, -⟩ := Prod.mk.inj (Option.some.inj h)
    exact hnew.2.2.2
  · cases h

theorem installs_from {event : DriverEvent} {snap : SnapshotMeta} {data : Bytes}
    (h : installs d event = some (snap, data)) : ∃ peer clusterId epoch,
      event = .fetchSnapshotResult peer clusterId epoch (some snap) data ∧
        d.node.leaderId = some peer := by
  unfold installs at h
  split at h
  · split_ifs at h with hnew
    obtain ⟨rfl, rfl⟩ := Prod.mk.inj (Option.some.inj h)
    exact ⟨_, _, _, rfl, hnew.2.2.1⟩
  · cases h

def Registers (d : Driver σ) (event : DriverEvent) (r : RaftNode × List Action)
    (registered : List (ℕ × RequestId)) : Prop :=
  registered = [] ∧ (∀ request command, event = .client request command → d.node.role ≠ .leader) ∨
    ∃ request command, event = .client request command ∧ d.node.role = .leader ∧
      r = d.node.handleClientPropose command ∧ r.1.lastLogIndex = d.node.lastLogIndex + 1 ∧
      registered = [(d.node.lastLogIndex + 1, request)]

theorem Registers.leads {event : DriverEvent} {r : RaftNode × List Action}
    {registered : List (ℕ × RequestId)} (h : Registers d event r registered)
    (hne : registered ≠ []) : d.node.role = .leader := by
  rcases h with ⟨hnil, -⟩ | ⟨_, _, _, hl, -⟩
  · exact absurd hnil hne
  · exact hl

def KeepsCommitted (n : RaftNode) : DriverEvent → Prop
  | .fetchResult resp => (cutsTo n resp).all (fun endOffset => n.commitIndex ≤ endOffset)
  | _ => True

/-- Room in the log, no cut below the commit index, and snapshots from other nodes. -/
structure Fit (d : Driver σ) (event : DriverEvent) : Prop where
  room : d.node.lastLogIndex + ((DriverTurns.inputOf event).map arriving).getD 1 < u64Max
  keeps : KeepsCommitted d.node event
  permitted : Permitted d (.turn event)

instance (n : RaftNode) (event : DriverEvent) : Decidable (KeepsCommitted n event) := by
  unfold KeepsCommitted
  split <;> infer_instance

instance (d : Driver σ) (event : DriverEvent) : Decidable (Fit d event) :=
  decidable_of_iff (d.node.lastLogIndex + ((DriverTurns.inputOf event).map arriving).getD 1 <
    u64Max ∧ KeepsCommitted d.node event ∧ Permitted d (.turn event))
    ⟨fun h => ⟨h.1, h.2.1, h.2.2⟩, fun h => ⟨h.room, h.keeps, h.permitted⟩⟩

theorem Fit.tip {event : DriverEvent} (h : Fit d event) : d.node.lastLogIndex < u64Max := by
  have := h.room
  omega

theorem Fit.outline {event : DriverEvent} {input : Input} (h : Fit d event)
    (hinput : DriverTurns.inputOf event = some input)
    (hb : d.node.role = .leader → Bounded d.node) : Outline d.node (d.node.step input) := by
  have hroom := h.room
  rw [hinput] at hroom
  refine step_outline hinput hroom hb (fun resp endOffset hresp hcut => ?_)
  have hevent : event = .fetchResult resp := by
    subst hresp
    cases event <;> simp_all [DriverTurns.inputOf]
  have hkeeps := h.keeps
  subst hevent
  simpa [KeepsCommitted, hcut] using hkeeps

/-- The batches of a turn: a step of the engine, or its fall to a newer term. -/
inductive Issued (n : RaftNode) : RaftNode × List Action → Prop
  | step {event : DriverEvent} {input : Input} (h : DriverTurns.inputOf event = some input) :
      Issued n (n.step input)
  | deposed (term : ℕ) : Issued n (n.becomeFollower term none)

variable [StateMachine σ]

inductive Shape (d : Driver σ) : DriverEvent → Driver σ → Prop
  | idle {event : DriverEvent} {d' : Driver σ} (plain : installs d event = none)
      (kept : Kept d d') : Shape d event d'
  | batch {event : DriverEvent} {r : RaftNode × List Action} {registered : List (ℕ × RequestId)}
      {origin : Option NodeId} {d' : Driver σ} (plain : installs d event = none)
      (issued : Issued d.node r) (outline : Outline d.node r)
      (registers : Registers d event r registered)
      (kept : Kept (Driver.processActions
        { d with node := r.1, pending := d.pending ++ registered } r.2 origin).1 d') :
      Shape d event d'
  | install {event : DriverEvent} {snap : SnapshotMeta} {data : Bytes} {d' : Driver σ}
      (installing : installs d event = some (snap, data))
      (kept : Kept (d.processActions [.installSnapshot snap data] none).1 d') : Shape d event d'
  | trigger {request : RequestId} (leader : d.node.role = .leader)
      (engine : d.node.snapshotInFlight = false) (worker : d.snapshotWorkerInFlight = false) :
      Shape d (.triggerSnapshot request) (d.handleTriggerSnapshot request)
  | complete {c : SnapshotCompletion} {rest : List SnapshotCompletion}
      (done : d.snapshotDone = c :: rest) : Shape d .snapshotCompleted d.handleSnapshotCompleted

theorem shape_feed {event : DriverEvent} {input : Input} {origin : Option NodeId}
    (hinput : DriverTurns.inputOf event = some input)
    (hclient : ∀ request command, event ≠ .client request command) (hfit : Fit d event)
    (hb : d.node.role = .leader → Bounded d.node) (kept : Kept (d.feed input origin).1 d') :
    Shape d event d' := by
  have plain : installs d event = none := by
    cases event <;> first | rfl | cases hinput
  have hbatch : Kept (Driver.processActions
      { d with node := (d.node.step input).1, pending := d.pending ++ [] } (d.node.step input).2
      origin).1 d' := by
    rw [List.append_nil]
    exact kept
  exact .batch plain (.step hinput) (hfit.outline hinput hb)
    (.inl ⟨rfl, fun request command h => absurd h (hclient _ _)⟩) hbatch

theorem shape_deposed {event : DriverEvent} (plain : installs d event = none)
    (hclient : ∀ request command, event ≠ .client request command) (term : ℕ)
    (kept : Kept (Driver.processActions { d with node := (d.node.becomeFollower term none).1 }
      (d.node.becomeFollower term none).2 none).1 d') : Shape d event d' := by
  have hbatch : Kept (Driver.processActions
      { d with node := (d.node.becomeFollower term none).1, pending := d.pending ++ [] }
      (d.node.becomeFollower term none).2 none).1 d' := by
    rw [List.append_nil]
    exact kept
  exact .batch plain (.deposed term) (.of_idle (becomeFollower_stretch _ _ _))
    (.inl ⟨rfl, fun request command h => absurd h (hclient _ _)⟩) hbatch

theorem handleInboundFetchSnapshot_shape (d : Driver σ) (req : FetchSnapshotRequest) :
    Shape d (.inboundFetchSnapshot req) (d.handleInboundFetchSnapshot req) := by
  have hreply : ∀ {x : Driver σ} (result : Except XRaftError (List FetchSnapshotChunk)),
      Kept x (x.emit [.fetchSnapshotReply req result]) := fun _ => kept_emit (by simp [Mute])
  have hstay : ∀ {x : Driver σ} (result : Except XRaftError (List FetchSnapshotChunk)), Kept d x →
      Shape d (.inboundFetchSnapshot req) (x.emit [.fetchSnapshotReply req result]) :=
    fun result hx => .idle rfl (hx.trans (hreply result))
  have hcalls : Kept d d.afterCall.afterCall := (kept_afterCall d).trans (kept_afterCall _)
  unfold Driver.handleInboundFetchSnapshot
  dsimp only
  generalize (if req.maxBytes = 0 then none else some req.maxBytes) = limit
  split_ifs
  · exact hstay _ (.refl d)
  · exact hstay _ (.refl d)
  · exact hstay _ (.refl d)
  · exact hstay _ (.refl d)
  · split
    · exact shape_deposed rfl (by simp) req.leaderEpoch (hreply _)
    · exact shape_deposed rfl (by simp) req.leaderEpoch (hreply _)
  · exact hstay _ (.refl d)
  · split
    · exact hstay _ (kept_afterCall d)
    · split
      · exact hstay _ (kept_afterCall d)
      · split
        · exact hstay _ hcalls
        · split
          · exact hstay _ hcalls
          · exact hstay _ hcalls

theorem handleFetchSnapshotResult_shape (d : Driver σ) (peer : NodeId) (clusterId : String)
    (epoch : ℕ) (metadata : Option SnapshotMeta) (data : Bytes) :
    Shape d (.fetchSnapshotResult peer clusterId epoch metadata data)
      (d.handleFetchSnapshotResult peer clusterId epoch metadata data) := by
  cases metadata with
  | none =>
    unfold Driver.handleFetchSnapshotResult
    split_ifs
    · exact .idle rfl (.refl d)
    · exact shape_deposed rfl (by simp) epoch (.refl _)
    · exact .idle rfl (.refl d)
    · exact .idle rfl (.refl d)
    · exact .idle rfl (.refl d)
  | some snap =>
    have hplain : ¬(clusterId = d.node.config.clusterId ∧ epoch = d.node.currentTerm ∧
        d.node.leaderId = some peer ∧ d.node.lastApplied < snap.lastIncludedIndex) →
        installs d (.fetchSnapshotResult peer clusterId epoch (some snap) data) = none :=
      fun h => if_neg h
    unfold Driver.handleFetchSnapshotResult
    split_ifs with hcluster hnewer holder hleader
    · exact .idle (hplain (fun h => hcluster h.1)) (.refl d)
    · exact shape_deposed (hplain (fun h => by omega)) nofun epoch (.refl _)
    · exact .idle (hplain (fun h => by omega)) (.refl d)
    · exact .idle (hplain (fun h => hleader h.2.2.1)) (.refl d)
    · rw [not_not] at hcluster hleader
      by_cases hold : snap.lastIncludedIndex ≤ d.node.lastApplied
      · have hnone : (d.feed (.fetchSnapshotReceived snap data) none).1 = d := by
          simp [Driver.feed, RaftNode.step, RaftNode.handleFetchSnapshotReceived, hold,
            Driver.processActions, runActions]
        dsimp only
        rw [hnone]
        exact .idle (hplain (fun h => by omega)) (.refl d)
      · have hsome : d.feed (.fetchSnapshotReceived snap data) none =
            d.processActions [.installSnapshot snap data] none := by
          simp [Driver.feed, RaftNode.step, RaftNode.handleFetchSnapshotReceived, hold]
        dsimp only
        rw [hsome]
        exact .install (if_pos ⟨hcluster, by omega, hleader, not_le.mp hold⟩) (.refl _)

/-- With room in the log a proposal of a leader is always registered. -/
theorem handleClientCommand_shape (hroom : d.node.lastLogIndex + 1 < u64Max)
    (hb : d.node.role = .leader → Bounded d.node) (request : RequestId) (command : Bytes) :
    Shape d (.client request command) (d.handleClientCommand request command) := by
  unfold Driver.handleClientCommand
  split_ifs with hrole
  · exact .idle rfl (kept_emit (by simp [Mute]))
  · rw [not_not] at hrole
    have hindex : satAdd d.node.lastLogIndex 1 = d.node.lastLogIndex + 1 :=
      satAdd_eq (by omega)
    have hstep : d.node.step (.clientPropose command) = d.node.handleClientPropose command := rfl
    have hactions : (d.node.handleClientPropose command).2 =
        .appendEntries [⟨satAdd d.node.lastLogIndex 1, d.node.currentTerm, .command command⟩] ::
          (d.node.setLastLog (satAdd d.node.lastLogIndex 1)
            d.node.currentTerm).advanceCommit.2 := by
      unfold RaftNode.handleClientPropose
      rw [if_neg (by simp [hrole])]
    have hpost : (d.node.handleClientPropose command).1.lastLogIndex = d.node.lastLogIndex + 1 := by
      unfold RaftNode.handleClientPropose
      rw [if_neg (by simp [hrole])]
      obtain ⟨c, a, s, h⟩ := advanceCommit_fst
        (d.node.setLastLog (satAdd d.node.lastLogIndex 1) d.node.currentTerm)
      dsimp only
      rw [h]
      exact hindex
    dsimp only
    rw [hstep, if_pos ⟨hpost, by rw [hactions, hpost]; simp [hindex]⟩, hpost]
    exact .batch rfl (@Issued.step d.node (.client request command) _ rfl)
      (handleClientPropose_outline hroom hb command)
      (.inr ⟨request, command, rfl, hrole, rfl, hpost, rfl⟩) (.refl _)

theorem handleDriverEvent_shape {event : DriverEvent} (hfit : Fit d event)
    (hb : d.node.role = .leader → Bounded d.node) : Shape d event (d.handleDriverEvent event) := by
  cases event with
  | tick => exact shape_feed rfl (by simp) hfit hb (.refl _)
  | inboundVote req => exact shape_feed rfl (by simp) hfit hb (kept_emit (by simp [Mute]))
  | inboundPreVote req => exact shape_feed rfl (by simp) hfit hb (kept_emit (by simp [Mute]))
  | inboundFetch req => exact shape_feed rfl (by simp) hfit hb (kept_emit (by simp [Mute]))
  | inboundFetchSnapshot req => exact handleInboundFetchSnapshot_shape d req
  | voteResult peer response => exact shape_feed rfl (by simp) hfit hb (.refl _)
  | preVoteResult peer response => exact shape_feed rfl (by simp) hfit hb (.refl _)
  | fetchResult response => exact shape_feed rfl (by simp) hfit hb (.refl _)
  | fetchSnapshotResult peer clusterId epoch metadata data =>
    exact handleFetchSnapshotResult_shape d peer clusterId epoch metadata data
  | client request command => exact handleClientCommand_shape hfit.room hb request command
  | query request q =>
    refine .idle rfl ?_
    show Kept d (d.handleClientQuery request q)
    unfold Driver.handleClientQuery
    split_ifs
    · exact kept_emit (by simp [Mute])
    · exact kept_emit (by simp [Mute])
    · exact kept_emit (by simp [Mute])
    · exact ⟨⟨rfl, rfl, rfl, rfl, rfl, rfl, rfl, rfl, rfl, id⟩, traced_same rfl⟩
  | triggerSnapshot request =>
    by_cases hrole : d.node.role = .leader
    · by_cases hbusy : d.node.snapshotInFlight || d.snapshotWorkerInFlight
      · refine .idle rfl ?_
        show Kept d (d.handleTriggerSnapshot request)
        unfold Driver.handleTriggerSnapshot
        rw [if_neg (by simp [hrole]), if_pos hbusy]
        exact kept_emit (by simp [Mute])
      · rw [Bool.or_eq_true, not_or, Bool.not_eq_true, Bool.not_eq_true] at hbusy
        exact .trigger hrole hbusy.1 hbusy.2
    · refine .idle rfl ?_
      show Kept d (d.handleTriggerSnapshot request)
      unfold Driver.handleTriggerSnapshot
      rw [if_pos hrole]
      exact kept_emit (by simp [Mute])
  | snapshotCompleted =>
    rcases hdone : d.snapshotDone with _ | ⟨c, rest⟩
    · refine .idle rfl ?_
      show Kept d d.handleSnapshotCompleted
      unfold Driver.handleSnapshotCompleted
      rw [hdone]
      exact .refl d
    · exact .complete hdone

end TurnOutcomes
