import Xraft.ActionOutcomes
import Xraft.ServerRecovery

/-! # Elementary moves of a driver

A turn taken apart under any store failures. Every change of the log is an effect of the trace,
every waiter that leaves is answered, and what an event asks for is taken in once.
-/
namespace DriverMoves

open ProtocolTypes ConsensusEngine DurableStores NodeDriver EngineTransitions ApplyPipeline
open PositionedLog DriverJournal DriverTurns BatchFootprints ActionOutcomes ServerRecovery

def written (s : MemoryLogStore) : Effect → MemoryLogStore
  | .append entries => extend s entries
  | .truncate fromIndex => s.truncateFrom fromIndex
  | .purge through => s.purgePrefix through
  | .anchor term index => s.updateSnapshotAnchor term index
  | _ => s

def Answering : Effect → Prop
  | .voteReply _ _ | .preVoteReply _ _ | .fetchReply _ _ | .fetchSnapshotReply _ _ => True
  | .clientReply _ _ | .queryReply _ _ => True
  | _ => False

def Outside : Effect → Prop
  | .persist _ | .flush | .saveSnapshot _ | .storeFailed _ | .snapshotFailed _ | .dispatch _ _ =>
    True
  | .snapshotReply _ _ => True
  | _ => False

variable {σ : Type} {d d' d'' : Driver σ}

def settleReads (d : Driver σ) (verdict : PendingRead → Option (Except XRaftError Bytes)) :
    Driver σ :=
  Driver.emit { d with pendingReads := d.pendingReads.filter (fun r => (verdict r).isNone) }
    (d.pendingReads.filterMap (fun r => (verdict r).map (fun v => .queryReply r.reply v)))

/-- What moves are about; the rest of a driver may change at any time. -/
def view (d : Driver σ) : MemoryLogStore × List (ℕ × RequestId) × List PendingRead × List Effect :=
  (d.logStore, d.pending, d.pendingReads, d.trace)

inductive Move (d : Driver σ) : Driver σ → Prop
  | still {d' : Driver σ} (same : view d' = view d) : Move d d'
  | effect {d' : Driver σ} (x : Effect) (plain : ¬Answering x)
      (held : ∀ e, x = .apply e → e ∈ d.logStore.entries)
      (after : view d' = (written d.logStore x, d.pending, d.pendingReads, d.trace ++ [x])) :
      Move d d'
  | outside {w : List Effect} (hw : ∀ x ∈ w, Outside x) : Move d (d.emit w)
  | resolve (due : ℕ → Bool) (result : Except XRaftError ℕ) : Move d (d.resolveWaiters due result)
  | settle (verdict : PendingRead → Option (Except XRaftError Bytes)) :
      Move d (settleReads d verdict)
  | fail (error : XRaftError) : Move d (d.failWaiters error)

def Path : Driver σ → Driver σ → Prop := Relation.ReflTransGen Move

theorem Path.refl (d : Driver σ) : Path d d := Relation.ReflTransGen.refl

theorem Path.trans (h : Path d d') (h' : Path d' d'') : Path d d'' :=
  Relation.ReflTransGen.trans h h'

theorem Move.path (h : Move d d') : Path d d' := Relation.ReflTransGen.single h

theorem Path.rest (h : Path d d') (same : view d'' = view d') : Path d d'' :=
  h.trans (Move.still same).path

theorem Path.resolve (h : Path d d') (due : ℕ → Bool) (result : Except XRaftError ℕ) :
    Path d (d'.resolveWaiters due result) := h.trans (Move.resolve due result).path

theorem Path.of_eq {ε : Type} {r : Driver σ × ε} {result : ε} (h : Path d r.1)
    (hr : r = (d', result)) :
    Path d d' := by rwa [hr] at h

theorem path_still (same : view d' = view d) : Path d d' := (Path.refl d).rest same

theorem path_outside {x : Effect} (hx : Outside x) : Path d (d.emit [x]) := by
  refine Move.path (.outside (fun y hy => ?_))
  rwa [List.mem_singleton.mp hy]

/-! ## Store calls -/

theorem durably_path {write : Driver σ → Driver σ} {effect : Effect} {failed : XRaftError → Effect}
    (writes : view (write d.afterCall) = (written d.logStore effect, d.pending, d.pendingReads,
      d.trace))
    (plain : ¬Answering effect) (held : ∀ e, effect ≠ .apply e) (hf : ∀ e, Outside (failed e)) :
    Path d (d.durably write effect failed).1 := by
  have hdone : Path d ((write d.afterCall).emit [effect]) := by
    refine Move.path (.effect effect plain (fun e h => absurd h (held e)) ?_)
    simp only [view, Prod.mk.injEq] at writes
    obtain ⟨hlog, hpending, hreads, htrace⟩ := writes
    simp [view, Driver.emit, hlog, hpending, hreads, htrace]
  rcases durably_cases d write effect failed with h | ⟨e, h⟩ | ⟨e, h⟩ <;> rw [h]
  · exact hdone
  · have hboth := hdone.trans (path_outside (hf e))
    refine hboth.rest ?_
    simp [view, Driver.emit]
  · have hcall : Path d d.afterCall := path_still rfl
    exact hcall.trans (path_outside (hf e))

theorem persistHardState_path (d : Driver σ) : Path d d.persistHardState.1 := by
  have hclamp : Path d d.clampCommit := path_still rfl
  exact hclamp.trans (durably_path rfl id (by simp) (fun _ => trivial))

theorem flushLog_path (d : Driver σ) : Path d d.flushLog.1 :=
  durably_path rfl id (by simp) (fun _ => trivial)

theorem truncateLog_path (d : Driver σ) (k : ℕ) : Path d (d.truncateLog k).1 :=
  durably_path rfl id (by simp) (fun _ => trivial)

theorem purgeLog_path (d : Driver σ) (k : ℕ) : Path d (d.purgeLog k).1 :=
  durably_path rfl id (by simp) (fun _ => trivial)

theorem anchorLog_path (d : Driver σ) (term index : ℕ) : Path d (d.anchorLog term index).1 :=
  durably_path rfl id (by simp) (fun _ => trivial)

theorem saveSnapshot_path (d : Driver σ) (metadata : SnapshotMeta) (data : Bytes) :
    Path d (d.saveSnapshot metadata data).1 := by
  unfold Driver.saveSnapshot
  split
  · exact path_outside trivial
  · exact durably_path rfl id (by simp) (fun _ => trivial)

theorem appendLog_path (d : Driver σ) (entries : List Entry) : Path d (d.appendLog entries).1 := by
  unfold Driver.appendLog
  split
  · exact path_outside trivial
  · rename_i s hs
    have hstored : s = extend d.logStore entries := by
      unfold MemoryLogStore.append at hs
      split_ifs at hs
      exact (Except.ok.inj hs).symm
    subst hstored
    exact durably_path rfl id (by simp) (fun _ => trivial)

theorem haltOnError_path {ε : Type} {r : Driver σ × Option ε} (h : Path d r.1)
    (c : CapturedResponse) (text : ε → String) : Path d (haltOnError c text r).driver := by
  obtain ⟨d', _ | e⟩ := r
  · exact h
  · exact h.rest rfl

theorem Path.flush {e : Driver σ} {failed : Option XRaftError} (h : Path d e)
    (hf : e.flushLog = (d', failed)) : Path d d' := (h.trans (flushLog_path e)).of_eq hf

theorem runAppend_path (d : Driver σ) (c : CapturedResponse) (entries : List Entry) :
    Path d (runAppend d c entries).driver :=
  runAppend_keeps (appendLog_path d entries) (fun x hx => hx.trans (flushLog_path x))
    (fun _ due _ hx => (hx.resolve due _).rest rfl) c

theorem runTruncate_path (d : Driver σ) (c : CapturedResponse) (t : LogTruncation) :
    Path d (runTruncate d c t).driver :=
  runTruncate_keeps (fun k _ => truncateLog_path d k) (fun k _ => purgeLog_path d k)
    (fun x hx => hx.trans (flushLog_path x)) (fun _ _ hx => hx.rest rfl)
    (fun _ _ _ hx => hx.rest rfl) c

theorem sendOrCapture_path (origin : Option NodeId) (d : Driver σ) (c : CapturedResponse)
    (dest : NodeId) (m : OutboundMessage) :
    Path d (sendOrCapture origin d c dest m).driver := by
  have hrouted : Path d (d.emit [.dispatch dest m]) := path_outside trivial
  unfold sendOrCapture
  dsimp only
  by_cases horigin : some dest ≠ origin
  · rw [if_pos horigin]
    exact hrouted
  · rw [if_neg horigin]
    cases m with
    | voteResponse | preVoteResponse | fetchResponse =>
      dsimp only
      split_ifs
      · exact .refl d
      · exact hrouted
    | _ => exact hrouted

theorem failStopShutdown_path (d : Driver σ) : Path d d.failStopShutdown := by
  have hfail : Path d (d.failWaiters (.storage (d.haltReason.getD ""))) := (Move.fail _).path
  have hreplies := hfail.trans (Move.path (.outside
    (w := d.snapshotDone.filterMap (fun c => c.reply.map (fun request =>
      .snapshotReply request (.error (.storage (d.haltReason.getD "")))))) (fun x hx => ?_)))
  · exact hreplies.rest rfl
  · obtain ⟨c, -, hc⟩ := List.mem_filterMap.mp hx
    obtain ⟨request, -, rfl⟩ := Option.map_eq_some_iff.mp hc
    trivial

theorem runSnapshotWorker_path (d : Driver σ) : Path d d.runSnapshotWorker := by
  unfold Driver.runSnapshotWorker
  split
  · exact .refl d
  · rename_i job rest _
    dsimp only
    split
    · exact path_still rfl
    · rename_i data _
      have hsave := saveSnapshot_path d
        ⟨job.throughIndex, job.throughTerm, "", job.voterSet, some data.length⟩ data
      split <;> exact (hsave.of_eq ‹_›).rest (by rfl)

/-! ## What a turn may do -/

def issuer : DriverEvent → Option RequestId
  | .client request _ | .query request _ => some request
  | _ => none

def AnswerOf : DriverEvent → Effect → Prop
  | .client request _, .clientReply request' _ => request' = request
  | .query request _, .queryReply request' _ => request' = request
  | .inboundVote req, .voteReply req' _ => req' = req
  | .inboundPreVote req, .preVoteReply req' _ => req' = req
  | .inboundFetch req, .fetchReply req' _ => req' = req
  | .inboundFetchSnapshot _, .fetchSnapshotReply _ _ => True
  | _, _ => False

inductive Intake (d : Driver σ) : DriverEvent → Driver σ → Prop
  | unasked {event : DriverEvent} (quiet : issuer event = none) : Intake d event d
  | answer {event : DriverEvent} {x : Effect} (answers : AnswerOf event x) :
      Intake d event (d.emit [x])
  | register (request : RequestId) (command : Bytes) (index : ℕ) :
      Intake d (.client request command) { d with pending := d.pending ++ [(index, request)] }
  | defer {request : RequestId} (query : Bytes) {read : PendingRead}
      (reply : read.reply = request) : Intake d (.query request query)
      { d with pendingReads := d.pendingReads ++ [read] }

/-- An event is taken in once, somewhere along the path of its turn. -/
def Takes (d : Driver σ) (event : DriverEvent) (d' : Driver σ) : Prop :=
  ∃ d₁ d₂, Path d d₁ ∧ Intake d₁ event d₂ ∧ Path d₂ d'

variable {event : DriverEvent}

theorem takes_path (h : Path d d') (quiet : issuer event = none) : Takes d event d' :=
  ⟨d', d', h, .unasked quiet, .refl d'⟩

theorem takes_answer {x : Effect} (h : Path d d') (hx : AnswerOf event x) :
    Takes d event (d'.emit [x]) := ⟨d', _, h, .answer hx, .refl _⟩

/-! ## Actions -/

variable {nested : Nested σ} (hn : ∀ d origin actions, Path d (nested d origin actions).1)

include hn in
theorem runServeFetch_path (origin : Option NodeId) (d : Driver σ) (c : CapturedResponse)
    (dest : NodeId) (clusterId : String) (leaderEpoch : ℕ) (leaderId : NodeId)
    (highWatermark fetchOffset lastFetchedEpoch : ℕ) :
    Path d (runServeFetch nested origin d c dest clusterId leaderEpoch leaderId
      highWatermark fetchOffset lastFetchedEpoch).driver := by
  obtain ⟨fs, hread⟩ :=
    (ActionBatches.materializeFetchResponse_reads d clusterId leaderEpoch leaderId highWatermark
      fetchOffset lastFetchedEpoch).driver
  have hserved : Path d { d with faults := fs } := path_still rfl
  rw [← hread] at hserved
  unfold runServeFetch
  dsimp only
  split
  · exact (hserved.of_eq ‹_›).rest (by rfl)
  · rename_i d' resp _
    have hsent :=
      (hserved.of_eq ‹_›).trans (sendOrCapture_path origin d' c dest (.fetchResponse resp))
    generalize sendOrCapture origin d' c dest (.fetchResponse resp) = sent at hsent ⊢
    split_ifs
    · exact Path.trans (hsent.rest (by rfl)) (hn _ origin _)
    · exact hsent

section Actions

variable [StateMachine σ]

theorem applyEntry_path (d : Driver σ) (last : ℕ) {entry : Entry}
    (held : entry ∈ d.logStore.entries) :
    Path d (d.applyEntry last entry).1 ∧ (d.applyEntry last entry).1.logStore = d.logStore := by
  have hsettle : ∀ (sm : σ), Path d ((Driver.emit { d with stateMachine := sm }
      [.apply entry]).resolveWaiters (fun i => i = entry.index) (.ok entry.index)) := by
    intro sm
    have happly : Path d (Driver.emit { d with stateMachine := sm } [.apply entry]) :=
      Move.path (.effect _ id (fun e h => Effect.apply.inj h ▸ held) rfl)
    exact happly.resolve _ _
  unfold Driver.applyEntry
  dsimp only
  split
  · split
    · exact ⟨hsettle _, rfl⟩
    · dsimp only
      exact ⟨(Path.refl d).resolve _ _, rfl⟩
  · exact ⟨hsettle d.stateMachine, rfl⟩

theorem applyEntries_path (d : Driver σ) (last : ℕ) (entries : List Entry)
    (held : ∀ e ∈ entries, e ∈ d.logStore.entries) :
    Path d (d.applyEntries last entries).1 := by
  induction entries generalizing d with
  | nil => exact .refl d
  | cons entry rest ih =>
    obtain ⟨hpath, hlog⟩ := applyEntry_path d last (held entry List.mem_cons_self)
    unfold Driver.applyEntries
    rcases hr : d.applyEntry last entry with ⟨d', _ | message⟩ <;> rw [hr] at hpath hlog
    · refine hpath.trans (ih d' (fun e he => ?_))
      dsimp only at hlog
      exact hlog ▸ held e (List.mem_cons_of_mem _ he)
    · exact hpath

theorem applyCommitted_path (d : Driver σ) (first last : ℕ) :
    Path d (d.applyCommitted first last).1 := by
  have hrefuse : ∀ message : String, Path d (d.afterCall.resolveWaiters
      (fun i => first ≤ i ∧ i ≤ last) (.error (.storage message))) := by
    intro message
    have hcall : Path d d.afterCall := path_still rfl
    exact hcall.resolve _ _
  unfold Driver.applyCommitted
  split_ifs
  · exact .refl d
  · exact .refl d
  split
  · exact hrefuse _
  dsimp only
  split
  · exact hrefuse _
  split
  · exact hrefuse _
  have hcall : Path d d.afterCall := path_still rfl
  exact hcall.trans (applyEntries_path _ last _ (fun e he => (List.mem_filter.mp he).1))

theorem dispatchSnapshotWorker_path (d : Driver σ) (through : ℕ) (reply : Option RequestId) :
    Path d (d.dispatchSnapshotWorker through reply).1 := by
  unfold Driver.dispatchSnapshotWorker
  split
  · exact .refl d
  split
  · exact path_still rfl
  split
  · exact path_still rfl
  split <;> exact path_still rfl

theorem handleInstallSnapshot_path (d : Driver σ) (metadata : SnapshotMeta) (data : Bytes) :
    Path d (d.handleInstallSnapshot metadata data).1 :=
  handleInstallSnapshot_keeps (.refl d) (saveSnapshot_path d metadata data)
    (fun x hx => hx.trans (anchorLog_path x _ _)) (fun _ _ hx => hx.rest rfl)
    (fun x hx => hx.trans (purgeLog_path x _)) (fun x hx => hx.trans (truncateLog_path x 1))
    (fun x hx => hx.trans (flushLog_path x)) (fun _ _ hx => hx.rest rfl)

include hn in
theorem runAction_path (origin : Option NodeId) (d : Driver σ) (c : CapturedResponse) (a : Action) :
    Path d (runAction nested origin d c a).driver := by
  cases a with
  | persistHardState => exact haltOnError_path (persistHardState_path d) _ _
  | appendEntries entries => exact runAppend_path d c entries
  | truncateLog t => exact runTruncate_path d c t
  | applyToStateMachine first last => exact haltOnError_path (applyCommitted_path d first last) _ _
  | takeSnapshot through => exact haltOnError_path (dispatchSnapshotWorker_path d through none) _ _
  | installSnapshot => exact haltOnError_path (handleInstallSnapshot_path d _ _) _ _
  | becomeLeader => exact .refl d
  | stepDown => exact (Move.fail _).path
  | sendMessage | redirectToSnapshot => exact sendOrCapture_path origin d c _ _
  | serveFetch => exact runServeFetch_path hn origin d c _ _ _ _ _ _ _

include hn in
theorem runActions_path (origin : Option NodeId) (actions : List Action) (d : Driver σ)
    (c : CapturedResponse) : Path d (runActions nested origin d c actions).1 := by
  induction actions generalizing d c with
  | nil => exact .refl d
  | cons a rest ih =>
    have hfirst := runAction_path hn origin d c a
    unfold runActions
    dsimp only
    split_ifs
    · exact hfirst
    · exact hfirst.trans (ih _ _)

theorem processActions_path (d : Driver σ) (actions : List Action) (origin : Option NodeId) :
    Path d (d.processActions actions origin).1 := by
  refine runActions_path (fun d origin actions => ?_) origin actions d {}
  exact runActions_path (fun d _ _ => .refl d) origin actions d {}

/-! ## Handlers -/

theorem batch_path (d : Driver σ) (n : RaftNode) (actions : List Action) (origin : Option NodeId) :
    Path d (Driver.processActions { d with node := n } actions origin).1 := by
  have hset : Path d { d with node := n } := path_still rfl
  exact hset.trans (processActions_path _ actions origin)

theorem feed_path (d : Driver σ) (input : Input) (origin : Option NodeId) :
    Path d (d.feed input origin).1 := batch_path d _ _ origin

theorem handleInboundFetchSnapshot_takes (d : Driver σ) (req : FetchSnapshotRequest) :
    Takes d (.inboundFetchSnapshot req) (d.handleInboundFetchSnapshot req) := by
  have hstay : ∀ (fs : List (Option Fault)) (result : Except XRaftError (List FetchSnapshotChunk)),
      Takes d (.inboundFetchSnapshot req)
        (Driver.emit { d with faults := fs } [.fetchSnapshotReply req result]) :=
    fun fs result => takes_answer (path_still rfl) trivial
  have hout := batch_path d (d.node.becomeFollower req.leaderEpoch none).1
    (d.node.becomeFollower req.leaderEpoch none).2 none
  unfold Driver.handleInboundFetchSnapshot
  dsimp only
  generalize (if req.maxBytes = 0 then none else some req.maxBytes) = limit
  split_ifs
  all_goals try exact hstay d.faults _
  · split <;> exact takes_answer hout trivial
  · repeat' split
    all_goals exact hstay _ _

theorem handleFetchSnapshotResult_path (d : Driver σ) (peer : NodeId) (clusterId : String)
    (epoch : ℕ) (metadata : Option SnapshotMeta) (data : Bytes) :
    Path d (d.handleFetchSnapshotResult peer clusterId epoch metadata data) := by
  unfold Driver.handleFetchSnapshotResult
  split_ifs
  all_goals try exact .refl d
  · exact batch_path d _ _ none
  · split
    · exact .refl d
    · exact processActions_path d _ none

theorem handleClientCommand_takes (d : Driver σ) (request : RequestId) (command : Bytes) :
    Takes d (.client request command) (d.handleClientCommand request command) := by
  have hset : Path d { d with node := (d.node.step (.clientPropose command)).1 } := path_still rfl
  unfold Driver.handleClientCommand
  split_ifs
  · exact takes_answer (.refl d) rfl
  · dsimp only
    split_ifs
    · exact ⟨_, _, hset, .register request command _, processActions_path _ _ none⟩
    · have hanswer : AnswerOf (.client request command) (.clientReply request
          (.error (.notLeader (d.node.step (.clientPropose command)).1.leaderId))) := rfl
      exact ⟨_, _, hset, .answer hanswer, processActions_path _ _ none⟩

theorem handleClientQuery_takes (d : Driver σ) (request : RequestId) (query : Bytes) :
    Takes d (.query request query) (d.handleClientQuery request query) := by
  unfold Driver.handleClientQuery
  split_ifs
  all_goals try exact takes_answer (.refl d) rfl
  exact ⟨d, _, .refl d, .defer query rfl, .refl _⟩

theorem handleTriggerSnapshot_path (d : Driver σ) (request : RequestId) :
    Path d (d.handleTriggerSnapshot request) := by
  unfold Driver.handleTriggerSnapshot
  split_ifs
  · exact path_outside trivial
  · exact path_outside trivial
  · have hset : Path d { d with node := { d.node with snapshotInFlight := true } } :=
      path_still rfl
    have hsent := hset.trans (dispatchSnapshotWorker_path _ d.node.commitIndex (some request))
    split
    · exact hsent.of_eq ‹_›
    · exact (hsent.of_eq ‹_›).rest (by rfl)

theorem handleSnapshotCompleted_path (d : Driver σ) : Path d d.handleSnapshotCompleted := by
  have hreply : ∀ {e : Driver σ} (reply : Option RequestId)
      (result : Except XRaftError TriggeredSnapshotInfo), Path d e →
      Path d (e.replySnapshot reply result) := by
    intro e reply result h
    cases reply with
    | none => exact h
    | some request => exact h.trans (path_outside trivial)
  unfold Driver.handleSnapshotCompleted
  split
  · exact .refl d
  rename_i c rest _
  have hidle : Path d { d with snapshotDone := rest, snapshotWorkerInFlight := false } :=
    path_still rfl
  dsimp only
  split
  · exact (hreply _ _ hidle).rest rfl
  have hanchor := hidle.trans (anchorLog_path _ c.throughTerm c.throughIndex)
  split
  · exact (hreply _ _ (hanchor.of_eq ‹_›)).rest rfl
  · have hfeed := (hanchor.of_eq ‹_›).trans (feed_path _ (.snapshotComplete c.metadata) none)
    split <;> exact hreply _ _ hfeed

theorem handleDriverEvent_takes (d : Driver σ) (event : DriverEvent) :
    Takes d event (d.handleDriverEvent event) := by
  cases event with
  | tick | voteResult | preVoteResult | fetchResult => exact takes_path (feed_path d _ none) rfl
  | inboundVote | inboundPreVote | inboundFetch => exact takes_answer (feed_path d _ _) rfl
  | inboundFetchSnapshot req => exact handleInboundFetchSnapshot_takes d req
  | fetchSnapshotResult => exact takes_path (handleFetchSnapshotResult_path d _ _ _ _ _) rfl
  | client request command => exact handleClientCommand_takes d request command
  | query request query => exact handleClientQuery_takes d request query
  | triggerSnapshot request => exact takes_path (handleTriggerSnapshot_path d request) rfl
  | snapshotCompleted => exact takes_path (handleSnapshotCompleted_path d) rfl

/-! ## Turns and starts -/

theorem turn_path (event : DriverEvent) (h : d.haltReason = none) :
    Path (d.handleDriverEvent event) (d.turn event) := by
  have hdrain : Path (d.handleDriverEvent event) (d.handleDriverEvent event).drainPendingReads :=
    (Move.settle (d.handleDriverEvent event).readVerdict).path
  unfold Driver.turn
  rw [if_neg (by simp [h])]
  dsimp only
  split_ifs
  · exact hdrain.trans (failStopShutdown_path _)
  · exact hdrain

theorem turn_takes (event : DriverEvent) (h : d.haltReason = none) :
    Takes d event (d.turn event) := by
  obtain ⟨d₁, d₂, hbefore, hintake, hafter⟩ := handleDriverEvent_takes d event
  exact ⟨d₁, d₂, hbefore, hintake, hafter.trans (turn_path event h)⟩

/-- A start drains the apply pipeline over the stores. It appends nothing. -/
theorem start_path (config : ClusterConfig) (voterSet : Option VoterSet) (rng : List ℕ)
    (maxFetchBatch : ℕ) (initial : σ) (faults : List (Option Fault)) (store : Durable) :
    ∃ sm snap, Path (boot config voterSet rng maxFetchBatch faults store sm snap)
        (start config voterSet rng maxFetchBatch initial faults store) ∧
      Traced Light (boot config voterSet rng maxFetchBatch faults store sm snap)
        (start config voterSet rng maxFetchBatch initial faults store) := by
  have hdrain : ∀ b : Driver σ, Path b (recoveryDrain b) ∧ Traced Light b (recoveryDrain b) := by
    intro b
    have hpath := batch_path b b.node.drainApplyPipeline.1 b.node.drainApplyPipeline.2 none
    obtain ⟨w, hbatch⟩ := runActions_piped processAcked none (drainApplyPipeline_applies b.node)
      { b with node := b.node.drainApplyPipeline.1 } {}
    have hlight := traced_of_piped hbatch.piped
    unfold recoveryDrain
    dsimp only
    split_ifs
    · exact ⟨hpath.trans (failStopShutdown_path _), hlight.trans (failStopShutdown_traced _)⟩
    · exact ⟨hpath, hlight⟩
  have hhalt : ∀ (b : Driver σ) (reason : String), Path b (b.halt reason) ∧
      Traced Light b (b.halt reason) := fun _ _ => ⟨path_still rfl, traced_same rfl⟩
  unfold start
  split
  · exact ⟨initial, none, hdrain _⟩
  · split
    · exact ⟨_, _, hdrain _⟩
    · exact ⟨initial, _, hhalt _ _⟩

end Actions

end DriverMoves
