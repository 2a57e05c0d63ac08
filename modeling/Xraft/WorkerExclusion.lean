import Xraft.RunningTurns
import Xraft.GuardedExecution

/-! # One snapshot worker at a time

The engine marks a snapshot as in flight before it asks for it, the driver marks the worker it has
started. As long as no leader snapshot is installed over a running worker, the driver's mark implies
the engine's, so the engine never asks for a second worker. `batchOf` names the batch that an event
hands to the action loop; `clashes` says whether that loop meets a `TakeSnapshot` while a worker
runs.
-/
namespace WorkerExclusion

open ProtocolTypes ConsensusEngine DurableStores NodeDriver EngineTransitions FaultFreeBatches
open ActionOutcomes TurnOutcomes GuardedExecution ServerRecovery DurableBeforeVisible

variable {σ : Type} {d d' : Driver σ}

def flags (d : Driver σ) : Bool × Bool := (d.snapshotWorkerInFlight, d.node.snapshotInFlight)

def Excludes (d : Driver σ) : Prop :=
  d.snapshotWorkerInFlight = true → d.node.snapshotInFlight = true

theorem Excludes.congr (h : Excludes d) (hflags : flags d' = flags d) : Excludes d' := by
  obtain ⟨hworker, hengine⟩ := Prod.mk.inj hflags
  unfold Excludes
  rw [hworker, hengine]
  exact h

theorem excludes_idle (h : d.snapshotWorkerInFlight = false) : Excludes d := by
  intro hbusy
  rw [h] at hbusy
  cases hbusy

/-! ## What leaves both marks alone -/

theorem durably_flags (d : Driver σ) {write : Driver σ → Driver σ}
    (hw : ∀ x, flags (write x) = flags x) (effect : Effect) (failed : XRaftError → Effect) :
    flags (d.durably write effect failed).1 = flags d := by
  unfold Driver.durably
  split
  · exact hw _
  · split_ifs
    · exact hw _
    · rfl

theorem persistHardState_flags (d : Driver σ) : flags d.persistHardState.1 = flags d := by
  unfold Driver.persistHardState
  exact durably_flags d.clampCommit (fun _ => by rfl) _ _

theorem appendLog_flags (d : Driver σ) (entries : List Entry) :
    flags (d.appendLog entries).1 = flags d := by
  unfold Driver.appendLog
  split
  · rfl
  · exact durably_flags d (fun _ => by rfl) _ _

theorem flushLog_flags (d : Driver σ) : flags d.flushLog.1 = flags d :=
  durably_flags d (fun _ => rfl) _ _

theorem truncateLog_flags (d : Driver σ) (fromIndex : ℕ) :
    flags (d.truncateLog fromIndex).1 = flags d := by
  unfold Driver.truncateLog
  exact durably_flags d (fun _ => by rfl) _ _

theorem purgeLog_flags (d : Driver σ) (through : ℕ) : flags (d.purgeLog through).1 = flags d := by
  unfold Driver.purgeLog
  exact durably_flags d (fun _ => by rfl) _ _

theorem anchorLog_flags (d : Driver σ) (term index : ℕ) : flags (d.anchorLog term index).1 =
    flags d := by
  unfold Driver.anchorLog
  exact durably_flags d (fun _ => by rfl) _ _

theorem saveSnapshot_flags (d : Driver σ) (metadata : SnapshotMeta) (data : Bytes) :
    flags (d.saveSnapshot metadata data).1 = flags d := by
  unfold Driver.saveSnapshot
  split
  · rfl
  · exact durably_flags d (fun _ => by rfl) _ _

theorem haltOnError_flags {ε : Type} (c : CapturedResponse) (text : ε → String)
    (r : Driver σ × Option ε) : flags (haltOnError c text r).driver = flags r.1 := by
  obtain ⟨d, _ | e⟩ := r <;> rfl

theorem Kept.flags (h : Kept d d') : flags d' = flags d := by
  have hcore : (core d'.node).snapshotInFlight = (core d.node).snapshotInFlight := by rw [h.node]
  exact Prod.ext h.inFlight hcore

theorem sendOrCapture_flags (origin : Option NodeId) (d : Driver σ) (c : CapturedResponse)
    (dest : NodeId) (m : OutboundMessage) :
    flags (sendOrCapture origin d c dest m).driver = flags d :=
  Kept.flags (sendOrCapture_kept origin d c dest m).2.2

theorem runAppend_flags (d : Driver σ) (c : CapturedResponse) (entries : List Entry) :
    flags (runAppend d c entries).driver = flags d :=
  BatchFootprints.runAppend_keeps (P := fun x => flags x = flags d) (appendLog_flags d entries)
    (fun x hx => (flushLog_flags x).trans hx) (fun _ _ _ hx => hx) c

theorem runTruncate_flags (d : Driver σ) (c : CapturedResponse) (t : LogTruncation) :
    flags (runTruncate d c t).driver = flags d :=
  BatchFootprints.runTruncate_keeps (P := fun x => flags x = flags d)
    (fun k _ => truncateLog_flags d k) (fun k _ => purgeLog_flags d k)
    (fun x hx => (flushLog_flags x).trans hx) (fun _ _ hx => hx) (fun _ _ _ hx => hx) c

theorem materializeFetchResponse_flags (d : Driver σ) (clusterId : String) (leaderEpoch : ℕ)
    (leaderId : NodeId) (highWatermark offset epoch : ℕ) :
    flags (d.materializeFetchResponse clusterId leaderEpoch leaderId highWatermark offset epoch).1 =
      flags d := by
  obtain ⟨⟨fs, hfs⟩, -⟩ := ActionBatches.materializeFetchResponse_reads d clusterId leaderEpoch
    leaderId highWatermark offset epoch
  rw [hfs]
  rfl

/-- A worker that finishes leaves both marks to the completion event. -/
theorem runSnapshotWorker_excludes (hd : Excludes d) : Excludes d.runSnapshotWorker := by
  unfold Driver.runSnapshotWorker
  split
  · exact hd
  rename_i job rest _
  dsimp only
  split
  · exact hd.congr rfl
  rename_i data _
  have hsave := saveSnapshot_flags d ⟨job.throughIndex, job.throughTerm, "", job.voterSet,
    some data.length⟩ data
  rcases hr : d.saveSnapshot ⟨job.throughIndex, job.throughTerm, "", job.voterSet,
    some data.length⟩ data with ⟨d', _ | e⟩ <;> rw [hr] at hsave
  · exact hd.congr hsave
  · exact hd.congr hsave

/-! ## What the engine asks for -/

def Marks : Action → Bool
  | .takeSnapshot _ | .installSnapshot _ _ | .serveFetch .. => true
  | _ => false

/-- A transition that leaves the engine's mark, or sets it and asks for one snapshot. -/
inductive Fires (n : RaftNode) (r : RaftNode × List Action) : Prop
  | quiet (flag : r.1.snapshotInFlight = n.snapshotInFlight) (light : r.2.filter Marks = [])
  | asks (free : n.snapshotInFlight = false) (flag : r.1.snapshotInFlight = true) (through : ℕ)
      (only : r.2.filter Marks = [.takeSnapshot through])

section Engine

variable {n m : RaftNode} {actions : List Action} {r : RaftNode × List Action}

theorem Fires.refl (n : RaftNode) : Fires n (n, []) := .quiet rfl rfl

theorem Fires.prepend (h : Fires m r) (actions : List Action)
    (flag : m.snapshotInFlight = n.snapshotInFlight) (light : actions.filter Marks = []) :
    Fires n (r.1, actions ++ r.2) := by
  have hfilter : (actions ++ r.2).filter Marks = r.2.filter Marks := by
    rw [List.filter_append, light, List.nil_append]
  cases h with
  | quiet hflag hlight => exact .quiet (hflag.trans flag) (hfilter.trans hlight)
  | asks free hflag through only => exact .asks (flag ▸ free) hflag through (hfilter.trans only)

theorem filter_sends {α : Type} {peers : List α} {f : α → Action} (hf : ∀ p, Marks (f p) = false) :
    (peers.map f).filter Marks = [] := by
  rw [List.filter_eq_nil_iff]
  intro a ha
  obtain ⟨p, _, rfl⟩ := List.mem_map.mp ha
  rw [hf p]
  exact Bool.false_ne_true

theorem drainApplyPipeline_fires (n : RaftNode) : Fires n n.drainApplyPipeline := by
  have happly : n.maybeApply.1.snapshotInFlight = n.snapshotInFlight ∧
      n.maybeApply.2.filter Marks = [] := by
    unfold RaftNode.maybeApply
    split_ifs <;> exact ⟨rfl, rfl⟩
  have htake : ∀ k : RaftNode, Fires k k.maybeTakeSnapshot := by
    intro k
    unfold RaftNode.maybeTakeSnapshot
    dsimp only
    split_ifs with hflag
    · exact .refl k
    · exact .asks (by simpa using hflag) rfl k.commitIndex rfl
    · exact .refl k
  exact (htake n.maybeApply.1).prepend _ happly.1 happly.2

theorem advanceCommit_fires (n : RaftNode) : Fires n n.advanceCommit := by
  unfold RaftNode.advanceCommit
  split
  · rename_i c _
    exact (drainApplyPipeline_fires { n with commitIndex := c }).prepend [] rfl rfl
  · exact .refl n

theorem becomeFollower_fires (n : RaftNode) (term : ℕ) (leaderId : Option NodeId) :
    Fires n (n.becomeFollower term leaderId) := by
  refine .quiet (becomeFollower_sameProgress n term leaderId).snapshotInFlight ?_
  unfold RaftNode.becomeFollower
  dsimp only
  split_ifs <;> rfl

theorem becomeLeader_fires (n : RaftNode) : Fires n n.becomeLeader :=
  (advanceCommit_fires n.enterLeader).prepend _ rfl rfl

theorem becomeCandidate_fires (n : RaftNode) : Fires n n.becomeCandidate := by
  have hlight : (Action.persistHardState :: n.enterCandidate.voteRequests).filter Marks = [] :=
    filter_sends (fun _ => rfl)
  unfold RaftNode.becomeCandidate
  split_ifs
  · exact (becomeLeader_fires n.enterCandidate).prepend _ rfl hlight
  · exact .quiet rfl hlight

theorem becomePreCandidate_fires (n : RaftNode) : Fires n n.becomePreCandidate := by
  have hlight : n.enterPreCandidate.preVoteRequests.filter Marks = [] := filter_sends (fun _ => rfl)
  unfold RaftNode.becomePreCandidate
  split_ifs
  · exact (becomeCandidate_fires n.enterPreCandidate).prepend _ rfl hlight
  · exact .quiet rfl hlight

theorem handleTick_fires (n : RaftNode) : Fires n n.handleTick := by
  obtain ⟨t, c, ht⟩ := ticked_eq n
  have hflag : (ticked n).snapshotInFlight = n.snapshotInFlight := by rw [ht]
  have hlight : n.advanceClock.scheduleFetch.2.filter Marks = [] := by
    unfold RaftNode.scheduleFetch
    split_ifs
    · split
      · rfl
      · exact filter_sends (fun _ => rfl)
    · rfl
  rw [handleTick_eq]
  split_ifs
  · exact (becomeFollower_fires _ _ _).prepend _ hflag hlight
  · unfold RaftNode.electionTimeout
    split_ifs
    · exact (becomePreCandidate_fires _).prepend _ hflag hlight
    · exact .quiet hflag hlight

theorem handleVoteRequest_fires (n : RaftNode) (req : VoteRequest) :
    Fires n (n.handleVoteRequest req) := by
  rcases handleVoteRequest_cases n req with heq | ⟨-, heq | ⟨-, heq⟩⟩ <;> rw [heq]
  · exact .refl n
  · exact .quiet rfl rfl
  · refine .quiet (answered_progress n req).snapshotInFlight (List.filter_eq_nil_iff.mpr ?_)
    intro a ha
    rcases mem_answering ha with rfl | rfl | rfl <;> simp [Marks]

theorem handleVoteResponse_fires (n : RaftNode) (sender : NodeId) (resp : VoteResponse) :
    Fires n (n.handleVoteResponse sender resp) := by
  rcases handleVoteResponse_cases n sender resp with heq | heq | ⟨-, heq | ⟨-, heq⟩⟩ <;> rw [heq]
  · exact .refl n
  · exact becomeFollower_fires n _ _
  · exact .quiet rfl rfl
  · exact (becomeLeader_fires _).prepend [] rfl rfl

theorem handlePreVoteResponse_fires (n : RaftNode) (sender : NodeId) (resp : PreVoteResponse) :
    Fires n (n.handlePreVoteResponse sender resp) := by
  rcases handlePreVoteResponse_cases n sender resp with heq | heq | ⟨-, heq | ⟨-, heq⟩⟩ <;> rw [heq]
  · exact .refl n
  · exact becomeFollower_fires n _ _
  · exact .quiet rfl rfl
  · exact (becomeCandidate_fires _).prepend [] rfl rfl

theorem handleFetchRequestAcked_fires (n : RaftNode) (replica : NodeId) (confirmed : ℕ) :
    Fires n (n.handleFetchRequestAcked replica confirmed) := by
  unfold RaftNode.handleFetchRequestAcked
  split_ifs
  · exact .refl n
  · exact .refl n
  · exact (advanceCommit_fires _).prepend [] rfl rfl

theorem handleFetchResponse_fires (n : RaftNode) (resp : FetchResponse) :
    Fires n (n.handleFetchResponse resp) := by
  rcases handleFetchResponse_cases n resp with heq | ⟨m, opening, -, hacc, heq⟩ <;> rw [heq]
  · exact .refl n
  have hlight : opening.filter Marks = [] := by
    rw [hacc.actions_eq, List.filter_append]
    split_ifs <;> rfl
  refine Fires.prepend ?_ _ hacc.progress.snapshotInFlight hlight
  rcases payload_cases m resp with
    ⟨_, hp⟩ | ⟨_, -, -, hp⟩ | hp | ⟨taken, appends, htake, hp⟩ <;> rw [hp]
  · exact .quiet rfl rfl
  · exact .quiet rfl rfl
  · exact .refl m
  · have hobserve : Fires taken (taken.observeHighWatermark resp.highWatermark) := by
      unfold RaftNode.observeHighWatermark
      dsimp only
      split_ifs
      · exact (drainApplyPipeline_fires _).prepend [] rfl rfl
      · exact .refl taken
    rcases takeEntries_spec htake with ⟨_, rfl, rfl⟩ | ⟨_, last, _, _, _, _, rfl, rfl⟩
    · exact hobserve
    · exact hobserve.prepend _ rfl rfl

theorem handleClientPropose_fires (n : RaftNode) (command : Bytes) :
    Fires n (n.handleClientPropose command) := by
  unfold RaftNode.handleClientPropose
  split_ifs
  · exact .refl n
  · exact (advanceCommit_fires _).prepend [_] rfl rfl

inductive Stirs (n : RaftNode) : RaftNode × List Action → Prop
  | fires {r : RaftNode × List Action} (h : Fires n r) : Stirs n r
  | serves {m : RaftNode} (flag : m.snapshotInFlight = n.snapshotInFlight) (dest : NodeId)
      (clusterId : String) (epoch : ℕ) (leader : NodeId) (hw offset last : ℕ) :
      Stirs n (m, [.serveFetch dest clusterId epoch leader hw offset last])

theorem handleFetchRequest_stirs (n : RaftNode) (req : FetchRequest) :
    Stirs n (n.handleFetchRequest req) := by
  rcases handleFetchRequest_cases n req with heq | heq | ⟨-, ⟨_, heq⟩ | heq⟩ <;> rw [heq]
  · exact .fires (.refl n)
  · exact .fires (becomeFollower_fires n _ _)
  · exact .fires (.quiet rfl rfl)
  · exact .serves (by rfl) ..

end Engine

/-- A batch that may still ask for a snapshot finds no worker and the engine's mark set. -/
structure Ready (d : Driver σ) (actions : List Action) : Prop where
  excludes : Excludes d
  pending : actions.filter Marks = [] ∨ d.snapshotWorkerInFlight = false ∧
    d.node.snapshotInFlight = true ∧ ∃ through, actions.filter Marks = [.takeSnapshot through]

theorem Fires.ready {r : RaftNode × List Action} (h : Fires d.node r) (hd : Excludes d)
    (hworker : d'.snapshotWorkerInFlight = d.snapshotWorkerInFlight) (hnode : d'.node = r.1) :
    Ready d' r.2 := by
  cases h with
  | quiet flag light =>
    refine ⟨?_, .inl light⟩
    unfold Excludes
    rw [hworker, hnode, flag]
    exact hd
  | asks free flag through only =>
    have hidle : d.snapshotWorkerInFlight = false := by
      by_contra hbusy
      have := hd (by simpa using hbusy)
      rw [free] at this
      cases this
    exact ⟨fun _ => hnode ▸ flag, .inr ⟨hworker.trans hidle, hnode ▸ flag, through, only⟩⟩

section Actions

variable [StateMachine σ]

theorem applyEntries_flags (d : Driver σ) (last : ℕ) (entries : List Entry) :
    flags (d.applyEntries last entries).1 = flags d := by
  have hentry : ∀ (d : Driver σ) (entry : Entry), flags (d.applyEntry last entry).1 = flags d := by
    intro d entry
    unfold Driver.applyEntry
    dsimp only
    split
    · split <;> rfl
    · rfl
  induction entries generalizing d with
  | nil => rfl
  | cons entry rest ih =>
    have hfirst := hentry d entry
    unfold Driver.applyEntries
    rcases hr : d.applyEntry last entry with ⟨d₁, _ | message⟩ <;> rw [hr] at hfirst
    · exact (ih d₁).trans hfirst
    · exact hfirst

theorem applyCommitted_flags (d : Driver σ) (first last : ℕ) :
    flags (d.applyCommitted first last).1 = flags d := by
  unfold Driver.applyCommitted
  dsimp only
  split
  · rfl
  split
  · rfl
  split
  · rfl
  split
  · rfl
  split
  · rfl
  · exact applyEntries_flags d.afterCall _ _

theorem runAction_flags (nested : Nested σ) (origin : Option NodeId) (d : Driver σ)
    (c : CapturedResponse) {a : Action} (ha : Marks a = false) :
    flags (runAction nested origin d c a).driver = flags d := by
  cases a with
  | persistHardState => exact (haltOnError_flags _ _ _).trans (persistHardState_flags d)
  | appendEntries entries => exact runAppend_flags d c entries
  | truncateLog t => exact runTruncate_flags d c t
  | applyToStateMachine first last =>
    exact (haltOnError_flags _ _ _).trans (applyCommitted_flags d first last)
  | sendMessage dest m => exact sendOrCapture_flags origin d c dest m
  | redirectToSnapshot => exact sendOrCapture_flags origin d c _ _
  | becomeLeader => rfl
  | stepDown => rfl
  | takeSnapshot => cases ha
  | installSnapshot => cases ha
  | serveFetch => cases ha

theorem dispatchSnapshotWorker_engine (d : Driver σ) (through : ℕ) (reply : Option RequestId) :
    (d.dispatchSnapshotWorker through reply).1.node.snapshotInFlight = d.node.snapshotInFlight := by
  rw [(ApplyPipeline.dispatchSnapshotWorker_piped d through reply).1.node]

theorem handleInstallSnapshot_worker (d : Driver σ) (metadata : SnapshotMeta) (data : Bytes) :
    (d.handleInstallSnapshot metadata data).1.snapshotWorkerInFlight =
      d.snapshotWorkerInFlight := by
  have worker_of : ∀ {x y : Driver σ}, flags x = flags y →
      x.snapshotWorkerInFlight = y.snapshotWorkerInFlight := fun h => (Prod.mk.inj h).1
  exact BatchFootprints.handleInstallSnapshot_keeps
    (P := fun x => x.snapshotWorkerInFlight = d.snapshotWorkerInFlight) rfl
    (worker_of (saveSnapshot_flags d metadata data))
    (fun x hx => (worker_of (anchorLog_flags x _ _)).trans hx) (fun _ _ hx => hx)
    (fun x hx => (worker_of (purgeLog_flags x _)).trans hx)
    (fun x hx => (worker_of (truncateLog_flags x 1)).trans hx)
    (fun x hx => (worker_of (flushLog_flags x)).trans hx) (fun _ _ hx => hx)

/-! ## Batches -/

/-- The action dispatches a worker while another one is in flight; `inner` looks into the batch of a
served fetch. -/
def actionClashes (inner : Driver σ → Option NodeId → List Action → Bool) (origin : Option NodeId)
    (d : Driver σ) (captured : CapturedResponse) : Action → Bool
  | .takeSnapshot _ => d.snapshotWorkerInFlight
  | .serveFetch dest clusterId leaderEpoch leaderId highWatermark offset epoch =>
    match d.materializeFetchResponse clusterId leaderEpoch leaderId highWatermark offset epoch with
    | (_, .error _) => false
    | (d', .ok resp) =>
      let sent := sendOrCapture origin d' captured dest (.fetchResponse resp)
      if resp.divergingEpoch.isNone ∧ resp.snapshotRedirect.isNone ∧ 0 < offset then
        let acked := sent.driver.node.step (.fetchRequestAcked dest (offset - 1))
        inner { sent.driver with node := acked.1 } origin acked.2
      else false
  | _ => false

def clashesIn (inner : Driver σ → Option NodeId → List Action → Bool) (nested : Nested σ)
    (origin : Option NodeId) : Driver σ → CapturedResponse → List Action → Bool
  | _, _, [] => false
  | d, captured, action :: rest =>
    let o := runAction nested origin d captured action
    actionClashes inner origin d captured action ||
      (!o.broke && clashesIn inner nested origin o.driver o.captured rest)

def ackedClashes (d : Driver σ) (origin : Option NodeId) (actions : List Action) : Bool :=
  clashesIn (fun _ _ _ => false) (fun d _ _ => (d, {})) origin d {} actions

def batchClashes (d : Driver σ) (actions : List Action) (origin : Option NodeId) : Bool :=
  clashesIn ackedClashes processAcked origin d {} actions

/-- Along a ready batch the driver's mark implies the engine's, and no dispatch meets a worker. -/
theorem runActions_ready (inner : Driver σ → Option NodeId → List Action → Bool)
    (nested : Nested σ) (origin : Option NodeId) {actions : List Action} {d : Driver σ}
    (h : Ready d actions) (c : CapturedResponse) :
    Excludes (runActions nested origin d c actions).1 ∧
      clashesIn inner nested origin d c actions = false := by
  induction actions generalizing d c with
  | nil => exact ⟨h.excludes, rfl⟩
  | cons a rest ih =>
    by_cases hmark : Marks a = true
    · -- the one dispatch of the batch
      obtain ⟨hidle, hengine, through, honly⟩ := h.pending.resolve_left (by
        rw [List.filter_cons_of_pos hmark]
        exact List.cons_ne_nil _ _)
      rw [List.filter_cons_of_pos hmark] at honly
      obtain ⟨rfl, hrest⟩ := List.cons.inj honly
      have hnode :
        (runAction nested origin d c (.takeSnapshot through)).driver.node.snapshotInFlight =
          true := by
        have hflags := haltOnError_flags c (fun e => "snapshot dispatch failed: " ++
          XRaftError.display e) (d.dispatchSnapshotWorker through none)
        have hsame : (runAction nested origin d c
            (.takeSnapshot through)).driver.node.snapshotInFlight = _ := (Prod.mk.inj hflags).2
        rw [hsame, dispatchSnapshotWorker_engine, hengine]
      have hafter : Ready (runAction nested origin d c (.takeSnapshot through)).driver rest :=
        ⟨fun _ => hnode, .inl hrest⟩
      obtain ⟨hexcl, hclash⟩ := ih hafter
        (runAction nested origin d c (.takeSnapshot through)).captured
      refine ⟨?_, ?_⟩
      · unfold runActions
        dsimp only
        split_ifs
        · exact hafter.excludes
        · exact hexcl
      · simp only [clashesIn, actionClashes, hidle, hclash, Bool.and_false, Bool.or_false]
    · have hmark : Marks a = false := by simpa using hmark
      have hflags := runAction_flags nested origin d c hmark
      have hafter : Ready (runAction nested origin d c a).driver rest := by
        obtain ⟨hworker, hengine⟩ := Prod.mk.inj hflags
        refine ⟨h.excludes.congr hflags, ?_⟩
        rw [hworker, hengine]
        have hpending := h.pending
        rwa [List.filter_cons_of_neg (by simp [hmark])] at hpending
      obtain ⟨hexcl, hclash⟩ := ih hafter (runAction nested origin d c a).captured
      refine ⟨?_, ?_⟩
      · unfold runActions
        dsimp only
        split_ifs
        · exact hafter.excludes
        · exact hexcl
      · have hhere : actionClashes inner origin d c a = false := by
          cases a with
          | takeSnapshot | serveFetch => cases hmark
          | _ => rfl
        simp only [clashesIn, hhere, hclash, Bool.and_false, Bool.or_false]

theorem runServeFetch_excludes (origin : Option NodeId) (hd : Excludes d) (c : CapturedResponse)
    (dest : NodeId) (clusterId : String) (leaderEpoch : ℕ) (leaderId : NodeId)
    (highWatermark offset epoch : ℕ) :
    Excludes (runServeFetch processAcked origin d c dest clusterId leaderEpoch leaderId
      highWatermark offset epoch).driver ∧
    actionClashes ackedClashes origin d c
      (.serveFetch dest clusterId leaderEpoch leaderId highWatermark offset epoch) = false := by
  have hread := materializeFetchResponse_flags d clusterId leaderEpoch leaderId highWatermark offset
    epoch
  rcases hr : d.materializeFetchResponse clusterId leaderEpoch leaderId highWatermark offset
    epoch with
    ⟨d₁, e | resp⟩ <;> rw [hr] at hread
  · refine ⟨?_, ?_⟩
    · simp only [runServeFetch, hr]
      exact hd.congr hread
    · simp only [actionClashes, hr]
  · let sent := sendOrCapture origin d₁ c dest (.fetchResponse resp)
    let acked := sent.driver.node.step (.fetchRequestAcked dest (offset - 1))
    have hexcl : Excludes sent.driver :=
      hd.congr ((sendOrCapture_flags origin d₁ c dest (.fetchResponse resp)).trans hread)
    have hready : Ready { sent.driver with node := acked.1 } acked.2 :=
      (handleFetchRequestAcked_fires sent.driver.node dest (offset - 1)).ready hexcl rfl rfl
    obtain ⟨hinner, hclash⟩ := runActions_ready (fun _ _ _ => false) (fun d _ _ => (d, {})) origin
      hready {}
    refine ⟨?_, ?_⟩
    · simp only [runServeFetch, hr]
      split_ifs
      · exact hinner
      · exact hexcl
    · simp only [actionClashes, hr]
      split_ifs
      · exact hclash
      · rfl

theorem processActions_excludes {r : RaftNode × List Action} (hs : Stirs d.node r) (hd : Excludes d)
    (hworker : d'.snapshotWorkerInFlight = d.snapshotWorkerInFlight) (hnode : d'.node = r.1)
    (origin : Option NodeId) : Excludes (d'.processActions r.2 origin).1 ∧
      batchClashes d' r.2 origin = false := by
  cases hs with
  | fires h => exact runActions_ready ackedClashes processAcked origin (h.ready hd hworker hnode) {}
  | serves flag dest clusterId epoch leader hw offset last =>
    have hengine : d'.node.snapshotInFlight = d.node.snapshotInFlight := by rw [hnode, flag]
    have hd' : Excludes d' := hd.congr (Prod.ext hworker hengine)
    obtain ⟨hexcl, hclash⟩ := runServeFetch_excludes origin hd' {} dest clusterId epoch leader hw
      offset last
    refine ⟨?_, ?_⟩
    · rw [RunningTurns.processActions_one]
      exact hexcl
    · simp only [batchClashes, clashesIn, hclash, Bool.and_false, Bool.or_false]

theorem install_excludes (hidle : d.snapshotWorkerInFlight = false) (metadata : SnapshotMeta)
    (data : Bytes) (origin : Option NodeId) :
    Excludes (d.processActions [.installSnapshot metadata data] origin).1 := by
  have hinstall : (d.handleInstallSnapshot metadata data).1.snapshotWorkerInFlight = false := by
    rw [handleInstallSnapshot_worker, hidle]
  rw [RunningTurns.processActions_one]
  exact (excludes_idle hinstall).congr (haltOnError_flags _ _ _)

/-! ## Events -/

def handed (d : Driver σ) (r : RaftNode × List Action) (origin : Option NodeId) :
    Driver σ × List Action × Option NodeId := ({ d with node := r.1 }, r.2, origin)

def batchOf (d : Driver σ) : DriverEvent → Option (Driver σ × List Action × Option NodeId)
  | .tick => some (handed d (d.node.step .tick) none)
  | .inboundVote req => some (handed d (d.node.step (.voteRequest req)) (some req.candidateId))
  | .inboundPreVote req =>
    some (handed d (d.node.step (.preVoteRequest req)) (some req.candidateId))
  | .inboundFetch req => some (handed d (d.node.step (.fetchRequest req)) (some req.replicaId))
  | .voteResult peer response => some (handed d (d.node.step (.voteResponse peer response)) none)
  | .preVoteResult peer response =>
    some (handed d (d.node.step (.preVoteResponse peer response)) none)
  | .fetchResult response => some (handed d (d.node.step (.fetchResponse response)) none)
  | .inboundFetchSnapshot req =>
    if req.clusterId ≠ d.node.config.clusterId ∨ req.replicaId = d.node.id ∨ d.node.role ≠ .leader ∨
      (!d.node.isKnownVoter req.replicaId && !d.node.hasPeer req.replicaId) = true ∨
      ¬d.node.currentTerm < req.leaderEpoch then none
    else some (handed d (d.node.becomeFollower req.leaderEpoch none) none)
  | .fetchSnapshotResult peer clusterId leaderEpoch metadata data =>
    if clusterId ≠ d.node.config.clusterId then none
    else if d.node.currentTerm < leaderEpoch then
      some (handed d (d.node.becomeFollower leaderEpoch none) none)
    else if leaderEpoch < d.node.currentTerm ∨ d.node.leaderId ≠ some peer then none
    else metadata.map (fun snap => handed d (d.node.step (.fetchSnapshotReceived snap data)) none)
  | .client request command =>
    if d.node.role ≠ .leader then none
    else
      let stepped := d.node.step (.clientPropose command)
      let postLast := stepped.1.lastLogIndex
      let appended := stepped.2.any (fun a => match a with
        | .appendEntries entries => entries.any (fun e => e.index = postLast)
        | _ => false)
      some (if postLast = d.node.lastLogIndex + 1 ∧ appended then
          { d with node := stepped.1, pending := d.pending ++ [(postLast, request)] }
        else Driver.emit { d with node := stepped.1 }
          [.clientReply request (.error (.notLeader stepped.1.leaderId))], stepped.2, none)
  | .query _ _ => none
  | .triggerSnapshot _ => none
  | .snapshotCompleted =>
    match d.snapshotDone with
    | [] => none
    | c :: rest =>
      match c.result with
      | .error _ => none
      | .ok _ =>
        match Driver.anchorLog { d with snapshotDone := rest, snapshotWorkerInFlight := false }
            c.throughTerm c.throughIndex with
        | (_, some _) => none
        | (d', none) => some (handed d' (d'.node.step (.snapshotComplete c.metadata)) none)

def clashes (d : Driver σ) (event : DriverEvent) : Bool :=
  match batchOf d event with
  | some (pre, actions, origin) => batchClashes pre actions origin
  | none => false

def Apart (d : Driver σ) : LifeEvent → Prop
  | .turn event => installs d event ≠ none → d.snapshotWorkerInFlight = false
  | .snapshotWorker => True

theorem step_stirs {n : RaftNode} {event : DriverEvent} {input : Input}
    (h : DriverTurns.inputOf event = some input) : Stirs n (n.step input) := by
  cases event with
  | tick =>
    obtain rfl := Option.some.inj h
    exact .fires (handleTick_fires n)
  | inboundVote req =>
    obtain rfl := Option.some.inj h
    exact .fires (handleVoteRequest_fires n req)
  | inboundPreVote req =>
    obtain rfl := Option.some.inj h
    refine .fires (.quiet rfl (List.filter_eq_nil_iff.mpr fun a ha => ?_))
    obtain ⟨-, _, rfl⟩ := mem_handlePreVoteRequest ha
    simp [Marks]
  | inboundFetch req =>
    obtain rfl := Option.some.inj h
    exact handleFetchRequest_stirs n req
  | voteResult peer response =>
    obtain rfl := Option.some.inj h
    exact .fires (handleVoteResponse_fires n peer response)
  | preVoteResult peer response =>
    obtain rfl := Option.some.inj h
    exact .fires (handlePreVoteResponse_fires n peer response)
  | fetchResult response =>
    obtain rfl := Option.some.inj h
    exact .fires (handleFetchResponse_fires n response)
  | client request command =>
    obtain rfl := Option.some.inj h
    exact .fires (handleClientPropose_fires n command)
  | _ => cases h

theorem handed_excludes (hd : Excludes d) (event : DriverEvent) {input : Input}
    (h : DriverTurns.inputOf event = some input) (origin : Option NodeId) :
    Excludes (d.feed input origin).1 ∧
      batchClashes { d with node := (d.node.step input).1 } (d.node.step input).2 origin = false :=
  processActions_excludes (step_stirs h) hd (by rfl) (by rfl) origin

theorem deposed_excludes (hd : Excludes d) (term : ℕ) :
    Excludes (Driver.processActions { d with node := (d.node.becomeFollower term none).1 }
      (d.node.becomeFollower term none).2 none).1 ∧
    batchClashes { d with node := (d.node.becomeFollower term none).1 }
      (d.node.becomeFollower term none).2 none = false :=
  processActions_excludes (.fires (becomeFollower_fires d.node term none)) hd (by rfl) (by rfl) none

theorem handleInboundFetchSnapshot_excludes (hd : Excludes d) (req : FetchSnapshotRequest) :
    Excludes (d.handleInboundFetchSnapshot req) ∧ clashes d (.inboundFetchSnapshot req) =
      false := by
  obtain ⟨hexcl, hclash⟩ := deposed_excludes hd req.leaderEpoch
  have hrefuse : ∀ (x : Driver σ) (e : XRaftError), Excludes x →
      Excludes (x.emit [.fetchSnapshotReply req (.error e)]) := fun x e hx => hx
  refine ⟨?_, ?_⟩
  · unfold Driver.handleInboundFetchSnapshot
    dsimp only
    split
    · exact hd
    split
    · exact hd
    split
    · exact hd
    split
    · exact hd
    split
    · split
      · exact hexcl
      · exact hexcl
    split
    · exact hd
    split
    · exact hd
    split
    · exact hd
    split
    · exact hd
    split
    · exact hd
    · exact hd
  · simp only [clashes, batchOf]
    split_ifs
    · rfl
    · exact hclash

theorem handleFetchSnapshotResult_excludes (hd : Excludes d) {peer : NodeId} {clusterId : String}
    {epoch : ℕ} {metadata : Option SnapshotMeta} {data : Bytes}
    (hfree : installs d (.fetchSnapshotResult peer clusterId epoch metadata data) ≠ none →
      d.snapshotWorkerInFlight = false) :
    Excludes (d.handleFetchSnapshotResult peer clusterId epoch metadata data) := by
  unfold Driver.handleFetchSnapshotResult
  split
  · exact hd
  rename_i hcluster
  split
  · exact (deposed_excludes hd epoch).1
  rename_i hnewer
  split
  · exact hd
  rename_i holder
  split
  · exact hd
  rename_i hleader
  split
  · exact hd
  rename_i snap
  simp only [Driver.feed, RaftNode.step, RaftNode.handleFetchSnapshotReceived]
  split_ifs with hstale
  · exact hd
  · refine install_excludes (hfree ?_) snap data none
    have hnew : installs d (.fetchSnapshotResult peer clusterId epoch (some snap) data) =
        some (snap, data) := by
      exact if_pos ⟨not_not.mp hcluster, by omega, not_not.mp hleader, by omega⟩
    simp [hnew]

theorem handleFetchSnapshotResult_clashes (hd : Excludes d) (peer : NodeId) (clusterId : String)
    (epoch : ℕ) (metadata : Option SnapshotMeta) (data : Bytes) :
    clashes d (.fetchSnapshotResult peer clusterId epoch metadata data) = false := by
  simp only [clashes, batchOf]
  split_ifs
  · rfl
  · exact (deposed_excludes hd epoch).2
  · rfl
  · cases metadata with
    | none => rfl
    | some snap =>
      simp only [Option.map_some, handed, RaftNode.step, RaftNode.handleFetchSnapshotReceived]
      split_ifs <;> simp [batchClashes, clashesIn, actionClashes]

theorem handleClientCommand_excludes (hd : Excludes d) (request : RequestId) (command : Bytes) :
    Excludes (d.handleClientCommand request command) ∧
      clashes d (.client request command) = false := by
  have hstirs : Stirs d.node (d.node.step (.clientPropose command)) :=
    .fires (handleClientPropose_fires d.node command)
  refine ⟨?_, ?_⟩
  · unfold Driver.handleClientCommand
    split
    · exact hd
    dsimp only
    split_ifs
    · exact (processActions_excludes hstirs hd (by rfl) (by rfl) none).1
    · exact (processActions_excludes hstirs hd (by rfl) (by rfl) none).1
  · unfold clashes batchOf
    dsimp only
    by_cases hrole : d.node.role ≠ .leader
    · rw [if_pos hrole]
    rw [if_neg hrole]
    dsimp only
    split_ifs
    · exact (processActions_excludes hstirs hd (by rfl) (by rfl) none).2
    · exact (processActions_excludes hstirs hd (by rfl) (by rfl) none).2

theorem handleTriggerSnapshot_excludes (hd : Excludes d) (request : RequestId) :
    Excludes (d.handleTriggerSnapshot request) := by
  unfold Driver.handleTriggerSnapshot
  split
  · exact hd
  split
  · exact hd
  have hengine := dispatchSnapshotWorker_engine
    { d with node := { d.node with snapshotInFlight := true } } d.node.commitIndex (some request)
  rcases hr : Driver.dispatchSnapshotWorker
    { d with node := { d.node with snapshotInFlight := true } } d.node.commitIndex
      (some request) with
    ⟨d', _ | e⟩ <;> rw [hr] at hengine
  · exact fun _ => hengine
  · exact excludes_idle rfl

theorem handleSnapshotCompleted_excludes (hd : Excludes d) :
    Excludes d.handleSnapshotCompleted ∧ clashes d .snapshotCompleted = false := by
  have hfail : ∀ (x : Driver σ) (reply : Option RequestId) (message : String),
      x.snapshotWorkerInFlight = false →
      Excludes ((x.replySnapshot reply (.error (.storage message))).halt message) := by
    intro x reply message hx
    refine excludes_idle ?_
    cases reply <;> exact hx
  simp only [clashes, batchOf, Driver.handleSnapshotCompleted]
  cases hdone : d.snapshotDone with
  | nil => exact ⟨hd, rfl⟩
  | cons c rest =>
    dsimp only
    cases hresult : c.result with
    | error e => exact ⟨hfail _ _ _ rfl, rfl⟩
    | ok u =>
      have hanchor :=
        anchorLog_flags { d with snapshotDone := rest, snapshotWorkerInFlight := false }
          c.throughTerm c.throughIndex
      dsimp only
      rcases hr : Driver.anchorLog { d with snapshotDone := rest, snapshotWorkerInFlight := false }
        c.throughTerm c.throughIndex with ⟨d', _ | e⟩ <;> rw [hr] at hanchor
      · -- the worker is gone, so whatever the engine forgets is safe to forget
        have hidle : d'.snapshotWorkerInFlight = false := (Prod.mk.inj hanchor).1
        have hready : Ready { d' with node := (d'.node.step (.snapshotComplete c.metadata)).1 }
            (d'.node.step (.snapshotComplete c.metadata)).2 := by
          refine ⟨excludes_idle hidle, .inl ?_⟩
          simp only [RaftNode.step, RaftNode.handleSnapshotComplete]
          split_ifs <;> rfl
        obtain ⟨hexcl, hclash⟩ := runActions_ready ackedClashes processAcked none hready {}
        refine ⟨?_, hclash⟩
        dsimp only
        split
        · exact hexcl.congr (Kept.flags (TurnOutcomes.replySnapshot_kept _ _ _))
        · exact hexcl.congr (Kept.flags (TurnOutcomes.replySnapshot_kept _ _ _))
      · exact ⟨hfail _ _ _ (Prod.mk.inj hanchor).1, rfl⟩

theorem handleDriverEvent_excludes (hd : Excludes d) (event : DriverEvent) :
    (Apart d (.turn event) → Excludes (d.handleDriverEvent event)) ∧ clashes d event = false := by
  have hfed : ∀ {input : Input}, DriverTurns.inputOf event = some input → ∀ origin,
      (Apart d (.turn event) → Excludes (d.feed input origin).1) ∧
        batchClashes { d with node := (d.node.step input).1 } (d.node.step input).2 origin =
          false := by
    intro input h origin
    obtain ⟨hexcl, hclash⟩ := handed_excludes hd event h origin
    exact ⟨fun _ => hexcl, hclash⟩
  cases event with
  | tick => exact hfed rfl none
  | inboundVote req => exact hfed rfl (some req.candidateId)
  | inboundPreVote req => exact hfed rfl (some req.candidateId)
  | inboundFetch req => exact hfed rfl (some req.replicaId)
  | voteResult peer response => exact hfed rfl none
  | preVoteResult peer response => exact hfed rfl none
  | fetchResult response => exact hfed rfl none
  | inboundFetchSnapshot req =>
    obtain ⟨hexcl, hclash⟩ := handleInboundFetchSnapshot_excludes hd req
    exact ⟨fun _ => hexcl, hclash⟩
  | fetchSnapshotResult =>
    exact ⟨handleFetchSnapshotResult_excludes hd, handleFetchSnapshotResult_clashes hd ..⟩
  | client request command =>
    obtain ⟨hexcl, hclash⟩ := handleClientCommand_excludes hd request command
    exact ⟨fun _ => hexcl, hclash⟩
  | query request query =>
    refine ⟨fun _ => ?_, rfl⟩
    show Excludes (d.handleClientQuery request query)
    unfold Driver.handleClientQuery
    split_ifs <;> exact hd
  | triggerSnapshot request => exact ⟨fun _ => handleTriggerSnapshot_excludes hd request, rfl⟩
  | snapshotCompleted =>
    obtain ⟨hexcl, hclash⟩ := handleSnapshotCompleted_excludes hd
    exact ⟨fun _ => hexcl, hclash⟩

theorem turn_excludes (hd : Excludes d) {event : DriverEvent} (hapart : Apart d (.turn event)) :
    Excludes (d.turn event) := by
  unfold Driver.turn
  split
  · exact hd
  dsimp only
  split
  · exact excludes_idle rfl
  · exact ((handleDriverEvent_excludes hd event).1 hapart).congr rfl

theorem live_excludes (e : LifeEvent) (hd : Excludes d) (hapart : Apart d e) :
    Excludes (Driver.live d e) := by
  cases e with
  | turn event => exact turn_excludes hd hapart
  | snapshotWorker => exact runSnapshotWorker_excludes hd

theorem start_excludes (config : ClusterConfig) (voterSet : Option VoterSet) (rng : List ℕ)
    (maxFetchBatch : ℕ) (initial : σ) (faults : List (Option Fault)) (store : Durable) :
    Excludes (start config voterSet rng maxFetchBatch initial faults store) := by
  have hdrain : ∀ x : Driver σ, Excludes x → Excludes (recoveryDrain x) := by
    intro x hx
    have hready :
        Ready { x with node := x.node.drainApplyPipeline.1 } x.node.drainApplyPipeline.2 :=
      (drainApplyPipeline_fires x.node).ready hx rfl rfl
    unfold recoveryDrain
    dsimp only
    split
    · exact excludes_idle rfl
    · exact (runActions_ready ackedClashes processAcked none hready {}).1
  unfold start
  split
  · exact hdrain _ (excludes_idle rfl)
  · split
    · exact hdrain _ (excludes_idle rfl)
    · exact excludes_idle rfl

theorem one_worker_at_a_time (config : ClusterConfig) (voterSet : Option VoterSet) (rng : List ℕ)
    (maxFetchBatch : ℕ) (initial : σ) (faults : List (Option Fault)) (store : Durable)
    (hrun : Execution Driver.live Apart
      (start config voterSet rng maxFetchBatch initial faults store) d) :
    (d.snapshotWorkerInFlight = true → d.node.snapshotInFlight = true) ∧
      ∀ event, clashes d event = false := by
  have hexcl : Excludes d := hrun.invariant (fun _ e hd hapart => live_excludes e hd hapart)
    (start_excludes config voterSet rng maxFetchBatch initial faults store)
  exact ⟨hexcl, fun event => (handleDriverEvent_excludes hexcl event).2⟩

end Actions

def eager : Driver NoOpStateMachine :=
  start { threeVoterConfig false 1 with maxLogEntriesBeforeCompaction := 1 } (some threeVoterSet) []
    64 .mk [] Durable.fresh

def firstFetch : LifeEvent := .turn (.fetchResult
  ⟨"c", 1, 2, 2, [⟨1, 1, .noOp⟩, ⟨2, 1, .noOp⟩], none, none, true⟩)

instance (d : Driver σ) : (e : LifeEvent) → Decidable (Apart d e)
  | .turn event =>
    inferInstanceAs (Decidable (installs d event ≠ none → d.snapshotWorkerInFlight = false))
  | .snapshotWorker => .isTrue trivial

theorem one_worker_at_a_time_first_snapshot :
    let d := replay Driver.live eager [firstFetch]
    d.snapshotWorkerInFlight = true ∧ d.node.snapshotInFlight = true ∧
      clashes d (.fetchResult ⟨"c", 1, 2, 4, [⟨3, 1, .noOp⟩, ⟨4, 1, .noOp⟩], none, none, true⟩) =
        false := by
  have hrun : Execution Driver.live Apart eager (replay Driver.live eager [firstFetch]) :=
    replay_execution (by decide +kernel)
  have hbusy : (replay Driver.live eager [firstFetch]).snapshotWorkerInFlight = true := by
    decide +kernel
  obtain ⟨hmark, hclash⟩ := one_worker_at_a_time _ _ _ _ _ _ _ hrun
  exact ⟨hbusy, hmark hbusy, hclash _⟩

/-- The leader's snapshot arrives while the worker runs; it clears the engine's mark only. -/
def lateInstall : LifeEvent :=
  .turn (.fetchSnapshotResult 2 "c" 1 (some ⟨5, 1, "", some threeVoterSet, none⟩) [])

theorem install_over_worker_clashes :
    let d := replay Driver.live eager [firstFetch, lateInstall]
    let event := DriverEvent.fetchResult
      ⟨"c", 1, 2, 7, [⟨6, 1, .noOp⟩, ⟨7, 1, .noOp⟩], none, none, true⟩
    Life eager d ∧ d.haltReason = none ∧ d.snapshotWorkerInFlight = true ∧
      d.node.snapshotInFlight = false ∧ clashes d event = true ∧ (d.turn event).haltReason = some
        ("snapshot dispatch failed: " ++
          (XRaftError.storage ("dispatch_snapshot_worker: another " ++
            "worker still in flight; engine/operator gating is broken")).display) := by
  refine ⟨replay_execution (admissible_true _ _), ?_⟩
  decide +kernel

end WorkerExclusion
