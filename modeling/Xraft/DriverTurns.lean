import Xraft.ActionBatches

/-! # Driver turns

Every turn of the select loop is one move of the engine followed by a lawful stretch of the journal.
A turn in which a store of the hard state or the log fails leaves the driver halted.
-/
namespace DriverTurns

open ProtocolTypes ConsensusEngine DurableStores NodeDriver EngineTransitions PersistOrder
open DriverJournal ActionBatches

variable {σ : Type} {self : NodeId}

def inputOf : DriverEvent → Option Input
  | .tick => some .tick
  | .inboundVote req => some (.voteRequest req)
  | .inboundPreVote req => some (.preVoteRequest req)
  | .inboundFetch req => some (.fetchRequest req)
  | .voteResult peer response => some (.voteResponse peer response)
  | .preVoteResult peer response => some (.preVoteResponse peer response)
  | .fetchResult response => some (.fetchResponse response)
  | .client _ command => some (.clientPropose command)
  | _ => none

/-- The engine's part of an event, up to fields that carry no standing. -/
inductive EngineMove (n : RaftNode) : DriverEvent → RaftNode → Prop
  | stay (event : DriverEvent) : EngineMove n event n
  | step {event : DriverEvent} {input : Input} (h : inputOf event = some input) :
      EngineMove n event (n.step input).1
  | outrun (req : FetchSnapshotRequest) :
      EngineMove n (.inboundFetchSnapshot req) (n.becomeFollower req.leaderEpoch none).1
  | overtaken (peer : NodeId) (clusterId : String) (epoch : ℕ) (metadata : Option SnapshotMeta)
      (data : Bytes) : EngineMove n (.fetchSnapshotResult peer clusterId epoch metadata data)
        (n.becomeFollower epoch none).1

/-- An event of the select loop is an election move; votes are counted from vote results only. -/
theorem EngineMove.election {n m : RaftNode} {event : DriverEvent} (h : EngineMove n event m)
    (hs : SelfVoted n) : ∃ input, ElectionMove n input m ∧ ∀ sender resp,
      input = .voteResponse sender resp → event = .voteResult sender resp := by
  cases h with
  | stay => exact ⟨.tick, .keep rfl rfl rfl, fun _ _ h => by cases h⟩
  | @step _ input hinput =>
    refine ⟨input, step_move hs input, fun sender resp hin => ?_⟩
    subst hin
    cases event <;> simp_all [inputOf]
  | outrun req => exact ⟨.tick, becomeFollower_move n .tick _ _, fun _ _ h => by cases h⟩
  | overtaken _ _ epoch => exact ⟨.tick, becomeFollower_move n .tick _ _, fun _ _ h => by cases h⟩

theorem EngineMove.identity {n m : RaftNode} {event : DriverEvent} (h : EngineMove n event m) :
    SameIdentity n m := by
  cases h with
  | stay => exact .refl n
  | step _ => exact step_identity n _
  | outrun req => exact (becomeFollower_sameProgress _ _ _).identity
  | overtaken _ _ epoch => exact (becomeFollower_sameProgress _ _ _).identity

/-- From the engine's new state `m` the driver runs to `d'`; unless it halted, the ballot of `m` is
on disk. -/
structure RanFrom (id : NodeId) (d : Driver σ) (m : RaftNode) (d' : Driver σ) : Prop where
  ran : Ran id { d with node := m } d' d'.haltReason.isSome
  disk : d'.haltReason = none → onDisk d' = ballot m

def Handled (self : NodeId) (d : Driver σ) (event : DriverEvent) (d' : Driver σ) : Prop :=
  ∃ m, EngineMove d.node event m ∧ RanFrom self d m d'

def Settled (d : Driver σ) : Prop := d.haltReason = none → onDisk d = ballot d.node

theorem RanFrom.settled {d d' : Driver σ} {m : RaftNode} (h : RanFrom self d m d') : Settled d' :=
  fun hh => (h.disk hh).trans h.ran.standing.ballot.symm

theorem RanFrom.refuse {d d' : Driver σ} {m : RaftNode} (h : RanFrom self d m d') {w : List Effect}
    (hw : ∀ x ∈ w, Refusal x) : RanFrom self d m (d'.emit w) :=
  ⟨h.ran.refuse hw, h.disk⟩

theorem RanFrom.congr {d d' e : Driver σ} {m : RaftNode} (h : RanFrom self d m d')
    (node : SameStanding d'.node e.node) (trace : e.trace = d'.trace)
    (hs : e.hsStore = d'.hsStore) (log : e.logStore = d'.logStore)
    (halt : e.haltReason = d'.haltReason) : RanFrom self d m e := by
  refine ⟨?_, fun hh => (onDisk_congr hs).trans (h.disk (halt ▸ hh))⟩
  rw [halt]
  exact h.ran.congr node trace hs log

theorem ranFrom_refl {d : Driver σ} (h : Settled d) : RanFrom self d d.node d :=
  ⟨.refl d _, h⟩

theorem handled_of_same {d d' : Driver σ} (event : DriverEvent) (h : Settled d)
    (node : SameStanding d.node d'.node) (trace : d'.trace = d.trace)
    (hs : d'.hsStore = d.hsStore) (log : d'.logStore = d.logStore)
    (halt : d'.haltReason = d.haltReason) : Handled self d event d' :=
  ⟨d.node, .stay event, (ranFrom_refl h).congr node trace hs log halt⟩

theorem handled_refuse {d d' : Driver σ} {event : DriverEvent} (h : Handled self d event d')
    {w : List Effect} (hw : ∀ x ∈ w, Refusal x) : Handled self d event (d'.emit w) := by
  obtain ⟨m, hmove, hran⟩ := h
  exact ⟨m, hmove, hran.refuse hw⟩

theorem ranFrom_of_batch {origin : Option NodeId} {d : Driver σ} {m : RaftNode}
    {r : Driver σ × CapturedResponse} (h : BatchRan self origin { d with node := m } r) :
    RanFrom self d m r.1 := ⟨h.ran, h.disk⟩

/-- The caller's answer after a batch: an error once anything went wrong. -/
theorem reply_ranFrom {origin : Option NodeId} {d : Driver σ} {m : RaftNode}
    {r : Driver σ × CapturedResponse} (h : BatchRan self origin { d with node := m } r) {x : Effect}
    (hx : Passive x) (herror : r.2.error.isSome → Refusal x)
    (hok : r.2.error = none → (ledger r.1).ballot = ballot m → (ledger r.1).Permits self x) :
    RanFrom self d m (r.1.emit [x]) := by
  by_cases he : r.2.error.isSome
  · exact (ranFrom_of_batch h).refuse (by simpa using herror he)
  · have hnone : r.1.haltReason = none := by
      by_contra hh
      exact he (h.error (Option.isSome_iff_ne_none.mpr hh))
    have hran := h.ran
    rw [hnone] at hran
    refine ⟨hran.emit (by simpa using hx) ?_, h.disk⟩
    simpa using hok (by simpa using he) (h.disk hnone)

theorem answer_error {α : Type} {c : CapturedResponse} (h : c.error.isSome) (resp : Option α)
    (fallback : α) : ∃ e, answer c resp fallback = .error e := by
  obtain ⟨e, he⟩ := Option.isSome_iff_exists.mp h
  exact ⟨e, by rw [answer, he]⟩

theorem answer_ok {α : Type} {c : CapturedResponse} (h : c.error = none) (resp : Option α)
    (fallback : α) : answer c resp fallback = .ok (resp.getD fallback) := by
  rw [answer, h]

theorem handled_halt {d d' : Driver σ} (event : DriverEvent) {ended : Bool}
    (h : Ran self d d' ended) (reason : String) : Handled self d event (d'.halt reason) :=
  ⟨_, .stay event, ⟨h.ended.congr (.refl _) rfl rfl rfl, fun hh => by cases hh⟩⟩

theorem replySnapshot_error {d d' : Driver σ} {ended : Bool} (h : Ran self d d' ended)
    (reply : Option RequestId) (e : XRaftError) :
    Ran self d (d'.replySnapshot reply (.error e)) ended := by
  cases reply with
  | none => exact h
  | some request => exact h.refuse (by simp [Refusal])

theorem replySnapshot_ok {d d' : Driver σ} (h : Ran self d d' false) (reply : Option RequestId)
    (info : TriggeredSnapshotInfo) : Ran self d (d'.replySnapshot reply (.ok info)) false := by
  cases reply with
  | none => exact h
  | some request => exact h.emit (by simp [Passive]) (by simp [Ledger.Permits])

theorem replySnapshot_halt (d : Driver σ) (reply : Option RequestId)
    (result : Except XRaftError TriggeredSnapshotInfo) :
    (d.replySnapshot reply result).haltReason = d.haltReason ∧
      (d.replySnapshot reply result).hsStore = d.hsStore := by
  cases reply <;> exact ⟨rfl, rfl⟩

theorem failStopShutdown_ran {d d' : Driver σ} {ended : Bool} (h : Ran self d d' ended) :
    Ran self d d'.failStopShutdown ended := by
  have hstopped : Ran self d { d'.failWaiters (.storage (d'.haltReason.getD "")) with
      snapshotDone := [], snapshotWorkerInFlight := false } ended :=
    (failWaiters_ran h _).congr (.refl _) rfl rfl rfl
  refine hstopped.refuse (fun x hx => ?_)
  obtain ⟨c, _, hx⟩ := List.mem_filterMap.mp hx
  obtain ⟨_, _, rfl⟩ := Option.map_eq_some_iff.mp hx
  trivial

theorem runSnapshotWorker_inert (d : Driver σ) : ∃ w store jobs done fs,
    (∀ x ∈ w, Inert x) ∧ d.runSnapshotWorker = { d with
      snapshotStore := store
      snapshotJobs := jobs
      snapshotDone := done
      faults := fs
      trace := d.trace ++ w } := by
  unfold Driver.runSnapshotWorker
  split
  · exact ⟨[], d.snapshotStore, d.snapshotJobs, d.snapshotDone, d.faults, by simp, by simp⟩
  rename_i job rest _
  dsimp only
  split
  · exact ⟨[], d.snapshotStore, rest, _, d.faults, by simp, by rw [List.append_nil]⟩
  · rename_i data _
    obtain ⟨w, store, fs, hw, h⟩ := saveSnapshot_inert d
      ⟨job.throughIndex, job.throughTerm, "", job.voterSet, some data.length⟩ data
    rcases hr : d.saveSnapshot
      ⟨job.throughIndex, job.throughTerm, "", job.voterSet, some data.length⟩ data
        with ⟨d', _ | e⟩ <;>
      rw [hr] at h <;> dsimp only at h ⊢ <;> subst h
    · exact ⟨w, store, rest, _, fs, hw, rfl⟩
    · exact ⟨w, store, rest, _, fs, hw, rfl⟩

theorem runSnapshotWorker_node (d : Driver σ) : d.runSnapshotWorker.node = d.node := by
  obtain ⟨_, _, _, _, _, _, h⟩ := runSnapshotWorker_inert d
  rw [h]

section Events

variable [StateMachine σ]

theorem feed_ran {d : Driver σ} (hhalt : d.haltReason = none) (hd : Settled d) (input : Input)
    (origin : Option NodeId) : BatchRan d.node.id origin
      { d with node := (d.node.step input).1 } (d.feed input origin) := by
  refine processActions_ran hhalt ?_
  have hs := step_settles d.node input
  rwa [← hd hhalt] at hs

theorem feed_handled {d : Driver σ} (hhalt : d.haltReason = none) (hd : Settled d)
    {event : DriverEvent} {input : Input} (h : inputOf event = some input) :
    Handled d.node.id d event (d.feed input none).1 :=
  ⟨_, .step h, ranFrom_of_batch (feed_ran hhalt hd input none)⟩

theorem handleInboundVote_handled {d : Driver σ} (hhalt : d.haltReason = none) (hd : Settled d)
    (req : VoteRequest) : Handled d.node.id d (.inboundVote req) (d.handleInboundVote req) := by
  have hran := feed_ran hhalt hd (.voteRequest req) (some req.candidateId)
  refine ⟨_, .step rfl, reply_ranFrom hran trivial (fun he => ?_) (fun he hdisk => ?_)⟩
  · obtain ⟨e, h⟩ := answer_error he _ _
    rw [h]
    trivial
  · rw [answer_ok he]
    have hb := hran.ran.standing.ballot
    rw [Ledger.Permits, hdisk]
    cases hv : (d.feed (.voteRequest req) (some req.candidateId)).2.vote with
    | none =>
      have ht : (d.feed (.voteRequest req) (some req.candidateId)).1.node.currentTerm
          ≤ (ballot (d.node.step (.voteRequest req)).1).term := (congrArg Ballot.term hb).le
      exact ⟨ht, ht, by simp [Driver.defaultDenyVote]⟩
    | some r =>
      obtain ⟨dest, hdest, hc⟩ := hran.captured.vote r hv
      obtain rfl := Option.some.inj hdest
      exact hc

theorem handleInboundPreVote_handled {d : Driver σ} (hhalt : d.haltReason = none) (hd : Settled d)
    (req : PreVoteRequest) :
    Handled d.node.id d (.inboundPreVote req) (d.handleInboundPreVote req) := by
  have hran := feed_ran hhalt hd (.preVoteRequest req) (some req.candidateId)
  refine ⟨_, .step rfl, reply_ranFrom hran trivial (fun he => ?_) (fun he hdisk => ?_)⟩
  · obtain ⟨e, h⟩ := answer_error he _ _
    rw [h]
    trivial
  · rw [answer_ok he]
    have hb := hran.ran.standing.ballot
    rw [Ledger.Permits, hdisk]
    cases hv : (d.feed (.preVoteRequest req) (some req.candidateId)).2.preVote with
    | none => exact ⟨(congrArg Ballot.term hb).le, (congrArg Ballot.term hb).le⟩
    | some r =>
      obtain ⟨dest, hdest, hc⟩ := hran.captured.preVote r hv
      obtain rfl := Option.some.inj hdest
      exact hc

theorem handleInboundFetch_handled {d : Driver σ} (hhalt : d.haltReason = none) (hd : Settled d)
    (req : FetchRequest) : Handled d.node.id d (.inboundFetch req) (d.handleInboundFetch req) := by
  have hran := feed_ran hhalt hd (.fetchRequest req) (some req.replicaId)
  refine ⟨_, .step rfl, reply_ranFrom hran trivial (fun he => ?_) (fun he hdisk => ?_)⟩
  · obtain ⟨e, h⟩ := answer_error he _ _
    rw [h]
    trivial
  · rw [answer_ok he]
    have hb := hran.ran.standing.ballot
    rw [Ledger.Permits, hdisk]
    cases hv : (d.feed (.fetchRequest req) (some req.replicaId)).2.fetch with
    | none => exact (congrArg Ballot.term hb).le
    | some r =>
      obtain ⟨dest, hdest, hc⟩ := hran.captured.fetch r hv
      obtain rfl := Option.some.inj hdest
      exact hc

theorem becomeFollower_ran {d : Driver σ} (hhalt : d.haltReason = none) (hd : Settled d)
    (term : ℕ) : BatchRan self none { d with node := (d.node.becomeFollower term none).1 }
      (Driver.processActions { d with node := (d.node.becomeFollower term none).1 }
        (d.node.becomeFollower term none).2 none) := by
  refine processActions_ran hhalt ?_
  have hs : Settles self _ _ _ := becomeFollower_settles d.node term none
  rwa [← hd hhalt] at hs

theorem handleInboundFetchSnapshot_handled {d : Driver σ} (hhalt : d.haltReason = none)
    (hd : Settled d) (req : FetchSnapshotRequest) :
    Handled self d (.inboundFetchSnapshot req) (d.handleInboundFetchSnapshot req) := by
  have hrefuse : ∀ (fs : List (Option Fault)) (e : XRaftError), Handled self d
      (.inboundFetchSnapshot req)
      (Driver.emit { d with faults := fs } [.fetchSnapshotReply req (.error e)]) := by
    intro fs e
    have hread : Handled self d (.inboundFetchSnapshot req) { d with faults := fs } :=
      handled_of_same _ hd (.refl _) rfl rfl rfl rfl
    exact handled_refuse hread (by simp [Refusal])
  unfold Driver.handleInboundFetchSnapshot
  dsimp only
  generalize (if req.maxBytes = 0 then none else some req.maxBytes) = limit
  split_ifs
  · exact hrefuse d.faults _
  · exact hrefuse d.faults _
  · exact hrefuse d.faults _
  · exact hrefuse d.faults _
  · have hran : BatchRan self none _ _ := becomeFollower_ran hhalt hd req.leaderEpoch
    split
    · exact ⟨_, .outrun req, (ranFrom_of_batch hran).refuse (by simp [Refusal])⟩
    · exact ⟨_, .outrun req, (ranFrom_of_batch hran).refuse (by simp [Refusal])⟩
  · exact hrefuse d.faults _
  · split
    · exact hrefuse d.faults.tail _
    · split
      · exact hrefuse d.faults.tail _
      · split
        · exact hrefuse d.faults.tail.tail _
        · split
          · exact hrefuse d.faults.tail.tail _
          · refine ⟨d.node, .stay _, ⟨?_, fun _ => hd hhalt⟩⟩
            have hread : Ran self d d.afterCall.afterCall false :=
              (Ran.refl d false).congr (.refl _) rfl rfl rfl
            refine hread.emit (by simp [Passive]) (fun x hx => ?_)
            rw [List.mem_singleton.mp hx]
            intro c hc
            obtain ⟨_, _, rfl⟩ := List.mem_map.mp hc
            exact (congrArg Ballot.term (hd hhalt)).ge

theorem handleFetchSnapshotResult_handled {d : Driver σ} (hhalt : d.haltReason = none)
    (hd : Settled d) (peer : NodeId) (clusterId : String) (epoch : ℕ)
    (metadata : Option SnapshotMeta) (data : Bytes) :
    Handled d.node.id d (.fetchSnapshotResult peer clusterId epoch metadata data)
      (d.handleFetchSnapshotResult peer clusterId epoch metadata data) := by
  have hstay : Handled d.node.id d (.fetchSnapshotResult peer clusterId epoch metadata data) d :=
    ⟨_, .stay _, ranFrom_refl hd⟩
  unfold Driver.handleFetchSnapshotResult
  split_ifs
  · exact hstay
  · exact ⟨_, .overtaken _ _ _ _ _, ranFrom_of_batch (becomeFollower_ran hhalt hd epoch)⟩
  · exact hstay
  · exact hstay
  · split
    · exact hstay
    · rename_i snap
      exact ⟨_, .stay _,
        ranFrom_of_batch (feed_ran hhalt hd (.fetchSnapshotReceived snap data) none)⟩

/-- A proposal registers its waiter before its entry is written. -/
theorem handleClientCommand_handled {d : Driver σ} (hhalt : d.haltReason = none) (hd : Settled d)
    (request : RequestId) (command : Bytes) :
    Handled d.node.id d (.client request command) (d.handleClientCommand request command) := by
  have hregistered : ∀ {e : Driver σ},
      Ran d.node.id { d with node := (d.node.step (.clientPropose command)).1 } e false →
      e.node = (d.node.step (.clientPropose command)).1 → e.hsStore = d.hsStore →
      e.haltReason = d.haltReason → Handled d.node.id d (.client request command)
        (e.processActions (d.node.step (.clientPropose command)).2 none).1 := by
    intro e hran hnode hhs hh
    have hsettles := step_settles d.node (.clientPropose command)
    rw [← hd hhalt, ← onDisk_congr hhs, ← hnode] at hsettles
    have hbatch : BatchRan d.node.id none e _ := processActions_ran (hh.trans hhalt) hsettles
    exact ⟨_, .step rfl, ⟨hran.trans hbatch.ran, fun h => (hbatch.disk h).trans (by rw [hnode])⟩⟩
  unfold Driver.handleClientCommand
  split_ifs with hrole
  · exact handled_refuse ⟨_, .stay _, ranFrom_refl hd⟩ (by simp [Refusal])
  · dsimp only
    split_ifs
    · exact hregistered ((Ran.refl _ false).congr (.refl _) rfl rfl rfl) rfl rfl rfl
    · exact hregistered ((Ran.refl _ false).refuse (by simp [Refusal])) rfl rfl rfl

theorem handleClientQuery_handled {d : Driver σ} (hd : Settled d) (request : RequestId)
    (query : Bytes) : Handled self d (.query request query)
    (d.handleClientQuery request query) := by
  have hstay : Handled self d (.query request query) d := ⟨_, .stay _, ranFrom_refl hd⟩
  unfold Driver.handleClientQuery
  split_ifs
  · exact handled_refuse hstay (by simp [Refusal])
  · exact handled_refuse hstay (by simp [Refusal])
  · exact handled_refuse hstay (by simp [Refusal])
  · exact handled_of_same _ hd (.refl _) rfl rfl rfl rfl

theorem handleTriggerSnapshot_handled {d : Driver σ} (hhalt : d.haltReason = none) (hd : Settled d)
    (request : RequestId) :
    Handled self d (.triggerSnapshot request) (d.handleTriggerSnapshot request) := by
  have hstay : Handled self d (.triggerSnapshot request) d := ⟨_, .stay _, ranFrom_refl hd⟩
  unfold Driver.handleTriggerSnapshot
  split_ifs
  · exact handled_refuse hstay (by simp [Refusal])
  · exact handled_refuse hstay (by simp [Refusal])
  · have hmark : Ran self d { d with node := { d.node with snapshotInFlight := true } } false :=
      (Ran.refl d false).congr (by constructor <;> rfl) rfl rfl rfl
    have hcall : LogCalled self _ _ := dispatchSnapshotWorker_called
      { d with node := { d.node with snapshotInFlight := true } } d.node.commitIndex (some request)
    rcases hr : Driver.dispatchSnapshotWorker
      { d with node := { d.node with snapshotInFlight := true } } d.node.commitIndex
      (some request) with ⟨d', _ | e⟩ <;> rw [hr] at hcall <;> dsimp only
    · have hran : Ran self d d' false := hmark.trans hcall.called.ran
      have hnone : d'.haltReason = none := hcall.called.halt.trans hhalt
      refine ⟨_, .stay _, ⟨?_, fun _ => (onDisk_congr hcall.disk).trans (hd hhalt)⟩⟩
      rw [hnone]
      exact hran
    · have hran := hmark.trans hcall.called.ran
      apply handled_halt
      exact hran.congr (by constructor <;> rfl) rfl rfl rfl

theorem handleSnapshotCompleted_handled {d : Driver σ} (hhalt : d.haltReason = none)
    (hd : Settled d) : Handled d.node.id d .snapshotCompleted d.handleSnapshotCompleted := by
  unfold Driver.handleSnapshotCompleted
  split
  · exact ⟨_, .stay _, ranFrom_refl hd⟩
  rename_i c rest _
  have hidle : Ran d.node.id d
      { d with snapshotDone := rest, snapshotWorkerInFlight := false } false :=
    (Ran.refl d false).congr (.refl _) rfl rfl rfl
  dsimp only
  split
  · exact handled_halt _ (replySnapshot_error hidle _ _) _
  have hcall : LogCalled d.node.id _ _ := anchorLog_called
    { d with snapshotDone := rest, snapshotWorkerInFlight := false } c.throughTerm c.throughIndex
  rcases hr : Driver.anchorLog { d with snapshotDone := rest, snapshotWorkerInFlight := false }
    c.throughTerm c.throughIndex with ⟨d', _ | e⟩ <;> rw [hr] at hcall <;> dsimp only
  swap
  · exact handled_halt _ (replySnapshot_error (hidle.trans hcall.called.ran) _ _) _
  have hanchored : Ran d.node.id d d' false := hidle.trans hcall.called.ran
  have hnone : d'.haltReason = none := hcall.called.halt.trans hhalt
  have hid := hanchored.standing.id
  have hb := hanchored.standing.ballot
  have hsettled : Settled d' := fun _ => (onDisk_congr hcall.disk).trans ((hd hhalt).trans hb.symm)
  have hbatch := feed_ran hnone hsettled (.snapshotComplete c.metadata) none
  rw [hid] at hbatch
  have hstep : SameStanding d'.node (d'.node.step (.snapshotComplete c.metadata)).1 := by
    simp only [RaftNode.step, RaftNode.handleSnapshotComplete]
    split_ifs
    · constructor <;> rfl
    · constructor <;> rfl
  have hran := (hanchored.congr (e := { d' with
    node := (d'.node.step (.snapshotComplete c.metadata)).1 }) hstep rfl rfl rfl).trans hbatch.ran
  have hdisk : (d'.feed (.snapshotComplete c.metadata) none).1.haltReason = none →
      onDisk (d'.feed (.snapshotComplete c.metadata) none).1 = ballot d.node :=
    fun h => (hbatch.disk h).trans (hstep.ballot.trans hb)
  split
  · obtain ⟨hh, hhs⟩ := replySnapshot_halt (d'.feed (.snapshotComplete c.metadata) none).1 c.reply
      (.error _)
    refine ⟨_, .stay _, ⟨?_, fun h => (onDisk_congr hhs).trans (hdisk (hh ▸ h))⟩⟩
    rw [hh]
    exact replySnapshot_error hran _ _
  · rename_i herror
    obtain ⟨hh, hhs⟩ := replySnapshot_halt (d'.feed (.snapshotComplete c.metadata) none).1 c.reply
      (.ok ⟨c.metadata.lastIncludedIndex, c.metadata.lastIncludedTerm, c.metadata.sizeBytes.getD 0⟩)
    have hfeed : (d'.feed (.snapshotComplete c.metadata) none).1.haltReason = none := by
      by_contra h
      have := hbatch.error (Option.isSome_iff_ne_none.mpr h)
      rw [herror] at this
      cases this
    rw [hfeed] at hran
    refine ⟨_, .stay _, ⟨?_, fun h => (onDisk_congr hhs).trans (hdisk (hh ▸ h))⟩⟩
    rw [hh, hfeed]
    exact replySnapshot_ok hran _ _

theorem handleDriverEvent_handled {d : Driver σ} (hhalt : d.haltReason = none) (hd : Settled d)
    (event : DriverEvent) : Handled d.node.id d event (d.handleDriverEvent event) := by
  cases event with
  | tick => exact feed_handled hhalt hd rfl
  | inboundVote req => exact handleInboundVote_handled hhalt hd req
  | inboundPreVote req => exact handleInboundPreVote_handled hhalt hd req
  | inboundFetch req => exact handleInboundFetch_handled hhalt hd req
  | inboundFetchSnapshot req => exact handleInboundFetchSnapshot_handled hhalt hd req
  | voteResult peer response => exact feed_handled hhalt hd rfl
  | preVoteResult peer response => exact feed_handled hhalt hd rfl
  | fetchResult response => exact feed_handled hhalt hd rfl
  | fetchSnapshotResult peer clusterId epoch metadata data =>
    exact handleFetchSnapshotResult_handled hhalt hd _ _ _ _ _
  | client request command => exact handleClientCommand_handled hhalt hd request command
  | query request q => exact handleClientQuery_handled hd request q
  | triggerSnapshot request => exact handleTriggerSnapshot_handled hhalt hd request
  | snapshotCompleted => exact handleSnapshotCompleted_handled hhalt hd

theorem drainPendingReads_handled {d d' : Driver σ} {event : DriverEvent}
    (h : Handled self d event d') : Handled self d event d'.drainPendingReads := by
  obtain ⟨m, hmove, hran⟩ := h
  have hdrained : RanFrom self d m
      { d' with pendingReads := d'.pendingReads.filter (fun r => (d'.readVerdict r).isNone) } :=
    hran.congr (.refl _) rfl rfl rfl rfl
  refine ⟨m, hmove, hdrained.refuse (fun x hx => ?_)⟩
  obtain ⟨r, _, hx⟩ := List.mem_filterMap.mp hx
  obtain ⟨v, _, rfl⟩ := Option.map_eq_some_iff.mp hx
  trivial

/-- Every turn is one engine move and a lawful stretch of the journal. -/
theorem turn_handled {d : Driver σ} (hd : Settled d) (event : DriverEvent) :
    Handled d.node.id d event (d.turn event) := by
  unfold Driver.turn
  split_ifs with h₁
  · exact ⟨_, .stay _, ranFrom_refl hd⟩
  · have hhalt : d.haltReason = none := by simpa using h₁
    have hhandled := drainPendingReads_handled (handleDriverEvent_handled hhalt hd event)
    dsimp only
    split_ifs with h₂
    · obtain ⟨m, hmove, hran⟩ := hhandled
      exact ⟨m, hmove, ⟨failStopShutdown_ran hran.ran, hran.disk⟩⟩
    · exact hhandled

end Events

end DriverTurns
