import Xraft.ActionOutcomes

/-! # Outcomes of actions and batches

An action either takes place or breaks its batch. One relation says what an action that took place
leaves behind, and a batch is a sequence of these, up to the action that broke it.
-/
namespace BatchOutcomes

open ProtocolTypes ConsensusEngine DurableStores NodeDriver EngineTransitions GuardedExecution
open ApplyPipeline FaultFreeBatches PositionedLog BatchFootprints ActionOutcomes

variable {σ : Type} {d d' : Driver σ}

/-! ## Captures come last -/

def Captures : Action → Prop
  | .takeSnapshot _ | .serveFetch .. => True
  | _ => False

def Late (actions : List Action) : Prop := actions.Pairwise (fun a _ => ¬Captures a)

theorem captures_last {actions before after : List Action} {a : Action} (h : Late actions)
    (heq : actions = before ++ a :: after) : ∀ b ∈ before, ¬Captures b := by
  intro b hb
  rw [heq] at h
  exact (List.pairwise_append.mp h).2.2 b hb a List.mem_cons_self

theorem late_append {actions rest : List Action} (h : ∀ a ∈ actions, ¬Captures a)
    (hrest : Late rest) : Late (actions ++ rest) := by
  refine List.pairwise_append.mpr ⟨?_, hrest, fun a ha _ _ => h a ha⟩
  exact List.pairwise_of_forall_mem_list (fun a ha _ _ => h a ha)

theorem drainApplyPipeline_late (n : RaftNode) : Late n.drainApplyPipeline.2 := by
  have happly : ∀ a ∈ n.maybeApply.2, ¬Captures a := by
    intro a ha
    unfold RaftNode.maybeApply at ha
    split_ifs at ha
    · cases ha
    · rw [List.mem_singleton.mp ha]
      exact id
  have htake : Late n.maybeApply.1.maybeTakeSnapshot.2 := by
    unfold RaftNode.maybeTakeSnapshot
    dsimp only
    split_ifs
    · exact List.Pairwise.nil
    · exact List.pairwise_singleton _ _
    · exact List.Pairwise.nil
  exact late_append happly htake

theorem advanceCommit_late (n : RaftNode) : Late n.advanceCommit.2 := by
  unfold RaftNode.advanceCommit
  split
  · exact drainApplyPipeline_late _
  · exact List.Pairwise.nil

theorem handleFetchRequestAcked_late (n : RaftNode) (replica : NodeId) (confirmed : ℕ) :
    Late (n.handleFetchRequestAcked replica confirmed).2 := by
  unfold RaftNode.handleFetchRequestAcked
  split_ifs
  · exact List.Pairwise.nil
  · exact List.Pairwise.nil
  · exact advanceCommit_late _

def SameWorker (d d' : Driver σ) : Prop :=
  d'.snapshotJobs = d.snapshotJobs ∧ d'.snapshotWorkerInFlight = d.snapshotWorkerInFlight

theorem sequence_worker {did : Driver σ → Action → Driver σ → Prop}
    (hdid : ∀ {d d' : Driver σ} {a : Action}, did d a d' → ¬Captures a → SameWorker d d')
    {actions : List Action} (h : Sequence did d actions d')
    (hplain : ∀ a ∈ actions, ¬Captures a) : SameWorker d d' := by
  refine Sequence.rel (r := SameWorker) ?_ ?_ ?_ h
  · intro x
    exact ⟨rfl, rfl⟩
  · intro x y z hxy hyz
    exact ⟨hyz.1.trans hxy.1, hyz.2.trans hxy.2⟩
  · intro a ha x y hxy
    exact hdid hxy (hplain a ha)

/-! ## Actions -/

variable [StateMachine σ]

def Neutral : Action → Prop
  | .persistHardState | .becomeLeader | .sendMessage _ _ | .redirectToSnapshot .. => True
  | _ => False

/-- The log behind an installed snapshot: its own suffix when it agrees with the snapshot, and
nothing otherwise. -/
def behindSnapshot (s : MemoryLogStore) (metadata : SnapshotMeta) : MemoryLogStore :=
  let anchored := s.updateSnapshotAnchor metadata.lastIncludedTerm metadata.lastIncludedIndex
  if anchored.termAt metadata.lastIncludedIndex = some metadata.lastIncludedTerm
  then anchored.purgePrefix metadata.lastIncludedIndex
  else anchored.truncateFrom 1

def renamed (metadata : SnapshotMeta) : SnapshotMeta :=
  { metadata with id := canonicalId metadata.lastIncludedTerm metadata.lastIncludedIndex }

structure Installed (d : Driver σ) (metadata : SnapshotMeta) (data : Bytes) (d' : Driver σ) :
    Prop where
  newer : d.node.lastApplied < metadata.lastIncludedIndex
  after : ∃ store sm, d.snapshotStore.saveSnapshot metadata data = .ok store ∧
    StateMachine.restore d.stateMachine data = .ok sm ∧ Kept (Driver.mirrorLogTip { d with
      node := d.node.handleSnapshotInstalled (renamed metadata)
      logStore := behindSnapshot d.logStore metadata
      snapshotStore := store
      stateMachine := sm }) d'

inductive Did (d : Driver σ) : Action → Driver σ → Prop
  | neutral {a : Action} {d' : Driver σ} (neutral : Neutral a) (kept : Kept d d') : Did d a d'
  | stepDown {d' : Driver σ} (kept : Kept { d with pending := [] } d') : Did d .stepDown d'
  | append {entries : List Entry} {d' : Driver σ} (stored : entries.any Entry.isSnapshot = false)
      (kept : Kept { d with logStore := extend d.logStore entries } d') :
      Did d (.appendEntries entries) d'
  | cut {k : ℕ} {d' : Driver σ}
      (kept : Kept (Driver.mirrorLogTip { d with logStore := d.logStore.truncateFrom k }) d') :
      Did d (.truncateLog (.suffixFromInclusive k)) d'
  | purge {k : ℕ} {d' : Driver σ} (kept : Kept { d with logStore := d.logStore.purgePrefix k } d') :
      Did d (.truncateLog (.prefixThroughInclusive k)) d'
  | pipe {a : Action} {d' : Driver σ} (did : PipeDid d a d') : Did d a d'
  | covered {metadata : SnapshotMeta} {data : Bytes} {d' : Driver σ}
      (old : metadata.lastIncludedIndex ≤ d.node.lastApplied) (kept : Kept d d') :
      Did d (.installSnapshot metadata data) d'
  | install {metadata : SnapshotMeta} {data : Bytes} {d' : Driver σ}
      (installed : Installed d metadata data d') : Did d (.installSnapshot metadata data) d'
  | answered {dest : NodeId} {clusterId : String} {leaderEpoch : ℕ} {leaderId : NodeId}
      {highWatermark offset epoch : ℕ} {d' : Driver σ} (kept : Kept d d') :
      Did d (.serveFetch dest clusterId leaderEpoch leaderId highWatermark offset epoch) d'
  | acked {dest : NodeId} {clusterId : String} {leaderEpoch : ℕ} {leaderId : NodeId}
      {highWatermark offset epoch : ℕ} {mid d' : Driver σ} (kept : Kept d mid)
      (node : mid.node = d.node)
      (ran : Sequence PipeDid
        { mid with node := (mid.node.handleFetchRequestAcked dest (offset - 1)).1 }
        (mid.node.handleFetchRequestAcked dest (offset - 1)).2 d') :
      Did d (.serveFetch dest clusterId leaderEpoch leaderId highWatermark offset epoch) d'

/-- Why a batch cannot go on although nothing failed: it is always the pipeline. -/
def Stuck (d : Driver σ) : Action → Prop
  | .serveFetch dest _ _ _ _ offset _ => ∃ mid before a after d₁, Kept d mid ∧ mid.node = d.node ∧
      (mid.node.handleFetchRequestAcked dest (offset - 1)).2 = before ++ a :: after ∧
      Sequence PipeDid { mid with node := (mid.node.handleFetchRequestAcked dest (offset - 1)).1 }
        before d₁ ∧ PipeStuck d₁ a
  | a => PipeStuck d a

theorem runAppend_settles (nested : Nested σ) (origin : Option NodeId) (d : Driver σ)
    (c : CapturedResponse) (entries : List Entry) :
    Settles Did Stuck d (.appendEntries entries)
    (runAction nested origin d c (.appendEntries entries)) := by
  obtain ⟨hmark, hplain⟩ := appendLog_outcome d entries
  have habandon : ∀ {d₁ : Driver σ} (message : String), Hushed d d₁ →
      (d.faults = [] → Failure d₁) → Settles Did Stuck d (.appendEntries entries)
        (haltBatch (d₁.resolveWaiters (fun i => entries.any (fun e => e.index = i))
          (.error (.storage message))) c message) := by
    intro d₁ message ht hf
    have herr := resolveWaiters_error d₁ (fun i => entries.any (fun e => e.index = i))
      (.storage message)
    exact .inr ⟨rfl, broken_mute nofun (fun hnil _ => .inr ((hf hnil).mono herr.trace))
      ((ht.trans herr).congr rfl rfl)⟩
  unfold runAction runAppend
  dsimp only
  cases hs : entries.any Entry.isSnapshot with
  | true =>
    obtain ⟨hfail, htrace, hne⟩ := hmark hs
    rcases hr : d.appendLog entries with ⟨d₁, _ | e⟩ <;> rw [hr] at hfail htrace hne
    · exact absurd rfl hne
    · exact habandon _ htrace (fun _ => hfail)
  | false =>
    have hcall := hplain hs
    rcases hr : d.appendLog entries with ⟨d₁, _ | e⟩ <;> rw [hr] at hcall
    · have hkept := hcall.success rfl
      have hflush := flushLog_outcome d₁ False
      dsimp only
      rcases hr' : d₁.flushLog with ⟨d₂, _ | e⟩ <;> rw [hr'] at hflush
      · exact .inl ⟨rfl, .append hs (hkept.trans (hflush.success rfl))⟩
      · obtain ⟨hcause, htrace⟩ := hflush.failure e rfl
        have hushed : Hushed d d₁ := ⟨hkept.trace, hkept.jobs⟩
        refine habandon _ (hushed.trans htrace) (fun hnil => ?_)
        exact (hcause (hkept.faults hnil)).elim
    · obtain ⟨hcause, htrace⟩ := hcall.failure e rfl
      exact habandon _ htrace (fun hnil => (hcause hnil).elim)

theorem call_broken {target : Driver σ} {r : Driver σ × Option XRaftError} {a : Action}
    {e : XRaftError} (h : CallOutcome d target False r) (he : r.2 = some e) (c : CapturedResponse)
    (message : String) : Settles Did Stuck d a (haltBatch r.1 c message) := by
  obtain ⟨hcause, htrace⟩ := h.failure e he
  exact .inr ⟨rfl, broken_mute nofun (fun hnil _ => (hcause hnil).elim) (htrace.congr rfl rfl)⟩

theorem runTruncate_settles (nested : Nested σ) (origin : Option NodeId) (d : Driver σ)
    (c : CapturedResponse) (t : LogTruncation) :
    Settles Did Stuck d (.truncateLog t) (runAction nested origin d c (.truncateLog t)) := by
  cases t with
  | suffixFromInclusive k =>
    have hcall : CallOutcome d { d with logStore := d.logStore.truncateFrom k } False
        (d.truncateLog k) :=
      logWrite_outcome d (fun s => s.truncateFrom k) (.truncate k) trivial False
    unfold runAction runTruncate
    dsimp only
    rcases hr : d.truncateLog k with ⟨d₁, _ | e⟩ <;> rw [hr] at hcall
    · have hflush : CallOutcome d { d with logStore := d.logStore.truncateFrom k } False
          d₁.flushLog :=
        .flush (hcall.success rfl) id (hushed_same rfl rfl)
      dsimp only
      rcases hr' : d₁.flushLog with ⟨d₂, _ | e⟩ <;> rw [hr'] at hflush
      · exact .inl ⟨rfl, .cut (hflush.success rfl).mirrorLogTip⟩
      · exact call_broken hflush rfl c _
    · exact call_broken hcall rfl c _
  | prefixThroughInclusive k =>
    have hcall : CallOutcome d { d with logStore := d.logStore.purgePrefix k } False
        (d.purgeLog k) :=
      logWrite_outcome d (fun s => s.purgePrefix k) (.purge k) trivial False
    unfold runAction runTruncate
    dsimp only
    rcases hr : d.purgeLog k with ⟨d₁, _ | e⟩ <;> rw [hr] at hcall
    · have hflush : CallOutcome d { d with logStore := d.logStore.purgePrefix k } False
          d₁.flushLog :=
        .flush (hcall.success rfl) id (hushed_same rfl rfl)
      dsimp only
      rcases hr' : d₁.flushLog with ⟨d₂, _ | e⟩ <;> rw [hr'] at hflush
      · exact .inl ⟨rfl, .purge (hflush.success rfl)⟩
      · exact call_broken hflush rfl c _
    · exact call_broken hcall rfl c _

def restoredTo (d : Driver σ) (metadata : SnapshotMeta) (store : MemorySnapshotStore) (sm : σ) :
    Driver σ :=
  { d with
    logStore := d.logStore.updateSnapshotAnchor metadata.lastIncludedTerm metadata.lastIncludedIndex
    snapshotStore := store
    stateMachine := sm }

def InstallOutcome (d : Driver σ) (metadata : SnapshotMeta) (data : Bytes)
    (r : Driver σ × Option XRaftError) : Prop :=
  (r.2 = none ∧ (metadata.lastIncludedIndex ≤ d.node.lastApplied ∧ Kept d r.1 ∨
      Installed d metadata data r.1)) ∨
    (r.2 ≠ none ∧ Hushed d r.1 ∧ (d.faults = [] → Reliable σ → Failure r.1))

theorem call_install {metadata : SnapshotMeta} {data : Bytes} {target : Driver σ}
    {r : Driver σ × Option XRaftError} {e : XRaftError} (h : CallOutcome target d' False r)
    (he : r.2 = some e) (hfaults : d.faults = [] → target.faults = [])
    (htrace : Hushed d target) (e' : XRaftError) :
    InstallOutcome d metadata data (r.1, some e') := by
  obtain ⟨hcause, hlast⟩ := h.failure e he
  exact .inr ⟨nofun, htrace.trans hlast, fun hnil _ => (hcause (hfaults hnil)).elim⟩

theorem install_finishes {metadata : SnapshotMeta} {data : Bytes} {store : MemorySnapshotStore}
    {sm : σ} {d₃ : Driver σ} (hnew : d.node.lastApplied < metadata.lastIncludedIndex)
    (hstore : d.snapshotStore.saveSnapshot metadata data = .ok store)
    (hsm : StateMachine.restore d.stateMachine data = .ok sm)
    (hkept : Kept (restoredTo d metadata store sm) d₃) (f : MemoryLogStore → MemoryLogStore)
    (hf : behindSnapshot d.logStore metadata = f (restoredTo d metadata store sm).logStore)
    (effect : Effect) (hmute : Mute effect) (text text' : String) :
    InstallOutcome d metadata data
      (match d₃.durably (fun d => { d with logStore := f d.logStore }) effect .storeFailed with
      | (d₄, some e) => (d₄, some (.storage (text ++ e.display)))
      | (d₄, none) =>
        match d₄.flushLog with
        | (d', some e) => (d', some (.storage (text' ++ e.display)))
        | (d', none) => (Driver.mirrorLogTip { d' with
            node := d'.node.handleSnapshotInstalled (renamed metadata) }, none)) := by
  have hcut := logWrite_after hkept f effect hmute
  rcases hr : d₃.durably (fun d => { d with logStore := f d.logStore }) effect .storeFailed
    with ⟨d₄, _ | e⟩ <;> rw [hr] at hcut
  · have hflush : CallOutcome (restoredTo d metadata store sm) { restoredTo d metadata store sm with
        logStore := f (restoredTo d metadata store sm).logStore } False d₄.flushLog :=
      .flush (hcut.success rfl) id (hushed_same rfl rfl)
    dsimp only
    rcases hr' : d₄.flushLog with ⟨d₅, _ | e⟩ <;> rw [hr'] at hflush
    · refine .inl ⟨rfl, .inr ⟨hnew, store, sm, hstore, hsm, ?_⟩⟩
      rw [hf]
      exact (hflush.success rfl).installed (renamed metadata)
    · exact call_install (d := d) hflush rfl id (hushed_same rfl rfl) _
  · exact call_install (d := d) hcut rfl id (hushed_same rfl rfl) _

theorem handleInstallSnapshot_outcome (d : Driver σ) (metadata : SnapshotMeta) (data : Bytes) :
    InstallOutcome d metadata data (d.handleInstallSnapshot metadata data) := by
  unfold Driver.handleInstallSnapshot
  dsimp only
  by_cases hold : metadata.lastIncludedIndex ≤ d.node.lastApplied
  · rw [if_pos hold]
    exact .inl ⟨rfl, .inl ⟨hold, .refl d⟩⟩
  rw [if_neg hold]
  rcases saveSnapshot_outcome d metadata data with ⟨store, hstore, hsave⟩ | ⟨hfail, htrace, hne⟩
  swap
  · rcases hr : d.saveSnapshot metadata data with ⟨d₁, _ | e⟩ <;> rw [hr] at hfail htrace hne
    · exact absurd rfl hne
    · exact .inr ⟨nofun, htrace, fun _ _ => hfail⟩
  rcases hr : d.saveSnapshot metadata data with ⟨d₁, _ | e⟩ <;> rw [hr] at hsave
  swap
  · exact call_install hsave rfl id (hushed_same rfl rfl) _
  have hanchor := logWrite_after (hsave.success rfl)
    (fun s => s.updateSnapshotAnchor metadata.lastIncludedTerm metadata.lastIncludedIndex)
    (.anchor metadata.lastIncludedTerm metadata.lastIncludedIndex) trivial
  dsimp only
  rcases hr : d₁.anchorLog metadata.lastIncludedTerm metadata.lastIncludedIndex with ⟨d₂, _ | e⟩ <;>
    rw [← Driver.anchorLog, hr] at hanchor
  swap
  · exact call_install (d := d) hanchor rfl id (hushed_same rfl rfl) _
  have hkept := hanchor.success rfl
  have hstate : d₂.stateMachine = d.stateMachine := hkept.stateMachine
  have htrace : Hushed d d₂ := ⟨hkept.trace, hkept.jobs⟩
  dsimp only
  rcases hsm : StateMachine.restore d₂.stateMachine data with e | sm
  · refine .inr ⟨nofun, htrace, fun _ hrel => ?_⟩
    obtain ⟨sm, hsm'⟩ := hrel.restore d₂.stateMachine data
    rw [hsm'] at hsm
    cases hsm
  rw [hstate] at hsm
  have hrestored : Kept (restoredTo d metadata store sm)
      (Driver.afterCall { d₂ with stateMachine := sm }) := by
    have hset : Kept (restoredTo d metadata store sm) { d₂ with stateMachine := sm } :=
      ⟨⟨hkept.node, hkept.logStore, hkept.snapshotStore, rfl, hkept.pending, hkept.inFlight,
        hkept.jobs, hkept.done, hkept.halt, hkept.faults⟩, hkept.trace⟩
    exact hset.trans (kept_afterCall _)
  have hlog : d₂.logStore = (restoredTo d metadata store sm).logStore := hkept.logStore
  dsimp only
  rcases hfault : Driver.nextFault { d₂ with stateMachine := sm } with _ | f
  swap
  · refine .inr ⟨nofun, htrace.congr rfl rfl, fun hnil _ => ?_⟩
    have hnone : d₂.faults = [] := hkept.faults hnil
    rw [nextFault_none (by exact hnone)] at hfault
    cases hfault
  dsimp only
  split_ifs with hagree
  · rw [hlog] at hagree
    exact install_finishes (not_le.mp hold) hstore hsm hrestored
      (fun s => s.purgePrefix metadata.lastIncludedIndex) (if_pos hagree)
      (.purge metadata.lastIncludedIndex) trivial _ _
  · rw [hlog] at hagree
    exact install_finishes (not_le.mp hold) hstore hsm hrestored (fun s => s.truncateFrom 1)
      (if_neg hagree) (.truncate 1) trivial _ _

theorem PipeDid.worker {a : Action} (h : PipeDid d a d') (ha : ¬Captures a) : SameWorker d d' := by
  cases h with
  | apply _ applied =>
    obtain ⟨⟨_, _, hframe⟩, -⟩ := applied
    exact ⟨hframe.jobs, hframe.inFlight⟩
  | take _ => exact absurd trivial ha

theorem runServeFetch_settles (origin : Option NodeId) (d : Driver σ) (c : CapturedResponse)
    (dest : NodeId) (clusterId : String) (leaderEpoch : ℕ) (leaderId : NodeId)
    (highWatermark offset epoch : ℕ) (hhalt : d.haltReason = none) :
    Settles Did Stuck d
      (.serveFetch dest clusterId leaderEpoch leaderId highWatermark offset epoch)
      (runServeFetch processAcked origin d c dest clusterId leaderEpoch leaderId
        highWatermark offset epoch) := by
  obtain ⟨fs, hread⟩ :=
    (ActionBatches.materializeFetchResponse_reads d clusterId leaderEpoch leaderId highWatermark
      offset epoch).driver
  have hfaults := materializeFetchResponse_faults d clusterId leaderEpoch leaderId highWatermark
    offset epoch
  unfold runServeFetch
  rcases hr : d.materializeFetchResponse clusterId leaderEpoch leaderId highWatermark offset epoch
    with ⟨d', e | resp⟩ <;> rw [hr] at hread hfaults <;> dsimp only at hread hfaults ⊢ <;>
    subst hread
  · exact .inl ⟨rfl, .answered (kept_faults hfaults)⟩
  · obtain ⟨hgo, hnode, hsent⟩ := sendOrCapture_kept origin { d with faults := fs } c dest
      (.fetchResponse resp)
    have hkept := (kept_faults hfaults).trans hsent
    generalize sendOrCapture origin { d with faults := fs } c dest (.fetchResponse resp) = sent
      at hgo hnode hkept ⊢
    split_ifs
    swap
    · exact .inl ⟨hgo, .answered hkept⟩
    have happlies := handleFetchRequestAcked_applies sent.driver.node dest (offset - 1)
    have hinner := runActions_settles (P := fun _ => True) (fun d _ _ => (d, {})) origin
      (fun a ha d c _ => runAction_pipe (fun d _ _ => (d, {})) origin d c (happlies a ha))
      (fun _ _ _ _ _ => trivial) (d := { sent.driver with
        node := (sent.driver.node.handleFetchRequestAcked dest (offset - 1)).1 }) trivial {}
    have hstart : sent.driver.haltReason = none := hkept.halt.trans hhalt
    rcases hinner with hseq | ⟨before, a, after, d₁, heq, hseq, hbad⟩
    · refine .inl ⟨?_, .acked hkept hnode hseq⟩
      have hnone := (pumped_of_sequence hseq).halt.trans hstart
      exact Option.isSome_eq_false_iff.mpr (Option.isNone_iff_eq_none.mpr hnone)
    · have hpumped := pumped_of_sequence hseq
      refine .inr ⟨Option.isSome_iff_ne_none.mpr hbad.halt, hbad.halt, fun hnil hrel => ?_, ?_,
        fun hquiet => absurd trivial hquiet, ?_⟩
      · refine (hbad.cause (hpumped.faults (hkept.faults hnil)) hrel).imp_left (fun hstuck => ?_)
        exact ⟨sent.driver, before, a, after, d₁, hkept, hnode, heq, hseq, hstuck⟩
      · obtain ⟨w, hw, hmute⟩ := hkept.trace
        obtain ⟨w₁, hw₁, hconf₁⟩ := hpumped.trace
        obtain ⟨w₂, hw₂, hconf₂⟩ := hbad.trace
        have hconf := (hconf₁.trans hconf₂ hpumped.logStore hpumped.pending)
        have hstill : Confirms sent.driver sent.driver.logStore.entries (w₁ ++ w₂) := hconf
        have hall : Confirms d d.logStore.entries (w ++ (w₁ ++ w₂)) :=
          (confirms_mute hmute).trans hstill hkept.logStore (fun x hx => hkept.pending ▸ hx)
        refine ⟨w ++ (w₁ ++ w₂), hw₂.trans ?_, hall⟩
        have hsent : sent.driver.trace = d.trace ++ w := hw
        rw [hw₁, hsent, List.append_assoc, List.append_assoc]
      · have hsame := sequence_worker PipeDid.worker hseq
          (captures_last (handleFetchRequestAcked_late sent.driver.node dest (offset - 1)) heq)
        exact hbad.jobs.trans (hsame.1.trans hkept.jobs)

/-- Every action of a running driver takes place or breaks its batch. -/
theorem runAction_settles (origin : Option NodeId) (d : Driver σ) (c : CapturedResponse)
    (a : Action) (hhalt : d.haltReason = none) :
    Settles Did Stuck d a (runAction processAcked origin d c a) := by
  cases a with
  | persistHardState =>
    have hcall := persistHardState_outcome d False
    unfold runAction
    rcases hr : d.persistHardState with ⟨d', _ | e⟩ <;> rw [hr] at hcall
    · exact .inl ⟨rfl, .neutral trivial (hcall.success rfl)⟩
    · exact call_broken hcall rfl c _
  | appendEntries entries => exact runAppend_settles processAcked origin d c entries
  | sendMessage dest m =>
    obtain ⟨hgo, -, hkept⟩ := sendOrCapture_kept origin d c dest m
    exact .inl ⟨hgo, .neutral trivial hkept⟩
  | applyToStateMachine first last =>
    rcases runAction_pipe processAcked origin d c (a := .applyToStateMachine first last) trivial
      with ⟨hgo, hdid⟩ | ⟨hbroke, hbad⟩
    · exact .inl ⟨hgo, .pipe hdid⟩
    · exact .inr ⟨hbroke, hbad.halt, hbad.cause, hbad.trace, hbad.quiet, hbad.jobs⟩
  | takeSnapshot through =>
    rcases runAction_pipe processAcked origin d c (a := .takeSnapshot through) trivial
      with ⟨hgo, hdid⟩ | ⟨hbroke, hbad⟩
    · exact .inl ⟨hgo, .pipe hdid⟩
    · exact .inr ⟨hbroke, hbad.halt, hbad.cause, hbad.trace, hbad.quiet, hbad.jobs⟩
  | installSnapshot metadata data =>
    have hinstall := handleInstallSnapshot_outcome d metadata data
    unfold runAction
    dsimp only
    rcases hr : d.handleInstallSnapshot metadata data with ⟨d', _ | e⟩ <;> rw [hr] at hinstall
    · rcases hinstall with ⟨-, ⟨hold, hkept⟩ | hinstalled⟩ | ⟨hne, -⟩
      · exact .inl ⟨rfl, .covered hold hkept⟩
      · exact .inl ⟨rfl, .install hinstalled⟩
      · exact absurd rfl hne
    · rcases hinstall with ⟨hnone, -⟩ | ⟨-, htrace, hcause⟩
      · cases hnone
      · have htraced : Traced Mute d' (d'.halt ("snapshot install failed: " ++ e.display)) :=
          traced_same rfl
        exact .inr ⟨rfl, broken_mute nofun
          (fun hnil hrel => .inr ((hcause hnil hrel).mono htraced)) (htrace.congr rfl rfl)⟩
  | becomeLeader => exact .inl ⟨rfl, .neutral trivial (.refl d)⟩
  | stepDown =>
    refine .inl ⟨rfl, .stepDown ⟨⟨rfl, rfl, rfl, rfl, rfl, rfl, rfl, rfl, rfl, id⟩, _, rfl,
      fun x hx => ?_⟩⟩
    rcases List.mem_append.mp hx with hx | hx
    · obtain ⟨_, _, rfl⟩ := List.mem_map.mp hx
      trivial
    · obtain ⟨_, _, rfl⟩ := List.mem_map.mp hx
      trivial
  | serveFetch dest clusterId leaderEpoch leaderId highWatermark offset epoch =>
    exact runServeFetch_settles origin d c dest clusterId leaderEpoch leaderId highWatermark offset
      epoch hhalt
  | redirectToSnapshot dest clusterId leaderEpoch leaderId highWatermark snap =>
    obtain ⟨hgo, -, hkept⟩ := sendOrCapture_kept origin d c dest (.fetchResponse
      ⟨clusterId, leaderEpoch, leaderId, highWatermark, [], none,
        some ⟨snap.id, snap.lastIncludedIndex, snap.lastIncludedTerm⟩, true⟩)
    exact .inl ⟨hgo, .neutral trivial hkept⟩
  | truncateLog t => exact runTruncate_settles processAcked origin d c t

theorem Did.halt {a : Action} (h : Did d a d') : d'.haltReason = d.haltReason := by
  cases h with
  | neutral _ kept => exact kept.halt
  | stepDown kept => exact kept.halt
  | append _ kept => exact kept.halt
  | cut kept => exact kept.halt
  | purge kept => exact kept.halt
  | pipe did => exact did.pumped.halt
  | covered _ kept => exact kept.halt
  | install installed =>
    obtain ⟨_, _, _, _, kept⟩ := installed.after
    exact kept.halt
  | answered kept => exact kept.halt
  | acked kept node ran => exact (pumped_of_sequence ran).halt.trans kept.halt

/-- A batch of a running driver takes place as a whole, or up to the action that broke it. -/
theorem processActions_settles (d : Driver σ) (actions : List Action) (origin : Option NodeId)
    (hhalt : d.haltReason = none) :
    (Sequence Did d actions (d.processActions actions origin).1 ∧
        (d.processActions actions origin).1.haltReason = none) ∨
      ∃ before a after d₁, actions = before ++ a :: after ∧ Sequence Did d before d₁ ∧
        Broken Stuck d₁ a (d.processActions actions origin).1 := by
  have hsettles : ∀ a ∈ actions, ∀ (x : Driver σ) c, x.haltReason = none →
      Settles Did Stuck x a (runAction processAcked origin x c a) :=
    fun a _ x c hx => runAction_settles origin x c a hx
  have hruns :=
    runActions_settles (P := fun x : Driver σ => x.haltReason = none) processAcked origin hsettles
    (fun _ _ _ hdid hd => hdid.halt.trans hd) hhalt {}
  refine hruns.imp_left (fun hseq => ⟨hseq, ?_⟩)
  have hsame : (d.processActions actions origin).1.haltReason = d.haltReason := by
    refine Sequence.rel (r := fun x y : Driver σ => y.haltReason = x.haltReason) ?_ ?_ ?_ hseq
    · exact fun _ => rfl
    · intro x y z hxy hyz
      exact hyz.trans hxy
    · exact fun _ _ _ _ hdid => hdid.halt
  exact hsame.trans hhalt

end BatchOutcomes
