import Xraft.BatchFootprints

/-! # Outcomes of store calls and of the apply pipeline

A call either takes place or fails. What it then leaves behind is stated relative to a target
driver; of a failure we keep which proposals were still confirmed, and why it happened although no
store failed.
-/
namespace ActionOutcomes

open ProtocolTypes ConsensusEngine DurableStores NodeDriver EngineTransitions GuardedExecution
open ApplyPipeline FaultFreeBatches PositionedLog BatchFootprints

variable {σ : Type}

def Mute : Effect → Prop
  | .apply _ => False
  | .clientReply _ (.ok _) => False
  | _ => True

/-- The part of a driver that its log, its state machine and its snapshots depend on. -/
structure Frame (d d' : Driver σ) : Prop where
  node : core d'.node = core d.node
  logStore : d'.logStore = d.logStore
  snapshotStore : d'.snapshotStore = d.snapshotStore
  stateMachine : d'.stateMachine = d.stateMachine
  pending : d'.pending = d.pending
  inFlight : d'.snapshotWorkerInFlight = d.snapshotWorkerInFlight
  jobs : d'.snapshotJobs = d.snapshotJobs
  done : d'.snapshotDone = d.snapshotDone
  halt : d'.haltReason = d.haltReason
  faults : d.faults = [] → d'.faults = []

structure Kept (d d' : Driver σ) : Prop extends Frame d d' where
  trace : Traced Mute d d'

variable {d d' d'' : Driver σ}

theorem Frame.refl (d : Driver σ) : Frame d d := ⟨rfl, rfl, rfl, rfl, rfl, rfl, rfl, rfl, rfl, id⟩

theorem Frame.trans (h : Frame d d') (h' : Frame d' d'') : Frame d d'' where
  node := h'.node.trans h.node
  logStore := h'.logStore.trans h.logStore
  snapshotStore := h'.snapshotStore.trans h.snapshotStore
  stateMachine := h'.stateMachine.trans h.stateMachine
  pending := h'.pending.trans h.pending
  inFlight := h'.inFlight.trans h.inFlight
  jobs := h'.jobs.trans h.jobs
  done := h'.done.trans h.done
  halt := h'.halt.trans h.halt
  faults := fun hf => h'.faults (h.faults hf)

theorem Kept.refl (d : Driver σ) : Kept d d := ⟨.refl d, .refl d⟩

theorem Kept.trans (h : Kept d d') (h' : Kept d' d'') : Kept d d'' :=
  ⟨h.toFrame.trans h'.toFrame, h.trace.trans h'.trace⟩

/-- What a failed call leaves: it confirms nothing and queues no snapshot. -/
structure Hushed (d d' : Driver σ) : Prop where
  trace : Traced Mute d d'
  jobs : d'.snapshotJobs = d.snapshotJobs

theorem Hushed.trans (h : Hushed d d') (h' : Hushed d' d'') : Hushed d d'' :=
  ⟨h.trace.trans h'.trace, h'.jobs.trans h.jobs⟩

theorem Hushed.congr (h : Hushed d d') (trace : d''.trace = d'.trace)
    (jobs : d''.snapshotJobs = d'.snapshotJobs) : Hushed d d'' :=
  ⟨h.trace.congr trace, jobs.trans h.jobs⟩

theorem hushed_same (trace : d'.trace = d.trace) (jobs : d'.snapshotJobs = d.snapshotJobs) :
    Hushed d d' := ⟨traced_same trace, jobs⟩

theorem Kept.hushed (h : Kept d d') : Hushed d d' := ⟨h.trace, h.jobs⟩

theorem kept_emit {w : List Effect} (hw : ∀ x ∈ w, Mute x) : Kept d (d.emit w) :=
  ⟨⟨rfl, rfl, rfl, rfl, rfl, rfl, rfl, rfl, rfl, id⟩, w, rfl, hw⟩

theorem kept_afterCall (d : Driver σ) : Kept d d.afterCall := by
  refine ⟨⟨rfl, rfl, rfl, rfl, rfl, rfl, rfl, rfl, rfl, fun h => ?_⟩, traced_same rfl⟩
  rw [Driver.afterCall, h]
  rfl

theorem kept_faults {fs : List (Option Fault)} (h : d.faults = [] → fs = []) :
    Kept d { d with faults := fs } :=
  ⟨⟨rfl, rfl, rfl, rfl, rfl, rfl, rfl, rfl, rfl, h⟩, traced_same rfl⟩

/-! ## Store calls -/

def Failure (d : Driver σ) : Prop :=
  ∃ e, Effect.storeFailed e ∈ d.trace ∨ Effect.snapshotFailed e ∈ d.trace

theorem Failure.mono {p : Effect → Prop} (h : Failure d) (ht : Traced p d d') : Failure d' := by
  obtain ⟨e, he⟩ := h
  obtain ⟨w, hw, -⟩ := ht
  refine ⟨e, ?_⟩
  rw [hw]
  exact he.imp (List.mem_append_left _) (List.mem_append_left _)

/-- A durable write that succeeded has taken place; one that failed confirms nothing, and it failed
because the device did. -/
theorem durably_outcome (d : Driver σ) (write : Driver σ → Driver σ) (effect : Effect)
    (failed : XRaftError → Effect) (hw : Kept (write d) (write d.afterCall)) (he : Mute effect)
    (hf : ∀ e, Mute (failed e)) (htrace : (write d.afterCall).trace = d.trace)
    (hjobs : (write d.afterCall).snapshotJobs = d.snapshotJobs) :
    ((d.durably write effect failed).2 = none →
      Kept (write d) (d.durably write effect failed).1) ∧
    (∀ e, (d.durably write effect failed).2 = some e →
      d.faults ≠ [] ∧ Hushed d (d.durably write effect failed).1) := by
  have hfault : ∀ f, d.nextFault = some f → d.faults ≠ [] := by
    intro f hf hnil
    rw [nextFault_none hnil] at hf
    cases hf
  unfold Driver.durably
  rcases hn : d.nextFault with _ | f
  · refine ⟨fun _ => hw.trans (kept_emit (by simpa using he)), nofun⟩
  · dsimp only
    split_ifs
    · refine ⟨nofun, fun e _ => ⟨hfault f hn, ⟨[effect, failed f.error], ?_, ?_⟩, hjobs⟩⟩
      · exact congrArg (· ++ [effect, failed f.error]) htrace
      · simpa using ⟨he, hf f.error⟩
    · exact ⟨nofun,
        fun e _ => ⟨hfault f hn, ⟨[failed f.error], rfl, by simpa using hf f.error⟩, rfl⟩⟩

structure CallOutcome {ε : Type} (d target : Driver σ) (cause : Prop) (r : Driver σ × Option ε) :
    Prop where
  success : r.2 = none → Kept target r.1
  failure : ∀ e, r.2 = some e → (d.faults = [] → cause) ∧ Hushed d r.1

theorem CallOutcome.of_durably (write : Driver σ → Driver σ) (effect : Effect)
    (failed : XRaftError → Effect) (hw : Kept (write d) (write d.afterCall)) (he : Mute effect)
    (hf : ∀ e, Mute (failed e)) (htrace : (write d.afterCall).trace = d.trace)
    (hjobs : (write d.afterCall).snapshotJobs = d.snapshotJobs) (cause : Prop) :
    CallOutcome d (write d) cause (d.durably write effect failed) := by
  obtain ⟨hs, hfail⟩ := durably_outcome d write effect failed hw he hf htrace hjobs
  exact ⟨hs, fun e h => ⟨fun hnil => absurd hnil (hfail e h).1, (hfail e h).2⟩⟩

theorem persistHardState_outcome (d : Driver σ) (cause : Prop) :
    CallOutcome d d cause d.persistHardState := by
  have h := CallOutcome.of_durably (d := d.clampCommit)
    (fun d => { d with hsStore := some d.node.hardState }) (.persist d.clampCommit.node.hardState)
    .storeFailed ⟨⟨rfl, rfl, rfl, rfl, rfl, rfl, rfl, rfl, rfl,
      (kept_afterCall d.clampCommit).faults⟩, traced_same rfl⟩ trivial (fun _ => trivial) rfl rfl
    cause
  refine ⟨fun hs => ?_, fun e he => ?_⟩
  · have hk := h.success hs
    exact ⟨⟨hk.node, hk.logStore, hk.snapshotStore, hk.stateMachine, hk.pending, hk.inFlight,
      hk.jobs, hk.done, hk.halt, hk.faults⟩, hk.trace⟩
  · obtain ⟨hcause, hushed⟩ := h.failure e he
    exact ⟨hcause, hushed.trace, hushed.jobs⟩

theorem logWrite_outcome (d : Driver σ) (f : MemoryLogStore → MemoryLogStore) (effect : Effect)
    (he : Mute effect) (cause : Prop) :
    CallOutcome d { d with logStore := f d.logStore } cause
      (d.durably (fun d => { d with logStore := f d.logStore }) effect .storeFailed) :=
  .of_durably (fun d => { d with logStore := f d.logStore }) effect .storeFailed
    ⟨⟨rfl, rfl, rfl, rfl, rfl, rfl, rfl, rfl, rfl, (kept_afterCall d).faults⟩, traced_same rfl⟩ he
    (fun _ => trivial) rfl rfl cause

theorem flushLog_outcome (d : Driver σ) (cause : Prop) : CallOutcome d d cause d.flushLog :=
  .of_durably (fun d => d) .flush .storeFailed (kept_afterCall d) trivial (fun _ => trivial) rfl rfl
    cause

/-- Entries with a compaction marker are refused by the store itself. -/
theorem appendLog_outcome (d : Driver σ) (entries : List Entry) :
    (entries.any Entry.isSnapshot = true → Failure (d.appendLog entries).1 ∧
      Hushed d (d.appendLog entries).1 ∧ (d.appendLog entries).2 ≠ none) ∧
    (entries.any Entry.isSnapshot = false → CallOutcome d
      { d with logStore := extend d.logStore entries } False (d.appendLog entries)) := by
  unfold Driver.appendLog MemoryLogStore.append
  constructor
  · intro hmark
    rw [if_pos hmark]
    exact ⟨⟨_, .inl (List.mem_append_right _ (List.mem_singleton_self _))⟩,
      (kept_emit (by simp [Mute])).hushed, nofun⟩
  · intro hplain
    rw [if_neg (by rw [hplain]; exact Bool.false_ne_true)]
    exact logWrite_outcome d (fun _ => extend d.logStore entries) (.append entries) trivial False

theorem saveSnapshot_outcome (d : Driver σ) (metadata : SnapshotMeta) (data : Bytes) :
    (∃ store, d.snapshotStore.saveSnapshot metadata data = .ok store ∧
      CallOutcome d { d with snapshotStore := store } False (d.saveSnapshot metadata data)) ∨
    Failure (d.saveSnapshot metadata data).1 ∧ Hushed d (d.saveSnapshot metadata data).1 ∧
      (d.saveSnapshot metadata data).2 ≠ none := by
  unfold Driver.saveSnapshot
  rcases d.snapshotStore.saveSnapshot metadata data with e | store
  · exact .inr ⟨⟨_, .inr (List.mem_append_right _ (List.mem_singleton_self _))⟩,
      (kept_emit (by simp [Mute])).hushed, nofun⟩
  · exact .inl ⟨store, rfl, .of_durably (fun d => { d with snapshotStore := store })
      (.saveSnapshot metadata) .snapshotFailed
      ⟨⟨rfl, rfl, rfl, rfl, rfl, rfl, rfl, rfl, rfl, (kept_afterCall d).faults⟩, traced_same rfl⟩
      trivial (fun _ => trivial) rfl rfl False⟩

theorem CallOutcome.flush {target d₁ : Driver σ} (hkept : Kept target d₁)
    (hfaults : d.faults = [] → target.faults = []) (htrace : Hushed d target) :
    CallOutcome d target False d₁.flushLog := by
  have hflush := flushLog_outcome d₁ False
  refine ⟨fun h => hkept.trans (hflush.success h), fun e he => ?_⟩
  obtain ⟨hcause, hlast⟩ := hflush.failure e he
  exact ⟨fun hnil => hcause (hkept.faults (hfaults hnil)), htrace.trans (hkept.hushed.trans hlast)⟩

theorem Kept.mirrorLogTip (h : Kept d d') : Kept d.mirrorLogTip d'.mirrorLogTip := by
  have hmeta : (core d'.node).lastSnapshotMeta = (core d.node).lastSnapshotMeta :=
    congrArg RaftNode.lastSnapshotMeta h.node
  have htip : d'.effectiveLogTip = d.effectiveLogTip := by
    unfold Driver.effectiveLogTip
    rw [h.logStore, show d'.node.lastSnapshotMeta = d.node.lastSnapshotMeta from hmeta]
  refine ⟨⟨?_, h.logStore, h.snapshotStore, h.stateMachine, h.pending, h.inFlight, h.jobs, h.done,
    h.halt, h.faults⟩, h.trace⟩
  show core (d'.node.setLastLog d'.effectiveLogTip.1 d'.effectiveLogTip.2) = _
  rw [htip]
  exact congrArg (fun n => RaftNode.setLastLog n _ _) h.node

theorem logWrite_after (h : Kept d d') (f : MemoryLogStore → MemoryLogStore) (effect : Effect)
    (he : Mute effect) : CallOutcome d { d with logStore := f d.logStore } False
      (d'.durably (fun d => { d with logStore := f d.logStore }) effect .storeFailed) := by
  have hcall := logWrite_outcome d' f effect he False
  refine ⟨fun hs => ?_, fun e hs => ?_⟩
  · have hk := hcall.success hs
    refine ⟨⟨hk.node.trans h.node, ?_, hk.snapshotStore.trans h.snapshotStore,
      hk.stateMachine.trans h.stateMachine, hk.pending.trans h.pending,
      hk.inFlight.trans h.inFlight, hk.jobs.trans h.jobs, hk.done.trans h.done,
      hk.halt.trans h.halt, fun hnil => hk.faults (h.faults hnil)⟩, h.trace.trans hk.trace⟩
    rw [hk.logStore]
    exact congrArg f h.logStore
  · obtain ⟨hcause, htrace⟩ := hcall.failure e hs
    exact ⟨fun hnil => hcause (h.faults hnil), h.hushed.trans htrace⟩

theorem core_handleSnapshotInstalled (n : RaftNode) (metadata : SnapshotMeta) :
    core (n.handleSnapshotInstalled metadata) = (core n).handleSnapshotInstalled metadata := rfl

theorem Kept.installed (h : Kept d d') (metadata : SnapshotMeta) :
    Kept (Driver.mirrorLogTip { d with node := d.node.handleSnapshotInstalled metadata })
      (Driver.mirrorLogTip { d' with node := d'.node.handleSnapshotInstalled metadata }) := by
  apply Kept.mirrorLogTip
  refine ⟨⟨?_, h.logStore, h.snapshotStore, h.stateMachine, h.pending, h.inFlight, h.jobs, h.done,
    h.halt, h.faults⟩, h.trace⟩
  rw [core_handleSnapshotInstalled, h.node, ← core_handleSnapshotInstalled]

theorem sendOrCapture_kept (origin : Option NodeId) (d : Driver σ) (c : CapturedResponse)
    (dest : NodeId) (m : OutboundMessage) :
    (sendOrCapture origin d c dest m).broke = false ∧
      (sendOrCapture origin d c dest m).driver.node = d.node ∧
      Kept d (sendOrCapture origin d c dest m).driver := by
  have hrouted : Kept d (d.emit [.dispatch dest m]) := kept_emit (by simp [Mute])
  unfold sendOrCapture
  dsimp only
  by_cases horigin : some dest ≠ origin
  · rw [if_pos horigin]
    exact ⟨rfl, rfl, hrouted⟩
  · rw [if_neg horigin]
    cases m with
    | voteResponse | preVoteResponse | fetchResponse =>
      dsimp only
      split_ifs
      · exact ⟨rfl, rfl, .refl d⟩
      · exact ⟨rfl, rfl, hrouted⟩
    | _ => exact ⟨rfl, rfl, hrouted⟩

theorem materializeFetchResponse_faults (d : Driver σ) (clusterId : String) (leaderEpoch : ℕ)
    (leaderId : NodeId) (highWatermark offset epoch : ℕ) (h : d.faults = []) :
    (d.materializeFetchResponse clusterId leaderEpoch leaderId highWatermark offset
      epoch).1.faults = [] := by
  have hcall : ∀ x : Driver σ, x.faults = [] → x.afterCall.faults = [] :=
    fun x hx => (kept_afterCall x).faults hx
  have hread : ∀ (x : Driver σ) (blank : FetchResponse), x.faults = [] →
      (x.readBatch blank offset).1.faults = [] := by
    intro x blank hx
    unfold Driver.readBatch
    dsimp only
    split <;> exact hcall x hx
  have hanswer : ∀ (x : Driver σ) (blank : FetchResponse) (actual : Option ℕ), x.faults = [] →
      (x.answerFrom blank offset epoch actual).1.faults = [] := by
    intro x blank actual hx
    have hdiverge : (x.divergingEpoch actual epoch).1.faults = [] := by
      unfold Driver.divergingEpoch Driver.lookupEpochEnd
      dsimp only
      split_ifs
      · exact hx
      · rcases x.nextFault with _ | f
        · dsimp only
          split <;> exact hcall x hx
        · exact hcall x hx
    unfold Driver.answerFrom
    split
    · rename_i x' _ heq
      rw [heq] at hdiverge
      exact hdiverge
    · rename_i x' heq
      rw [heq] at hdiverge
      exact hread x' _ hdiverge
  unfold Driver.materializeFetchResponse
  dsimp only
  split
  · exact h
  · split_ifs
    · exact hread d _ h
    · split
      · exact hanswer d _ _ h
      · split
        · exact hcall d h
        · exact hanswer _ _ _ (hcall d h)

/-! ## Applying entries -/

def applications (w : List Effect) : List Entry :=
  w.filterMap (fun x => match x with
    | .apply e => some e
    | _ => none)

theorem applications_append (w w' : List Effect) :
    applications (w ++ w') = applications w ++ applications w' := List.filterMap_append

theorem applications_mute {w : List Effect} (h : ∀ x ∈ w, Mute x) : applications w = [] := by
  rw [applications, List.filterMap_eq_nil_iff]
  intro x hx
  cases x with
  | apply e => exact (h _ hx).elim
  | _ => rfl

/-- Every proposal confirmed was waiting, and an entry of `entries` was applied at its index. -/
def Confirms (d : Driver σ) (entries : List Entry) (w : List Effect) : Prop :=
  ∀ r i, Effect.clientReply r (.ok i) ∈ w →
    (i, r) ∈ d.pending ∧ ∃ e ∈ entries, e.index = i ∧ Effect.apply e ∈ w

theorem confirms_mute {entries : List Entry} {w : List Effect} (h : ∀ x ∈ w, Mute x) :
    Confirms d entries w := fun _ _ hmem => (h _ hmem).elim

theorem resolveWaiters_error (d : Driver σ) (due : ℕ → Bool) (e : XRaftError) :
    Hushed d (d.resolveWaiters due (.error e)) := by
  refine ⟨⟨_, rfl, fun x hx => ?_⟩, rfl⟩
  obtain ⟨w, _, rfl⟩ := List.mem_map.mp hx
  trivial

structure Pumped (d d' : Driver σ) : Prop where
  node : core d'.node = core d.node
  logStore : d'.logStore = d.logStore
  snapshotStore : d'.snapshotStore = d.snapshotStore
  done : d'.snapshotDone = d.snapshotDone
  halt : d'.haltReason = d.haltReason
  faults : d.faults = [] → d'.faults = []
  pending : ∀ w ∈ d'.pending, w ∈ d.pending
  trace : ∃ w, d'.trace = d.trace ++ w ∧ Confirms d d.logStore.entries w

theorem Confirms.trans {w w' : List Effect} (h : Confirms d d.logStore.entries w)
    (h' : Confirms d' d'.logStore.entries w') (log : d'.logStore = d.logStore)
    (pending : ∀ x ∈ d'.pending, x ∈ d.pending) : Confirms d d.logStore.entries (w ++ w') := by
  intro r i hmem
  rcases List.mem_append.mp hmem with hmem | hmem
  · obtain ⟨hp, e, he, hi, ha⟩ := h r i hmem
    exact ⟨hp, e, he, hi, List.mem_append_left _ ha⟩
  · obtain ⟨hp, e, he, hi, ha⟩ := h' r i hmem
    exact ⟨pending _ hp, e, log ▸ he, hi, List.mem_append_right _ ha⟩

theorem Pumped.refl (d : Driver σ) : Pumped d d :=
  ⟨rfl, rfl, rfl, rfl, rfl, id, fun _ h => h, [], (List.append_nil _).symm, nofun⟩

theorem Pumped.trans (h : Pumped d d') (h' : Pumped d' d'') : Pumped d d'' := by
  obtain ⟨w, hw, hconf⟩ := h.trace
  obtain ⟨w', hw', hconf'⟩ := h'.trace
  refine ⟨h'.node.trans h.node, h'.logStore.trans h.logStore,
    h'.snapshotStore.trans h.snapshotStore, h'.done.trans h.done, h'.halt.trans h.halt,
    fun hnil => h'.faults (h.faults hnil), fun x hx => h.pending x (h'.pending x hx), w ++ w',
    by rw [hw', hw, List.append_assoc], hconf.trans hconf' h.logStore h.pending⟩

theorem Kept.pumped (h : Kept d d') : Pumped d d' := by
  obtain ⟨w, hw, hmute⟩ := h.trace
  exact ⟨h.node, h.logStore, h.snapshotStore, h.done, h.halt, h.faults,
    fun x hx => h.pending ▸ hx, w, hw, confirms_mute hmute⟩

section Application

variable [StateMachine σ]

/-- One committed entry: only a command reaches the application. -/
def advance (sm : σ) (entry : Entry) : Except XRaftError σ :=
  match entry.payload with
  | .command bytes => StateMachine.apply sm entry.index bytes
  | _ => .ok sm

def advanceAll (sm : σ) (entries : List Entry) : Except XRaftError σ := entries.foldlM advance sm

theorem advanceAll_cons {sm sm' : σ} {entry : Entry} {rest : List Entry}
    (h : advance sm entry = .ok sm') : advanceAll sm (entry :: rest) = advanceAll sm' rest := by
  rw [advanceAll, List.foldlM_cons, h]
  rfl

theorem advanceAll_append {sm sm' : σ} {xs ys : List Entry} (h : advanceAll sm xs = .ok sm') :
    advanceAll sm (xs ++ ys) = advanceAll sm' ys := by
  rw [advanceAll, List.foldlM_append, ← advanceAll, h]
  rfl

structure Applied (d : Driver σ) (entries : List Entry) (d' : Driver σ) : Prop where
  frame : ∃ sm, advanceAll d.stateMachine entries = .ok sm ∧ Frame { d with
    stateMachine := sm
    pending := d.pending.filter (fun w => !entries.any (fun e => e.index = w.1)) } d'
  trace : ∃ w, d'.trace = d.trace ++ w ∧ applications w = entries ∧ Confirms d entries w

theorem Applied.nil (d : Driver σ) : Applied d [] d := by
  refine ⟨⟨d.stateMachine, rfl, rfl, rfl, rfl, rfl, ?_, rfl, rfl, rfl, rfl, id⟩,
    [], (List.append_nil _).symm, rfl, nofun⟩
  simp

theorem Applied.cons {entry : Entry} {rest : List Entry} (h : Applied d [entry] d')
    (h' : Applied d' rest d'') : Applied d (entry :: rest) d'' := by
  obtain ⟨⟨sm, hsm, hframe⟩, w, hw, happs, hconf⟩ := h
  obtain ⟨⟨sm', hsm', hframe'⟩, w', hw', happs', hconf'⟩ := h'
  have hone : advance d.stateMachine entry = .ok sm := by
    rw [advanceAll, List.foldlM_cons] at hsm
    rcases ha : advance d.stateMachine entry with e | s
    · rw [ha] at hsm
      cases hsm
    · rw [ha] at hsm
      exact hsm
  have hstate : d'.stateMachine = sm := hframe.stateMachine
  have hpending := hframe.pending
  refine ⟨⟨sm', ?_, ?_⟩, w ++ w', by rw [hw', hw, List.append_assoc], ?_, ?_⟩
  · rw [advanceAll_cons hone, ← hstate]
    exact hsm'
  · refine ⟨hframe'.node.trans hframe.node, hframe'.logStore.trans hframe.logStore,
      hframe'.snapshotStore.trans hframe.snapshotStore, hframe'.stateMachine, ?_,
      hframe'.inFlight.trans hframe.inFlight, hframe'.jobs.trans hframe.jobs,
      hframe'.done.trans hframe.done, hframe'.halt.trans hframe.halt,
      fun hf => hframe'.faults (hframe.faults hf)⟩
    rw [hframe'.pending]
    dsimp only at hpending ⊢
    rw [hpending, List.filter_filter]
    congr 1
    funext w
    simp [Bool.and_comm]
  · rw [applications_append, happs, happs']
    rfl
  · intro r i hmem
    rcases List.mem_append.mp hmem with hmem | hmem
    · obtain ⟨hp, e, he, hi, ha⟩ := hconf r i hmem
      exact ⟨hp, e, List.mem_cons.mpr (.inl (List.mem_singleton.mp he)), hi,
        List.mem_append_left _ ha⟩
    · obtain ⟨hp, e, he, hi, ha⟩ := hconf' r i hmem
      dsimp only at hpending
      rw [hpending] at hp
      exact ⟨(List.mem_filter.mp hp).1, e, List.mem_cons_of_mem _ he, hi,
        List.mem_append_right _ ha⟩

theorem applyEntry_outcome (d : Driver σ) (last : ℕ) (entry : Entry) :
    ((d.applyEntry last entry).2 = none → Applied d [entry] (d.applyEntry last entry).1) ∧
    (∀ m, (d.applyEntry last entry).2 = some m →
      (∃ e, advance d.stateMachine entry = .error e) ∧
        Hushed d (d.applyEntry last entry).1) := by
  have hsettle : ∀ sm : σ, advance d.stateMachine entry = .ok sm → Applied d [entry]
      ((Driver.emit { d with stateMachine := sm } [.apply entry]).resolveWaiters
        (fun i => i = entry.index) (.ok entry.index)) := by
    intro sm hsm
    refine ⟨⟨sm, ?_, ?_⟩, ?_⟩
    · rw [advanceAll_cons hsm]
      rfl
    · refine ⟨rfl, rfl, rfl, rfl, ?_, rfl, rfl, rfl, rfl, id⟩
      show d.pending.filter _ = d.pending.filter _
      congr 1
      funext w
      simp [eq_comm]
    · refine ⟨_, List.append_assoc _ _ _, ?_, ?_⟩
      · rw [applications_append]
        have hanswers : applications ((d.pending.filter (fun w => decide (w.1 = entry.index))).map
            (fun w => Effect.clientReply w.2 (.ok entry.index))) = [] := by
          rw [applications, List.filterMap_eq_nil_iff]
          intro x hx
          obtain ⟨w, _, rfl⟩ := List.mem_map.mp hx
          rfl
        exact congrArg (applications [.apply entry] ++ ·) hanswers
      · intro r i hmem
        rcases List.mem_append.mp hmem with hmem | hmem
        · simp at hmem
        · obtain ⟨w, hw, heq⟩ := List.mem_map.mp hmem
          obtain ⟨hp, hdue⟩ := List.mem_filter.mp hw
          simp only [Effect.clientReply.injEq, Except.ok.injEq] at heq
          obtain ⟨rfl, rfl⟩ := heq
          have hindex : w.1 = entry.index := of_decide_eq_true hdue
          refine ⟨?_, entry, List.mem_singleton_self _, rfl,
            List.mem_append_left _ (List.mem_singleton_self _)⟩
          rw [← hindex]
          exact hp
  unfold Driver.applyEntry
  cases hpay : entry.payload with
  | command bytes =>
    dsimp only
    rcases ha : StateMachine.apply d.stateMachine entry.index bytes with e | sm
    · refine ⟨nofun, fun m _ => ⟨⟨e, by rw [advance, hpay]; exact ha⟩, ?_⟩⟩
      dsimp only
      exact resolveWaiters_error _ _ _
    · exact ⟨fun _ => hsettle sm (by rw [advance, hpay]; exact ha), nofun⟩
  | _ => exact ⟨fun _ => hsettle d.stateMachine (by rw [advance, hpay]), nofun⟩

/-- A failed run over `entries` has still applied, and confirmed, the ones before the failure. -/
theorem applyEntries_outcome (d : Driver σ) (last : ℕ) (entries : List Entry) :
    ((d.applyEntries last entries).2 = none → Applied d entries (d.applyEntries last entries).1) ∧
    (∀ m, (d.applyEntries last entries).2 = some m →
      (∃ e, advanceAll d.stateMachine entries = .error e) ∧
        (d.applyEntries last entries).1.snapshotJobs = d.snapshotJobs ∧
        ∃ w, (d.applyEntries last entries).1.trace = d.trace ++ w ∧ Confirms d entries w) := by
  induction entries generalizing d with
  | nil => exact ⟨fun _ => .nil d, fun m hm => by cases hm⟩
  | cons entry rest ih =>
    obtain ⟨hok, herr⟩ := applyEntry_outcome d last entry
    unfold Driver.applyEntries
    rcases hr : d.applyEntry last entry with ⟨d', _ | m⟩ <;> rw [hr] at hok herr
    · have hone := hok rfl
      obtain ⟨hall, hfail⟩ := ih d'
      refine ⟨fun h => hone.cons (hall h), fun m hm => ?_⟩
      obtain ⟨⟨e, he⟩, hjobs, w', hw', hconf'⟩ := hfail m hm
      obtain ⟨⟨sm, hsm, hframe⟩, w, hw, -, hconf⟩ := hone
      have hstate : d'.stateMachine = sm := hframe.stateMachine
      have hpending := hframe.pending
      dsimp only at hpending
      refine ⟨⟨e, ?_⟩, hjobs.trans hframe.jobs, w ++ w', by rw [hw', hw, List.append_assoc],
        fun r i hmem => ?_⟩
      · rw [show entry :: rest = [entry] ++ rest from rfl, advanceAll_append hsm, ← hstate]
        exact he
      · rcases List.mem_append.mp hmem with hmem | hmem
        · obtain ⟨hp, x, hx, hi, ha⟩ := hconf r i hmem
          exact ⟨hp, x, List.mem_cons.mpr (.inl (List.mem_singleton.mp hx)), hi,
            List.mem_append_left _ ha⟩
        · obtain ⟨hp, x, hx, hi, ha⟩ := hconf' r i hmem
          rw [hpending] at hp
          exact ⟨(List.mem_filter.mp hp).1, x, List.mem_cons_of_mem _ hx, hi,
            List.mem_append_right _ ha⟩
    · obtain ⟨⟨e, he⟩, ⟨w, hw, hmute⟩, hjobs⟩ := herr m rfl
      refine ⟨(fun h => by cases h), fun _ _ => ⟨⟨e, ?_⟩, hjobs, w, hw, confirms_mute hmute⟩⟩
      rw [advanceAll, List.foldlM_cons, he]
      rfl

structure Readable (s : MemoryLogStore) (first last : ℕ) : Prop where
  order : first ≤ last
  bounded : last < u64Max
  complete : (inRange s first last).length = last - first + 1
  regular : indexGap first (inRange s first last) = none

structure Reliable (σ : Type) [StateMachine σ] : Prop where
  apply : ∀ (sm : σ) (index : ℕ) (command : Bytes), ∃ sm',
    StateMachine.apply sm index command = .ok sm'
  capture : ∀ sm : σ, ∃ data, StateMachine.beginSnapshot sm = .ok (.ok data)
  restore : ∀ (sm : σ) (data : Bytes), ∃ sm', StateMachine.restore sm data = .ok sm'

theorem Reliable.advance (h : Reliable σ) (sm : σ) (entry : Entry) :
    ∃ sm', advance sm entry = .ok sm' := by
  unfold ActionOutcomes.advance
  split
  · exact h.apply sm _ _
  · exact ⟨sm, rfl⟩

theorem Reliable.advanceAll (h : Reliable σ) (sm : σ) (entries : List Entry) :
    ∃ sm', advanceAll sm entries = .ok sm' := by
  induction entries generalizing sm with
  | nil => exact ⟨sm, rfl⟩
  | cons entry rest ih =>
    obtain ⟨sm', hsm⟩ := h.advance sm entry
    rw [advanceAll_cons hsm]
    exact ih sm'

theorem Applied.of_kept {entries : List Entry} (h : Kept d d') (h' : Applied d' entries d'') :
    Applied d entries d'' := by
  obtain ⟨⟨sm, hsm, hframe⟩, w', hw', happs, hconf⟩ := h'
  obtain ⟨w, hw, hmute⟩ := h.trace
  refine ⟨⟨sm, h.stateMachine ▸ hsm, ?_⟩, w ++ w', by rw [hw', hw, List.append_assoc], ?_, ?_⟩
  · refine ⟨hframe.node.trans h.node, hframe.logStore.trans h.logStore,
      hframe.snapshotStore.trans h.snapshotStore, hframe.stateMachine, ?_,
      hframe.inFlight.trans h.inFlight, hframe.jobs.trans h.jobs, hframe.done.trans h.done,
      hframe.halt.trans h.halt, fun hf => hframe.faults (h.faults hf)⟩
    have hpending := hframe.pending
    dsimp only at hpending ⊢
    rw [hpending, h.pending]
  · rw [applications_append, applications_mute hmute, happs, List.nil_append]
  · intro r i hmem
    rcases List.mem_append.mp hmem with hmem | hmem
    · exact (hmute _ hmem).elim
    · obtain ⟨hp, e, he, hi, ha⟩ := hconf r i hmem
      exact ⟨h.pending ▸ hp, e, he, hi, List.mem_append_right _ ha⟩

theorem applyCommitted_outcome (d : Driver σ) (first last : ℕ) :
    ((d.applyCommitted first last).2 = none → Readable d.logStore first last ∧
      Applied d (inRange d.logStore first last) (d.applyCommitted first last).1) ∧
    (∀ m, (d.applyCommitted first last).2 = some m →
      (d.faults = [] → Reliable σ → ¬Readable d.logStore first last) ∧
        (d.applyCommitted first last).1.snapshotJobs = d.snapshotJobs ∧
        ∃ w, (d.applyCommitted first last).1.trace = d.trace ++ w ∧
          Confirms d (inRange d.logStore first last) w) := by
  have hrefuse : ∀ message : String,
      (d.afterCall.resolveWaiters (fun i => first ≤ i ∧ i ≤ last)
        (.error (.storage message))).snapshotJobs = d.snapshotJobs ∧ ∃ w,
      (d.afterCall.resolveWaiters (fun i => first ≤ i ∧ i ≤ last)
        (.error (.storage message))).trace = d.trace ++ w ∧
          Confirms d (inRange d.logStore first last) w := by
    intro message
    obtain ⟨⟨w, hw, hmute⟩, hjobs⟩ := resolveWaiters_error d.afterCall
      (fun i => first ≤ i ∧ i ≤ last) (.storage message)
    exact ⟨hjobs, w, hw, confirms_mute hmute⟩
  unfold Driver.applyCommitted
  dsimp only
  by_cases horder : last < first
  · rw [if_pos horder]
    exact ⟨nofun, fun m _ => ⟨fun _ _ h => absurd h.order (not_le.mpr horder), rfl, [],
      (List.append_nil _).symm, nofun⟩⟩
  rw [if_neg horder]
  by_cases hmax : u64Max ≤ last
  · rw [if_pos hmax]
    exact ⟨nofun, fun m _ => ⟨fun _ _ h => absurd h.bounded (not_lt.mpr hmax), rfl, [],
      (List.append_nil _).symm, nofun⟩⟩
  rw [if_neg hmax]
  rcases hfault : d.nextFault with _ | f
  swap
  · refine ⟨nofun, fun m _ => ⟨fun hnil => ?_, hrefuse _⟩⟩
    rw [nextFault_none hnil] at hfault
    cases hfault
  dsimp only
  by_cases hlen : (d.logStore.getRange first (last + 1)).length ≠ last - first + 1
  · rw [if_pos hlen]
    exact ⟨nofun, fun m _ => ⟨fun _ _ h => absurd h.complete hlen, hrefuse _⟩⟩
  rw [if_neg hlen]
  rcases hgap : indexGap first (d.logStore.getRange first (last + 1)) with _ | ⟨position, entry⟩
  swap
  · refine ⟨nofun, fun m _ => ⟨fun _ _ h => ?_, hrefuse _⟩⟩
    have := h.regular
    rw [inRange, hgap] at this
    cases this
  dsimp only
  have hread : Readable d.logStore first last :=
    ⟨not_lt.mp horder, not_le.mp hmax, not_not.mp hlen, hgap⟩
  obtain ⟨hok, hfail⟩ := applyEntries_outcome d.afterCall last
    (d.logStore.getRange first (last + 1))
  refine ⟨fun h => ⟨hread, (hok h).of_kept (kept_afterCall d)⟩, fun m hm => ?_⟩
  obtain ⟨⟨e, he⟩, hjobs, w, hw, hconf⟩ := hfail m hm
  refine ⟨fun _ hrel => ?_, hjobs, w, hw, hconf⟩
  obtain ⟨sm, hsm⟩ := hrel.advanceAll d.afterCall.stateMachine
    (d.logStore.getRange first (last + 1))
  rw [hsm] at he
  cases he

structure Captured (d : Driver σ) (through : ℕ) (reply : Option RequestId) (d' : Driver σ) :
    Prop where
  idle : d.snapshotWorkerInFlight = false
  job : ∃ term serializer, d.logStore.termAt through = some term ∧
    StateMachine.beginSnapshot d.stateMachine = .ok serializer ∧ Kept { d with
      snapshotWorkerInFlight := true
      snapshotJobs := d.snapshotJobs ++ [⟨through, term, d.node.voterSet, serializer, reply⟩] } d'

theorem dispatchSnapshotWorker_outcome (d : Driver σ) (through : ℕ) (reply : Option RequestId) :
    ((d.dispatchSnapshotWorker through reply).2 = none →
      Captured d through reply (d.dispatchSnapshotWorker through reply).1) ∧
    (∀ e, (d.dispatchSnapshotWorker through reply).2 = some e →
      (d.faults = [] → Reliable σ →
        d.snapshotWorkerInFlight = true ∨ d.logStore.termAt through = none) ∧
      Kept d (d.dispatchSnapshotWorker through reply).1) := by
  unfold Driver.dispatchSnapshotWorker
  by_cases hbusy : d.snapshotWorkerInFlight = true
  · rw [if_pos hbusy]
    exact ⟨nofun, fun e _ => ⟨fun _ _ => .inl hbusy, .refl d⟩⟩
  rw [if_neg hbusy]
  rcases hfault : d.nextFault with _ | f
  swap
  · refine ⟨nofun, fun e _ => ⟨fun hnil => ?_, kept_afterCall d⟩⟩
    rw [nextFault_none hnil] at hfault
    cases hfault
  dsimp only
  rcases hterm : d.logStore.termAt through with _ | term
  · exact ⟨nofun, fun e _ => ⟨fun _ _ => .inr rfl, kept_afterCall d⟩⟩
  dsimp only
  rcases hview : StateMachine.beginSnapshot d.stateMachine with e | serializer
  · refine ⟨nofun, fun _ _ => ⟨fun _ hrel => ?_, kept_afterCall d⟩⟩
    obtain ⟨data, hdata⟩ := hrel.capture d.stateMachine
    rw [hdata] at hview
    cases hview
  · refine ⟨fun _ => ⟨by simpa using hbusy, term, serializer, hterm, hview, ?_⟩, nofun⟩
    exact ⟨⟨rfl, rfl, rfl, rfl, rfl, rfl, rfl, rfl, rfl, (kept_afterCall d).faults⟩,
      traced_same rfl⟩

/-! ## The pipeline -/

inductive PipeDid (d : Driver σ) : Action → Driver σ → Prop
  | apply {first last : ℕ} {d' : Driver σ} (readable : Readable d.logStore first last)
      (applied : Applied d (inRange d.logStore first last) d') :
      PipeDid d (.applyToStateMachine first last) d'
  | take {through : ℕ} {d' : Driver σ} (captured : Captured d through none d') :
      PipeDid d (.takeSnapshot through) d'

theorem PipeDid.pumped {a : Action} (h : PipeDid d a d') : Pumped d d' := by
  cases h with
  | apply readable applied =>
    obtain ⟨⟨sm, -, hframe⟩, w, hw, -, hconf⟩ := applied
    have hpending := hframe.pending
    dsimp only at hpending
    refine ⟨hframe.node, hframe.logStore, hframe.snapshotStore, hframe.done, hframe.halt,
      hframe.faults, fun x hx => ?_, w, hw, fun r i hmem => ?_⟩
    · rw [hpending] at hx
      exact (List.mem_filter.mp hx).1
    · obtain ⟨hp, e, he, hi, ha⟩ := hconf r i hmem
      exact ⟨hp, e, (mem_inRange.mp he).1, hi, ha⟩
  | take captured =>
    obtain ⟨term, serializer, -, -, hkept⟩ := captured.job
    have h := hkept.pumped
    exact ⟨h.node, h.logStore, h.snapshotStore, h.done, h.halt, h.faults, h.pending, h.trace⟩

theorem pumped_of_sequence {actions : List Action} (h : Sequence PipeDid d actions d') :
    Pumped d d' :=
  h.rel Pumped.refl (fun _ _ _ => Pumped.trans) (fun _ _ _ _ hdid => hdid.pumped)

/-- Why the pipeline cannot go on although nothing failed. -/
def PipeStuck (d : Driver σ) : Action → Prop
  | .applyToStateMachine first last => ¬Readable d.logStore first last
  | .takeSnapshot through => d.snapshotWorkerInFlight = true ∨ d.logStore.termAt through = none
  | _ => False

def Confirming : Action → Prop
  | .applyToStateMachine _ _ | .serveFetch .. => True
  | _ => False

/-- An action that ended its batch: what it still confirmed stands in the log. -/
structure Broken (cause : Driver σ → Action → Prop) (d : Driver σ) (a : Action) (d' : Driver σ) :
    Prop where
  halt : d'.haltReason ≠ none
  cause : d.faults = [] → Reliable σ → cause d a ∨ Failure d'
  trace : ∃ w, d'.trace = d.trace ++ w ∧ Confirms d d.logStore.entries w
  quiet : ¬Confirming a → Traced Mute d d'
  jobs : d'.snapshotJobs = d.snapshotJobs

theorem broken_mute {cause : Driver σ → Action → Prop} {a : Action} (halt : d'.haltReason ≠ none)
    (hcause : d.faults = [] → Reliable σ → cause d a ∨ Failure d') (hushed : Hushed d d') :
    Broken cause d a d' := by
  obtain ⟨w, hw, hmute⟩ := hushed.trace
  exact ⟨halt, hcause, ⟨w, hw, confirms_mute hmute⟩, fun _ => hushed.trace, hushed.jobs⟩

def Settles (did : Driver σ → Action → Driver σ → Prop) (cause : Driver σ → Action → Prop)
    (d : Driver σ) (a : Action) (o : Outcome σ) : Prop :=
  (o.broke = false ∧ did d a o.driver) ∨ (o.broke = true ∧ Broken cause d a o.driver)

theorem runAction_pipe (nested : Nested σ) (origin : Option NodeId) (d : Driver σ)
    (c : CapturedResponse) {a : Action} (ha : Applies a) :
    Settles PipeDid PipeStuck d a (runAction nested origin d c a) := by
  cases a with
  | applyToStateMachine first last =>
    obtain ⟨hok, hfail⟩ := applyCommitted_outcome d first last
    unfold runAction
    dsimp only
    rcases hr : d.applyCommitted first last with ⟨d', _ | m⟩ <;> rw [hr] at hok hfail
    · obtain ⟨hread, happ⟩ := hok rfl
      exact .inl ⟨rfl, .apply hread happ⟩
    · obtain ⟨hcause, hjobs, w, hw, hconf⟩ := hfail m rfl
      refine .inr ⟨rfl, nofun, fun hf hrel => .inl (hcause hf hrel), ⟨w, hw, fun r i hmem => ?_⟩,
        fun hquiet => absurd trivial hquiet, hjobs⟩
      obtain ⟨hp, e, he, hi, ha⟩ := hconf r i hmem
      exact ⟨hp, e, (mem_inRange.mp he).1, hi, ha⟩
  | takeSnapshot through =>
    obtain ⟨hok, hfail⟩ := dispatchSnapshotWorker_outcome d through none
    unfold runAction
    dsimp only
    rcases hr : d.dispatchSnapshotWorker through none with ⟨d', _ | e⟩ <;> rw [hr] at hok hfail
    · exact .inl ⟨rfl, .take (hok rfl)⟩
    · obtain ⟨hcause, hkept⟩ := hfail e rfl
      exact .inr ⟨rfl, broken_mute nofun (fun hf hrel => .inl (hcause hf hrel))
        (hkept.hushed.congr rfl rfl)⟩
  | _ => exact ha.elim

/-- A batch runs to its end or breaks at one of its actions. -/
theorem runActions_settles {did : Driver σ → Action → Driver σ → Prop}
    {cause : Driver σ → Action → Prop} {P : Driver σ → Prop} (nested : Nested σ)
    (origin : Option NodeId) {actions : List Action}
    (h : ∀ a ∈ actions, ∀ d c, P d → Settles did cause d a (runAction nested origin d c a))
    (hP : ∀ d a d', did d a d' → P d → P d') {d : Driver σ} (hd : P d) (c : CapturedResponse) :
    Sequence did d actions (runActions nested origin d c actions).1 ∨
      ∃ before a after d₁, actions = before ++ a :: after ∧ Sequence did d before d₁ ∧
        Broken cause d₁ a (runActions nested origin d c actions).1 := by
  induction actions generalizing d c with
  | nil => exact .inl (.nil d)
  | cons a rest ih =>
    unfold runActions
    dsimp only
    rcases h a List.mem_cons_self d c hd with ⟨hgo, hdid⟩ | ⟨hbroke, hbad⟩
    · rw [if_neg (by rw [hgo]; exact Bool.false_ne_true)]
      rcases ih (fun b hb => h b (List.mem_cons_of_mem _ hb)) (hP _ _ _ hdid hd)
        (runAction nested origin d c a).captured with hseq | ⟨before, b, after, d₁, heq, hseq, hbad⟩
      · exact .inl (.cons hdid hseq)
      · refine .inr ⟨a :: before, b, after, d₁, ?_, .cons hdid hseq, hbad⟩
        rw [heq]
        rfl
    · rw [if_pos hbroke]
      exact .inr ⟨[], a, rest, d, rfl, .nil d, hbad⟩

end Application

end ActionOutcomes
