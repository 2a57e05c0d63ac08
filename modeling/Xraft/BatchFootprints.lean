import Xraft.DriverTurns
import Xraft.FaultFreeBatches

/-! # Footprints of batches and turns

Which actions can leave which effects in the trace, and which of them can change the engine, under
any store failures. Only a suffix cut, an install and a served fetch reach back into the engine.
-/
namespace BatchFootprints

open ProtocolTypes ConsensusEngine DurableStores NodeDriver EngineTransitions DriverJournal
open ApplyPipeline FaultFreeBatches DriverTurns

variable {σ : Type}

def Traced (p : Effect → Prop) (d d' : Driver σ) : Prop :=
  ∃ w, d'.trace = d.trace ++ w ∧ ∀ x ∈ w, p x

/-- Effects that change neither the log nor the snapshots a node holds. -/
def Light : Effect → Prop
  | .append _ | .truncate _ | .saveSnapshot _ => False
  | _ => True

def Leaves (a : Action) : Effect → Prop
  | .append entries => a = .appendEntries entries
  | .truncate k => a = .truncateLog (.suffixFromInclusive k) ∨ ∃ m data, a = .installSnapshot m data
  | .saveSnapshot _ => ∃ m data, a = .installSnapshot m data
  | _ => True

def Reshapes : Action → Prop
  | .truncateLog (.suffixFromInclusive _) => True
  | .installSnapshot _ _ => True
  | .serveFetch .. => True
  | _ => False

variable {p q : Effect → Prop} {d d' d'' : Driver σ} {a : Action}

theorem Light.leaves {x : Effect} (h : Light x) : Leaves a x := by
  cases x <;> first | exact h.elim | trivial

theorem Traced.refl (d : Driver σ) : Traced p d d := ⟨[], (List.append_nil _).symm, by simp⟩

theorem Traced.trans (h : Traced p d d') (h' : Traced p d' d'') : Traced p d d'' := by
  obtain ⟨w, hw, hp⟩ := h
  obtain ⟨w', hw', hp'⟩ := h'
  refine ⟨w ++ w', by rw [hw', hw, List.append_assoc], fun x hx => ?_⟩
  exact (List.mem_append.mp hx).elim (hp x) (hp' x)

theorem Traced.mono (h : Traced p d d') (hpq : ∀ x, p x → q x) : Traced q d d' := by
  obtain ⟨w, hw, hp⟩ := h
  exact ⟨w, hw, fun x hx => hpq x (hp x hx)⟩

theorem Traced.congr (h : Traced p d d') (trace : d''.trace = d'.trace) : Traced p d d'' := by
  obtain ⟨w, hw, hp⟩ := h
  exact ⟨w, trace.trans hw, hp⟩

theorem Traced.emit (h : Traced p d d') {w : List Effect} (hw : ∀ x ∈ w, p x) :
    Traced p d (d'.emit w) := h.trans ⟨w, rfl, hw⟩

theorem traced_same (trace : d'.trace = d.trace) : Traced p d d' := (Traced.refl d).congr trace

theorem traced_of_piped {w : List Effect} (h : Piped d d' w) : Traced Light d d' := by
  refine ⟨w, h.trace, fun x hx => ?_⟩
  rcases h.effects x hx with ⟨e, rfl⟩ | ⟨request, result, rfl⟩ <;> trivial

theorem resolveWaiters_traced (due : ℕ → Bool) (result : Except XRaftError ℕ) :
    Traced Light d (d.resolveWaiters due result) := by
  obtain ⟨w, h, -⟩ := resolveWaiters_piped d due result
  exact traced_of_piped h

theorem failWaiters_traced (e : XRaftError) : Traced Light d (d.failWaiters e) := by
  refine ⟨_, rfl, fun x hx => ?_⟩
  rcases List.mem_append.mp hx with hx | hx
  · obtain ⟨_, _, rfl⟩ := List.mem_map.mp hx
    trivial
  · obtain ⟨_, _, rfl⟩ := List.mem_map.mp hx
    trivial

theorem failStopShutdown_traced (d : Driver σ) : Traced Light d d.failStopShutdown := by
  have hstopped : Traced Light d { d.failWaiters (.storage (d.haltReason.getD "")) with
      snapshotDone := [], snapshotWorkerInFlight := false } := (failWaiters_traced _).congr rfl
  refine hstopped.emit (fun x hx => ?_)
  obtain ⟨c, _, hx⟩ := List.mem_filterMap.mp hx
  obtain ⟨_, _, rfl⟩ := Option.map_eq_some_iff.mp hx
  trivial

/-! ## Rules for what calls keep -/

theorem holds_of_eq {P : Driver σ → Prop} {ε : Type} {r : Driver σ × ε} {x : ε} (h : P r.1)
    (hr : r = (d, x)) : P d := by rwa [hr] at h

theorem runAppend_keeps {P : Driver σ → Prop} {entries : List Entry}
    (append : P (d.appendLog entries).1) (flush : ∀ x, P x → P x.flushLog.1)
    (abandon : ∀ x due message, P x →
      P ((x.resolveWaiters due (.error (.storage message))).halt message))
    (c : CapturedResponse) : P (runAppend d c entries).driver := by
  unfold runAppend
  dsimp only
  split
  · exact abandon _ _ _ (holds_of_eq append ‹_›)
  · have hflush := flush _ (holds_of_eq append ‹_›)
    split
    · exact abandon _ _ _ (holds_of_eq hflush ‹_›)
    · exact holds_of_eq hflush ‹_›

theorem runTruncate_keeps {P : Driver σ → Prop} {t : LogTruncation}
    (cut : ∀ k, t = .suffixFromInclusive k → P (d.truncateLog k).1)
    (purge : ∀ k, t = .prefixThroughInclusive k → P (d.purgeLog k).1)
    (flush : ∀ x, P x → P x.flushLog.1) (halt : ∀ x reason, P x → P (x.halt reason))
    (mirror : ∀ x k, t = .suffixFromInclusive k → P x → P x.mirrorLogTip)
    (c : CapturedResponse) : P (runTruncate d c t).driver := by
  unfold runTruncate
  cases t with
  | suffixFromInclusive k =>
    have hcut := cut k rfl
    dsimp only
    split
    · exact halt _ _ (holds_of_eq hcut ‹_›)
    · have hflush := flush _ (holds_of_eq hcut ‹_›)
      split
      · exact halt _ _ (holds_of_eq hflush ‹_›)
      · exact mirror _ k rfl (holds_of_eq hflush ‹_›)
  | prefixThroughInclusive k =>
    have hcut := purge k rfl
    dsimp only
    split
    · exact halt _ _ (holds_of_eq hcut ‹_›)
    · have hflush := flush _ (holds_of_eq hcut ‹_›)
      split
      · exact halt _ _ (holds_of_eq hflush ‹_›)
      · exact holds_of_eq hflush ‹_›

theorem handleInstallSnapshot_keeps [StateMachine σ] {P : Driver σ → Prop} {metadata : SnapshotMeta}
    {data : Bytes} (hd : P d) (save : P (d.saveSnapshot metadata data).1)
    (anchor : ∀ x, P x →
      P (x.anchorLog metadata.lastIncludedTerm metadata.lastIncludedIndex).1)
    (restore : ∀ x sm, P x → P ({ x with stateMachine := sm } : Driver σ).afterCall)
    (purge : ∀ x, P x → P (x.purgeLog metadata.lastIncludedIndex).1)
    (wipe : ∀ x, P x → P (x.truncateLog 1).1) (flush : ∀ x, P x → P x.flushLog.1)
    (install : ∀ x m, P x → P (Driver.mirrorLogTip { x with
      node := x.node.handleSnapshotInstalled m })) :
    P (d.handleInstallSnapshot metadata data).1 := by
  have hflushed : ∀ {x y : Driver σ} {e : Option XRaftError}, P x → x.flushLog = (y, e) → P y :=
    fun hx h => holds_of_eq (flush _ hx) h
  unfold Driver.handleInstallSnapshot
  dsimp only
  split_ifs
  · exact hd
  split
  · exact holds_of_eq save ‹_›
  have hanchor := anchor _ (holds_of_eq save ‹_›)
  split
  · exact holds_of_eq hanchor ‹_›
  have hmarked := holds_of_eq hanchor ‹_›
  split
  · exact hmarked
  rename_i sm _
  have hread := restore _ sm hmarked
  split
  · exact hread
  split
  · have hpurge := purge _ hread
    split
    · exact holds_of_eq hpurge ‹_›
    · split
      · exact hflushed (holds_of_eq hpurge ‹_›) ‹_›
      · exact install _ _ (hflushed (holds_of_eq hpurge ‹_›) ‹_›)
  · have hwipe := wipe _ hread
    split
    · exact holds_of_eq hwipe ‹_›
    · split
      · exact hflushed (holds_of_eq hwipe ‹_›) ‹_›
      · exact install _ _ (hflushed (holds_of_eq hwipe ‹_›) ‹_›)

/-! ## Store calls -/

theorem durably_footprint {write : Driver σ → Driver σ} {effect : Effect}
    {failed : XRaftError → Effect} (hnode : (write d.afterCall).node = d.node)
    (htrace : (write d.afterCall).trace = d.trace) (he : p effect) (hf : ∀ e, p (failed e)) :
    (d.durably write effect failed).1.node = d.node ∧
      Traced p d (d.durably write effect failed).1 := by
  rcases durably_cases d write effect failed with h | ⟨e, h⟩ | ⟨e, h⟩ <;> rw [h]
  · exact ⟨hnode, [effect], congrArg (· ++ [effect]) htrace, by simpa using he⟩
  · exact ⟨hnode, [effect, failed e], congrArg (· ++ [effect, failed e]) htrace,
      by simpa using ⟨he, hf e⟩⟩
  · exact ⟨rfl, [failed e], rfl, by simpa using hf e⟩

theorem persistHardState_footprint (d : Driver σ) :
    core d.persistHardState.1.node = core d.node ∧ Traced Light d d.persistHardState.1 := by
  have h : d.persistHardState.1.node = d.clampCommit.node ∧
      Traced Light d.clampCommit d.persistHardState.1 :=
    durably_footprint rfl rfl trivial (fun _ => trivial)
  refine ⟨?_, h.2⟩
  rw [h.1]
  rfl

theorem appendLog_footprint (d : Driver σ) (entries : List Entry) :
    (d.appendLog entries).1.node = d.node ∧
      Traced (Leaves (.appendEntries entries)) d (d.appendLog entries).1 := by
  unfold Driver.appendLog
  split
  · exact ⟨rfl, (Traced.refl d).emit (by simp [Leaves])⟩
  · exact durably_footprint rfl rfl rfl (fun _ => trivial)

theorem flushLog_footprint (d : Driver σ) :
    d.flushLog.1.node = d.node ∧ Traced Light d d.flushLog.1 :=
  durably_footprint rfl rfl trivial (fun _ => trivial)

theorem saveSnapshot_footprint (d : Driver σ) (metadata : SnapshotMeta) (data : Bytes)
    (hp : p (.saveSnapshot metadata)) (hf : ∀ e, p (.snapshotFailed e)) :
    Traced p d (d.saveSnapshot metadata data).1 := by
  unfold Driver.saveSnapshot
  split
  · exact (Traced.refl d).emit (by simpa using hf _)
  · exact (durably_footprint rfl rfl hp hf).2

theorem haltOnError_driver {ε : Type} (c : CapturedResponse) (text : ε → String)
    (r : Driver σ × Option ε) :
    (haltOnError c text r).driver.node = r.1.node ∧
      (haltOnError c text r).driver.trace = r.1.trace := by
  obtain ⟨d, _ | e⟩ := r <;> exact ⟨rfl, rfl⟩

theorem runAppend_footprint (d : Driver σ) (c : CapturedResponse) (entries : List Entry) :
    (runAppend d c entries).driver.node = d.node ∧
      Traced (Leaves (.appendEntries entries)) d (runAppend d c entries).driver := by
  refine runAppend_keeps (P := fun x => x.node = d.node ∧
    Traced (Leaves (.appendEntries entries)) d x) (appendLog_footprint d entries)
    (fun x hx => ?_) (fun x due message hx => ?_) c
  · obtain ⟨hn, ht⟩ := flushLog_footprint x
    exact ⟨hn.trans hx.1, hx.2.trans (ht.mono (fun _ hx => hx.leaves))⟩
  · exact ⟨hx.1, hx.2.trans ((resolveWaiters_traced due _).mono (fun _ hx => hx.leaves))⟩

theorem runTruncate_footprint (d : Driver σ) (c : CapturedResponse) (t : LogTruncation) :
    (¬Reshapes (.truncateLog t) → (runTruncate d c t).driver.node = d.node) ∧
      Traced (Leaves (.truncateLog t)) d (runTruncate d c t).driver := by
  refine runTruncate_keeps (P := fun x => (¬Reshapes (.truncateLog t) → x.node = d.node) ∧
    Traced (Leaves (.truncateLog t)) d x) (fun k ht => ?_) (fun k ht => ?_) (fun x hx => ?_)
    (fun x reason hx => ⟨hx.1, hx.2.congr rfl⟩) (fun x k ht hx => ?_) c
  · obtain ⟨hn, htrace⟩ : (d.truncateLog k).1.node = d.node ∧
        Traced (Leaves (.truncateLog t)) d (d.truncateLog k).1 :=
      durably_footprint rfl rfl (.inl (by rw [ht])) (fun _ => trivial)
    exact ⟨fun _ => hn, htrace⟩
  · obtain ⟨hn, htrace⟩ : (d.purgeLog k).1.node = d.node ∧
        Traced (Leaves (.truncateLog t)) d (d.purgeLog k).1 :=
      durably_footprint rfl rfl trivial (fun _ => trivial)
    exact ⟨fun _ => hn, htrace⟩
  · obtain ⟨hn, htrace⟩ := flushLog_footprint x
    exact ⟨fun h => hn.trans (hx.1 h), hx.2.trans (htrace.mono (fun _ hx => hx.leaves))⟩
  · subst ht
    exact ⟨fun h => absurd trivial h, hx.2.congr rfl⟩

theorem sendOrCapture_footprint (origin : Option NodeId) (d : Driver σ) (c : CapturedResponse)
    (dest : NodeId) (m : OutboundMessage) :
    (sendOrCapture origin d c dest m).driver.node = d.node ∧
      Traced Light d (sendOrCapture origin d c dest m).driver := by
  have hrouted : (d.emit [.dispatch dest m]).node = d.node ∧
      Traced Light d (d.emit [.dispatch dest m]) :=
    ⟨rfl, (Traced.refl d).emit (by simp [Light])⟩
  unfold sendOrCapture
  dsimp only
  by_cases horigin : some dest ≠ origin
  · rw [if_pos horigin]
    exact hrouted
  · rw [if_neg horigin]
    cases m with
    | voteResponse | preVoteResponse | fetchResponse =>
      dsimp only
      split_ifs
      · exact ⟨rfl, .refl d⟩
      · exact hrouted
    | _ => exact hrouted

theorem replySnapshot_footprint (d : Driver σ) (reply : Option RequestId)
    (result : Except XRaftError TriggeredSnapshotInfo) :
    (d.replySnapshot reply result).node = d.node ∧
    Traced Light d (d.replySnapshot reply result) := by
  cases reply with
  | none => exact ⟨rfl, .refl d⟩
  | some request => exact ⟨rfl, (Traced.refl d).emit (by simp [Light])⟩

/-! ## Actions -/

section Actions

variable [StateMachine σ]

theorem handleInstallSnapshot_traced (d : Driver σ) (metadata : SnapshotMeta) (data : Bytes) :
    Traced (Leaves (.installSnapshot metadata data)) d
      (d.handleInstallSnapshot metadata data).1 := by
  refine handleInstallSnapshot_keeps (P := Traced (Leaves (.installSnapshot metadata data)) d)
    (.refl d) (saveSnapshot_footprint d metadata data ⟨_, _, rfl⟩ (fun _ => trivial))
    (fun x hx => hx.trans ?_) (fun x sm hx => hx.congr rfl) (fun x hx => hx.trans ?_)
    (fun x hx => hx.trans ?_)
    (fun x hx => hx.trans ((flushLog_footprint x).2.mono (fun _ hx => hx.leaves)))
    (fun x m hx => hx.congr rfl)
  · exact (durably_footprint rfl rfl trivial (fun _ => trivial)).2
  · exact (durably_footprint rfl rfl trivial (fun _ => trivial)).2
  · exact (durably_footprint rfl rfl (.inr ⟨_, _, rfl⟩) (fun _ => trivial)).2

/-- The answer to a fetch is read without a trace. The acknowledgement of an answer that neither
diverged nor redirected credits the replica and runs the apply pipeline. -/
theorem runServeFetch_footprint (origin : Option NodeId) (d : Driver σ) (c : CapturedResponse)
    (dest : NodeId) (clusterId : String) (leaderEpoch : ℕ) (leaderId : NodeId)
    (highWatermark fetchOffset lastFetchedEpoch : ℕ) :
    Traced Light d (runServeFetch processAcked origin d c dest clusterId leaderEpoch leaderId
      highWatermark fetchOffset lastFetchedEpoch).driver ∧
    ((runServeFetch processAcked origin d c dest clusterId leaderEpoch leaderId highWatermark
        fetchOffset lastFetchedEpoch).driver.node = d.node ∨
      ∃ resp, (d.materializeFetchResponse clusterId leaderEpoch leaderId highWatermark fetchOffset
          lastFetchedEpoch).2 = .ok resp ∧ resp.divergingEpoch = none ∧
            resp.snapshotRedirect = none ∧
        (runServeFetch processAcked origin d c dest clusterId leaderEpoch leaderId highWatermark
          fetchOffset lastFetchedEpoch).driver.node =
            (d.node.handleFetchRequestAcked dest (fetchOffset - 1)).1) := by
  obtain ⟨fs, hread⟩ :=
    (ActionBatches.materializeFetchResponse_reads d clusterId leaderEpoch leaderId highWatermark
      fetchOffset lastFetchedEpoch).driver
  unfold runServeFetch
  rcases hr : d.materializeFetchResponse clusterId leaderEpoch leaderId highWatermark fetchOffset
    lastFetchedEpoch with ⟨d', e | resp⟩ <;> rw [hr] at hread <;> dsimp only at hread ⊢ <;>
    subst hread
  · exact ⟨traced_same rfl, .inl rfl⟩
  · obtain ⟨hnode, htraced⟩ := sendOrCapture_footprint origin { d with faults := fs } c dest
      (.fetchResponse resp)
    have hsent : Traced Light d (sendOrCapture origin { d with faults := fs } c dest
        (.fetchResponse resp)).driver := (traced_same rfl).trans htraced
    generalize sendOrCapture origin { d with faults := fs } c dest (.fetchResponse resp) =
      sent at hnode hsent ⊢
    split_ifs with hplain
    · obtain ⟨w, hw⟩ := runActions_piped (fun d _ _ => (d, {})) origin
        (handleFetchRequestAcked_applies sent.driver.node dest (fetchOffset - 1))
        { sent.driver with
          node := (sent.driver.node.step (.fetchRequestAcked dest (fetchOffset - 1))).1 } {}
      have hinner : Traced Light sent.driver { sent.driver with
          node := (sent.driver.node.step (.fetchRequestAcked dest (fetchOffset - 1))).1 } :=
        traced_same rfl
      refine ⟨hsent.trans (hinner.trans (traced_of_piped hw.piped)), .inr ⟨resp, rfl,
        by simpa using hplain.1, by simpa using hplain.2.1, ?_⟩⟩
      rw [← show sent.driver.node = d.node from hnode]
      exact hw.piped.node
    · exact ⟨hsent, .inl hnode⟩

theorem runAction_footprint (origin : Option NodeId) (d : Driver σ) (c : CapturedResponse)
    (a : Action) :
    (¬Reshapes a → core (runAction processAcked origin d c a).driver.node = core d.node) ∧
      Traced (Leaves a) d (runAction processAcked origin d c a).driver := by
  have hlight : ∀ {d' : Driver σ}, Traced Light d d' → Traced (Leaves a) d d' :=
    fun h => h.mono (fun x hx => hx.leaves)
  cases a with
  | persistHardState =>
    obtain ⟨hn, ht⟩ := persistHardState_footprint d
    obtain ⟨hn', ht'⟩ := haltOnError_driver c (fun e => "hard-state persist failed: " ++
      XRaftError.display e) d.persistHardState
    exact ⟨fun _ => (congrArg core hn').trans hn, (hlight ht).congr ht'⟩
  | appendEntries entries =>
    obtain ⟨hn, ht⟩ := runAppend_footprint d c entries
    exact ⟨fun _ => congrArg core hn, ht⟩
  | sendMessage dest m =>
    obtain ⟨hn, ht⟩ := sendOrCapture_footprint origin d c dest m
    exact ⟨fun _ => congrArg core hn, hlight ht⟩
  | applyToStateMachine first last =>
    obtain ⟨w, hw⟩ := runAction_piped processAcked origin d c
      (a := .applyToStateMachine first last) trivial
    exact ⟨fun _ => congrArg core hw.piped.node, hlight (traced_of_piped hw.piped)⟩
  | takeSnapshot through =>
    obtain ⟨w, hw⟩ := runAction_piped processAcked origin d c (a := .takeSnapshot through) trivial
    exact ⟨fun _ => congrArg core hw.piped.node, hlight (traced_of_piped hw.piped)⟩
  | installSnapshot metadata data =>
    have ht := handleInstallSnapshot_traced d metadata data
    obtain ⟨-, ht'⟩ := haltOnError_driver c (fun e => "snapshot install failed: " ++
      XRaftError.display e) (d.handleInstallSnapshot metadata data)
    exact ⟨fun h => absurd trivial h, ht.congr ht'⟩
  | becomeLeader => exact ⟨fun _ => rfl, .refl d⟩
  | stepDown => exact ⟨fun _ => rfl, hlight (failWaiters_traced _)⟩
  | serveFetch dest clusterId leaderEpoch leaderId hw offset epoch =>
    exact ⟨fun h => absurd trivial h, hlight (runServeFetch_footprint ..).1⟩
  | redirectToSnapshot dest clusterId leaderEpoch leaderId hw snap =>
    obtain ⟨hn, ht⟩ := sendOrCapture_footprint origin d c dest (.fetchResponse
      ⟨clusterId, leaderEpoch, leaderId, hw, [], none,
        some ⟨snap.id, snap.lastIncludedIndex, snap.lastIncludedTerm⟩, true⟩)
    exact ⟨fun _ => congrArg core hn, hlight ht⟩
  | truncateLog t =>
    obtain ⟨hn, ht⟩ := runTruncate_footprint d c t
    exact ⟨fun h => congrArg core (hn h), ht⟩

/-! ## Batches -/

def LeftBy (actions : List Action) (x : Effect) : Prop := ∃ a ∈ actions, Leaves a x

theorem runActions_traced (origin : Option NodeId) (actions : List Action) (d : Driver σ)
    (c : CapturedResponse) :
    Traced (LeftBy actions) d (runActions processAcked origin d c actions).1 := by
  induction actions generalizing d c with
  | nil => exact .refl d
  | cons a rest ih =>
    have hfirst : Traced (LeftBy (a :: rest)) d (runAction processAcked origin d c a).driver :=
      (runAction_footprint origin d c a).2.mono (fun x hx => ⟨a, List.mem_cons_self, hx⟩)
    have hrest : ∀ x, LeftBy rest x → LeftBy (a :: rest) x := by
      rintro x ⟨b, hb, hx⟩
      exact ⟨b, List.mem_cons_of_mem _ hb, hx⟩
    unfold runActions
    dsimp only
    split_ifs
    · exact hfirst
    · exact hfirst.trans ((ih _ _).mono hrest)

theorem runActions_core (origin : Option NodeId) {actions : List Action}
    (h : ∀ a ∈ actions, ¬Reshapes a) (d : Driver σ) (c : CapturedResponse) :
    core (runActions processAcked origin d c actions).1.node = core d.node := by
  induction actions generalizing d c with
  | nil => rfl
  | cons a rest ih =>
    have hfirst := (runAction_footprint origin d c a).1 (h a List.mem_cons_self)
    unfold runActions
    dsimp only
    split_ifs
    · exact hfirst
    · exact (ih (fun b hb => h b (List.mem_cons_of_mem _ hb)) _ _).trans hfirst

/-! ## Standing -/

theorem core_standing {n m : RaftNode} (h : core m = core n) : SameStanding n m := by
  have hfield : ∀ {α : Type} (f : RaftNode → α), f (core m) = f (core n) := fun f => congrArg f h
  exact ⟨hfield RaftNode.id, hfield RaftNode.role,
    hfield ballot, hfield RaftNode.votesReceived, hfield RaftNode.preVotesReceived,
    hfield RaftNode.voterSet, hfield RaftNode.config, hfield RaftNode.leaderId,
    hfield RaftNode.logicalTick, hfield RaftNode.leaderNoOpIndex, hfield RaftNode.leaderStartedTick,
    hfield RaftNode.checkQuorumIntervalTicks, hfield RaftNode.fetchSeq, hfield peerStamps⟩

theorem runAction_standing (origin : Option NodeId) (d : Driver σ) (c : CapturedResponse)
    (a : Action) : SameStanding d.node (runAction processAcked origin d c a).driver.node := by
  by_cases hr : Reshapes a
  · cases a with
    | truncateLog t =>
      have hran : Concluded d.node.id d _ (runTruncate d c t) := runTruncate_concluded d c t
      cases hran with
      | went ran _ _ _ => exact ran.standing
      | halted ran _ _ _ => exact ran.standing
    | installSnapshot metadata data =>
      have hcall : LogCalled d.node.id d (d.handleInstallSnapshot metadata data) :=
        handleInstallSnapshot_called d metadata data
      have hnode := (haltOnError_driver c (fun e => "snapshot install failed: " ++
        XRaftError.display e) (d.handleInstallSnapshot metadata data)).1
      exact hcall.called.ran.standing.trans (core_standing (congrArg core hnode))
    | serveFetch dest clusterId leaderEpoch leaderId hw offset epoch =>
      obtain ⟨-, h | ⟨_, _, _, _, h⟩⟩ :=
        runServeFetch_footprint origin d c dest clusterId leaderEpoch leaderId hw offset epoch
      · exact core_standing (congrArg core h)
      · exact (handleFetchRequestAcked_standing d.node dest (offset - 1)).trans
          (core_standing (congrArg core h))
    | _ => exact hr.elim
  · exact core_standing ((runAction_footprint origin d c a).1 hr)

theorem runActions_standing (origin : Option NodeId) (actions : List Action) (d : Driver σ)
    (c : CapturedResponse) :
    SameStanding d.node (runActions processAcked origin d c actions).1.node := by
  induction actions generalizing d c with
  | nil => exact .refl _
  | cons a rest ih =>
    have hfirst := runAction_standing origin d c a
    unfold runActions
    dsimp only
    split_ifs
    · exact hfirst
    · exact hfirst.trans (ih _ _)

/-! ## Turns -/

/-- The engine's part of an event together with the actions it hands to the driver. -/
inductive Drives (n : RaftNode) : DriverEvent → RaftNode × List Action → Prop
  | idle (event : DriverEvent) (flag : Bool) :
      Drives n event ({ n with snapshotInFlight := flag }, [])
  | step {event : DriverEvent} {input : Input} (h : inputOf event = some input) :
      Drives n event (n.step input)
  | outrun (req : FetchSnapshotRequest) :
      Drives n (.inboundFetchSnapshot req) (n.becomeFollower req.leaderEpoch none)
  | overtaken (peer : NodeId) (clusterId : String) (epoch : ℕ) (metadata : Option SnapshotMeta)
      (data : Bytes) : Drives n (.fetchSnapshotResult peer clusterId epoch metadata data)
        (n.becomeFollower epoch none)
  | received {peer : NodeId} (clusterId : String) (epoch : ℕ) (snap : SnapshotMeta) (data : Bytes)
      (leader : n.leaderId = some peer) :
      Drives n (.fetchSnapshotResult peer clusterId epoch (some snap) data)
        (n, n.handleFetchSnapshotReceived snap data)
  | completed (metadata : SnapshotMeta) :
      Drives n .snapshotCompleted (n.handleSnapshotComplete metadata)

structure Driven (d : Driver σ) (event : DriverEvent) (d' : Driver σ) : Prop where
  batch : ∃ (r : RaftNode × List Action) (origin : Option NodeId) (pre : Driver σ),
    Drives d.node event r ∧ pre.node = r.1 ∧ Traced Light d pre ∧
      d'.node = (pre.processActions r.2 origin).1.node ∧
      Traced Light (pre.processActions r.2 origin).1 d'

theorem Driven.congr {e : Driver σ} {event : DriverEvent} (h : Driven d event d')
    (node : e.node = d'.node) (trace : Traced Light d' e) : Driven d event e := by
  obtain ⟨r, origin, pre, hr, hpre, ht, hn, ht'⟩ := h.batch
  exact ⟨r, origin, pre, hr, hpre, ht, node.trans hn, ht'.trans trace⟩

theorem driven_idle (event : DriverEvent) (flag : Bool)
    (node : d'.node = { d.node with snapshotInFlight := flag }) (trace : Traced Light d d') :
    Driven d event d' :=
  ⟨_, none, d', .idle event flag, node, trace, rfl, .refl _⟩

theorem driven_stay (event : DriverEvent) (node : d'.node = d.node) (trace : Traced Light d d') :
    Driven d event d' := driven_idle event d.node.snapshotInFlight node trace

theorem driven_feed {event : DriverEvent} {input : Input} (h : inputOf event = some input)
    (origin : Option NodeId) : Driven d event (d.feed input origin).1 :=
  ⟨_, origin, { d with node := (d.node.step input).1 }, .step h, rfl, traced_same rfl, rfl, .refl _⟩

theorem handleInboundFetchSnapshot_driven (d : Driver σ) (req : FetchSnapshotRequest) :
    Driven d (.inboundFetchSnapshot req) (d.handleInboundFetchSnapshot req) := by
  have hstay : ∀ (fs : List (Option Fault)) (x : Effect), Light x →
      Driven d (.inboundFetchSnapshot req) (Driver.emit { d with faults := fs } [x]) := by
    intro fs x hx
    exact driven_stay _ rfl ((traced_same (d := d) rfl).emit (by simpa using hx))
  have hout : Driven d (.inboundFetchSnapshot req) (Driver.processActions
      { d with node := (d.node.becomeFollower req.leaderEpoch none).1 }
      (d.node.becomeFollower req.leaderEpoch none).2 none).1 :=
    ⟨_, none, { d with node := (d.node.becomeFollower req.leaderEpoch none).1 }, .outrun req, rfl,
      traced_same rfl, rfl, .refl _⟩
  unfold Driver.handleInboundFetchSnapshot
  dsimp only
  generalize (if req.maxBytes = 0 then none else some req.maxBytes) = limit
  split_ifs
  · exact hstay d.faults _ trivial
  · exact hstay d.faults _ trivial
  · exact hstay d.faults _ trivial
  · exact hstay d.faults _ trivial
  · split
    · exact hout.congr rfl ((Traced.refl _).emit (by simp [Light]))
    · exact hout.congr rfl ((Traced.refl _).emit (by simp [Light]))
  · exact hstay d.faults _ trivial
  · split
    · exact hstay d.faults.tail _ trivial
    · split
      · exact hstay d.faults.tail _ trivial
      · split
        · exact hstay d.faults.tail.tail _ trivial
        · split
          · exact hstay d.faults.tail.tail _ trivial
          · exact hstay d.faults.tail.tail _ trivial

theorem handleFetchSnapshotResult_driven (d : Driver σ) (peer : NodeId) (clusterId : String)
    (epoch : ℕ) (metadata : Option SnapshotMeta) (data : Bytes) :
    Driven d (.fetchSnapshotResult peer clusterId epoch metadata data)
      (d.handleFetchSnapshotResult peer clusterId epoch metadata data) := by
  unfold Driver.handleFetchSnapshotResult
  split_ifs with h₁ h₂ h₃ h₄
  · exact driven_stay _ rfl (.refl d)
  · exact ⟨_, none, { d with node := (d.node.becomeFollower epoch none).1 }, .overtaken _ _ _ _ _,
      rfl, traced_same rfl, rfl, .refl _⟩
  · exact driven_stay _ rfl (.refl d)
  · exact driven_stay _ rfl (.refl d)
  · split
    · exact driven_stay _ rfl (.refl d)
    · rename_i snap
      exact ⟨_, none, d, .received clusterId epoch snap data (by simpa using h₄), rfl, .refl d, rfl,
        .refl _⟩

theorem handleClientCommand_driven (d : Driver σ) (request : RequestId) (command : Bytes) :
    Driven d (.client request command) (d.handleClientCommand request command) := by
  unfold Driver.handleClientCommand
  split_ifs with hrole
  · exact driven_stay _ rfl ((Traced.refl d).emit (by simp [Light]))
  · dsimp only
    split_ifs
    · exact ⟨_, none, { d with node := (d.node.step (.clientPropose command)).1, pending := _ },
        .step rfl, rfl, traced_same rfl, rfl, .refl _⟩
    · exact ⟨_, none, Driver.emit { d with node := (d.node.step (.clientPropose command)).1 } _,
        .step rfl, rfl, (traced_same rfl).trans ((Traced.refl _).emit (by simp [Light])), rfl,
        .refl _⟩

theorem handleTriggerSnapshot_driven (d : Driver σ) (request : RequestId) :
    Driven d (.triggerSnapshot request) (d.handleTriggerSnapshot request) := by
  unfold Driver.handleTriggerSnapshot
  split_ifs
  · exact driven_stay _ rfl ((Traced.refl d).emit (by simp [Light]))
  · exact driven_stay _ rfl ((Traced.refl d).emit (by simp [Light]))
  · obtain ⟨hp, -⟩ := dispatchSnapshotWorker_piped
      { d with node := { d.node with snapshotInFlight := true } } d.node.commitIndex (some request)
    have ht : Traced Light d (Driver.dispatchSnapshotWorker
        { d with node := { d.node with snapshotInFlight := true } } d.node.commitIndex
        (some request)).1 := by
      obtain ⟨w, hw, hlight⟩ := traced_of_piped hp
      exact ⟨w, hw, hlight⟩
    have hn := hp.node
    rcases hr : Driver.dispatchSnapshotWorker
      { d with node := { d.node with snapshotInFlight := true } } d.node.commitIndex
      (some request) with ⟨d', _ | e⟩ <;> rw [hr] at ht hn <;> dsimp only at ht hn ⊢
    · exact driven_idle _ true hn ht
    · refine driven_idle _ false ?_ (ht.congr rfl)
      show ({ d'.node with snapshotInFlight := false } : RaftNode) = _
      rw [hn]

theorem handleSnapshotCompleted_driven (d : Driver σ) :
    Driven d .snapshotCompleted d.handleSnapshotCompleted := by
  unfold Driver.handleSnapshotCompleted
  split
  · exact driven_stay _ rfl (.refl d)
  rename_i c rest _
  have hfail : ∀ (e : Driver σ) (message : String), e.node = d.node → Traced Light d e →
      Driven d .snapshotCompleted
        ((e.replySnapshot c.reply (.error (.storage message))).halt message) := by
    intro e message hn ht
    obtain ⟨hn', ht'⟩ := replySnapshot_footprint e c.reply (.error (.storage message))
    exact driven_stay _ (hn'.trans hn) ((ht.trans ht').congr rfl)
  dsimp only
  split
  · exact hfail _ _ rfl (traced_same rfl)
  have hcall : (Driver.anchorLog { d with snapshotDone := rest, snapshotWorkerInFlight := false }
        c.throughTerm c.throughIndex).1.node = d.node ∧
      Traced Light { d with snapshotDone := rest, snapshotWorkerInFlight := false }
        (Driver.anchorLog { d with snapshotDone := rest, snapshotWorkerInFlight := false }
          c.throughTerm c.throughIndex).1 :=
    durably_footprint rfl rfl trivial (fun _ => trivial)
  rcases hr : Driver.anchorLog { d with snapshotDone := rest, snapshotWorkerInFlight := false }
    c.throughTerm c.throughIndex with ⟨d', _ | e⟩ <;> rw [hr] at hcall <;> dsimp only at hcall ⊢
  swap
  · exact hfail d' _ hcall.1 ((traced_same (d := d) rfl).trans hcall.2)
  have hstep : Driven d .snapshotCompleted (d'.feed (.snapshotComplete c.metadata) none).1 := by
    refine ⟨_, none, { d' with node := (d'.node.step (.snapshotComplete c.metadata)).1 },
      .completed c.metadata, ?_, ?_, ?_, ?_⟩
    · rw [hcall.1]
      rfl
    · exact (traced_same (d := d) rfl).trans (hcall.2.congr rfl)
    · rw [← hcall.1]
      rfl
    · rw [← hcall.1]
      exact .refl _
  split
  · obtain ⟨hn, ht⟩ := replySnapshot_footprint (d'.feed (.snapshotComplete c.metadata) none).1
      c.reply (.error _)
    exact hstep.congr hn ht
  · obtain ⟨hn, ht⟩ := replySnapshot_footprint (d'.feed (.snapshotComplete c.metadata) none).1
      c.reply (.ok ⟨c.metadata.lastIncludedIndex, c.metadata.lastIncludedTerm,
        c.metadata.sizeBytes.getD 0⟩)
    exact hstep.congr hn ht

theorem handleDriverEvent_driven (d : Driver σ) (event : DriverEvent) :
    Driven d event (d.handleDriverEvent event) := by
  have hreply : ∀ {e : Driver σ} (x : Effect), Light x → Traced Light e (e.emit [x]) :=
    fun x hx => (Traced.refl _).emit (by simpa using hx)
  cases event with
  | tick => exact driven_feed rfl none
  | inboundVote req => exact (driven_feed rfl _).congr rfl (hreply _ trivial)
  | inboundPreVote req => exact (driven_feed rfl _).congr rfl (hreply _ trivial)
  | inboundFetch req => exact (driven_feed rfl _).congr rfl (hreply _ trivial)
  | inboundFetchSnapshot req => exact handleInboundFetchSnapshot_driven d req
  | voteResult peer response => exact driven_feed rfl none
  | preVoteResult peer response => exact driven_feed rfl none
  | fetchResult response => exact driven_feed rfl none
  | fetchSnapshotResult peer clusterId epoch metadata data =>
    exact handleFetchSnapshotResult_driven d peer clusterId epoch metadata data
  | client request command => exact handleClientCommand_driven d request command
  | query request query =>
    show Driven d _ (d.handleClientQuery request query)
    unfold Driver.handleClientQuery
    split_ifs
    · exact driven_stay _ rfl (hreply _ trivial)
    · exact driven_stay _ rfl (hreply _ trivial)
    · exact driven_stay _ rfl (hreply _ trivial)
    · exact driven_stay _ rfl (traced_same rfl)
  | triggerSnapshot request => exact handleTriggerSnapshot_driven d request
  | snapshotCompleted => exact handleSnapshotCompleted_driven d

theorem turn_after (d : Driver σ) (event : DriverEvent) (h : d.haltReason = none) :
    (d.turn event).node = (d.handleDriverEvent event).node ∧
      Traced Light (d.handleDriverEvent event) (d.turn event) := by
  have hreads : Traced Light (d.handleDriverEvent event)
      (d.handleDriverEvent event).drainPendingReads := by
    refine ⟨_, rfl, fun x hx => ?_⟩
    obtain ⟨r, _, hx⟩ := List.mem_filterMap.mp hx
    obtain ⟨v, _, rfl⟩ := Option.map_eq_some_iff.mp hx
    trivial
  unfold Driver.turn
  rw [if_neg (by simp [h])]
  dsimp only
  split_ifs
  · exact ⟨rfl, hreads.trans (failStopShutdown_traced _)⟩
  · exact ⟨rfl, hreads⟩

theorem turn_halted (d : Driver σ) (event : DriverEvent) (h : d.haltReason ≠ none) :
    d.turn event = d := by
  unfold Driver.turn
  rw [if_pos (Option.isSome_iff_ne_none.mpr h)]

/-- Every turn is one batch between stretches that leave the engine and the log alone. -/
theorem turn_driven (d : Driver σ) (event : DriverEvent) : Driven d event (d.turn event) := by
  by_cases h : d.haltReason = none
  · obtain ⟨hnode, htrace⟩ := turn_after d event h
    exact (handleDriverEvent_driven d event).congr hnode htrace
  · rw [turn_halted d event h]
    exact driven_stay _ rfl (.refl d)

end Actions

end BatchFootprints
