import Xraft.NodeDriver

/-! # The apply pipeline

Batches that only apply entries and dispatch snapshots, under any store failures: they leave the
engine and every store alone, apply entries of the log within the requested range, and apply all of
them unless the driver halts.
-/
namespace ApplyPipeline

open ProtocolTypes ConsensusEngine DurableStores NodeDriver

variable {σ : Type}

structure Piped (d d' : Driver σ) (w : List Effect) : Prop where
  node : d'.node = d.node
  logStore : d'.logStore = d.logStore
  hsStore : d'.hsStore = d.hsStore
  snapshotStore : d'.snapshotStore = d.snapshotStore
  pendingReads : d'.pendingReads = d.pendingReads
  maxFetchBatch : d'.maxFetchBatch = d.maxFetchBatch
  faults : ∃ k, d'.faults = d.faults.drop k
  trace : d'.trace = d.trace ++ w
  effects : ∀ x ∈ w, (∃ e, x = .apply e) ∨ ∃ request result, x = .clientReply request result

theorem Piped.refl (d : Driver σ) : Piped d d [] :=
  ⟨rfl, rfl, rfl, rfl, rfl, rfl, ⟨0, rfl⟩, (List.append_nil _).symm, by simp⟩

theorem Piped.trans {d d' d'' : Driver σ} {w w' : List Effect} (h : Piped d d' w)
    (h' : Piped d' d'' w') : Piped d d'' (w ++ w') := by
  obtain ⟨k, hk⟩ := h.faults
  obtain ⟨k', hk'⟩ := h'.faults
  refine ⟨h'.node.trans h.node, h'.logStore.trans h.logStore, h'.hsStore.trans h.hsStore,
    h'.snapshotStore.trans h.snapshotStore, h'.pendingReads.trans h.pendingReads,
    h'.maxFetchBatch.trans h.maxFetchBatch, ⟨k + k', ?_⟩, ?_, ?_⟩
  · rw [hk', hk, List.drop_drop]
  · rw [h'.trace, h.trace, List.append_assoc]
  · intro x hx
    rcases List.mem_append.mp hx with hx | hx
    · exact h.effects x hx
    · exact h'.effects x hx

theorem Piped.halt {d d' : Driver σ} {w : List Effect} (h : Piped d d' w) (reason : String) :
    Piped d (d'.halt reason) w :=
  ⟨h.node, h.logStore, h.hsStore, h.snapshotStore, h.pendingReads, h.maxFetchBatch, h.faults,
    h.trace, h.effects⟩

theorem resolveWaiters_piped (d : Driver σ) (due : ℕ → Bool) (result : Except XRaftError ℕ) :
    ∃ w, Piped d (d.resolveWaiters due result) w ∧ ∀ e, Effect.apply e ∉ w := by
  refine ⟨_, ⟨rfl, rfl, rfl, rfl, rfl, rfl, ⟨0, rfl⟩, rfl, fun x hx => ?_⟩, fun e he => ?_⟩
  · obtain ⟨a, _, rfl⟩ := List.mem_map.mp hx
    exact .inr ⟨_, _, rfl⟩
  · obtain ⟨a, _, ha⟩ := List.mem_map.mp he
    cases ha

theorem afterCall_piped (d : Driver σ) : Piped d d.afterCall [] :=
  ⟨rfl, rfl, rfl, rfl, rfl, rfl, ⟨1, List.drop_one.symm⟩, (List.append_nil _).symm, by simp⟩

/-- A call of the pipeline over entries `es`: only these are applied, and all of them unless it
reports a failure. -/
structure AppliesFrom {ε : Type} (d : Driver σ) (es : List Entry) (r : Driver σ × Option ε)
    (w : List Effect) : Prop where
  piped : Piped d r.1 w
  halt : r.1.haltReason = d.haltReason
  only : ∀ e, Effect.apply e ∈ w → e ∈ es
  all : r.2 = none → ∀ e ∈ es, Effect.apply e ∈ w

/-- A refusal answers waiters and applies nothing. -/
theorem refused_appliesFrom {ε : Type} {d d' : Driver σ} (h : Piped d d' [])
    (halt : d'.haltReason = d.haltReason) (es : List Entry) (due : ℕ → Bool)
    (result : Except XRaftError ℕ) (e : ε) :
    ∃ w, AppliesFrom d es (d'.resolveWaiters due result, some e) w := by
  obtain ⟨w, hp, hw⟩ := resolveWaiters_piped d' due result
  exact ⟨[] ++ w, h.trans hp, halt, fun x hx => absurd hx (hw x), nofun⟩

def inRange (s : MemoryLogStore) (first last : ℕ) : List Entry := s.getRange first (last + 1)

theorem mem_inRange {s : MemoryLogStore} {first last : ℕ} {e : Entry} :
    e ∈ inRange s first last ↔ e ∈ s.entries ∧ first ≤ e.index ∧ e.index ≤ last := by
  simp only [inRange, MemoryLogStore.getRange, List.mem_filter, decide_eq_true_eq,
    Nat.lt_succ_iff]

def Applies : Action → Prop
  | .applyToStateMachine _ _ => True
  | .takeSnapshot _ => True
  | _ => False

theorem drainApplyPipeline_applies (n : RaftNode) : ∀ a ∈ n.drainApplyPipeline.2, Applies a := by
  intro a ha
  simp only [RaftNode.drainApplyPipeline, RaftNode.maybeApply, RaftNode.maybeTakeSnapshot,
    List.mem_append] at ha
  rcases ha with ha | ha <;> split_ifs at ha <;> simp_all [Applies]

theorem advanceCommit_applies (n : RaftNode) : ∀ a ∈ n.advanceCommit.2, Applies a := by
  unfold RaftNode.advanceCommit
  split
  · exact drainApplyPipeline_applies _
  · simp

theorem handleFetchRequestAcked_applies (n : RaftNode) (replica : NodeId) (confirmed : ℕ) :
    ∀ a ∈ (n.handleFetchRequestAcked replica confirmed).2, Applies a := by
  unfold RaftNode.handleFetchRequestAcked
  split_ifs
  · simp
  · simp
  · exact advanceCommit_applies _

def Requested (actions : List Action) (s : MemoryLogStore) (e : Entry) : Prop :=
  ∃ first last, Action.applyToStateMachine first last ∈ actions ∧ e ∈ inRange s first last

structure ActionPiped (d : Driver σ) (c : CapturedResponse) (a : Action) (o : Outcome σ)
    (w : List Effect) : Prop where
  piped : Piped d o.driver w
  only : ∀ e, Effect.apply e ∈ w → Requested [a] d.logStore e
  broke : o.broke = true → o.driver.haltReason.isSome ∧ ∃ e, o.captured = { c with error := e }
  went : o.broke = false → o.driver.haltReason = d.haltReason ∧ o.captured = c ∧
    ∀ e, Requested [a] d.logStore e → Effect.apply e ∈ w

theorem haltOnError_piped {ε : Type} {d : Driver σ} {a : Action} {es : List Entry}
    {r : Driver σ × Option ε} {w : List Effect} (h : AppliesFrom d es r w)
    (hreq : ∀ e, Requested [a] d.logStore e ↔ e ∈ es) (c : CapturedResponse) (text : ε → String) :
    ActionPiped d c a (haltOnError c text r) w := by
  obtain ⟨d', _ | e⟩ := r
  · refine ⟨h.piped, fun e he => (hreq e).mpr (h.only e he), nofun, fun _ => ?_⟩
    exact ⟨h.halt, rfl, fun e he => h.all rfl e ((hreq e).mp he)⟩
  · exact ⟨h.piped.halt _, fun e he => (hreq e).mpr (h.only e he), fun _ => ⟨rfl, _, rfl⟩,
      nofun⟩

/-! ## Applying entries -/

variable [StateMachine σ]

theorem applyEntry_appliesFrom (d : Driver σ) (last : ℕ) (entry : Entry) :
    ∃ w, AppliesFrom d [entry] (d.applyEntry last entry) w := by
  have hsettle : ∀ sm : σ, ∃ w, AppliesFrom d [entry] ((Driver.emit { d with stateMachine := sm }
      [.apply entry]).resolveWaiters (fun i => i = entry.index) (.ok entry.index),
      (none : Option String)) w := by
    intro sm
    have hemit : Piped d (Driver.emit { d with stateMachine := sm } [.apply entry])
        [.apply entry] :=
      ⟨rfl, rfl, rfl, rfl, rfl, rfl, ⟨0, rfl⟩, rfl, by simp⟩
    obtain ⟨w, hp, hw⟩ := resolveWaiters_piped
      (Driver.emit { d with stateMachine := sm } [.apply entry]) (fun i => i = entry.index)
      (.ok entry.index)
    refine ⟨[.apply entry] ++ w, hemit.trans hp, rfl, fun e he => ?_, fun _ e he => ?_⟩
    · rcases List.mem_append.mp he with he | he
      · simpa using he
      · exact absurd he (hw e)
    · rw [List.mem_singleton.mp he]
      simp
  unfold Driver.applyEntry
  split
  · split
    · rename_i sm _
      exact hsettle sm
    · exact refused_appliesFrom (.refl d) rfl _ _ _ _
  · exact hsettle d.stateMachine

theorem applyEntries_appliesFrom (d : Driver σ) (last : ℕ) (entries : List Entry) :
    ∃ w, AppliesFrom d entries (d.applyEntries last entries) w := by
  induction entries generalizing d with
  | nil => exact ⟨[], .refl d, rfl, by simp, by simp⟩
  | cons entry rest ih =>
    obtain ⟨w, hw⟩ := applyEntry_appliesFrom d last entry
    unfold Driver.applyEntries
    rcases hr : d.applyEntry last entry with ⟨d', _ | message⟩ <;> rw [hr] at hw
    · obtain ⟨w', hw'⟩ := ih d'
      refine ⟨w ++ w', hw.piped.trans hw'.piped, hw'.halt.trans hw.halt, fun e he => ?_,
        fun hnone e he => ?_⟩
      · rcases List.mem_append.mp he with he | he
        · exact List.mem_cons.mpr (.inl (List.mem_singleton.mp (hw.only e he)))
        · exact List.mem_cons_of_mem _ (hw'.only e he)
      · rcases List.mem_cons.mp he with rfl | he
        · exact List.mem_append_left _ (hw.all rfl _ (List.mem_singleton_self _))
        · exact List.mem_append_right _ (hw'.all hnone e he)
    · exact ⟨w, hw.piped, hw.halt, fun e he => List.mem_cons.mpr
        (.inl (List.mem_singleton.mp (hw.only e he))), nofun⟩

theorem applyCommitted_appliesFrom (d : Driver σ) (first last : ℕ) :
    ∃ w, AppliesFrom d (inRange d.logStore first last) (d.applyCommitted first last) w := by
  have hrefuse : ∀ message : String, ∃ w, AppliesFrom d (inRange d.logStore first last)
      (d.afterCall.resolveWaiters (fun i => first ≤ i ∧ i ≤ last) (.error (.storage message)),
        some message) w :=
    fun message => refused_appliesFrom (afterCall_piped d) rfl _ _ _ _
  unfold Driver.applyCommitted
  split_ifs
  · exact ⟨[], .refl d, rfl, by simp, nofun⟩
  · exact ⟨[], .refl d, rfl, by simp, nofun⟩
  · split
    · exact hrefuse _
    · dsimp only
      split_ifs
      · exact hrefuse _
      · split
        · exact hrefuse _
        · obtain ⟨w, hw⟩ := applyEntries_appliesFrom d.afterCall last
            (d.logStore.getRange first (last + 1))
          exact ⟨[] ++ w, (afterCall_piped d).trans hw.piped, hw.halt, hw.only, hw.all⟩

theorem dispatchSnapshotWorker_piped (d : Driver σ) (through : ℕ) (reply : Option RequestId) :
    Piped d (d.dispatchSnapshotWorker through reply).1 [] ∧
      (d.dispatchSnapshotWorker through reply).1.haltReason = d.haltReason := by
  have hcall : Piped d d.afterCall [] ∧ d.afterCall.haltReason = d.haltReason :=
    ⟨afterCall_piped d, rfl⟩
  unfold Driver.dispatchSnapshotWorker
  split_ifs
  · exact ⟨.refl d, rfl⟩
  · split
    · exact hcall
    · split
      · exact hcall
      · split
        · exact hcall
        · exact ⟨⟨rfl, rfl, rfl, rfl, rfl, rfl, ⟨1, List.drop_one.symm⟩, (List.append_nil _).symm,
            by simp⟩, rfl⟩

/-! ## Whole batches -/

theorem runAction_piped (nested : Nested σ) (origin : Option NodeId) (d : Driver σ)
    (c : CapturedResponse) {a : Action} (ha : Applies a) :
    ∃ w, ActionPiped d c a (runAction nested origin d c a) w := by
  cases a with
  | applyToStateMachine first last =>
    obtain ⟨w, hw⟩ := applyCommitted_appliesFrom d first last
    refine ⟨w, haltOnError_piped hw (fun e => ⟨?_, ?_⟩) c _⟩
    · rintro ⟨f, l, hmem, he⟩
      obtain ⟨rfl, rfl⟩ : f = first ∧ l = last := by simpa using hmem
      exact he
    · exact fun he => ⟨first, last, List.mem_singleton_self _, he⟩
  | takeSnapshot through =>
    obtain ⟨hp, hh⟩ := dispatchSnapshotWorker_piped d through none
    have hcall : AppliesFrom d [] (d.dispatchSnapshotWorker through none) [] :=
      ⟨hp, hh, by simp, by simp⟩
    refine ⟨[], haltOnError_piped hcall (fun e => ⟨?_, by simp⟩) c _⟩
    rintro ⟨f, l, hmem, _⟩
    simp at hmem
  | _ => exact ha.elim

structure BatchPiped (d : Driver σ) (c : CapturedResponse) (actions : List Action)
    (r : Driver σ × CapturedResponse) (w : List Effect) : Prop where
  piped : Piped d r.1 w
  captured : ∃ e, r.2 = { c with error := e }
  error : r.1.haltReason = none → r.2.error = c.error
  only : ∀ e, Effect.apply e ∈ w → Requested actions d.logStore e
  all : r.1.haltReason = none → ∀ e, Requested actions d.logStore e → Effect.apply e ∈ w

theorem runActions_piped (nested : Nested σ) (origin : Option NodeId) {actions : List Action}
    (ha : ∀ a ∈ actions, Applies a) (d : Driver σ) (c : CapturedResponse) :
    ∃ w, BatchPiped d c actions (runActions nested origin d c actions) w := by
  induction actions generalizing d c with
  | nil =>
    refine ⟨[], .refl d, ⟨c.error, rfl⟩, fun _ => rfl, by simp, ?_⟩
    rintro _ e ⟨_, _, h, _⟩
    cases h
  | cons a rest ih =>
    obtain ⟨w, hw⟩ := runAction_piped nested origin d c (ha a List.mem_cons_self)
    unfold runActions
    generalize runAction nested origin d c a = o at hw ⊢
    have hfirst : ∀ e, Requested [a] d.logStore e → Requested (a :: rest) d.logStore e := by
      rintro e ⟨f, l, hmem, he⟩
      exact ⟨f, l, List.mem_cons.mpr (.inl (List.mem_singleton.mp hmem)), he⟩
    by_cases hb : o.broke = true
    · rw [if_pos hb]
      obtain ⟨hh, hc⟩ := hw.broke hb
      have hnone : o.driver.haltReason ≠ none := Option.isSome_iff_ne_none.mp hh
      exact ⟨w, hw.piped, hc, fun h => absurd h hnone, fun e he => hfirst e (hw.only e he),
        fun h => absurd h hnone⟩
    · rw [if_neg hb]
      obtain ⟨hh, hc, hall⟩ := hw.went (by simpa using hb)
      obtain ⟨w', hw'⟩ := ih (fun a h => ha a (List.mem_cons_of_mem _ h)) o.driver o.captured
      have hlog : o.driver.logStore = d.logStore := hw.piped.logStore
      refine ⟨w ++ w', hw.piped.trans hw'.piped, hc ▸ hw'.captured,
        fun h => (hw'.error h).trans (congrArg _ hc), fun e he => ?_, fun hnone e he => ?_⟩
      · rcases List.mem_append.mp he with he | he
        · exact hfirst e (hw.only e he)
        · obtain ⟨f, l, hmem, he⟩ := hw'.only e he
          exact ⟨f, l, List.mem_cons_of_mem _ hmem, hlog ▸ he⟩
      · obtain ⟨f, l, hmem, he⟩ := he
        rcases List.mem_cons.mp hmem with rfl | hmem
        · exact List.mem_append_left _ (hall e ⟨f, l, List.mem_singleton_self _, he⟩)
        · exact List.mem_append_right _ (hw'.all hnone e ⟨f, l, hmem, hlog.symm ▸ he⟩)

end ApplyPipeline
