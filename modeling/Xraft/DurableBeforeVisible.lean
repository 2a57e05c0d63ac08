import Xraft.DriverTurns
import Xraft.ServerRecovery

/-! # Durable before visible

One life of a driver: it starts over arbitrary stores, takes any events and meets any pattern of
store failures. What the stores hold at the start counts as persisted and flushed.
-/
namespace DurableBeforeVisible

open ProtocolTypes ConsensusEngine DurableStores NodeDriver ServerRecovery EngineTransitions
open PersistOrder DriverJournal ActionBatches DriverTurns GuardedExecution

variable {σ : Type} {self : NodeId}

def storeLedger (store : Durable) : Ledger :=
  ⟨(store.hsStore.map ballotOf).getD ⟨0, none⟩, store.logStore.entries, []⟩

structure Lived (id : NodeId) (store : Durable) (d : Driver σ) (w : List Effect) : Prop where
  trace : d.trace = store.trace ++ w
  disk : onDisk d = (replay Ledger.after (storeLedger store) w).ballot
  lawful : Lawful id (storeLedger store) w
  flushed : d.haltReason = none →
    ∀ e ∈ d.logStore.entries, e ∈ (replay Ledger.after (storeLedger store) w).flushed

theorem Lived.extend {store : Durable} {d d' : Driver σ} {w w' : List Effect}
    (h : Lived self store d w) (hhalt : d.haltReason = none) (hj : Journal self d d' w')
    (hf : Failed w' → d'.haltReason.isSome) : Lived self store d' (w ++ w') := by
  have hle : (ledger d).Le (replay Ledger.after (storeLedger store) w) :=
    ⟨h.disk.symm, h.flushed hhalt, fun _ he => absurd he List.not_mem_nil⟩
  have hstep : ∀ (s u : Ledger) e, s.Le u → (s.after e).Le (u.after e) := fun _ _ e h => h.after e
  have hpermits : ∀ (s u : Ledger) e, s.Le u → s.Permits self e → u.Permits self e :=
    fun _ _ _ hle hp => hle.permits hp
  have hreplay := replay_rel hstep w' hle
  refine ⟨by rw [hj.trace, h.trace, List.append_assoc], ?_, ?_, fun hnone e he => ?_⟩
  · rw [replay_append, hj.disk, hreplay.ballot]
  · exact admissible_append.mpr ⟨h.lawful, hj.lawful.lift hstep hpermits hle⟩
  · have hok : ¬Failed w' := fun hfail => by simpa [hnone] using hf hfail
    rw [replay_append]
    exact hreplay.flushed e (hj.settled hok e he)

theorem Lived.inert {store : Durable} {d d' : Driver σ} {w w' : List Effect}
    (h : Lived self store d w) (hw : ∀ x ∈ w', Inert x) (trace : d'.trace = d.trace ++ w')
    (hs : d'.hsStore = d.hsStore) (log : d'.logStore = d.logStore)
    (halt : d'.haltReason = d.haltReason) : Lived self store d' (w ++ w') := by
  have hreplay : replay Ledger.after (storeLedger store) (w ++ w') =
      replay Ledger.after (storeLedger store) w := by
    rw [replay_append, replay_passive (fun x hx => (hw x hx).1)]
  refine ⟨by rw [trace, h.trace, List.append_assoc], ?_, ?_, ?_⟩
  · rw [hreplay, onDisk_congr hs, h.disk]
  · exact admissible_append.mpr ⟨h.lawful, lawful_passive (fun x hx => (hw x hx).1)
      (fun x hx => (hw x hx).2 _ _)⟩
  · rw [hreplay, log, halt]
    exact h.flushed

theorem recoverNode_ballot (config : ClusterConfig) (voterSet : Option VoterSet) (rng : List ℕ)
    (hsStore : Option HardState) (logStore : MemoryLogStore) (snapshotMeta : Option SnapshotMeta) :
    ballot (recoverNode config voterSet rng hsStore logStore snapshotMeta) =
      (hsStore.map ballotOf).getD ⟨0, none⟩ := by
  cases hsStore <;> rfl

theorem drainApplyPipeline_standing (n : RaftNode) : SameStanding n n.drainApplyPipeline.1 := by
  obtain ⟨a, s, h⟩ := drainApplyPipeline_fst n
  rw [h]
  constructor <;> rfl

theorem boot_settled (config : ClusterConfig) (voterSet : Option VoterSet) (rng : List ℕ)
    (maxFetchBatch : ℕ) (faults : List (Option Fault)) (store : Durable) (sm : σ)
    (snapshotMeta : Option SnapshotMeta) :
    Settled (boot config voterSet rng maxFetchBatch faults store sm snapshotMeta) :=
  fun _ => (recoverNode_ballot config voterSet rng store.hsStore store.logStore snapshotMeta).symm

theorem failStopShutdown_trace (d : Driver σ) : ∃ w, (∀ x ∈ w, Refusal x) ∧
    d.failStopShutdown.trace = d.trace ++ w := by
  refine ⟨_, fun x hx => ?_, List.append_assoc ..⟩
  rcases List.mem_append.mp hx with hx | hx
  · rcases List.mem_append.mp hx with hx | hx <;> obtain ⟨_, _, rfl⟩ := List.mem_map.mp hx <;>
      trivial
  · obtain ⟨c, _, hx⟩ := List.mem_filterMap.mp hx
    obtain ⟨_, _, rfl⟩ := Option.map_eq_some_iff.mp hx
    trivial

variable [StateMachine σ]

theorem recoveryDrain_ran {d : Driver σ} (hhalt : d.haltReason = none) (hd : Settled d) :
    RanFrom self d d.node (recoveryDrain d) := by
  have hstand := drainApplyPipeline_standing d.node
  have hb : onDisk d = ballot d.node.drainApplyPipeline.1 := (hd hhalt).trans hstand.ballot.symm
  have hbatch : BatchRan self none { d with node := d.node.drainApplyPipeline.1 }
      (Driver.processActions { d with node := d.node.drainApplyPipeline.1 }
        d.node.drainApplyPipeline.2 none) :=
    processActions_ran hhalt (hb ▸ settles_of_quiet (drainApplyPipeline_quiet d.node))
  have hdrain : Ran self d { d with node := d.node.drainApplyPipeline.1 } false :=
    (Ran.refl d false).congr hstand rfl rfl rfl
  have hran : RanFrom self d d.node (Driver.processActions
      { d with node := d.node.drainApplyPipeline.1 } d.node.drainApplyPipeline.2 none).1 :=
    ⟨hdrain.trans hbatch.ran, fun h => (hbatch.disk h).trans hstand.ballot⟩
  unfold recoveryDrain
  dsimp only
  split_ifs
  · exact ⟨failStopShutdown_ran hran.ran, hran.disk⟩
  · exact hran

theorem start_ran (config : ClusterConfig) (voterSet : Option VoterSet) (rng : List ℕ)
    (maxFetchBatch : ℕ) (initial : σ) (faults : List (Option Fault)) (store : Durable) :
    ∃ sm snapshotMeta,
      RanFrom self (boot config voterSet rng maxFetchBatch faults store sm snapshotMeta)
        (recoverNode config voterSet rng store.hsStore store.logStore snapshotMeta)
        (start config voterSet rng maxFetchBatch initial faults store) := by
  unfold start
  split
  · exact ⟨initial, none, recoveryDrain_ran rfl (boot_settled _ _ _ _ _ _ _ _)⟩
  · rename_i snap data _
    split
    · rename_i sm _
      exact ⟨sm, some snap, recoveryDrain_ran rfl (boot_settled _ _ _ _ _ _ _ _)⟩
    · exact ⟨initial, some snap, (Ran.refl _ true).congr (.refl _) rfl rfl rfl, fun h => by cases h⟩

/-! ## A whole life -/

inductive LifeEvent
  | turn (event : DriverEvent)
  | snapshotWorker

def Driver.live (d : Driver σ) : LifeEvent → Driver σ
  | .turn event => d.turn event
  | .snapshotWorker => d.runSnapshotWorker

abbrev Life : Driver σ → Driver σ → Prop := Execution Driver.live (fun _ _ => True)

def AnswerTo : DriverEvent → Effect → Prop
  | .inboundVote req, .voteReply req' _ => req' = req
  | .inboundPreVote req, .preVoteReply req' _ => req' = req
  | .inboundFetch req, .fetchReply req' _ => req' = req
  | .inboundFetchSnapshot req, .fetchSnapshotReply req' _ => req' = req
  | _, _ => False

theorem AnswerTo.passive {event : DriverEvent} {x : Effect} (h : AnswerTo event x) : Passive x := by
  cases event <;> cases x <;> trivial

theorem drainPendingReads_trace (d : Driver σ) : ∃ w, (∀ x ∈ w, Refusal x) ∧
    d.drainPendingReads.trace = d.trace ++ w := by
  refine ⟨_, fun x hx => ?_, rfl⟩
  obtain ⟨r, _, hx⟩ := List.mem_filterMap.mp hx
  obtain ⟨v, _, rfl⟩ := Option.map_eq_some_iff.mp hx
  trivial

theorem turn_tail {d : Driver σ} (hhalt : d.haltReason = none) (event : DriverEvent) :
    ∃ w, (∀ x ∈ w, Refusal x) ∧ (d.turn event).trace = (d.handleDriverEvent event).trace ++ w := by
  obtain ⟨w, hw, h⟩ := drainPendingReads_trace (d.handleDriverEvent event)
  unfold Driver.turn
  rw [if_neg (by simp [hhalt])]
  dsimp only
  split_ifs
  · obtain ⟨w', hw', h'⟩ := failStopShutdown_trace (d.handleDriverEvent event).drainPendingReads
    refine ⟨w ++ w', fun x hx => ?_, by rw [h', h, List.append_assoc]⟩
    rcases List.mem_append.mp hx with hx | hx
    · exact hw x hx
    · exact hw' x hx
  · exact ⟨w, hw, h⟩

abbrev firstVoter (faults : List (Option Fault)) : Driver NoOpStateMachine :=
  start (threeVoterConfig false 1) (some threeVoterSet) [] 64 .mk faults Durable.fresh

end DurableBeforeVisible
