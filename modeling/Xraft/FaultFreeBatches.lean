import Xraft.ApplyPipeline
import Xraft.PositionedLog

/-! # Batches without store failures

While no store fails, everything up to the apply pipeline runs to its end: the log takes the
appended entries, requests leave in order, and the engine keeps its state except for the commit
index that each persist writes into the hard state.
-/
namespace FaultFreeBatches

open ProtocolTypes ConsensusEngine DurableStores NodeDriver ApplyPipeline
open PositionedLog

def core (n : RaftNode) : RaftNode := { n with hardState := { n.hardState with commitIndex := 0 } }

/-- Effects that concern neither votes nor the log: nothing in the cluster depends on them. -/
def Idle : Effect → Prop
  | .dispatch _ _ | .voteReply _ _ | .fetchReply _ _ | .apply _ | .truncate _ => False
  | _ => True

def IsRequest : OutboundMessage → Prop
  | .voteRequest _ | .preVoteRequest _ | .fetchRequest _ | .fetchSnapshotRequest _ => True
  | _ => False

/-- Actions that come before the apply pipeline and cannot fail on working stores. -/
def Routine : Action → Prop
  | .persistHardState | .becomeLeader | .stepDown => True
  | .sendMessage _ message => IsRequest message
  | .appendEntries entries => entries.any Entry.isSnapshot = false
  | _ => False

def logAfter (s : MemoryLogStore) : List Action → MemoryLogStore
  | [] => s
  | .appendEntries entries :: rest => logAfter (extend s entries) rest
  | _ :: rest => logAfter s rest

theorem logAfter_kept (store : MemoryLogStore) {actions : List Action}
    (h : ∀ entries, Action.appendEntries entries ∉ actions) : logAfter store actions = store := by
  induction actions with
  | nil => rfl
  | cons a rest ih =>
    have hrest := ih (fun entries hmem => h entries (List.mem_cons_of_mem _ hmem))
    cases a with
    | appendEntries entries => exact absurd List.mem_cons_self (h entries)
    | _ => exact hrest

variable {σ : Type}

structure Performed (d : Driver σ) (actions : List Action) (d' : Driver σ) : Prop where
  core : core d'.node = core d.node
  log : d'.logStore = logAfter d.logStore actions
  faults : d'.faults = []
  halt : d'.haltReason = d.haltReason
  batch : d'.maxFetchBatch = d.maxFetchBatch
  reads : d'.pendingReads = d.pendingReads ∨ d'.pendingReads = []
  lost : Action.stepDown ∈ actions → d'.pendingReads = []
  trace : ∃ w, d'.trace = d.trace ++ w ∧
    ∀ x ∈ w, Idle x ∨ ∃ dest m, x = .dispatch dest m ∧ Action.sendMessage dest m ∈ actions

theorem Performed.nil {d : Driver σ} (h : d.faults = []) : Performed d [] d :=
  ⟨rfl, rfl, h, rfl, rfl, .inl rfl, nofun, [], (List.append_nil _).symm, by simp⟩

theorem Performed.cons {d d' d'' : Driver σ} {a : Action} {rest : List Action}
    (h : Performed d [a] d') (h' : Performed d' rest d'') : Performed d (a :: rest) d'' := by
  obtain ⟨w, hw, hin⟩ := h.trace
  obtain ⟨w', hw', hin'⟩ := h'.trace
  refine ⟨h'.core.trans h.core, ?_, h'.faults, h'.halt.trans h.halt, h'.batch.trans h.batch, ?_,
    fun hmem => ?_, w ++ w', by rw [hw', hw, List.append_assoc], fun x hx => ?_⟩
  · rw [h'.log, h.log]
    cases a <;> rfl
  · rcases h'.reads with hr | hr
    · exact h.reads.imp hr.trans hr.trans
    · exact .inr hr
  · rcases List.mem_cons.mp hmem with rfl | hmem
    · rcases h'.reads with hr | hr
      · exact hr.trans (h.lost (List.mem_singleton_self _))
      · exact hr
    · exact h'.lost hmem
  · rcases List.mem_append.mp hx with hx | hx
    · refine (hin x hx).imp_right ?_
      rintro ⟨dest, m, rfl, hm⟩
      exact ⟨dest, m, rfl, List.mem_cons.mpr (.inl (List.mem_singleton.mp hm))⟩
    · refine (hin' x hx).imp_right ?_
      rintro ⟨dest, m, rfl, hm⟩
      exact ⟨dest, m, rfl, List.mem_cons_of_mem _ hm⟩

theorem nextFault_none {d : Driver σ} (h : d.faults = []) : d.nextFault = none := by
  simp [Driver.nextFault, h]

theorem afterCall_self {d : Driver σ} (h : d.faults = []) : d.afterCall = d := by
  simp only [Driver.afterCall, h, List.tail_nil]
  rw [← h]

theorem durably_ok {d : Driver σ} (h : d.faults = []) (write : Driver σ → Driver σ)
    (effect : Effect) (failed : XRaftError → Effect) :
    d.durably write effect failed = ((write d).emit [effect], none) := by
  simp only [Driver.durably, nextFault_none h, afterCall_self h]

theorem sendOrCapture_request (origin : Option NodeId) (d : Driver σ) (c : CapturedResponse)
    (dest : NodeId) {m : OutboundMessage} (h : IsRequest m) :
    sendOrCapture origin d c dest m = ⟨d.emit [.dispatch dest m], c, false⟩ := by
  cases m with
  | voteResponse | preVoteResponse | fetchResponse => exact h.elim
  | voteRequest | preVoteRequest | fetchRequest | fetchSnapshotRequest => exact ite_self _

variable [StateMachine σ]

theorem runAction_performed (nested : Nested σ) (origin : Option NodeId) {d : Driver σ}
    (hf : d.faults = []) (c : CapturedResponse) {a : Action} (ha : Routine a) :
    ∃ d', Performed d [a] d' ∧ runAction nested origin d c a = ⟨d', c, false⟩ := by
  cases a with
  | persistHardState =>
    refine ⟨Driver.emit { d.clampCommit with hsStore := some d.clampCommit.node.hardState }
      [.persist d.clampCommit.node.hardState], ?_, ?_⟩
    · exact ⟨rfl, rfl, hf, rfl, rfl, .inl rfl, by simp, _, rfl, by simp [Idle]⟩
    · have hclamp : d.clampCommit.faults = [] := hf
      simp only [runAction, Driver.persistHardState]
      rw [durably_ok hclamp]
      rfl
  | appendEntries entries =>
    have happend : d.logStore.append entries = .ok (extend d.logStore entries) := by
      have hnone : entries.any Entry.isSnapshot = false := ha
      simp [MemoryLogStore.append, hnone, extend]
    refine ⟨Driver.emit { d with logStore := extend d.logStore entries } [.append entries, .flush],
      ?_, ?_⟩
    · exact ⟨rfl, rfl, hf, rfl, rfl, .inl rfl, by simp, _, rfl, by simp [Idle]⟩
    · simp only [runAction, runAppend, Driver.appendLog, happend]
      rw [durably_ok hf]
      dsimp only
      rw [Driver.flushLog, durably_ok (by exact hf)]
      simp [Driver.emit]
  | sendMessage dest m =>
    refine ⟨_, ?_, sendOrCapture_request origin d c dest ha⟩
    exact ⟨rfl, rfl, hf, rfl, rfl, .inl rfl, by simp, _, rfl,
      fun x hx => .inr ⟨dest, m, List.mem_singleton.mp hx, List.mem_singleton_self _⟩⟩
  | becomeLeader =>
    exact ⟨d, ⟨rfl, rfl, hf, rfl, rfl, .inl rfl, by simp, [], (List.append_nil _).symm, by simp⟩,
      rfl⟩
  | stepDown =>
    refine ⟨d.failWaiters (.notLeader d.node.leaderId),
      ⟨rfl, rfl, hf, rfl, rfl, .inr rfl, fun _ => rfl, _, rfl, fun x hx => .inl ?_⟩, rfl⟩
    simp only [List.mem_append, List.mem_map] at hx
    rcases hx with ⟨_, _, rfl⟩ | ⟨_, _, rfl⟩ <;> trivial
  | _ => exact ha.elim

/-- Routine actions at the head of a batch all run before the rest of it. -/
theorem runActions_performed (nested : Nested σ) (origin : Option NodeId) {pre : List Action}
    (hpre : ∀ a ∈ pre, Routine a) (post : List Action) {d : Driver σ} (hf : d.faults = [])
    (c : CapturedResponse) : ∃ d', Performed d pre d' ∧
      runActions nested origin d c (pre ++ post) = runActions nested origin d' c post := by
  induction pre generalizing d with
  | nil => exact ⟨d, .nil hf, rfl⟩
  | cons a rest ih =>
    obtain ⟨d₁, h₁, hrun⟩ := runAction_performed nested origin hf c (hpre a List.mem_cons_self)
    obtain ⟨d₂, h₂, hrest⟩ := ih (fun b hb => hpre b (List.mem_cons_of_mem _ hb)) h₁.faults
    refine ⟨d₂, h₁.cons h₂, ?_⟩
    rw [List.cons_append, runActions, hrun]
    exact hrest

theorem runActions_cut {d : Driver σ} (hf : d.faults = []) (c : CapturedResponse) (fromIndex : ℕ)
    (dest : NodeId) (req : FetchRequest) :
    (runActions processAcked none d c [.truncateLog (.suffixFromInclusive fromIndex),
      .sendMessage dest (.fetchRequest req)]).1 =
    (Driver.mirrorLogTip { d with
      logStore := d.logStore.truncateFrom fromIndex
      trace := d.trace ++ [.truncate fromIndex, .flush] }).emit
        [.dispatch dest (.fetchRequest req)] := by
  have htruncate : runAction processAcked none d c (.truncateLog (.suffixFromInclusive fromIndex)) =
      ⟨Driver.mirrorLogTip { d with
        logStore := d.logStore.truncateFrom fromIndex
        trace := d.trace ++ [.truncate fromIndex, .flush] }, c, false⟩ := by
    simp only [runAction, runTruncate, Driver.truncateLog]
    rw [durably_ok hf]
    dsimp only
    rw [Driver.flushLog, durably_ok (by exact hf)]
    simp [Driver.emit]
  simp only [runActions, htruncate, Bool.false_eq_true, if_false]
  simp only [runAction, sendOrCapture_request none _ c dest (m := .fetchRequest req) trivial]
  rfl

end FaultFreeBatches
