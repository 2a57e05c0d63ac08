import Xraft.DriverMoves
import Xraft.DurableBeforeVisible

/-! # Answers to clients

Proposals wait for their entry to be applied and deferred reads wait for a quorum. An account per
caller adds up its answers and its places in the two queues. Every elementary move keeps it, so
nobody is answered twice or dropped, whatever the stores do.
-/
namespace RequestLedger

open ProtocolTypes ConsensusEngine DurableStores NodeDriver ServerRecovery GuardedExecution
open DurableBeforeVisible DriverMoves

def answersTo (request : RequestId) : Effect → Bool
  | .clientReply request' _ | .queryReply request' _ => request' = request
  | _ => false

def answers (request : RequestId) (w : List Effect) : ℕ := w.countP (answersTo request)

variable {σ : Type} {d d' : Driver σ}

def waiting (request : RequestId) (d : Driver σ) : ℕ :=
  d.pending.countP (fun w => w.2 = request) + d.pendingReads.countP (fun r => r.reply = request)

/-- The answers a caller has had and those it can still expect. -/
def account (request : RequestId) (d : Driver σ) : ℕ := answers request d.trace + waiting request d

variable (request : RequestId)

theorem answers_append (w w' : List Effect) :
    answers request (w ++ w') = answers request w + answers request w' := List.countP_append

theorem answers_of_plain {x : Effect} (h : ¬Answering x) : answers request [x] = 0 := by
  cases x <;> first | rfl | exact absurd trivial h

theorem split_queue {α : Type} (queue : List α) (due : α → Bool) (caller : α → RequestId)
    (reply : α → Effect) (h : ∀ a, answersTo request (reply a) = decide (caller a = request)) :
    answers request ((queue.filter due).map reply) +
      (queue.filter (fun a => !due a)).countP (fun a => caller a = request) =
        queue.countP (fun a => caller a = request) := by
  have hreply : answersTo request ∘ reply = fun a => decide (caller a = request) := funext h
  rw [answers, List.countP_map, hreply]
  exact (List.countP_eq_countP_filter_add queue _ due).symm

theorem resolveWaiters_account (d : Driver σ) (due : ℕ → Bool) (result : Except XRaftError ℕ) :
    account request (d.resolveWaiters due result) = account request d := by
  have hsplit := split_queue request d.pending (fun w => due w.1) Prod.snd
    (fun w => .clientReply w.2 result) (fun _ => rfl)
  unfold account waiting
  simp only [Driver.resolveWaiters, Driver.emit, answers_append]
  omega

theorem failWaiters_account (d : Driver σ) (error : XRaftError) :
    account request (d.failWaiters error) = account request d := by
  have hpending := split_queue request d.pending (fun _ => true) Prod.snd
    (fun w => .clientReply w.2 (.error error)) (fun _ => rfl)
  have hreads := split_queue request d.pendingReads (fun _ => true) PendingRead.reply
    (fun r => .queryReply r.reply (.error error)) (fun _ => rfl)
  simp only [List.filter_true, Bool.not_true, List.filter_false, List.countP_nil] at hpending hreads
  unfold account waiting
  simp only [Driver.failWaiters, Driver.emit, answers_append, List.countP_nil]
  omega

theorem settleReads_account (d : Driver σ)
    (verdict : PendingRead → Option (Except XRaftError Bytes)) :
    account request (settleReads d verdict) = account request d := by
  have hreads : ∀ reads : List PendingRead, answers request (reads.filterMap
        (fun r => (verdict r).map (fun v => Effect.queryReply r.reply v))) +
      (reads.filter (fun r => (verdict r).isNone)).countP (fun r => r.reply = request) =
        reads.countP (fun r => r.reply = request) := by
    intro reads
    induction reads with
    | nil => rfl
    | cons r rest ih =>
      cases hv : verdict r with
      | none => simp [hv, List.countP_cons, ← ih, Nat.add_assoc]
      | some v =>
        simp only [answers] at ih ⊢
        simp [hv, List.countP_cons, answersTo, ← ih]
        omega
  have := hreads d.pendingReads
  unfold account waiting
  simp only [settleReads, Driver.emit, answers_append]
  omega

theorem Move.account (h : Move d d') : account request d' = account request d := by
  cases h with
  | still same =>
    simp only [view, Prod.mk.injEq] at same
    simp [RequestLedger.account, waiting, same]
  | effect x plain held after =>
    simp only [view, Prod.mk.injEq] at after
    simp [RequestLedger.account, waiting, after, answers_append, answers_of_plain request plain]
  | @outside w hw =>
    have hnone : answers request w = 0 := List.countP_eq_zero.mpr (fun x hx => by
      have hout := hw x hx
      cases x <;> first | exact hout.elim | simp [answersTo])
    simp [RequestLedger.account, waiting, Driver.emit, answers_append, hnone]
  | resolve due result => exact resolveWaiters_account request d due result
  | settle verdict => exact settleReads_account request d verdict
  | fail error => exact failWaiters_account request d error

theorem Path.account (h : Path d d') : account request d' = account request d := by
  induction h with
  | refl => rfl
  | tail _ hm ih => exact (Move.account request hm).trans ih

def asks (event : DriverEvent) : ℕ := if issuer event = some request then 1 else 0

theorem answers_of_answer {event : DriverEvent} {x : Effect} (h : AnswerOf event x) :
    answers request [x] = asks request event := by
  unfold AnswerOf at h
  split at h
  · subst h
    simp [answers, answersTo, asks, issuer]
  · subst h
    simp [answers, answersTo, asks, issuer]
  all_goals first | rfl | exact h.elim

theorem Intake.account {event : DriverEvent} (h : Intake d event d') :
    account request d' = account request d + asks request event := by
  cases h with
  | unasked quiet => rw [asks, quiet, if_neg (by simp), Nat.add_zero]
  | answer hx =>
    have hone := answers_of_answer request hx
    unfold RequestLedger.account waiting
    simp only [Driver.emit, answers_append]
    omega
  | register request' command index =>
    unfold RequestLedger.account waiting
    simp [asks, issuer, List.countP_append, List.countP_singleton]
    omega
  | defer query hreply =>
    unfold RequestLedger.account waiting
    simp [asks, issuer, List.countP_append, List.countP_singleton, hreply]
    omega

def Dismissed (d : Driver σ) : Prop := d.haltReason ≠ none → d.pending = [] ∧ d.pendingReads = []

section Turns

variable [StateMachine σ]

/-- A turn of a running driver adds what its event asks for. -/
theorem turn_account (event : DriverEvent) (h : d.haltReason = none) :
    account request (d.turn event) = account request d + asks request event := by
  obtain ⟨d₁, d₂, hbefore, hintake, hafter⟩ := turn_takes event h
  rw [Path.account request hafter, Intake.account request hintake, Path.account request hbefore]

theorem turn_dismissed (event : DriverEvent) (h : Dismissed d) : Dismissed (d.turn event) := by
  unfold Driver.turn
  split_ifs with hhalt
  · exact h
  · dsimp only
    split_ifs with hafter
    · exact fun _ => ⟨rfl, rfl⟩
    · intro hne
      exact absurd (Option.isSome_iff_ne_none.mpr hne) hafter

def asked : LifeEvent → Bool
  | .turn event => issuer event = some request
  | .snapshotWorker => false

theorem live_account (e : LifeEvent) (h : d.haltReason = none) :
    account request (Driver.live d e) = account request d + if asked request e then 1 else 0 := by
  cases e with
  | turn event => simpa [Driver.live, asked, asks] using turn_account request event h
  | snapshotWorker => exact Path.account request (runSnapshotWorker_path d)

theorem live_dismissed (e : LifeEvent) (h : Dismissed d) : Dismissed (Driver.live d e) := by
  cases e with
  | turn event => exact turn_dismissed event h
  | snapshotWorker =>
    obtain ⟨_, _, _, _, _, _, hworker⟩ := DriverTurns.runSnapshotWorker_inert d
    rw [Driver.live, hworker]
    exact h

theorem replay_account {events : List LifeEvent}
    (h : Admissible Driver.live (fun d _ => d.haltReason = none) d events) :
    account request (replay Driver.live d events) =
      account request d + events.countP (asked request) := by
  induction events generalizing d with
  | nil => rfl
  | cons e rest ih =>
    have hrest := ih h.2
    rw [live_account request e h.1, Nat.add_assoc, Nat.add_comm (ite _ _ _)] at hrest
    rwa [List.countP_cons]

/-- While the loop runs, a caller has had one answer for each of its proposals and reads, or still
waits for it. Once the driver has stopped, every one of them is answered. -/
theorem every_request_answered_once (d₀ : Driver σ) (h₀ : d₀.haltReason = none)
    (events : List LifeEvent) (request : RequestId)
    (h : Admissible Driver.live (fun d _ => d.haltReason = none) d₀ events) :
    let d := replay Driver.live d₀ events
    answers request d.trace + waiting request d =
        answers request d₀.trace + waiting request d₀ + events.countP (asked request) ∧
      (d.haltReason ≠ none → waiting request d = 0) := by
  intro d
  refine ⟨replay_account request h, fun hhalt => ?_⟩
  have hdismissed : Dismissed d :=
    (replay_execution h).invariant (fun _ e hs _ => live_dismissed e hs) (fun hne => absurd h₀ hne)
  obtain ⟨hpending, hreads⟩ := hdismissed hhalt
  simp [waiting, hpending, hreads]

/-- Voter 1 wins term 1 and takes a proposal, and the disk fails under the next one: both proposals
are answered. -/
theorem every_request_answered_once_disk_full :
    let faults : List (Option Fault) :=
      [none, none, none, none, none, some ⟨.storage "disk full", false⟩]
    let events : List LifeEvent :=
      [.turn .tick, .turn .tick, .turn (.preVoteResult 2 ⟨"c", 0, 0, true, none⟩),
        .turn (.voteResult 2 ⟨"c", 0, 1, true, none⟩), .turn (.client 4 [1]), .turn (.client 4 [2])]
    let d := replay Driver.live (firstVoter faults) events
    d.haltReason ≠ none ∧ answers 4 d.trace = 2 := by
  intro faults events d
  have hhalt : d.haltReason ≠ none := by decide +kernel
  obtain ⟨hcount, hnone⟩ :=
    every_request_answered_once (firstVoter faults) (by decide +kernel) events 4 (by decide +kernel)
  have hasked : answers 4 (firstVoter faults).trace + waiting 4 (firstVoter faults) +
      events.countP (asked 4) = 2 := by decide +kernel
  have hleft : waiting 4 d = 0 := hnone hhalt
  exact ⟨hhalt, by rw [← hasked, ← hcount, hleft, Nat.add_zero]⟩

end Turns

end RequestLedger
