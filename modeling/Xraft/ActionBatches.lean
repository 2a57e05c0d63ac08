import Xraft.DriverJournal

/-! # Action batches

A batch that the engine's order settles keeps the journal lawful: it either runs to its end, with
the engine's ballot on disk, or halts at the first failed store call with an error for the caller.
-/
namespace ActionBatches

open ProtocolTypes ConsensusEngine DurableStores NodeDriver EngineTransitions PersistOrder
open DriverJournal

variable {σ : Type} {self : NodeId}

structure CapturedCovered (id : NodeId) (held : Ballot) (origin : Option NodeId)
    (c : CapturedResponse) : Prop where
  vote : ∀ r, c.vote = some r → ∃ dest, origin = some dest ∧ Covered id held dest (.voteResponse r)
  preVote : ∀ r, c.preVote = some r →
    ∃ dest, origin = some dest ∧ Covered id held dest (.preVoteResponse r)
  fetch : ∀ r, c.fetch = some r →
    ∃ dest, origin = some dest ∧ Covered id held dest (.fetchResponse r)

theorem capturedCovered_empty (held : Ballot) (origin : Option NodeId) :
    CapturedCovered self held origin {} := by
  constructor <;> intro r hr <;> cases hr

theorem CapturedCovered.error {held : Ballot} {origin : Option NodeId} {c : CapturedResponse}
    (h : CapturedCovered self held origin c) (e : Option XRaftError) :
    CapturedCovered self held origin { c with error := e } := ⟨h.vote, h.preVote, h.fetch⟩

theorem or_eq_some_cases {α : Type} {a b : Option α} {x : α} (h : a.or b = some x) :
    a = some x ∨ b = some x := by
  cases a with
  | none => exact .inr h
  | some y => exact .inl h

theorem CapturedCovered.merge {held : Ballot} {origin : Option NodeId} {c c' : CapturedResponse}
    (h : CapturedCovered self held origin c) (h' : CapturedCovered self held origin c') :
    CapturedCovered self held origin (c.merge c') := by
  constructor
  · intro r hr
    rcases or_eq_some_cases hr with hr | hr
    · exact h.vote r hr
    · exact h'.vote r hr
  · intro r hr
    rcases or_eq_some_cases hr with hr | hr
    · exact h.preVote r hr
    · exact h'.preVote r hr
  · intro r hr
    rcases or_eq_some_cases hr with hr | hr
    · exact h.fetch r hr
    · exact h'.fetch r hr

structure Sent (id : NodeId) (held : Ballot) (origin : Option NodeId) (d : Driver σ)
    (c : CapturedResponse) (o : Outcome σ) : Prop where
  ran : Ran id d o.driver false
  halt : o.driver.haltReason = d.haltReason
  hsStore : o.driver.hsStore = d.hsStore
  error : o.captured.error = c.error
  broke : o.broke = false
  captured : CapturedCovered id held origin c → CapturedCovered id held origin o.captured

theorem sendOrCapture_sent {held : Ballot} {d : Driver σ} {dest : NodeId} {m : OutboundMessage}
    (origin : Option NodeId) (c : CapturedResponse) (hc : Covered self (onDisk d) dest m)
    (hfinal : Answers (.sendMessage dest m) → onDisk d = held) :
    Sent self held origin d c (sendOrCapture origin d c dest m) := by
  have hrouted : Sent self held origin d c ⟨d.emit [.dispatch dest m], c, false⟩ := by
    refine ⟨(Ran.refl d false).emit ?_ ?_, rfl, rfl, rfl, rfl, id⟩
    · simp [Passive]
    · simpa [Ledger.Permits, ledger] using hc
  unfold sendOrCapture
  dsimp only
  by_cases hdest : some dest ≠ origin
  · rw [if_pos hdest]
    exact hrouted
  rw [if_neg hdest]
  rw [not_not] at hdest
  cases m with
  | voteResponse r =>
    dsimp only
    split_ifs
    · refine ⟨.refl d false, rfl, rfl, rfl, rfl, fun h => ⟨fun r' hr' => ?_, h.preVote, h.fetch⟩⟩
      obtain rfl := Option.some.inj hr'
      exact ⟨dest, hdest.symm, hfinal trivial ▸ hc⟩
    · exact hrouted
  | preVoteResponse r =>
    dsimp only
    split_ifs
    · refine ⟨.refl d false, rfl, rfl, rfl, rfl, fun h => ⟨h.vote, fun r' hr' => ?_, h.fetch⟩⟩
      obtain rfl := Option.some.inj hr'
      exact ⟨dest, hdest.symm, hfinal trivial ▸ hc⟩
    · exact hrouted
  | fetchResponse r =>
    dsimp only
    split_ifs
    · refine ⟨.refl d false, rfl, rfl, rfl, rfl, fun h => ⟨h.vote, h.preVote, fun r' hr' => ?_⟩⟩
      obtain rfl := Option.some.inj hr'
      exact ⟨dest, hdest.symm, hfinal trivial ▸ hc⟩
    · exact hrouted
  | _ => exact hrouted

structure Reads (epoch : ℕ) (d : Driver σ) (r : Driver σ × Except XRaftError FetchResponse) :
    Prop where
  driver : ∃ fs, r.1 = { d with faults := fs }
  epoch : ∀ resp, r.2 = .ok resp → resp.leaderEpoch = epoch

theorem Reads.of_faults {epoch : ℕ} {d : Driver σ} {fs : List (Option Fault)}
    {r : Driver σ × Except XRaftError FetchResponse} (h : Reads epoch { d with faults := fs } r) :
    Reads epoch d r := by
  obtain ⟨fs', h'⟩ := h.driver
  exact ⟨⟨fs', h'⟩, h.epoch⟩

theorem reads_ok {epoch : ℕ} {d : Driver σ} {resp : FetchResponse} (fs : List (Option Fault))
    (h : resp.leaderEpoch = epoch) : Reads epoch d ({ d with faults := fs }, .ok resp) :=
  ⟨⟨fs, rfl⟩, fun _ hr => by rw [← Except.ok.inj hr, h]⟩

theorem reads_error {epoch : ℕ} {d : Driver σ} {e : XRaftError} (fs : List (Option Fault)) :
    Reads epoch d ({ d with faults := fs }, .error e) := ⟨⟨fs, rfl⟩, fun _ hr => by cases hr⟩

theorem readBatch_reads {epoch : ℕ} (d : Driver σ) {blank : FetchResponse}
    (h : blank.leaderEpoch = epoch) (fetchOffset : ℕ) :
    Reads epoch d (d.readBatch blank fetchOffset) := by
  unfold Driver.readBatch
  dsimp only
  split
  · exact reads_error _
  · exact reads_ok _ h

theorem divergingEpoch_driver (d : Driver σ) (actual : Option ℕ) (epoch : ℕ) :
    ∃ fs, (d.divergingEpoch actual epoch).1 = { d with faults := fs } := by
  have hlook : (d.lookupEpochEnd epoch).1 = d.afterCall := by
    unfold Driver.lookupEpochEnd
    split <;> rfl
  unfold Driver.divergingEpoch
  split_ifs
  · exact ⟨d.faults, rfl⟩
  · dsimp only
    split
    · exact ⟨d.faults.tail, hlook⟩
    · exact ⟨d.faults.tail, hlook⟩

theorem answerFrom_reads {epoch : ℕ} (d : Driver σ) {blank : FetchResponse}
    (h : blank.leaderEpoch = epoch) (fetchOffset : ℕ) (lastFetchedEpoch : ℕ)
    (actual : Option ℕ) :
    Reads epoch d (d.answerFrom blank fetchOffset lastFetchedEpoch actual) := by
  obtain ⟨fs, hfs⟩ := divergingEpoch_driver d actual lastFetchedEpoch
  unfold Driver.answerFrom
  rcases hr : d.divergingEpoch actual lastFetchedEpoch with ⟨d', _ | de⟩ <;> rw [hr] at hfs <;>
    obtain rfl : d' = { d with faults := fs } := hfs
  · exact (readBatch_reads _ h _).of_faults
  · exact reads_ok fs h

theorem materializeFetchResponse_reads (d : Driver σ) (clusterId : String) (leaderEpoch : ℕ)
    (leaderId : NodeId) (highWatermark fetchOffset : ℕ) (lastFetchedEpoch : ℕ) :
    Reads leaderEpoch d (d.materializeFetchResponse clusterId leaderEpoch leaderId highWatermark
      fetchOffset lastFetchedEpoch) := by
  unfold Driver.materializeFetchResponse
  dsimp only
  split
  · exact reads_ok d.faults rfl
  · split_ifs
    · exact readBatch_reads d (by rfl) fetchOffset
    · split
      · exact answerFrom_reads d (by rfl) _ _ _
      · split
        · exact reads_error _
        · exact (answerFrom_reads d.afterCall (by rfl) _ _ _).of_faults

/-- A batch that has run: it is over when the driver halted, and then the caller gets an error. -/
structure BatchRan (id : NodeId) (origin : Option NodeId) (d : Driver σ)
    (r : Driver σ × CapturedResponse) : Prop where
  ran : Ran id d r.1 r.1.haltReason.isSome
  error : r.1.haltReason.isSome → r.2.error.isSome
  disk : r.1.haltReason = none → onDisk r.1 = ballot d.node
  captured : CapturedCovered id (ballot d.node) origin r.2

def NestedOk (self : NodeId) (nested : Nested σ) : Prop :=
  ∀ (d : Driver σ) (origin : Option NodeId) (actions : List Action), (∀ a ∈ actions, Quiet a) →
    d.haltReason = none → onDisk d = ballot d.node →
    BatchRan self origin d (nested d origin actions)

def Serves : Action → Prop
  | .serveFetch .. => True
  | _ => False

def ActionRan (self : NodeId) (origin : Option NodeId) (d : Driver σ) (a : Action) (o : Outcome σ) :
    Prop :=
  Concluded self d a o ∧ CapturedCovered self (ballot d.node) origin o.captured

theorem Sent.actionRan {origin : Option NodeId} {d : Driver σ} {a : Action} {c : CapturedResponse}
    {o : Outcome σ} (h : Sent self (ballot d.node) origin d c o)
    (hc : CapturedCovered self (ballot d.node) origin c)
    (ha : persistedAfter (ballot d.node) (onDisk d) a = onDisk d) : ActionRan self origin d a o :=
  ⟨.went h.ran h.halt ((onDisk_congr h.hsStore).trans ha.symm) h.broke, h.captured hc⟩

theorem capturedCovered_haltOnError {ε : Type} {held : Ballot} {origin : Option NodeId}
    {c : CapturedResponse} (hc : CapturedCovered self held origin c) (text : ε → String)
    (r : Driver σ × Option ε) :
    CapturedCovered self held origin (haltOnError c text r).captured := by
  obtain ⟨d', _ | e⟩ := r
  · exact hc
  · exact hc.error _

theorem haltOnError_ran {ε : Type} {origin : Option NodeId} {d : Driver σ} {a : Action}
    {c : CapturedResponse} {r : Driver σ × Option ε} (h : LogCalled self d r)
    (hc : CapturedCovered self (ballot d.node) origin c)
    (ha : persistedAfter (ballot d.node) (onDisk d) a = onDisk d) (text : ε → String) :
    ActionRan self origin d a (haltOnError c text r) := by
  refine ⟨?_, capturedCovered_haltOnError hc text r⟩
  obtain ⟨d', _ | e⟩ := r
  · exact .went h.called.ran h.called.halt ((onDisk_congr h.disk).trans ha.symm) rfl
  · exact concluded_haltBatch h.called.ran _ _

theorem runServeFetch_ran {nested : Nested σ} (hn : NestedOk self nested)
    {origin : Option NodeId} {d : Driver σ} {c : CapturedResponse} (hhalt : d.haltReason = none)
    (hdisk : onDisk d = ballot d.node) (hc : CapturedCovered self (ballot d.node) origin c)
    {leaderEpoch : ℕ} (hepoch : leaderEpoch ≤ (onDisk d).term) (dest : NodeId) (clusterId : String)
    (leaderId : NodeId) (highWatermark fetchOffset : ℕ) (lastFetchedEpoch : ℕ) :
    ActionRan self origin d
      (.serveFetch dest clusterId leaderEpoch leaderId highWatermark fetchOffset lastFetchedEpoch)
      (runServeFetch nested origin d c dest clusterId leaderEpoch leaderId highWatermark fetchOffset
        lastFetchedEpoch) := by
  have hreads := materializeFetchResponse_reads d clusterId leaderEpoch leaderId highWatermark
    fetchOffset lastFetchedEpoch
  unfold runServeFetch
  rcases hr : d.materializeFetchResponse clusterId leaderEpoch leaderId highWatermark fetchOffset
    lastFetchedEpoch with ⟨d', e | resp⟩ <;> rw [hr] at hreads <;>
    obtain ⟨fs, hfs⟩ := hreads.driver <;>
    obtain rfl : d' = { d with faults := fs } := hfs <;> dsimp only
  · exact ⟨.went ((Ran.refl d false).congr (.refl _) rfl rfl rfl) rfl rfl rfl, hc.error _⟩
  · have hcov : Covered self (onDisk d) dest (.fetchResponse resp) := by
      show resp.leaderEpoch ≤ _
      rw [hreads.epoch resp rfl]
      exact hepoch
    have hsent : Sent self (ballot d.node) origin { d with faults := fs } c
        (sendOrCapture origin { d with faults := fs } c dest (.fetchResponse resp)) :=
      sendOrCapture_sent origin c hcov (fun _ => hdisk)
    have hran : Ran self d
        (sendOrCapture origin { d with faults := fs } c dest (.fetchResponse resp)).driver false :=
      ((Ran.refl d false).congr (e := { d with faults := fs }) (.refl _) rfl rfl rfl).trans
        hsent.ran
    generalize sendOrCapture origin { d with faults := fs } c dest (.fetchResponse resp) = sent
      at hsent hran ⊢
    split_ifs
    · -- the acknowledgement is a batch of its own
      have hstand := handleFetchRequestAcked_standing sent.driver.node dest (fetchOffset - 1)
      have hacked : Ran self d
          { sent.driver with
            node := (sent.driver.node.step (.fetchRequestAcked dest (fetchOffset - 1))).1 } false :=
        hran.congr hstand rfl rfl rfl
      have hb := hacked.standing.ballot
      have hinner := hn
        { sent.driver with
          node := (sent.driver.node.step (.fetchRequestAcked dest (fetchOffset - 1))).1 }
        origin (sent.driver.node.step (.fetchRequestAcked dest (fetchOffset - 1))).2
        (handleFetchRequestAcked_quiet _ _ _) (hsent.halt.trans hhalt)
        ((onDisk_congr hsent.hsStore).trans (hdisk.trans hb.symm))
      generalize nested _ origin _ = inner at hinner ⊢
      have hcap : CapturedCovered self (ballot d.node) origin (sent.captured.merge inner.2) :=
        (hsent.captured hc).merge (hb ▸ hinner.captured)
      by_cases hh : inner.1.haltReason.isSome
      · refine ⟨.halted ?_ hh ?_ hh, hcap⟩
        · have := hinner.ran
          rw [hh] at this
          exact hacked.trans this
        · have := hinner.error hh
          show (sent.captured.error.or inner.2.error).isSome
          rw [Option.isSome_or]
          simp [this]
      · have hnone : inner.1.haltReason = none := by simpa using hh
        refine ⟨.went ?_ (hnone.trans hhalt.symm) ?_ (by simp [hnone]), hcap⟩
        · have := hinner.ran
          rw [hnone] at this
          exact hacked.trans this
        · exact (hinner.disk hnone).trans (hb.trans hdisk.symm)
    · exact ⟨.went hran hsent.halt (onDisk_congr hsent.hsStore) hsent.broke, hsent.captured hc⟩

theorem failWaiters_ran {d d' : Driver σ} {ended : Bool} (h : Ran self d d' ended)
    (e : XRaftError) : Ran self d (d'.failWaiters e) ended := by
  have hran : Ran self d { d' with pending := [], pendingReads := [] } ended :=
    h.congr (.refl _) rfl rfl rfl
  refine hran.refuse (fun x hx => ?_)
  rcases List.mem_append.mp hx with hx | hx <;> obtain ⟨_, _, rfl⟩ := List.mem_map.mp hx <;> trivial

variable [StateMachine σ]

theorem runAction_ran {nested : Nested σ} {origin : Option NodeId} {d : Driver σ}
    {c : CapturedResponse} {a : Action} (hn : Serves a → NestedOk self nested)
    (hhalt : d.haltReason = none) (hcov : ActionCovered self (onDisk d) a)
    (hfinal : Answers a → onDisk d = ballot d.node)
    (hc : CapturedCovered self (ballot d.node) origin c) :
    ActionRan self origin d a (runAction nested origin d c a) := by
  cases a with
  | persistHardState =>
    exact ⟨persistHardState_concluded d c _, capturedCovered_haltOnError hc _ _⟩
  | appendEntries entries =>
    refine ⟨runAppend_concluded d c entries, ?_⟩
    simp only [runAction, runAppend]
    split
    · exact hc.error _
    · split
      · exact hc.error _
      · exact hc
  | truncateLog truncation =>
    refine ⟨runTruncate_concluded d c truncation, ?_⟩
    cases truncation with
    | suffixFromInclusive k =>
      simp only [runAction, runTruncate]
      split
      · exact hc.error _
      · split
        · exact hc.error _
        · exact hc
    | prefixThroughInclusive k =>
      simp only [runAction, runTruncate]
      split
      · exact hc.error _
      · split
        · exact hc.error _
        · exact hc
  | applyToStateMachine first last =>
    exact haltOnError_ran (applyCommitted_called d first last) hc (by rfl) _
  | takeSnapshot through =>
    exact haltOnError_ran (dispatchSnapshotWorker_called d through none) hc (by rfl) _
  | installSnapshot metadata data =>
    exact haltOnError_ran (handleInstallSnapshot_called d metadata data) hc (by rfl) _
  | becomeLeader => exact ⟨.went (.refl d false) rfl rfl rfl, hc⟩
  | stepDown => exact ⟨.went (failWaiters_ran (.refl d false) _) rfl rfl rfl, hc⟩
  | sendMessage dest m => exact (sendOrCapture_sent origin c hcov hfinal).actionRan hc rfl
  | serveFetch dest clusterId leaderEpoch leaderId highWatermark fetchOffset lastFetchedEpoch =>
    exact runServeFetch_ran (hn trivial) hhalt (hfinal trivial) hc hcov _ _ _ _ _ _
  | redirectToSnapshot dest clusterId leaderEpoch leaderId highWatermark snap =>
    rw [runAction]
    refine Sent.actionRan (sendOrCapture_sent origin c ?_ (fun _ => hfinal trivial)) hc ?_
    · exact hcov
    · rfl

theorem runActions_ran {nested : Nested σ} {origin : Option NodeId} {actions : List Action}
    {d : Driver σ} {c : CapturedResponse} (hn : ∀ a ∈ actions, Serves a → NestedOk self nested)
    (hhalt : d.haltReason = none) (hs : Settles self (ballot d.node) (onDisk d) actions)
    (hc : CapturedCovered self (ballot d.node) origin c) :
    BatchRan self origin d (runActions nested origin d c actions) := by
  induction actions generalizing d c with
  | nil =>
    refine ⟨?_, ?_, fun _ => hs.nil_inv, hc⟩
    · exact .refl d _
    · intro h
      simp [runActions, hhalt] at h
  | cons a rest ih =>
    obtain ⟨hcov, hfinal, htail⟩ := hs.cons_inv
    obtain ⟨hcon, hcap⟩ := runAction_ran (hn a List.mem_cons_self) hhalt hcov hfinal hc
    unfold runActions
    generalize runAction nested origin d c a = o at hcon hcap ⊢
    cases hcon with
    | went hran hh hdisk hbroke =>
      have hb := hran.standing.ballot
      rw [← hb] at hcap
      rw [← hdisk, ← hb] at htail
      have hrest := ih (fun a ha => hn a (List.mem_cons_of_mem _ ha)) (hh.trans hhalt) htail hcap
      simp only [hbroke, Bool.false_eq_true, if_false]
      exact ⟨hran.trans hrest.ran, hrest.error, fun h => (hrest.disk h).trans hb,
        hb ▸ hrest.captured⟩
    | halted hran hh herror hbroke =>
      simp only [hbroke, if_true]
      refine ⟨?_, fun _ => herror, fun h => ?_, hcap⟩
      · dsimp only
        rw [hh]
        exact hran
      · have h : o.driver.haltReason = none := h
        simp [h] at hh

theorem processAcked_ok : NestedOk self (processAcked : Nested σ) := by
  intro d origin actions hq hhalt hdisk
  refine runActions_ran (fun a ha hserve => ?_) hhalt (hdisk ▸ settles_of_quiet hq)
    (capturedCovered_empty _ _)
  have := hq a ha
  cases a <;> first | exact hserve.elim | exact this.elim

theorem processActions_ran {origin : Option NodeId} {actions : List Action} {d : Driver σ}
    (hhalt : d.haltReason = none) (hs : Settles self (ballot d.node) (onDisk d) actions) :
    BatchRan self origin d (d.processActions actions origin) :=
  runActions_ran (fun _ _ _ => processAcked_ok) hhalt hs (capturedCovered_empty _ _)

end ActionBatches
