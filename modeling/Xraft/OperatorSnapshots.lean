import Xraft.SnapshotFidelity

/-! # Operator snapshots

A driver whose stores and state machine never fail goes on running through every trigger of the
operator, provided that the log still holds the entry at the commit index. Each trigger is refused
at once or answered with a snapshot that ends at the commit index of the trigger.
-/
namespace OperatorSnapshots

open ProtocolTypes ConsensusEngine DurableStores NodeDriver ServerRecovery GuardedExecution
open ApplyPipeline PositionedLog BatchFootprints ActionOutcomes BatchOutcomes EngineOutlines
open DurableBeforeVisible LeaderAppendOnly TurnOutcomes RunningTurns OrderlyDriver ProposalWaiters
open SnapshotFidelity EngineTransitions

variable {σ : Type} {d d' : Driver σ}

/-! ## Readable logs -/

theorem spans_termAt {base tip index : ℕ} {s : MemoryLogStore} (h : Spans base tip s.entries)
    (hbase : base < index) (htip : index ≤ tip) : s.termAt index ≠ none := by
  have hlen := h.length
  obtain ⟨i, rfl⟩ : ∃ i, index = base + i + 1 := ⟨index - base - 1, by omega⟩
  rw [MemoryLogStore.termAt, h.positioned.find, List.getElem?_eq_getElem (by omega)]
  simp

theorem indexGap_none {first : ℕ} {xs : List Entry} (h : Positioned first xs) :
    indexGap (first + 1) xs = none := by
  rw [indexGap, Option.map_eq_none_iff, List.find?_eq_none]
  intro p hp
  have hindex := h p.2 p.1 (List.mem_zipIdx_iff_getElem?.mp hp)
  simp only [ne_eq, decide_eq_true_eq, not_not]
  omega

theorem spans_readable {base tip first last : ℕ} {s : MemoryLogStore} (h : Spans base tip s.entries)
    (hfirst : base ≤ first) (hlt : first < last) (hlast : last ≤ tip) (hmax : last < u64Max) :
    Readable s (first + 1) last := by
  have hrange := h.range hfirst hlt.le hlast
  have hlen := hrange.length
  constructor
  · omega
  · exact hmax
  · omega
  · exact indexGap_none hrange.positioned

/-! ## The pipeline is never stuck -/

structure Open (n : RaftNode) (d : Driver σ) : Prop where
  applied : n.lastApplied ≤ n.commitIndex
  covered : snapIndex n.lastSnapshotMeta ≤ n.lastApplied
  room : n.commitIndex < u64Max
  log : ∃ base ≤ snapIndex n.lastSnapshotMeta, ∃ tip, Spans base tip d.logStore.entries ∧
    n.commitIndex ≤ tip
  worker : n.snapshotInFlight = false → d.snapshotWorkerInFlight = false

theorem open_stretch {k : RaftNode} {opening : List Action} {entries : List Entry} {c : ℕ}
    (ho : Orderly d) (hflag : d.node.snapshotInFlight = d.snapshotWorkerInFlight)
    (hs : Stretch d.node opening entries k) (habove : k.commitIndex < c)
    (hwithin : c ≤ k.lastLogIndex) (hroom : c < u64Max)
    (hlog : d'.logStore = PositionedLog.extend d.logStore entries)
    (hworker : d'.snapshotWorkerInFlight = d.snapshotWorkerInFlight) :
    Open { k with commitIndex := c } d' := by
  have hmarks := hs.marks
  have happlied := ho.applied
  have hcovered := ho.covered
  have hcommit := hmarks.commitIndex
  have hlast := hmarks.lastApplied
  have hsnap := hmarks.lastSnapshotMeta
  obtain ⟨base, hbase, hspans⟩ := ho.log
  constructor
  · show k.lastApplied ≤ c
    omega
  · show snapIndex k.lastSnapshotMeta ≤ k.lastApplied
    rw [hsnap]
    omega
  · exact hroom
  · refine ⟨base, ?_, k.lastLogIndex, ?_, hwithin⟩
    · show base ≤ snapIndex k.lastSnapshotMeta
      rw [hsnap]
      exact hbase
    · rw [hlog, extend_entries, hs.extend.tip]
      exact hspans.extend hs.extend.positioned
  · intro hidle
    rw [hworker, ← hflag, ← hmarks.snapshotInFlight]
    exact hidle

theorem start_open (config : ClusterConfig) (voterSet : Option VoterSet) (rng : List ℕ)
    {store : Durable} {snap : Option SnapshotMeta} (hstore : Recoverable store)
    (hroom : store.logStore.lastIndex < u64Max)
    (hsnap : store.snapshotStore.loadLatestSnapshot.map Prod.fst = snap)
    (hlog : d.logStore = store.logStore) (hworker : d.snapshotWorkerInFlight = false) :
    Open (recoverNode config voterSet rng store.hsStore store.logStore snap) d := by
  obtain ⟨base, hbase, hspans⟩ := recoverable_spans hstore
  obtain ⟨-, -, -, hlast⟩ := hstore
  rw [hsnap] at hbase hlast
  obtain ⟨happlied, -, hmeta, -, hcovered, hwithin⟩ := recoverNode_marks config voterSet rng
    store.hsStore store.logStore snap hlast _ rfl
  constructor
  · exact happlied.le.trans hcovered
  · rw [hmeta, happlied]
  · omega
  · rw [hmeta, hlog]
    exact ⟨base, hbase, _, hspans, hwithin⟩
  · exact fun _ => hworker

/-! ## Healthy drivers -/

/-- The operator and the leader find the worker in order: a trigger that reaches an idle leader
finds the entry at the commit index, and no snapshot is installed over one under way. -/
def Ready (d : Driver σ) (event : DriverEvent) : Prop :=
  (installs d event ≠ none → d.snapshotWorkerInFlight = false) ∧
    match event with
    | .triggerSnapshot _ => d.node.role = .leader → d.snapshotWorkerInFlight = false →
        d.logStore.termAt d.node.commitIndex ≠ none
    | _ => True

structure Healthy (d : Driver σ) : Prop where
  running : d.haltReason = none
  orderly : Orderly d
  faults : d.faults = []
  flags : d.node.snapshotInFlight = d.snapshotWorkerInFlight
  single : d.snapshotJobs.length + d.snapshotDone.length = d.snapshotWorkerInFlight.toNat
  serializes : ∀ job ∈ d.snapshotJobs, ∃ data, job.serializer = .ok data
  finished : ∀ c ∈ d.snapshotDone, c.result = .ok ()

theorem Healthy.completed (h : Healthy d) {c : SnapshotCompletion} {rest : List SnapshotCompletion}
    (hc : Completed d c rest d') : Healthy d' ∧ d.snapshotJobs = [] ∧ rest = [] := by
  have hkept := hc.after
  have hmarks := marks_of_core hkept.node
  have hsingle := h.single
  rw [hc.done, List.length_cons] at hsingle
  have hle := Bool.toNat_le d.snapshotWorkerInFlight
  have hjobs : d.snapshotJobs = [] := List.eq_nil_of_length_eq_zero (by omega)
  have hrest : rest = [] := List.eq_nil_of_length_eq_zero (by omega)
  refine ⟨⟨hkept.halt.trans h.running, h.orderly.completed hc, hkept.faults h.faults, ?_, ?_,
    ?_, ?_⟩, hjobs, hrest⟩
  · rw [hmarks.snapshotInFlight, hkept.inFlight]
    show (d.node.handleSnapshotComplete c.metadata).1.snapshotInFlight = false
    unfold RaftNode.handleSnapshotComplete
    split_ifs <;> rfl
  · rw [hkept.jobs, hkept.done, hkept.inFlight]
    dsimp only
    rw [hjobs, hrest]
    rfl
  · rw [hkept.jobs]
    exact h.serializes
  · rw [hkept.done, hrest]
    exact nofun

theorem Healthy.worked (h : Healthy d) {job : SnapshotJob} {rest : List SnapshotJob}
    {c : SnapshotCompletion} (hw : Worked d job rest c d') : Failure d' ∨ Healthy d' := by
  have hjobs := hw.jobs
  have hjob : job ∈ d.snapshotJobs := by
    rw [hjobs]
    exact List.mem_cons_self
  rcases hw.failed h.faults (h.serializes job hjob) with hresult | hfail
  swap
  · exact .inl hfail
  have ho := h.orderly.worked hw
  have hsingle := h.single
  rw [hjobs, List.length_cons] at hsingle
  obtain ⟨w, store, faults, trace, -, hfaults, -, rfl⟩ := hw.driver
  refine .inr ⟨h.running, ho, hfaults h.faults, h.flags, ?_, fun x hx => ?_, fun x hx => ?_⟩
  · show rest.length + (d.snapshotDone ++ [c]).length = d.snapshotWorkerInFlight.toNat
    rw [List.length_append, List.length_singleton]
    omega
  · refine h.serializes x ?_
    rw [hjobs]
    exact List.mem_cons_of_mem _ hx
  · rcases List.mem_append.mp hx with hx | hx
    · exact h.finished x hx
    · rw [List.mem_singleton.mp hx]
      exact hresult

/-! ## Triggers -/

def Awaits (d : Driver σ) (request : RequestId) (index : ℕ) : Prop :=
  (∃ job ∈ d.snapshotJobs, job.reply = some request ∧ job.throughIndex = index) ∨
    ∃ c ∈ d.snapshotDone, c.reply = some request ∧ c.metadata.lastIncludedIndex = index

def Answered (d d' : Driver σ) (request : RequestId) (index : ℕ) : Prop :=
  ∃ w info, d'.trace = d.trace ++ w ∧ Effect.snapshotReply request (.ok info) ∈ w ∧
    info.lastIncludedIndex = index

def Refused (d d' : Driver σ) (request : RequestId) (error : XRaftError) : Prop :=
  ∃ w, d'.trace = d.trace ++ w ∧ Effect.snapshotReply request (.error error) ∈ w

theorem Answered.grow {x : Driver σ} {request : RequestId} {index : ℕ} {w : List Effect}
    (h : Answered d d' request index) (hx : x.trace = d'.trace ++ w) :
    Answered d x request index := by
  obtain ⟨w', info, hw', hin, hi⟩ := h
  exact ⟨w' ++ w, info, by rw [hx, hw', List.append_assoc], List.mem_append_left _ hin, hi⟩

theorem Answered.since {x : Driver σ} {request : RequestId} {index : ℕ} {w : List Effect}
    (h : Answered d d' request index) (hx : d.trace = x.trace ++ w) :
    Answered x d' request index := by
  obtain ⟨w', info, hw', hin, hi⟩ := h
  exact ⟨w ++ w', info, by rw [hw', hx, List.append_assoc], List.mem_append_right _ hin, hi⟩

theorem Refused.grow {x : Driver σ} {request : RequestId} {error : XRaftError} {w : List Effect}
    (h : Refused d d' request error) (hx : x.trace = d'.trace ++ w) :
    Refused d x request error := by
  obtain ⟨w', hw', hin⟩ := h
  exact ⟨w' ++ w, by rw [hx, hw', List.append_assoc], List.mem_append_left _ hin⟩

theorem Awaits.completed {request : RequestId} {index : ℕ} (h : Healthy d)
    (ha : Awaits d request index) {c : SnapshotCompletion} {rest : List SnapshotCompletion}
    (hc : Completed d c rest d') : Answered d d' request index := by
  obtain ⟨-, hjobs, hrest⟩ := h.completed hc
  obtain ⟨w, hw, hin⟩ := hc.answer
  rcases ha with ⟨job, hjob, -⟩ | ⟨c', hc', hreply, hindex⟩
  · rw [hjobs] at hjob
    cases hjob
  · rw [hc.done, hrest, List.mem_singleton] at hc'
    subst hc'
    exact ⟨w, infoOf c', hw, hin request hreply, hindex⟩

theorem Awaits.worked {request : RequestId} {index : ℕ} (ha : Awaits d request index)
    {job : SnapshotJob} {rest : List SnapshotJob} {c : SnapshotCompletion}
    (hw : Worked d job rest c d') : Awaits d' request index := by
  obtain ⟨_, _, _, _, -, -, -, rfl⟩ := hw.driver
  rcases ha with ⟨j, hj, hreply, hindex⟩ | ⟨c', hc', hreply, hindex⟩
  · rw [hw.jobs] at hj
    rcases List.mem_cons.mp hj with rfl | hj
    · refine .inr ⟨c, List.mem_append_right _ (List.mem_singleton_self _), ?_, ?_⟩
      · rw [hw.finishes.reply, hreply]
      · rw [hw.finishes.metaIndex, hindex]
    · exact .inl ⟨j, hj, hreply, hindex⟩
  · exact .inr ⟨c', List.mem_append_left _ hc', hreply, hindex⟩

def Calm (d : Driver σ) : LifeEvent → Prop
  | .turn event => Fit d event ∧ Ready d event
  | .snapshotWorker => True

instance (d : Driver σ) (event : DriverEvent) : Decidable (Ready d event) := by
  unfold Ready
  split <;> infer_instance

instance (d : Driver σ) : (e : LifeEvent) → Decidable (Calm d e)
  | .turn event => inferInstanceAs (Decidable (Fit d event ∧ Ready d event))
  | .snapshotWorker => .isTrue trivial

theorem Calm.fit {e : LifeEvent} (h : Calm d e) : FitLife d e := by
  cases e with
  | turn event => exact h.1
  | snapshotWorker => trivial

def Reports : Effect → Bool
  | .storeFailed _ | .snapshotFailed _ => true
  | _ => false

theorem failure_iff : Failure d ↔ d.trace.any Reports = true := by
  rw [List.any_eq_true]
  constructor
  · rintro ⟨e, he | he⟩
    · exact ⟨_, he, rfl⟩
    · exact ⟨_, he, rfl⟩
  · rintro ⟨x, hx, hreports⟩
    cases x with
    | storeFailed e => exact ⟨e, .inl hx⟩
    | snapshotFailed e => exact ⟨e, .inr hx⟩
    | _ => cases hreports

instance (d : Driver σ) : Decidable (Failure d) := decidable_of_iff _ failure_iff.symm

theorem Failure.grow {w : List Effect} (h : Failure d) (hw : d'.trace = d.trace ++ w) :
    Failure d' :=
  h.mono (p := fun _ => True) ⟨w, hw, fun _ _ => trivial⟩

section Turns

variable [StateMachine σ]

theorem drain_unstuck {n : RaftNode} (h : Open n d) {before after : List Action} {a : Action}
    (heq : n.drainApplyPipeline.2 = before ++ a :: after) (hseq : Sequence PipeDid d before d') :
    ¬PipeStuck d' a := by
  obtain ⟨base, hbase, tip, hspans, htip⟩ := h.log
  have hroom := h.room
  have hcovered := h.covered
  have happlied := h.applied
  have ha : a ∈ n.drainApplyPipeline.2 := by
    rw [heq]
    exact List.mem_append_right _ List.mem_cons_self
  have hlog : d'.logStore = d.logStore := (pumped_of_sequence hseq).logStore
  rw [(drainApplyPipeline_eq happlied).2, List.mem_append] at ha
  rcases ha with ha | ha
  · split_ifs at ha with hle
    · cases ha
    · rw [List.mem_singleton.mp ha]
      intro hbad
      refine hbad ?_
      rw [hlog, show satAdd n.lastApplied 1 = n.lastApplied + 1 by unfold satAdd; omega]
      exact spans_readable hspans (by omega) (by omega) htip (by omega)
  · split_ifs at ha with hdue
    swap
    · cases ha
    have hfree : n.snapshotInFlight = false ∧ snapIndex n.lastSnapshotMeta < n.commitIndex := by
      unfold due at hdue
      simp only [Bool.and_eq_true, Bool.not_eq_eq_eq_not, Bool.not_true, decide_eq_true_eq] at hdue
      have hfar := hdue.2
      have hsame : snapIndex n.lastSnapshotMeta =
        (n.lastSnapshotMeta.map SnapshotMeta.lastIncludedIndex).getD 0 := rfl
      exact ⟨hdue.1, by omega⟩
    have hflag : d'.snapshotWorkerInFlight = d.snapshotWorkerInFlight :=
      (sequence_worker PipeDid.worker hseq (captures_last (drainApplyPipeline_late n) heq)).2
    rw [List.mem_singleton.mp ha]
    rintro (hbusy | hnone)
    · rw [hflag, h.worker hfree.1] at hbusy
      cases hbusy
    · rw [hlog] at hnone
      exact spans_termAt hspans (by omega) htip hnone

def Steady (a : Action) : Prop := ¬Applies a ∧ ¬Captures a

theorem steady_unstuck {a : Action} (h : Steady a) : ¬Stuck d a := by
  cases a with
  | applyToStateMachine _ _ => exact absurd trivial h.1
  | takeSnapshot _ => exact absurd trivial h.1
  | serveFetch => exact absurd trivial h.2
  | _ => exact id

theorem prelude_steady {a : Action} (h : Prelude a) : Steady a := by
  rcases h with h | rfl
  · cases a <;> first | exact h.elim | exact ⟨id, id⟩
  · exact ⟨id, id⟩

theorem stretch_steady {n k : RaftNode} {opening : List Action} {entries : List Entry}
    (h : Stretch n opening entries k) : ∀ a ∈ opening ++ appends entries, Steady a := by
  intro a ha
  rcases List.mem_append.mp ha with ha | ha
  · exact prelude_steady (h.opens a ha)
  · unfold appends at ha
    split_ifs at ha
    · cases ha
    · rw [List.mem_singleton.mp ha]
      exact ⟨id, id⟩

theorem applies_stuck {a : Action} (ha : Applies a) (h : Stuck d a) : PipeStuck d a := by
  cases a <;> first | exact ha.elim | exact h

theorem drain_tail_unstuck {k : RaftNode} {opening : List Action} {entries : List Entry} {c : ℕ}
    {registered : List (ℕ × RequestId)} {m : RaftNode} (ho : Orderly d)
    (hflag : d.node.snapshotInFlight = d.snapshotWorkerInFlight)
    (stretch : Stretch d.node opening entries k) (above : k.commitIndex < c)
    (within : c ≤ k.lastLogIndex) (room : c < u64Max) {before after : List Action} {a : Action}
    (heq : (RaftNode.drainApplyPipeline { k with commitIndex := c }).2 = before ++ a :: after)
    (hseq : Sequence Did { d with node := m, pending := d.pending ++ registered }
      (opening ++ appends entries ++ before) d') : ¬Stuck d' a := by
  have happlies : ∀ b ∈ before ++ a :: after, Applies b := by
    rw [← heq]
    exact drainApplyPipeline_applies _
  obtain ⟨u, hfirst, hrest⟩ := hseq.split
  obtain ⟨_, -, hkept⟩ := stretch_ran stretch hfirst
  have hopen := open_stretch ho hflag stretch above within room hkept.logStore hkept.inFlight
  intro hstuck
  refine drain_unstuck hopen heq (sequence_pipe hrest (fun b hb => ?_)) (applies_stuck ?_ hstuck)
  · exact happlies b (List.mem_append_left _ hb)
  · exact happlies a (List.mem_append_right _ List.mem_cons_self)

theorem serve_unstuck {req : FetchRequest} {registered : List (ℕ × RequestId)} (ho : Orderly d)
    (hflag : d.node.snapshotInFlight = d.snapshotWorkerInFlight) (hb : Bounded d.node)
    (hroom : d.node.lastLogIndex < u64Max) : ∀ a ∈ (serving d.node req).2,
      ¬Stuck { d with node := (serving d.node req).1, pending := d.pending ++ registered } a := by
  intro a ha
  rw [List.mem_singleton.mp ha]
  rintro ⟨mid, before, a', after, d₁, hkept, hnode, heq, hseq, hstuck⟩
  have hstamped : Stretch d.node [] [] (serving d.node req).1 :=
    stretch_idle (by simp) ⟨rfl, rfl, rfl, rfl⟩ rfl (fun hl => .inl ⟨hl, rfl⟩)
  rw [hnode] at heq hseq
  obtain ⟨k, hs, hcases⟩ := handleFetchRequestAcked_cases (serving_bounded hb req) req.replicaId
    (req.fetchOffset - 1)
  have hstretch := hstamped.trans hs
  rcases hcases with hnone | ⟨c, habove, hwithin, hdrain⟩
  · rw [hnone] at heq
    exact List.append_ne_nil_of_right_ne_nil _ (List.cons_ne_nil _ _) heq.symm
  · rw [hdrain] at heq hseq
    have htip : k.lastLogIndex = d.node.lastLogIndex := hstretch.extend.tip
    have hlog : mid.logStore = PositionedLog.extend d.logStore [] := by
      rw [extend_nil]
      exact hkept.logStore
    have hopen : Open { k with commitIndex := c } { mid with
        node := (RaftNode.drainApplyPipeline { k with commitIndex := c }).1 } :=
      open_stretch ho hflag hstretch habove hwithin (by omega) hlog hkept.inFlight
    exact drain_unstuck hopen heq hseq hstuck

/-- Nothing but a failing store breaks a batch of an orderly driver. -/
theorem outline_unstuck {r : RaftNode × List Action} {registered : List (ℕ × RequestId)}
    (h : Outline d.node r) (ho : Orderly d)
    (hflag : d.node.snapshotInFlight = d.snapshotWorkerInFlight)
    (hb : d.node.role = .leader → Bounded d.node) (hroom : d.node.lastLogIndex < u64Max)
    {before after : List Action} {a : Action} (heq : r.2 = before ++ a :: after)
    (hseq : Sequence Did { d with node := r.1, pending := d.pending ++ registered } before d') :
    ¬Stuck d' a := by
  have ha : a ∈ r.2 := by
    rw [heq]
    exact List.mem_append_right _ List.mem_cons_self
  cases h with
  | grow stretch => exact steady_unstuck (stretch_steady stretch a ha)
  | @drain opening entries k c stretch above within room =>
    dsimp only at heq
    rcases List.append_eq_append_iff.mp heq with ⟨rest, rfl, hdrain⟩ | ⟨rest, hfirst, htail⟩
    · exact drain_tail_unstuck ho hflag stretch above within room hdrain hseq
    · cases rest with
      | nil =>
        rw [List.append_nil] at hfirst
        rw [← hfirst, ← List.append_nil (opening ++ appends entries)] at hseq
        have hdrain : (RaftNode.drainApplyPipeline { k with commitIndex := c }).2 =
          [] ++ a :: after := htail.symm
        exact drain_tail_unstuck ho hflag stretch above within room hdrain hseq
      | cons b rest =>
        obtain ⟨rfl, -⟩ := List.cons.inj htail
        refine steady_unstuck (stretch_steady stretch a ?_)
        rw [hfirst]
        exact List.mem_append_right _ List.mem_cons_self
  | cut stretch _ _ neutral =>
    refine steady_unstuck ?_
    rcases List.mem_append.mp ha with ha | ha
    · exact prelude_steady (stretch.opens a ha)
    · rcases List.mem_cons.mp ha with rfl | ha
      · exact ⟨id, id⟩
      · exact prelude_steady (.inl (neutral a ha))
  | serve req leader =>
    rcases List.append_eq_singleton_iff.mp heq.symm with ⟨rfl, hone⟩ | ⟨_, hnil⟩
    · cases hseq
      exact serve_unstuck ho hflag (hb leader) hroom a ha
    · cases hnil

/-! ## Turns -/

theorem did_faults {a : Action} (h : Did d a d') (hd : d.faults = []) : d'.faults = [] := by
  cases h with
  | neutral _ kept => exact kept.faults hd
  | stepDown kept => exact kept.faults hd
  | append _ kept => exact kept.faults hd
  | cut kept => exact kept.faults hd
  | purge kept => exact kept.faults hd
  | pipe did => exact did.pumped.faults hd
  | covered _ kept => exact kept.faults hd
  | install installed =>
    obtain ⟨_, _, _, _, kept⟩ := installed.after
    exact kept.faults hd
  | answered kept => exact kept.faults hd
  | acked kept _ ran => exact (pumped_of_sequence ran).faults (kept.faults hd)

theorem sequence_faults {actions : List Action} (h : Sequence Did d actions d')
    (hd : d.faults = []) : d'.faults = [] := by
  refine Sequence.rel (r := fun x y : Driver σ => x.faults = [] → y.faults = []) ?_ ?_ ?_ h hd
  · exact fun _ => id
  · exact fun _ _ _ hxy hyz hx => hyz (hxy hx)
  · exact fun _ _ _ _ hdid => did_faults hdid

/-- A batch that cannot get stuck breaks only on a failing store. -/
theorem batch_failure {actions : List Action} {origin : Option NodeId} (hrel : Reliable σ)
    (hfaults : d.faults = []) (hhalt : d.haltReason = none)
    (hfree : ∀ before a after d₁, actions = before ++ a :: after → Sequence Did d before d₁ →
      ¬Stuck d₁ a)
    (hstop : (d.processActions actions origin).1.haltReason ≠ none) :
    Failure (d.processActions actions origin).1 := by
  rcases processActions_settles d actions origin hhalt with
    ⟨-, hnone⟩ | ⟨before, a, after, d₁, heq, hseq, hbad⟩
  · exact absurd hnone hstop
  · exact (hbad.cause (sequence_faults hseq hfaults) hrel).resolve_left (hfree _ _ _ _ heq hseq)

theorem shape_failure {event : DriverEvent} (hrel : Reliable σ) (h : Healthy d)
    (hb : d.node.role = .leader → Bounded d.node) (hroom : d.node.lastLogIndex < u64Max)
    (hready : Ready d event) (hs : Shape d event d') (hstop : d'.haltReason ≠ none) :
    Failure d' := by
  cases hs with
  | idle _ kept => exact absurd (kept.halt.trans h.running) hstop
  | @batch _ r registered origin _ _ _ outline registers kept =>
    rw [kept.halt] at hstop
    refine Failure.mono (batch_failure
      (d := { d with node := r.1, pending := d.pending ++ registered }) hrel h.faults h.running ?_
      hstop) kept.trace
    intro before a after d₁ heq hseq
    exact outline_unstuck outline h.orderly h.flags hb hroom heq hseq
  | install installing kept =>
    rw [kept.halt] at hstop
    refine Failure.mono (batch_failure hrel h.faults h.running ?_ hstop) kept.trace
    intro before a after d₁ heq hseq
    have ha : a ∈ before ++ a :: after := List.mem_append_right _ List.mem_cons_self
    rw [← heq] at ha
    rw [List.mem_singleton.mp ha]
    exact id
  | trigger leader engine worker =>
    rcases handleTriggerSnapshot_outcome leader engine worker with hcap | hfail
    · obtain ⟨_, _, _, _, kept⟩ := hcap.job
      exact absurd (kept.halt.trans h.running) hstop
    · exact (hfail.cause h.faults hrel).resolve_left (hready.2 leader worker)
  | complete done =>
    rcases handleSnapshotCompleted_outcome done with hcomp | hfail
    · exact absurd (hcomp.after.halt.trans h.running) hstop
    · refine (hfail.cause h.faults hrel).resolve_left ?_
      rintro ⟨e, he⟩
      rw [h.finished _ (done ▸ List.mem_cons_self)] at he
      cases he

theorem Reliable.serializes (hrel : Reliable σ) {sm : σ} {serializer : Except XRaftError Bytes}
    (h : StateMachine.beginSnapshot sm = .ok serializer) : ∃ data, serializer = .ok data := by
  obtain ⟨data, hdata⟩ := hrel.capture sm
  rw [hdata] at h
  exact ⟨data, (Except.ok.inj h).symm⟩

theorem Healthy.advanced (hrel : Reliable σ) (h : Healthy d) {registered : List (ℕ × RequestId)}
    {entries : List Entry} (ha : Advanced d registered entries d')
    (hrunning : d'.haltReason = none) :
    Healthy d' := by
  obtain ⟨wants, hqueued, hflag, -⟩ := ha.queued
  have hflags := h.flags
  have hsingle := h.single
  have hdone := ha.done
  have hfinished : ∀ c ∈ d'.snapshotDone, c.result = .ok () := by
    rw [hdone]
    exact h.finished
  rcases hqueued
    with ⟨rfl, hworker, hjobs⟩ | ⟨rfl, hfree, hbusy, term, vs, serializer, -, hview, hjobs⟩
  · refine ⟨hrunning, h.orderly.advanced ha, ha.faults h.faults, ?_, ?_, ?_, hfinished⟩
    · rw [hflag, Bool.or_false, hworker, hflags]
    · rw [hjobs, hdone, hworker, hsingle]
    · rw [hjobs]
      exact h.serializes
  · refine ⟨hrunning, h.orderly.advanced ha, ha.faults h.faults, ?_, ?_, fun job hjob => ?_,
      hfinished⟩
    · rw [hflag, Bool.or_true, hbusy]
    · rw [hfree, Bool.toNat_false] at hsingle
      rw [hjobs, hdone, hbusy, List.length_append, List.length_singleton, Bool.toNat_true]
      omega
    · rw [hjobs, List.mem_append, List.mem_singleton] at hjob
      rcases hjob with hjob | rfl
      · exact h.serializes job hjob
      · exact Reliable.serializes hrel hview

theorem Healthy.triggered (hrel : Reliable σ) (h : Healthy d) {reply : Option RequestId}
    (hc : Captured { d with node := { d.node with snapshotInFlight := true } }
      d.node.commitIndex reply d') : Healthy d' := by
  obtain ⟨term, serializer, -, hview, hkept⟩ := hc.job
  have hmarks := marks_of_core hkept.node
  have hsingle := h.single
  have hidle : d.snapshotWorkerInFlight = false := hc.idle
  rw [hidle, Bool.toNat_false] at hsingle
  refine ⟨hkept.halt.trans h.running, h.orderly.triggered hc, hkept.faults h.faults, ?_, ?_,
    fun job hjob => ?_, ?_⟩
  · rw [hmarks.snapshotInFlight, hkept.inFlight]
  · rw [hkept.jobs, hkept.done, hkept.inFlight, List.length_append, List.length_singleton,
      Bool.toNat_true]
    dsimp only
    omega
  · rw [hkept.jobs, List.mem_append, List.mem_singleton] at hjob
    rcases hjob with hjob | rfl
    · exact h.serializes job hjob
    · exact Reliable.serializes hrel hview
  · rw [hkept.done]
    exact h.finished

omit [StateMachine σ] in
theorem Healthy.kept (h : Healthy d) {d₁ : Driver σ} (hkept : Kept d₁ d')
    (hworker : d₁.snapshotWorkerInFlight = d.snapshotWorkerInFlight)
    (hflag : d₁.node.snapshotInFlight = d₁.snapshotWorkerInFlight)
    (hjobs : d₁.snapshotJobs = d.snapshotJobs) (hdone : d₁.snapshotDone = d.snapshotDone)
    (hfaults : d₁.faults = d.faults) (ho : Orderly d') (hrunning : d'.haltReason = none) :
    Healthy d' := by
  refine ⟨hrunning, ho, hkept.faults (hfaults.trans h.faults), ?_, ?_, ?_, ?_⟩
  · rw [(marks_of_core hkept.node).snapshotInFlight, hkept.inFlight, hflag]
  · rw [hkept.jobs, hkept.done, hkept.inFlight, hjobs, hdone, hworker]
    exact h.single
  · rw [hkept.jobs, hjobs]
    exact h.serializes
  · rw [hkept.done, hdone]
    exact h.finished

theorem Healthy.passed (hrel : Reliable σ) (h : Healthy d) {event : DriverEvent}
    (hroom : d.node.lastLogIndex < u64Max) (hready : Ready d event) (hp : Passed d event d')
    (hrunning : d'.haltReason = none) : Healthy d' := by
  have ho := h.orderly.passed hroom hp
  cases hp with
  | advanced _ _ advance => exact h.advanced hrel advance hrunning
  | cut _ cut =>
    obtain ⟨m, pending, hm, -, hkept⟩ := cut.after
    exact h.kept hkept rfl (hm.snapshotInFlight.trans h.flags) rfl rfl rfl ho hrunning
  | installed installing installed =>
    obtain ⟨store, sm, -, -, hkept⟩ := installed.after
    have hfree : d.snapshotWorkerInFlight = false := hready.1 (by rw [installing]; exact nofun)
    exact h.kept hkept rfl hfree.symm rfl rfl rfl ho hrunning
  | triggered _ _ captured => exact h.triggered hrel captured
  | completed completed => exact (h.completed completed).1

/-! ## The start -/

theorem recoveryDrain_failure (hrel : Reliable σ) (hopen : Open d.node d) (hfaults : d.faults = [])
    (hhalt : d.haltReason = none) (hstop : (recoveryDrain d).haltReason ≠ none) :
    Failure (recoveryDrain d) := by
  unfold recoveryDrain at hstop ⊢
  dsimp only at hstop ⊢
  split_ifs at hstop ⊢ with hset
  swap
  · exact absurd (by simpa using hset) hstop
  refine Failure.mono ?_ (failStopShutdown_traced _)
  refine batch_failure (d := { d with node := d.node.drainApplyPipeline.1 }) hrel hfaults hhalt ?_
    (Option.isSome_iff_ne_none.mp hset)
  intro before a after d₁ heq hseq hstuck
  have happlies : ∀ b ∈ before ++ a :: after, Applies b := by
    rw [← heq]
    exact drainApplyPipeline_applies _
  have hopen' : Open d.node { d with node := d.node.drainApplyPipeline.1 } :=
    ⟨hopen.applied, hopen.covered, hopen.room, hopen.log, hopen.worker⟩
  refine drain_unstuck hopen' heq (sequence_pipe hseq (fun b hb => ?_)) (applies_stuck ?_ hstuck)
  · exact happlies b (List.mem_append_left _ hb)
  · exact happlies a (List.mem_append_right _ List.mem_cons_self)

theorem start_failure (hrel : Reliable σ) (config : ClusterConfig) (voterSet : Option VoterSet)
    (rng : List ℕ) (maxFetchBatch : ℕ) (initial : σ) {store : Durable} (hstore : Recoverable store)
    (hroom : store.logStore.lastIndex < u64Max)
    (hstop : (start config voterSet rng maxFetchBatch initial [] store).haltReason ≠ none) :
    Failure (start config voterSet rng maxFetchBatch initial [] store) := by
  unfold start at hstop ⊢
  rcases hlatest : store.snapshotStore.loadLatestSnapshot with _ | ⟨latest, data⟩
  · rw [hlatest] at hstop
    refine recoveryDrain_failure hrel ?_ rfl rfl hstop
    exact start_open config voterSet rng hstore hroom (by rw [hlatest]; rfl) rfl rfl
  · rw [hlatest] at hstop
    dsimp only at hstop ⊢
    obtain ⟨sm, hsm⟩ := hrel.restore initial data
    rw [hsm] at hstop ⊢
    refine recoveryDrain_failure hrel ?_ rfl rfl hstop
    exact start_open config voterSet rng hstore hroom (by rw [hlatest]; rfl) rfl rfl

theorem start_healthy (hrel : Reliable σ) (config : ClusterConfig) (voterSet : Option VoterSet)
    (rng : List ℕ) (maxFetchBatch : ℕ) (initial : σ) {store : Durable} (hstore : Recoverable store)
    (h : (start config voterSet rng maxFetchBatch initial [] store).haltReason = none) :
    Healthy (start config voterSet rng maxFetchBatch initial [] store) := by
  have ho := start_orderly config voterSet rng maxFetchBatch initial [] store hstore h
  obtain ⟨sm, snap, hrestores, hpumps⟩ := start_running config voterSet rng maxFetchBatch initial
    [] store h
  obtain ⟨-, -, -, hlast⟩ := hstore
  rw [hrestores.snap_eq] at hlast
  obtain ⟨happlied, -, -, hidle, hcovered, -⟩ := recoverNode_marks config voterSet rng
    store.hsStore store.logStore snap hlast _ rfl
  have hle := happlied.le.trans hcovered
  have hp := hpumps _ rfl hle
  have hflag : (start config voterSet rng maxFetchBatch initial [] store).node.snapshotInFlight =
      due (recoverNode config voterSet rng store.hsStore store.logStore snap) := by
    rw [(marks_of_core hp.node).snapshotInFlight]
    dsimp only
    rw [(drainApplyPipeline_eq hle).1]
    dsimp only
    rw [hidle, Bool.false_or]
  have hdone : (start config voterSet rng maxFetchBatch initial [] store).snapshotDone =
    [] := hp.done
  have hfinished : ∀ c ∈ (start config voterSet rng maxFetchBatch initial [] store).snapshotDone,
      c.result = .ok () := by
    rw [hdone]
    exact nofun
  rcases hp.queued
    with ⟨hno, hworker, hjobs⟩ | ⟨hyes, -, hbusy, term, vs, serializer, -, hview, hjobs⟩
  · refine ⟨h, ho, hp.faults rfl, ?_, ?_, ?_, hfinished⟩
    · rw [hflag, hno, hworker]
      rfl
    · rw [hjobs, hdone, hworker]
      rfl
    · rw [hjobs]
      exact nofun
  · refine ⟨h, ho, hp.faults rfl, ?_, ?_, fun job hjob => ?_, hfinished⟩
    · rw [hflag, hyes, hbusy]
    · rw [hjobs, hdone, hbusy]
      rfl
    · rw [hjobs] at hjob
      rw [List.mem_singleton.mp hjob]
      exact Reliable.serializes hrel hview

/-! ## Whole lives -/

theorem shape_trace {event : DriverEvent} (h : Shape d event d') (hhalt : d.haltReason = none) :
    ∃ w, d'.trace = d.trace ++ w := by
  have hmute : ∀ {x : Driver σ}, Traced Mute x d' → x.trace = d.trace →
      ∃ w, d'.trace = d.trace ++ w := by
    intro x ht hx
    obtain ⟨w, hw, -⟩ := ht
    exact ⟨w, hx ▸ hw⟩
  have hbatch : ∀ {x : Driver σ} {actions : List Action} {origin : Option NodeId},
      Traced Mute (x.processActions actions origin).1 d' → x.haltReason = none → x.trace = d.trace →
      ∃ w, d'.trace = d.trace ++ w := by
    intro x actions origin ht hx hsame
    obtain ⟨w, hw, -⟩ := processActions_answered x actions origin hx
    obtain ⟨w', hw', -⟩ := ht
    exact ⟨w ++ w', by rw [hw', hw, hsame, List.append_assoc]⟩
  cases h with
  | idle _ kept => exact hmute kept.trace rfl
  | batch _ _ _ _ kept => exact hbatch kept.trace hhalt rfl
  | install _ kept => exact hbatch kept.trace hhalt rfl
  | trigger leader engine worker =>
    rcases handleTriggerSnapshot_outcome leader engine worker with hcap | hfail
    · obtain ⟨_, _, _, _, kept⟩ := hcap.job
      exact hmute kept.trace rfl
    · exact hmute hfail.hushed.trace rfl
  | complete done =>
    rcases handleSnapshotCompleted_outcome done with hcomp | hfail
    · exact hmute hcomp.after.trace rfl
    · exact hmute hfail.hushed.trace rfl

theorem live_trace {e : LifeEvent} (hm : Managed d) (hfit : FitLife d e) :
    ∃ w, (Driver.live d e).trace = d.trace ++ w := by
  cases e with
  | turn event =>
    by_cases hhalt : d.haltReason = none
    · obtain ⟨w, hw⟩ := shape_trace (handleDriverEvent_shape hfit hm.bounded) hhalt
      obtain ⟨w', -, htail⟩ := turn_tail hhalt event
      exact ⟨w ++ w', by rw [← List.append_assoc, ← hw]; exact htail⟩
    · refine ⟨[], ?_⟩
      rw [List.append_nil]
      exact congrArg Driver.trace (turn_halted d event hhalt)
  | snapshotWorker =>
    obtain ⟨w, _, _, _, _, -, heq⟩ := DriverTurns.runSnapshotWorker_inert d
    exact ⟨w, congrArg Driver.trace heq⟩

/-- A turn of a healthy driver leaves it healthy, unless a store fails. -/
theorem turn_healthy (hrel : Reliable σ) {event : DriverEvent} (hm : Managed d) (h : Healthy d)
    (hfit : Fit d event) (hready : Ready d event) :
    Failure (d.turn event) ∨ Healthy (d.turn event) ∧ Passed d event (d.turn event) := by
  by_cases hrunning : (d.turn event).haltReason = none
  · have hp := hm.passed hfit hrunning
    exact .inr ⟨h.passed hrel hfit.tip hready hp hrunning, hp⟩
  · refine .inl ?_
    obtain ⟨hstop, -⟩ := turn_stopped h.running hrunning
    obtain ⟨-, ht⟩ := turn_after d event h.running
    exact Failure.mono (shape_failure hrel h hm.bounded hfit.tip hready
      (handleDriverEvent_shape hfit hm.bounded) hstop) ht

theorem live_healthy (hrel : Reliable σ) {e : LifeEvent} (hm : Managed d) (h : Healthy d)
    (hcalm : Calm d e) : Failure (Driver.live d e) ∨ Healthy (Driver.live d e) := by
  cases e with
  | turn event => exact (turn_healthy hrel hm h hcalm.1 hcalm.2).imp_right And.left
  | snapshotWorker =>
    show Failure d.runSnapshotWorker ∨ Healthy d.runSnapshotWorker
    rcases runSnapshotWorker_outcome d with ⟨-, hidle⟩ | ⟨job, rest, c, hworked⟩
    · rw [hidle]
      exact .inr h
    · exact h.worked hworked

theorem passed_awaits {event : DriverEvent} {request : RequestId} {index : ℕ} (h : Healthy d)
    (hp : Passed d event d') (ha : Awaits d request index) :
    Awaits d' request index ∨ Answered d d' request index := by
  cases hp with
  | advanced _ _ advance =>
    obtain ⟨wants, hqueued, -⟩ := advance.queued
    refine .inl (ha.imp ?_ ?_)
    · rintro ⟨job, hjob, hreply⟩
      refine ⟨job, ?_, hreply⟩
      rcases hqueued with ⟨-, -, hjobs⟩ | ⟨-, -, -, _, _, _, -, -, hjobs⟩
      · rwa [hjobs]
      · rw [hjobs]
        exact List.mem_append_left _ hjob
    · rw [advance.done]
      exact id
  | cut _ cut =>
    obtain ⟨_, _, -, -, hkept⟩ := cut.after
    rw [Awaits, hkept.jobs, hkept.done]
    exact .inl ha
  | installed _ installed =>
    obtain ⟨_, _, -, -, hkept⟩ := installed.after
    rw [Awaits, hkept.jobs, hkept.done]
    exact .inl ha
  | triggered _ _ captured =>
    obtain ⟨_, _, -, -, hkept⟩ := captured.job
    rw [Awaits, hkept.jobs, hkept.done]
    refine .inl (ha.imp ?_ id)
    rintro ⟨job, hjob, hreply⟩
    exact ⟨job, List.mem_append_left _ hjob, hreply⟩
  | completed completed => exact .inr (ha.completed h completed)

theorem live_awaits (hrel : Reliable σ) {e : LifeEvent} {request : RequestId} {index : ℕ}
    (hm : Managed d) (h : Healthy d) (hcalm : Calm d e) (ha : Awaits d request index) :
    Failure (Driver.live d e) ∨ Awaits (Driver.live d e) request index ∨
      Answered d (Driver.live d e) request index := by
  cases e with
  | turn event =>
    refine (turn_healthy hrel hm h hcalm.1 hcalm.2).imp_right ?_
    rintro ⟨-, hp⟩
    exact passed_awaits h hp ha
  | snapshotWorker =>
    refine .inr (.inl ?_)
    show Awaits d.runSnapshotWorker request index
    rcases runSnapshotWorker_outcome d with ⟨-, hidle⟩ | ⟨job, rest, c, hworked⟩
    · rw [hidle]
      exact ha
    · exact ha.worked hworked

theorem completion_trace (hhalt : d.haltReason = none) :
    ∃ w, (d.turn .snapshotCompleted).trace = d.trace ++ w := by
  obtain ⟨w', -, htail⟩ := turn_tail hhalt .snapshotCompleted
  have hhandled : ∃ w, d.handleSnapshotCompleted.trace = d.trace ++ w := by
    rcases hdone : d.snapshotDone with _ | ⟨c, rest⟩
    · refine ⟨[], ?_⟩
      unfold Driver.handleSnapshotCompleted
      rw [hdone, List.append_nil]
    · exact shape_trace (.complete hdone) hhalt
  obtain ⟨w, hw⟩ := hhandled
  exact ⟨w ++ w', by rw [← List.append_assoc, ← hw]; exact htail⟩

theorem completion_answers (hrel : Reliable σ) {request : RequestId} {index : ℕ} (h : Healthy d)
    (ha : Awaits d request index) (hjobs : d.snapshotJobs = [])
    (hquiet : ¬Failure (d.turn .snapshotCompleted)) :
    Answered d (d.turn .snapshotCompleted) request index := by
  obtain ⟨-, ht⟩ := turn_after d .snapshotCompleted h.running
  have hone : ∃ c, c ∈ d.snapshotDone := by
    rcases ha with ⟨job, hjob, -⟩ | ⟨c, hc, -⟩
    · rw [hjobs] at hjob
      cases hjob
    · exact ⟨c, hc⟩
  rcases hdone : d.snapshotDone with _ | ⟨c, rest⟩
  · obtain ⟨c, hc⟩ := hone
    rw [hdone] at hc
    cases hc
  rcases handleSnapshotCompleted_outcome hdone with hcomp | hfail
  · obtain ⟨w, -, htail⟩ := turn_tail h.running .snapshotCompleted
    exact (ha.completed h hcomp).grow htail
  · refine absurd ?_ hquiet
    refine Failure.mono ((hfail.cause h.faults hrel).resolve_left ?_) ht
    rintro ⟨e, he⟩
    rw [h.finished c (hdone ▸ List.mem_cons_self)] at he
    cases he

/-- When the worker has finished, the completion answers the operator. -/
theorem worker_then_completion_answers (hrel : Reliable σ) {request : RequestId} {index : ℕ}
    (h : Healthy d) (ha : Awaits d request index)
    (hquiet : ¬Failure (d.runSnapshotWorker.turn .snapshotCompleted)) :
    Answered d (d.runSnapshotWorker.turn .snapshotCompleted) request index := by
  rcases runSnapshotWorker_outcome d with ⟨hjobs, hidle⟩ | ⟨job, rest, c, hworked⟩
  · rw [hidle] at hquiet ⊢
    exact completion_answers hrel h ha hjobs hquiet
  · obtain ⟨w, store, faults, trace, -, -, htrace, heq⟩ := hworked.driver
    have hgrew : d.runSnapshotWorker.trace = d.trace ++ w := by
      rw [heq]
      exact htrace
    have hhalt : d.runSnapshotWorker.haltReason = none := by
      rw [heq]
      exact h.running
    rcases h.worked hworked with hfail | hhealthy
    · obtain ⟨w', hw'⟩ := completion_trace hhalt
      exact absurd (Failure.grow hfail hw') hquiet
    · have hjobs : d.runSnapshotWorker.snapshotJobs = [] := by
        have hsingle := hhealthy.single
        have hle := Bool.toNat_le d.runSnapshotWorker.snapshotWorkerInFlight
        have hdone : 0 < d.runSnapshotWorker.snapshotDone.length := by
          rw [heq]
          simp
        exact List.eq_nil_of_length_eq_zero (by omega)
      exact (completion_answers hrel hhealthy (ha.worked hworked) hjobs hquiet).since hgrew

/-- A trigger is refused at once, or its snapshot is under way. -/
theorem trigger_outcome {request : RequestId} (h : Healthy d)
    (hrunning : (d.turn (.triggerSnapshot request)).haltReason = none) :
    d.node.role ≠ .leader ∧ Refused d (d.turn (.triggerSnapshot request)) request
        (.notLeader d.node.leaderId) ∨
      d.snapshotWorkerInFlight = true ∧ Refused d (d.turn (.triggerSnapshot request)) request
        (.config "snapshot already in flight; retry after current snapshot completes") ∨
      Awaits (d.turn (.triggerSnapshot request)) request d.node.commitIndex := by
  obtain ⟨-, hhandled, hkept⟩ := turn_running hrunning
  have hhandled : (d.handleTriggerSnapshot request).haltReason = none := hhandled
  have hkept : Kept (d.handleTriggerSnapshot request) (d.turn (.triggerSnapshot request)) := hkept
  obtain ⟨w, hw, -⟩ := hkept.trace
  have hrefused : ∀ error : XRaftError,
      d.handleTriggerSnapshot request = d.emit [.snapshotReply request (.error error)] →
      Refused d (d.turn (.triggerSnapshot request)) request error := by
    intro error heq
    refine ⟨[.snapshotReply request (.error error)] ++ w, ?_,
      List.mem_append_left _ (List.mem_singleton_self _)⟩
    rw [hw, heq, ← List.append_assoc]
    rfl
  by_cases hrole : d.node.role = .leader
  swap
  · refine .inl ⟨hrole, hrefused _ ?_⟩
    unfold Driver.handleTriggerSnapshot
    rw [if_pos hrole]
  have hflags := h.flags
  by_cases hbusy : d.snapshotWorkerInFlight = true
  · refine .inr (.inl ⟨hbusy, hrefused _ ?_⟩)
    unfold Driver.handleTriggerSnapshot
    rw [if_neg (by simp [hrole]), if_pos (by simp [hbusy])]
  rw [Bool.not_eq_true] at hbusy
  rcases handleTriggerSnapshot_outcome hrole (hflags.trans hbusy) hbusy with hcap | hfail
  · obtain ⟨term, serializer, -, -, hcaptured⟩ := hcap.job
    refine .inr
      (.inr (.inl ⟨⟨d.node.commitIndex, term, d.node.voterSet, serializer, some request⟩, ?_,
        rfl, rfl⟩))
    rw [hkept.jobs, hcaptured.jobs]
    exact List.mem_append_right _ (List.mem_singleton_self _)
  · exact absurd hhandled hfail.halt

structure CalmInvariant (d : Driver σ) : Prop where
  managed : Managed d
  healthy : Failure d ∨ Healthy d

theorem live_invariant (hrel : Reliable σ) {e : LifeEvent} (h : CalmInvariant d)
    (hcalm : Calm d e) : CalmInvariant (Driver.live d e) := by
  refine ⟨live_managed h.managed hcalm.fit, ?_⟩
  rcases h.healthy with hfail | hhealthy
  · obtain ⟨w, hw⟩ := live_trace h.managed hcalm.fit
    exact .inl (Failure.grow hfail hw)
  · exact live_healthy hrel h.managed hhealthy hcalm

structure Behind (d x : Driver σ) : Prop where
  calm : CalmInvariant x
  trace : ∃ w, x.trace = d.trace ++ w

theorem Behind.next (hrel : Reliable σ) {x : Driver σ} {e : LifeEvent} (h : Behind d x)
    (hcalm : Calm x e) : Behind d (Driver.live x e) := by
  obtain ⟨w, hw⟩ := h.trace
  obtain ⟨w', hw'⟩ := live_trace h.calm.managed hcalm.fit
  exact ⟨live_invariant hrel h.calm hcalm, w ++ w', by rw [hw', hw, List.append_assoc]⟩

theorem run_behind (hrel : Reliable σ) (h : CalmInvariant d)
    (hrun : Execution Driver.live Calm d d') :
    Behind d d' := by
  have hstart : Behind d d := ⟨h, [], (List.append_nil _).symm⟩
  exact hrun.invariant (fun _ _ hx hcalm => hx.next hrel hcalm) hstart

structure Underway (d : Driver σ) (request : RequestId) (index : ℕ) (x : Driver σ) : Prop where
  behind : Behind d x
  state : Failure x ∨ Awaits x request index ∨ Answered d x request index

theorem Underway.next (hrel : Reliable σ) {x : Driver σ} {e : LifeEvent} {request : RequestId}
    {index : ℕ} (h : Underway d request index x) (hcalm : Calm x e) :
    Underway d request index (Driver.live x e) := by
  refine ⟨h.behind.next hrel hcalm, ?_⟩
  obtain ⟨w, hw⟩ := h.behind.trace
  have hx := h.behind.calm
  obtain ⟨w', hw'⟩ := live_trace hx.managed hcalm.fit
  rcases hx.healthy with hfail | hhealthy
  · exact .inl (Failure.grow hfail hw')
  rcases h.state with hfail | hwaits | hans
  · exact .inl (Failure.grow hfail hw')
  · exact (live_awaits hrel hx.managed hhealthy hcalm hwaits).imp_right
      (Or.imp_right (fun hans => hans.since hw))
  · exact .inr (.inr (hans.grow hw'))

theorem run_underway (hrel : Reliable σ) {request : RequestId} {index : ℕ} (h : CalmInvariant d)
    (ha : Awaits d request index) (hrun : Execution Driver.live Calm d d') :
    Underway d request index d' := by
  have hstart : Underway d request index d :=
    ⟨⟨h, [], (List.append_nil _).symm⟩, .inr (.inl ha)⟩
  exact hrun.invariant (fun _ _ hx hcalm => hx.next hrel hcalm) hstart

/-- What has become of a trigger when the driver has gone on to `x`: it was refused, its snapshot
has been reported, or the snapshot is under way and will be reported on its completion. -/
def Disposed (d : Driver σ) (request : RequestId) (x : Driver σ) : Prop :=
  d.node.role ≠ .leader ∧ Refused d x request (.notLeader d.node.leaderId) ∨
    d.snapshotWorkerInFlight = true ∧ Refused d x request
      (.config "snapshot already in flight; retry after current snapshot completes") ∨
    Answered d x request d.node.commitIndex ∨
    Awaits x request d.node.commitIndex ∧
      (¬Failure (x.runSnapshotWorker.turn .snapshotCompleted) →
        Answered d (x.runSnapshotWorker.turn .snapshotCompleted) request d.node.commitIndex)

theorem trigger_disposed (hrel : Reliable σ) {request : RequestId} {x : Driver σ}
    (h : CalmInvariant d) (hcalm : Calm d (.turn (.triggerSnapshot request)))
    (hrun : Execution Driver.live Calm (d.turn (.triggerSnapshot request)) x)
    (hquiet : ¬Failure x) : x.haltReason = none ∧ Disposed d request x := by
  have htrigger : CalmInvariant (d.turn (.triggerSnapshot request)) := live_invariant hrel h hcalm
  obtain ⟨w, hw⟩ : ∃ w, (d.turn (.triggerSnapshot request)).trace = d.trace ++ w :=
    live_trace h.managed hcalm.fit
  obtain ⟨hx, w', hw'⟩ := run_behind hrel htrigger hrun
  have hhealthy := hx.healthy.resolve_left hquiet
  have hbetween : ¬Failure (d.turn (.triggerSnapshot request)) :=
    fun hfail => hquiet (Failure.grow hfail hw')
  have hbefore : Healthy d := h.healthy.resolve_left (fun hfail => hbetween (Failure.grow hfail hw))
  refine ⟨hhealthy.running, ?_⟩
  rcases trigger_outcome hbefore (htrigger.healthy.resolve_left hbetween).running with
    ⟨hrole, href⟩ | ⟨hbusy, href⟩ | hwaits
  · exact .inl ⟨hrole, href.grow hw'⟩
  · exact .inr (.inl ⟨hbusy, href.grow hw'⟩)
  · rcases (run_underway hrel htrigger hwaits hrun).state.resolve_left hquiet with hstill | hans
    · refine .inr (.inr (.inr ⟨hstill, fun hlater => ?_⟩))
      have hall : x.trace = d.trace ++ (w ++ w') := by rw [hw', hw, List.append_assoc]
      exact (worker_then_completion_answers hrel hhealthy hstill hlater).since hall
    · exact .inr (.inr (.inl (hans.since hw)))

theorem operator_triggers_never_halt (hrel : Reliable σ) (config : ClusterConfig)
    (voterSet : Option VoterSet) (rng : List ℕ) (maxFetchBatch : ℕ) (initial : σ)
    (logStore : MemoryLogStore) (hsStore : Option HardState) (snapshotStore : MemorySnapshotStore)
    (hstore : Recoverable ⟨logStore, hsStore, snapshotStore, []⟩)
    (hroom : logStore.lastIndex < u64Max)
    (hrun : Execution Driver.live Calm (start config voterSet rng maxFetchBatch initial []
      ⟨logStore, hsStore, snapshotStore, []⟩) d) (hquiet : ¬Failure d) :
    d.haltReason = none ∧ ∀ request x, Calm d (.turn (.triggerSnapshot request)) →
      Execution Driver.live Calm (d.turn (.triggerSnapshot request)) x → ¬Failure x →
        x.haltReason = none ∧ Disposed d request x := by
  have hstart : CalmInvariant (start config voterSet rng maxFetchBatch initial []
      ⟨logStore, hsStore, snapshotStore, []⟩) := by
    refine ⟨start_managed config voterSet rng maxFetchBatch initial [] _ hstore, ?_⟩
    by_cases hhalt : (start config voterSet rng maxFetchBatch initial []
      ⟨logStore, hsStore, snapshotStore, []⟩).haltReason = none
    · exact .inr (start_healthy hrel config voterSet rng maxFetchBatch initial hstore hhalt)
    · exact .inl (start_failure hrel config voterSet rng maxFetchBatch initial hstore hroom hhalt)
  have hinv := (run_behind hrel hstart hrun).calm
  refine ⟨(hinv.healthy.resolve_left hquiet).running, fun request x hcalm hx hqx => ?_⟩
  exact trigger_disposed hrel hinv hcalm hx hqx

end Turns

theorem noOp_reliable : Reliable NoOpStateMachine :=
  ⟨fun sm _ _ => ⟨sm, rfl⟩, fun _ => ⟨[], rfl⟩, fun sm _ => ⟨sm, rfl⟩⟩

def firstCommit : Driver NoOpStateMachine :=
  replay Driver.live (firstVoter []) (election ++
    [.turn (.client 5 [7]), .turn (.inboundFetch ⟨"c", 1, 2, 3, 1⟩)])

/-- The operator asks for a snapshot, and another command comes in before the worker is done. -/
theorem operator_triggers_never_halt_first_commit :
    let x := (firstCommit.turn (.triggerSnapshot 6)).turn (.client 7 [8])
    firstCommit.node.commitIndex = 2 ∧ x.haltReason = none ∧ Disposed firstCommit 6 x ∧
      ¬Failure (x.runSnapshotWorker.turn .snapshotCompleted) := by
  intro x
  have hrun : Execution Driver.live Calm (firstVoter []) firstCommit :=
    replay_execution (by decide +kernel)
  have hgoes : Execution Driver.live Calm (firstCommit.turn (.triggerSnapshot 6))
      (replay Driver.live (firstCommit.turn (.triggerSnapshot 6)) [.turn (.client 7 [8])]) :=
    replay_execution (by decide +kernel)
  obtain ⟨-, hnext⟩ := operator_triggers_never_halt noOp_reliable _ _ _ _ _ _ _ _ recoverable_fresh
    (by decide) hrun (by decide +kernel)
  obtain ⟨hhalt, hdisposed⟩ := hnext 6 x (by decide +kernel) hgoes (by decide +kernel)
  refine ⟨?_, hhalt, hdisposed, ?_⟩
  · decide +kernel
  · decide +kernel

def compacted : Driver NoOpStateMachine :=
  replay Driver.live (firstVoter []) (election ++
    [.turn (.client 5 [7]), .turn (.inboundFetch ⟨"c", 1, 2, 3, 1⟩), .turn (.triggerSnapshot 6),
      .snapshotWorker, .turn .snapshotCompleted])

/-- A leader whose log has been purged through `commit_index` is halted when its operator asks for
another snapshot: the log store has no term at that index any more. -/
theorem second_trigger_after_purge_halts :
    Execution Driver.live Calm (firstVoter []) compacted ∧
      FitLife compacted (.turn (.triggerSnapshot 7)) ∧ compacted.node.role = .leader ∧
      compacted.haltReason = none ∧ compacted.node.commitIndex = 2 ∧
      compacted.logStore.termAt 2 = none ∧
      (compacted.turn (.triggerSnapshot 7)).haltReason ≠ none ∧
      ¬Failure (compacted.turn (.triggerSnapshot 7)) := by
  refine ⟨replay_execution (by decide +kernel), ?_, ?_, ?_, ?_, ?_, ?_, ?_⟩
  · decide +kernel
  · decide +kernel
  · decide +kernel
  · decide +kernel
  · decide +kernel
  · decide +kernel
  · decide +kernel

end OperatorSnapshots
