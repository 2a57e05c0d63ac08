import Xraft.TurnOutcomes

/-! # Turns of a running driver

What a turn that does not halt the driver leaves behind, batch by batch: a log that only grew and
was applied up to the commit index, a log cut behind it, an installed snapshot, a captured one, or a
completed one.
-/
namespace RunningTurns

open ProtocolTypes ConsensusEngine DurableStores NodeDriver EngineTransitions GuardedExecution
open ApplyPipeline FaultFreeBatches PositionedLog BatchFootprints ActionOutcomes BatchOutcomes
open EngineOutlines LeaderAppendOnly TurnOutcomes

variable {σ : Type} {d d' d'' : Driver σ} {n m k : RaftNode} {opening : List Action}
  {entries : List Entry}

theorem marks_of_core (h : core m = core n) : SameMarks n m := by
  have hc : (core m).commitIndex = (core n).commitIndex := congrArg RaftNode.commitIndex h
  have ha : (core m).lastApplied = (core n).lastApplied := congrArg RaftNode.lastApplied h
  have hs : (core m).lastSnapshotMeta = (core n).lastSnapshotMeta :=
    congrArg RaftNode.lastSnapshotMeta h
  have hf : (core m).snapshotInFlight = (core n).snapshotInFlight :=
    congrArg RaftNode.snapshotInFlight h
  exact ⟨hc, ha, hs, hf⟩

theorem tip_of_core (h : core m = core n) : m.lastLogIndex = n.lastLogIndex := by
  have ht : (core m).lastLogIndex = (core n).lastLogIndex := congrArg RaftNode.lastLogIndex h
  exact ht

theorem standing_of_core (h : core m = core n) : m.role = n.role ∧
    m.currentTerm = n.currentTerm := by
  have hr : (core m).role = (core n).role := congrArg RaftNode.role h
  have ht : (core m).currentTerm = (core n).currentTerm := congrArg RaftNode.currentTerm h
  exact ⟨hr, ht⟩

theorem Kept.relieved (h : Kept d d') : Kept { d with pending := [] } { d' with pending := [] } :=
  ⟨⟨h.node, h.logStore, h.snapshotStore, h.stateMachine, rfl, h.inFlight, h.jobs, h.done, h.halt,
    h.faults⟩, h.trace⟩

theorem Kept.rewrite (h : Kept d d') (f : MemoryLogStore → MemoryLogStore) :
    Kept { d with logStore := f d.logStore } { d' with logStore := f d'.logStore } :=
  ⟨⟨h.node, congrArg f h.logStore, h.snapshotStore, h.stateMachine, h.pending, h.inFlight, h.jobs,
    h.done, h.halt, h.faults⟩, h.trace⟩

theorem Kept.renode (h : Kept d d') (m : RaftNode) :
    Kept { d with node := m } { d' with node := m } :=
  ⟨⟨rfl, h.logStore, h.snapshotStore, h.stateMachine, h.pending, h.inFlight, h.jobs, h.done, h.halt,
    h.faults⟩, h.trace⟩

theorem inRange_empty {s : MemoryLogStore} {first last : ℕ} (h : last < first) :
    inRange s first last = [] := by
  rw [List.eq_nil_iff_forall_not_mem]
  intro e he
  have := (mem_inRange.mp he).2
  omega

theorem extend_nil (s : MemoryLogStore) : extend s [] = s := by
  simp [extend, recordEpochs]

section Pieces

variable [StateMachine σ]

/-! ## Pieces of a batch -/

theorem did_neutral {a : Action} (h : Did d a d') (ha : Neutral a) : Kept d d' := by
  cases h with
  | neutral _ kept => exact kept
  | pipe did => cases did <;> exact ha.elim
  | _ => exact ha.elim

theorem did_stepDown (h : Did d .stepDown d') : Kept { d with pending := [] } d' := by
  cases h with
  | neutral ha _ => exact ha.elim
  | stepDown kept => exact kept
  | pipe did => cases did

theorem did_pipe {a : Action} (h : Did d a d') (ha : Applies a) : PipeDid d a d' := by
  cases h with
  | neutral hn _ => cases a <;> first | exact hn.elim | exact ha.elim
  | pipe did => exact did
  | _ => exact ha.elim

/-- An opening leaves everything alone but the waiters of a leader that steps down. -/
theorem opening_kept (h : Sequence Did d opening d') (ho : ∀ a ∈ opening, Prelude a) :
    (Action.stepDown ∈ opening → Kept { d with pending := [] } d') ∧
      (Action.stepDown ∉ opening → Kept d d') := by
  induction h with
  | nil s => exact ⟨fun h => absurd h List.not_mem_nil, fun _ => .refl s⟩
  | @cons s u v a rest first others ih =>
    obtain ⟨hdown, hplain⟩ := ih (fun b hb => ho b (List.mem_cons_of_mem _ hb))
    rcases ho a List.mem_cons_self with hneutral | rfl
    · have hkept := did_neutral first hneutral
      have hne : Action.stepDown ≠ a := by
        rintro rfl
        exact hneutral
      refine ⟨fun hmem => ?_, fun hmem => hkept.trans (hplain (fun h => hmem (.tail _ h)))⟩
      have hrest := (List.mem_cons.mp hmem).resolve_left hne
      exact (Kept.relieved hkept).trans (hdown hrest)
    · have hkept := did_stepDown first
      refine ⟨fun _ => ?_, fun hmem => absurd List.mem_cons_self hmem⟩
      by_cases hrest : Action.stepDown ∈ rest
      · exact (Kept.relieved hkept).trans (hdown hrest)
      · exact hkept.trans (hplain hrest)

theorem appends_kept (h : Sequence Did d (appends entries) d') :
    Kept { d with logStore := extend d.logStore entries } d' := by
  by_cases hnil : entries = []
  · rw [appends, if_pos hnil] at h
    cases h
    rw [hnil, extend_nil]
    exact .refl d
  · rw [appends, if_neg hnil] at h
    cases h.single with
    | neutral ha _ => exact ha.elim
    | append _ kept => exact kept
    | pipe did => cases did

theorem closing_kept {closing : List Action} (h : Sequence Did d closing d')
    (hc : ∀ a ∈ closing, Neutral a) : Kept d d' :=
  (opening_kept h (fun a ha => .inl (hc a ha))).2 (fun hmem => hc _ hmem)

theorem sequence_pipe {actions : List Action} (h : Sequence Did d actions d')
    (ha : ∀ a ∈ actions, Applies a) : Sequence PipeDid d actions d' := by
  induction h with
  | nil s => exact .nil s
  | cons first others ih =>
    exact .cons (did_pipe first (ha _ List.mem_cons_self))
      (ih (fun b hb => ha b (List.mem_cons_of_mem _ hb)))

/-! ## The pipeline -/

def Queued (d : Driver σ) (through : ℕ) (wants : Bool) (d' : Driver σ) : Prop :=
  wants = false ∧ d'.snapshotWorkerInFlight = d.snapshotWorkerInFlight ∧
      d'.snapshotJobs = d.snapshotJobs ∨
    wants = true ∧ d.snapshotWorkerInFlight = false ∧ d'.snapshotWorkerInFlight = true ∧
      ∃ term voterSet serializer, d'.logStore.termAt through = some term ∧
        StateMachine.beginSnapshot d'.stateMachine = .ok serializer ∧
        d'.snapshotJobs = d.snapshotJobs ++ [⟨through, term, voterSet, serializer, none⟩]

structure Pumps (d : Driver σ) (first last : ℕ) (wants : Bool) (d' : Driver σ) : Prop where
  node : core d'.node = core d.node
  logStore : d'.logStore = d.logStore
  snapshotStore : d'.snapshotStore = d.snapshotStore
  done : d'.snapshotDone = d.snapshotDone
  faults : d.faults = [] → d'.faults = []
  readable : first ≤ last → Readable d.logStore first last
  state : advanceAll d.stateMachine (inRange d.logStore first last) = .ok d'.stateMachine
  pending : d'.pending = d.pending.filter
    (fun w => !(inRange d.logStore first last).any (fun e => e.index = w.1))
  queued : Queued d last wants d'
  trace : ∃ w, d'.trace = d.trace ++ w ∧ applications w = inRange d.logStore first last

theorem pumps_apply {first last : ℕ} (h : PipeDid d (.applyToStateMachine first last) d') :
    Pumps d first last false d' := by
  cases h with
  | apply readable applied =>
    obtain ⟨⟨sm, hsm, hframe⟩, w, hw, happs, -⟩ := applied
    have hstate : d'.stateMachine = sm := hframe.stateMachine
    exact ⟨hframe.node, hframe.logStore, hframe.snapshotStore, hframe.done, hframe.faults,
      fun _ => readable, hstate ▸ hsm, hframe.pending, .inl ⟨rfl, hframe.inFlight, hframe.jobs⟩,
      w, hw, happs⟩

theorem pumps_nothing (d : Driver σ) {first last : ℕ} (h : last < first) :
    Pumps d first last false d := by
  have hempty := inRange_empty (s := d.logStore) h
  refine ⟨rfl, rfl, rfl, rfl, id, fun hle => absurd hle (not_le.mpr h), ?_, ?_,
    .inl ⟨rfl, rfl, rfl⟩, [], (List.append_nil _).symm, ?_⟩
  · rw [hempty]
    rfl
  · rw [hempty]
    simp
  · rw [hempty]
    rfl

theorem Pumps.take {first last : ℕ} (h : Pumps d first last false d')
    (ht : PipeDid d' (.takeSnapshot last) d'') : Pumps d first last true d'' := by
  cases ht with
  | take captured =>
    obtain ⟨hidle, term, serializer, hterm, hview, hkept⟩ := captured
    obtain ⟨-, hflag, hjobs⟩ := h.queued.resolve_right (fun hq => by cases hq.1)
    obtain ⟨w, hw, happs⟩ := h.trace
    obtain ⟨w', hw', hmute⟩ := hkept.trace
    have hstate : d''.stateMachine = d'.stateMachine := hkept.stateMachine
    have hlog : d''.logStore = d'.logStore := hkept.logStore
    have hqueue : d''.snapshotJobs = d'.snapshotJobs ++ _ := hkept.jobs
    refine ⟨hkept.node.trans h.node, hlog.trans h.logStore,
      hkept.snapshotStore.trans h.snapshotStore, hkept.done.trans h.done,
      fun hf => hkept.faults (h.faults hf), h.readable, ?_, hkept.pending.trans h.pending,
      .inr ⟨rfl, hflag ▸ hidle, hkept.inFlight, term, _, serializer,
        ?_, ?_, hqueue.trans (congrArg (· ++ _) hjobs)⟩, w ++ w', ?_, ?_⟩
    · rw [hstate]
      exact h.state
    · rw [hlog]
      exact hterm
    · rw [hstate]
      exact hview
    · have hw'' : d''.trace = d'.trace ++ w' := hw'
      rw [hw'', hw, List.append_assoc]
    · rw [applications_append, happs, applications_mute hmute, List.append_nil]

end Pieces

def due (n : RaftNode) : Bool :=
  !n.snapshotInFlight && decide (n.config.maxLogEntriesBeforeCompaction <
    n.commitIndex - (n.lastSnapshotMeta.map SnapshotMeta.lastIncludedIndex).getD 0)

theorem maybeTakeSnapshot_eq (n : RaftNode) : n.maybeTakeSnapshot =
    ({ n with snapshotInFlight := n.snapshotInFlight || due n },
      if due n then [.takeSnapshot n.commitIndex] else []) := by
  unfold RaftNode.maybeTakeSnapshot
  dsimp only
  by_cases hdue : due n = true
  · obtain ⟨hflag, hmany⟩ : n.snapshotInFlight = false ∧
        n.config.maxLogEntriesBeforeCompaction <
          n.commitIndex - (n.lastSnapshotMeta.map SnapshotMeta.lastIncludedIndex).getD 0 := by
      simpa only [due, Bool.and_eq_true, Bool.not_eq_true', decide_eq_true_eq] using hdue
    rw [if_neg (by simp [hflag]), if_pos hmany, if_pos hdue, hdue, Bool.or_true]
  · have hsame : (n, ([] : List Action)) =
        ({ n with snapshotInFlight := n.snapshotInFlight || due n }, []) := by
      rw [eq_false_of_ne_true hdue, Bool.or_false]
    rw [if_neg hdue, ← hsame]
    split_ifs with hflag hmany
    · rfl
    · exact absurd (by simpa [due, hflag] using hmany) hdue
    · rfl

theorem maybeApply_eq (h : n.lastApplied ≤ n.commitIndex) : n.maybeApply =
    ({ n with lastApplied := n.commitIndex }, if n.commitIndex ≤ n.lastApplied then []
      else [.applyToStateMachine (satAdd n.lastApplied 1) n.commitIndex]) := by
  unfold RaftNode.maybeApply
  have hset : ∀ a, n.lastApplied = a → n = { n with lastApplied := a } := by
    rintro _ rfl
    rfl
  split_ifs with hle
  · rw [← hset _ (le_antisymm h hle)]
  · rfl

theorem drainApplyPipeline_eq (h : n.lastApplied ≤ n.commitIndex) :
    n.drainApplyPipeline.1 = { n with
      lastApplied := n.commitIndex
      snapshotInFlight := n.snapshotInFlight || due n } ∧
    n.drainApplyPipeline.2 = (if n.commitIndex ≤ n.lastApplied then []
      else [.applyToStateMachine (satAdd n.lastApplied 1) n.commitIndex]) ++
        (if due n then [.takeSnapshot n.commitIndex] else []) := by
  unfold RaftNode.drainApplyPipeline
  rw [maybeApply_eq h, maybeTakeSnapshot_eq]
  exact ⟨rfl, rfl⟩

/-! ## The log behind a completed snapshot -/

def compacted (d : Driver σ) (c : SnapshotCompletion) : MemoryLogStore :=
  let anchored := d.logStore.updateSnapshotAnchor c.throughTerm c.throughIndex
  if isSnapshotMetaNewer d.node.lastSnapshotMeta c.metadata
  then anchored.purgePrefix c.metadata.lastIncludedIndex else anchored

theorem mem_compacted {c : SnapshotCompletion} {e : Entry} (h : e ∈ (compacted d c).entries) :
    e ∈ d.logStore.entries := by
  unfold compacted at h
  dsimp only at h
  rw [← DriverJournal.updateSnapshotAnchor_entries d.logStore c.throughTerm c.throughIndex]
  split_ifs at h
  · exact List.mem_of_mem_filter h
  · exact h

def infoOf (c : SnapshotCompletion) : TriggeredSnapshotInfo :=
  ⟨c.metadata.lastIncludedIndex, c.metadata.lastIncludedTerm, c.metadata.sizeBytes.getD 0⟩

theorem replySnapshot_ok (d : Driver σ) (c : SnapshotCompletion) :
    ∃ w, (d.replySnapshot c.reply (.ok (infoOf c))).trace = d.trace ++ w ∧
      ∀ request, c.reply = some request → Effect.snapshotReply request (.ok (infoOf c)) ∈ w := by
  cases c.reply with
  | none => exact ⟨[], (List.append_nil _).symm, nofun⟩
  | some request => exact ⟨_, rfl, by simp⟩

/-- The purge after a completed snapshot has no error of its own to report. -/
theorem purge_outcome (d : Driver σ) (through : ℕ) (o : Outcome σ)
    (ho : o = runTruncate d {} (.prefixThroughInclusive through)) :
    (Kept { d with logStore := d.logStore.purgePrefix through } o.driver ∧
      o.captured.error = none) ∨ (o.driver.haltReason ≠ none ∧ Hushed d o.driver ∧ d.faults ≠ [] ∧
        o.captured.error ≠ none) := by
  have hcall : CallOutcome d { d with logStore := d.logStore.purgePrefix through } False
      (d.purgeLog through) :=
    logWrite_outcome d (fun s => s.purgePrefix through) (.purge through) trivial False
  unfold runTruncate at ho
  dsimp only at ho
  rcases hr : d.purgeLog through with ⟨d₁, _ | e⟩ <;> rw [hr] at hcall ho
  · have hflush : CallOutcome d { d with logStore := d.logStore.purgePrefix through } False
        d₁.flushLog := .flush (hcall.success rfl) id (hushed_same rfl rfl)
    dsimp only at ho
    rcases hr' : d₁.flushLog with ⟨d₂, _ | e⟩ <;> rw [hr'] at hflush ho <;> subst ho
    · exact .inl ⟨hflush.success rfl, rfl⟩
    · obtain ⟨hcause, htrace⟩ := hflush.failure e rfl
      exact .inr ⟨nofun, htrace.congr rfl rfl, hcause, nofun⟩
  · subst ho
    obtain ⟨hcause, htrace⟩ := hcall.failure e rfl
    exact .inr ⟨nofun, htrace.congr rfl rfl, hcause, nofun⟩

theorem core_handleSnapshotComplete (n : RaftNode) (metadata : SnapshotMeta) :
    core (n.handleSnapshotComplete metadata).1 = ((core n).handleSnapshotComplete metadata).1 := by
  have hmeta : (core n).lastSnapshotMeta = n.lastSnapshotMeta := rfl
  unfold RaftNode.handleSnapshotComplete
  rw [hmeta]
  split_ifs <;> rfl

theorem Kept.completes (h : Kept d d') (metadata : SnapshotMeta) :
    Kept { d with
        node := (d.node.handleSnapshotComplete metadata).1
        logStore := if isSnapshotMetaNewer d.node.lastSnapshotMeta metadata
          then d.logStore.purgePrefix metadata.lastIncludedIndex else d.logStore }
      { d' with
        node := (d'.node.handleSnapshotComplete metadata).1
        logStore := if isSnapshotMetaNewer d'.node.lastSnapshotMeta metadata
          then d'.logStore.purgePrefix metadata.lastIncludedIndex else d'.logStore } := by
  have hmeta := (marks_of_core h.node).lastSnapshotMeta
  refine ⟨⟨?_, ?_, h.snapshotStore, h.stateMachine, h.pending, h.inFlight, h.jobs, h.done, h.halt,
    h.faults⟩, h.trace⟩
  · show core (d'.node.handleSnapshotComplete metadata).1 = core (d.node.handleSnapshotComplete
      metadata).1
    rw [core_handleSnapshotComplete, h.node, ← core_handleSnapshotComplete]
  · show (if isSnapshotMetaNewer d'.node.lastSnapshotMeta metadata
      then d'.logStore.purgePrefix metadata.lastIncludedIndex else d'.logStore) = _
    rw [hmeta, h.logStore]

variable [StateMachine σ]

theorem drain_pumps (h : n.lastApplied ≤ n.commitIndex)
    (hseq : Sequence PipeDid d n.drainApplyPipeline.2 d') :
    Pumps d (n.lastApplied + 1) n.commitIndex (due n) d' := by
  rw [(drainApplyPipeline_eq h).2] at hseq
  obtain ⟨u, happly, htake⟩ := hseq.split
  have hpumped : Pumps d (n.lastApplied + 1) n.commitIndex false u := by
    split_ifs at happly with hle
    · cases happly
      exact pumps_nothing d (by omega)
    · have hdid := happly.single
      have hroom : n.commitIndex < u64Max := by
        cases hdid with
        | apply readable _ => exact readable.bounded
      rw [satAdd_eq (by omega)] at hdid
      exact pumps_apply hdid
  cases hdue : due n with
  | false =>
    rw [hdue] at htake
    cases htake
    exact hpumped
  | true =>
    rw [hdue] at htake
    exact hpumped.take htake.single

/-! ## Growing logs -/

def newly (d d' : Driver σ) : List Entry :=
  inRange d'.logStore (d.node.lastApplied + 1) d'.node.commitIndex

structure Advanced (d : Driver σ) (registered : List (ℕ × RequestId)) (entries : List Entry)
    (d' : Driver σ) : Prop where
  extend : Extends d.node entries d'.node
  logStore : d'.logStore = PositionedLog.extend d.logStore entries
  snapshotMeta : d'.node.lastSnapshotMeta = d.node.lastSnapshotMeta
  snapshotStore : d'.snapshotStore = d.snapshotStore
  done : d'.snapshotDone = d.snapshotDone
  faults : d.faults = [] → d'.faults = []
  commit : d'.node.commitIndex = d.node.commitIndex ∨
    d.node.commitIndex < d'.node.commitIndex ∧ d'.node.commitIndex ≤ d'.node.lastLogIndex
  lastApplied : d'.node.lastApplied = d'.node.commitIndex
  readable : d.node.lastApplied < d'.node.commitIndex →
    Readable d'.logStore (d.node.lastApplied + 1) d'.node.commitIndex
  state : advanceAll d.stateMachine (newly d d') = .ok d'.stateMachine
  queued : ∃ wants, Queued d d'.node.commitIndex wants d' ∧
    d'.node.snapshotInFlight = (d.node.snapshotInFlight || wants) ∧
      (wants = true → d.node.snapshotInFlight = false)
  pending : d'.pending = [] ∨ (d.node.role = .leader → Leads d.node.currentTerm d'.node) ∧
    d'.pending = (d.pending ++ registered).filter
      (fun w => !(newly d d').any (fun e => e.index = w.1))
  trace : ∃ w, d'.trace = d.trace ++ w ∧ applications w = newly d d'

theorem opening_ran (h : Sequence Did d opening d') (ho : ∀ a ∈ opening, Prelude a) :
    ∃ pending, (pending = [] ∧ Action.stepDown ∈ opening ∨
        pending = d.pending ∧ Action.stepDown ∉ opening) ∧
          Kept { d with pending := pending } d' := by
  obtain ⟨hdown, hplain⟩ := opening_kept h ho
  by_cases hmem : Action.stepDown ∈ opening
  · exact ⟨[], .inl ⟨rfl, hmem⟩, hdown hmem⟩
  · exact ⟨d.pending, .inr ⟨rfl, hmem⟩, hplain hmem⟩

/-- The driver behind a stretch: the log has grown, and the waiters are those of a leader that goes
on. -/
theorem stretch_ran (hs : Stretch d.node opening entries k) {registered : List (ℕ × RequestId)}
    (hrun : Sequence Did { d with node := m, pending := d.pending ++ registered }
      (opening ++ appends entries) d') :
    ∃ pending, (pending = [] ∨ pending = d.pending ++ registered ∧
        (d.node.role = .leader → k.role = .leader ∧ k.currentTerm = d.node.currentTerm)) ∧
      Kept { d with
        node := m
        pending := pending
        logStore := PositionedLog.extend d.logStore entries } d' := by
  obtain ⟨u, hopening, happends⟩ := hrun.split
  obtain ⟨pending, hpending, hkept⟩ := opening_ran hopening hs.opens
  refine ⟨pending, ?_, (Kept.rewrite hkept (fun s => PositionedLog.extend s entries)).trans
    (appends_kept happends)⟩
  rcases hpending with ⟨rfl, -⟩ | ⟨rfl, hno⟩
  · exact .inl rfl
  · exact .inr ⟨rfl, fun hl => (hs.yields hl).resolve_right hno⟩

theorem advanced_of_pumps {registered pending : List (ℕ × RequestId)} {wants : Bool}
    (hgrown : Kept { d with
      node := m
      pending := pending
      logStore := PositionedLog.extend d.logStore entries } d')
    (hp : Pumps d' (d.node.lastApplied + 1) m.commitIndex wants d'')
    (hext : Extends d.node entries k) (hrole : m.role = k.role)
    (hterm : m.currentTerm = k.currentTerm) (htip : m.lastLogIndex = k.lastLogIndex)
    (hmeta : m.lastSnapshotMeta = d.node.lastSnapshotMeta)
    (hcommit : m.commitIndex = d.node.commitIndex ∨
      d.node.commitIndex < m.commitIndex ∧ m.commitIndex ≤ m.lastLogIndex)
    (happlied : m.lastApplied = m.commitIndex)
    (hflag : m.snapshotInFlight = (d.node.snapshotInFlight || wants))
    (hwants : wants = true → d.node.snapshotInFlight = false)
    (hpending : pending = [] ∨ pending = d.pending ++ registered ∧
      (d.node.role = .leader → k.role = .leader ∧ k.currentTerm = d.node.currentTerm)) :
    Advanced d registered entries d'' := by
  have hcore : core d''.node = core m := hp.node.trans hgrown.node
  have hlog : d''.logStore = PositionedLog.extend d.logStore entries :=
    hp.logStore.trans hgrown.logStore
  have hmarks := marks_of_core hcore
  have hend := (tip_of_core hcore).trans htip
  have hnewly : newly d d'' = inRange d'.logStore (d.node.lastApplied + 1) m.commitIndex := by
    rw [newly, hmarks.commitIndex, hp.logStore]
  have hstate : d'.stateMachine = d.stateMachine := hgrown.stateMachine
  refine ⟨⟨hext.positioned, hend.trans hext.tip⟩, hlog, hmarks.lastSnapshotMeta.trans hmeta,
    hp.snapshotStore.trans hgrown.snapshotStore, hp.done.trans hgrown.done,
    fun hf => hp.faults (hgrown.faults hf), ?_, ?_, ?_, ?_, ⟨wants, ?_, ?_, hwants⟩, ?_, ?_⟩
  · rw [hmarks.commitIndex, hend, ← htip]
    exact hcommit
  · rw [hmarks.lastApplied, hmarks.commitIndex, happlied]
  · intro hlt
    rw [hmarks.commitIndex] at hlt ⊢
    rw [hp.logStore]
    exact hp.readable hlt
  · rw [hnewly, ← hstate]
    exact hp.state
  · have hflight : d'.snapshotWorkerInFlight = d.snapshotWorkerInFlight := hgrown.inFlight
    have hjobs : d'.snapshotJobs = d.snapshotJobs := hgrown.jobs
    have hqueued := hp.queued
    rw [hmarks.commitIndex]
    unfold Queued at hqueued ⊢
    rw [hflight, hjobs] at hqueued
    exact hqueued
  · rw [hmarks.snapshotInFlight, hflag]
  · have hwaiting : d'.pending = pending := hgrown.pending
    rw [hp.pending, hwaiting, hnewly]
    rcases hpending with rfl | ⟨rfl, hgoes⟩
    · exact .inl rfl
    · refine .inr ⟨fun hl => ?_, rfl⟩
      obtain ⟨hl', ht'⟩ := hgoes hl
      obtain ⟨hr, ht⟩ := standing_of_core hcore
      exact ⟨hr.trans (hrole.trans hl'), ht.trans (hterm.trans ht')⟩
  · obtain ⟨w, hw, hmute⟩ := hgrown.trace
    obtain ⟨w', hw', happs⟩ := hp.trace
    have hw₁ : d'.trace = d.trace ++ w := hw
    refine ⟨w ++ w', by rw [hw', hw₁, List.append_assoc], ?_⟩
    rw [applications_append, applications_mute hmute, happs, hnewly, List.nil_append]

theorem Advanced.kept {registered : List (ℕ × RequestId)} (h : Advanced d registered entries d')
    (hk : Kept d' d'') : Advanced d registered entries d'' := by
  have hmarks := marks_of_core hk.node
  have hend := tip_of_core hk.node
  obtain ⟨hrole, hterm⟩ := standing_of_core hk.node
  have hnewly : newly d d'' = newly d d' := by
    rw [newly, newly, hmarks.commitIndex, hk.logStore]
  obtain ⟨w, hw, happs⟩ := h.trace
  obtain ⟨w', hw', hmute⟩ := hk.trace
  refine ⟨⟨h.extend.positioned, hend.trans h.extend.tip⟩, hk.logStore.trans h.logStore,
    hmarks.lastSnapshotMeta.trans h.snapshotMeta, hk.snapshotStore.trans h.snapshotStore,
    hk.done.trans h.done, fun hf => hk.faults (h.faults hf), ?_, ?_, ?_, ?_, ?_, ?_,
    w ++ w', by rw [hw', hw, List.append_assoc], ?_⟩
  · rw [hmarks.commitIndex, hend]
    exact h.commit
  · rw [hmarks.lastApplied, hmarks.commitIndex]
    exact h.lastApplied
  · rw [hmarks.commitIndex, hk.logStore]
    exact h.readable
  · rw [hnewly, hk.stateMachine]
    exact h.state
  · unfold Queued
    rw [hmarks.commitIndex, hmarks.snapshotInFlight, hk.inFlight, hk.jobs, hk.logStore,
      hk.stateMachine]
    exact h.queued
  · rw [hk.pending, hnewly]
    refine h.pending.imp_right (fun hp => ⟨fun hl => ?_, hp.2⟩)
    exact ⟨hrole.trans (hp.1 hl).1, hterm.trans (hp.1 hl).2⟩
  · rw [applications_append, happs, applications_mute hmute, hnewly, List.append_nil]

section Stretches

variable {registered pending : List (ℕ × RequestId)}

theorem advanced_grow (hs : Stretch d.node opening entries k)
    (happlied : d.node.lastApplied = d.node.commitIndex)
    (hpending : pending = [] ∨ pending = d.pending ++ registered ∧
      (d.node.role = .leader → k.role = .leader ∧ k.currentTerm = d.node.currentTerm))
    (hgrown : Kept { d with
      node := k
      pending := pending
      logStore := PositionedLog.extend d.logStore entries } d') :
        Advanced d registered entries d' := by
  have hnothing : Pumps d' (d.node.lastApplied + 1) k.commitIndex false d' := by
    rw [hs.marks.commitIndex]
    exact pumps_nothing d' (by omega)
  refine advanced_of_pumps hgrown hnothing hs.extend rfl rfl rfl hs.marks.lastSnapshotMeta
    (.inl hs.marks.commitIndex) ?_ ?_ ?_ hpending
  · rw [hs.marks.lastApplied, hs.marks.commitIndex]
    exact happlied
  · rw [hs.marks.snapshotInFlight, Bool.or_false]
  · exact nofun

theorem advanced_drain {c : ℕ} (hs : Stretch d.node opening entries k)
    (happlied : d.node.lastApplied = d.node.commitIndex) (habove : k.commitIndex < c)
    (hwithin : c ≤ k.lastLogIndex)
    (hpending : pending = [] ∨ pending = d.pending ++ registered ∧
      (d.node.role = .leader → k.role = .leader ∧ k.currentTerm = d.node.currentTerm))
    (hgrown : Kept { d with
      node := (RaftNode.drainApplyPipeline { k with commitIndex := c }).1
      pending := pending
      logStore := PositionedLog.extend d.logStore entries } d')
    (hseq : Sequence PipeDid d' (RaftNode.drainApplyPipeline { k with commitIndex := c }).2 d'') :
    Advanced d registered entries d'' := by
  have hcommit := hs.marks.commitIndex
  have hbefore := hs.marks.lastApplied
  have hle : ({ k with commitIndex := c } : RaftNode).lastApplied ≤ c := by
    show k.lastApplied ≤ c
    omega
  have hpumps := drain_pumps hle hseq
  have hfirst : ({ k with commitIndex := c } : RaftNode).lastApplied = d.node.lastApplied := hbefore
  rw [hfirst] at hpumps
  rw [(drainApplyPipeline_eq hle).1] at hgrown
  refine advanced_of_pumps hgrown hpumps hs.extend rfl rfl rfl hs.marks.lastSnapshotMeta
    (.inr ⟨hcommit.ge.trans_lt habove, hwithin⟩) rfl ?_ (fun hdue => ?_) hpending
  · exact congrArg (· || due { k with commitIndex := c }) hs.marks.snapshotInFlight
  · have hflag : k.snapshotInFlight = false := by
      simp only [due, Bool.and_eq_true, Bool.not_eq_true'] at hdue
      exact hdue.1
    rw [← hs.marks.snapshotInFlight]
    exact hflag

theorem advanced_of_kept (happlied : d.node.lastApplied = d.node.commitIndex) (h : Kept d d') :
    Advanced d [] [] d' := by
  have hsame : Kept { d with
      node := d.node
      pending := d.pending ++ []
      logStore := PositionedLog.extend d.logStore [] } d' := by
    rw [List.append_nil, extend_nil]
    exact h
  have hs : Stretch d.node [] [] d.node :=
    stretch_idle (by simp) (.refl _) rfl (fun hl => .inl ⟨hl, rfl⟩)
  exact advanced_grow hs happlied (.inr ⟨rfl, fun hl => ⟨hl, rfl⟩⟩) hsame

theorem serving_bounded (hb : Bounded n) (req : FetchRequest) : Bounded (serving n req).1 := by
  intro p hp
  have hsame : peerOffsets (serving n req).1 = peerOffsets n :=
    updatePeer_offsets_eq n req.replicaId (fun _ => rfl)
  rw [hsame] at hp
  exact hb p hp

theorem serve_advanced {req : FetchRequest} (happlied : d.node.lastApplied = d.node.commitIndex)
    (hb : Bounded d.node)
    (hrun : Sequence Did { d with
      node := (serving d.node req).1
      pending := d.pending ++ registered } (serving d.node req).2 d') :
    Advanced d registered [] d' := by
  have hstamped : Stretch d.node [] [] (serving d.node req).1 :=
    stretch_idle (by simp) ⟨rfl, rfl, rfl, rfl⟩ rfl (fun hl => .inl ⟨hl, rfl⟩)
  have hlog : PositionedLog.extend d.logStore [] = d.logStore := extend_nil _
  cases hrun.single with
  | neutral ha _ => exact ha.elim
  | pipe did => cases did
  | answered kept =>
    rw [← hlog] at kept
    exact advanced_grow hstamped happlied (.inr ⟨rfl, fun hl => ⟨hl, rfl⟩⟩) kept
  | acked kept node ran =>
    rename_i mid
    rw [node] at ran
    obtain ⟨k, hs, hcases⟩ :=
      handleFetchRequestAcked_cases (serving_bounded hb req) req.replicaId (req.fetchOffset - 1)
    have hstretch := hstamped.trans hs
    have hstays : d.node.role = .leader → k.role = .leader ∧ k.currentTerm = d.node.currentTerm :=
      fun hl => (hstretch.yields hl).resolve_right List.not_mem_nil
    have hgrown : ∀ m : RaftNode, Kept { d with
        node := m
        pending := d.pending ++ registered
        logStore := PositionedLog.extend d.logStore [] } { mid with node := m } := by
      intro m
      rw [hlog]
      exact Kept.renode kept m
    rcases hcases with hnone | ⟨c, habove, hwithin, hdrain⟩
    · rw [hnone] at ran
      cases ran
      exact advanced_grow hstretch happlied (.inr ⟨rfl, hstays⟩) (hgrown k)
    · rw [hdrain] at ran
      exact advanced_drain hstretch happlied habove hwithin (.inr ⟨rfl, hstays⟩) (hgrown _) ran

end Stretches

/-! ## Cut logs -/

structure Cut (d : Driver σ) (endOffset : ℕ) (d' : Driver σ) : Prop where
  keeps : d.node.commitIndex ≤ endOffset
  after : ∃ m pending, SameMarks d.node m ∧
    (pending = [] ∨ d.node.role ≠ .leader ∧ pending = d.pending) ∧
    Kept (Driver.mirrorLogTip { d with
      node := m
      pending := pending
      logStore := d.logStore.truncateFrom (satAdd endOffset 1) }) d'

theorem cut_ran {closing : List Action} {endOffset : ℕ} (hs : Stretch d.node opening [] k)
    (hkeeps : d.node.commitIndex ≤ endOffset)
    (hdeposed : d.node.role = .leader → Action.stepDown ∈ opening)
    (hclosing : ∀ a ∈ closing, Neutral a) {registered : List (ℕ × RequestId)}
    (hreg : registered ≠ [] → d.node.role = .leader)
    (hrun : Sequence Did { d with node := k, pending := d.pending ++ registered } (opening ++
      .truncateLog (.suffixFromInclusive (satAdd endOffset 1)) :: closing) d') :
    Cut d endOffset d' := by
  obtain ⟨u, hopening, hrest⟩ := hrun.split
  obtain ⟨pending, hpending, hkept⟩ := opening_ran hopening hs.opens
  cases hrest with
  | cons first others =>
    refine ⟨hkeeps, k, pending, hs.marks, ?_, ?_⟩
    · rcases hpending with ⟨rfl, -⟩ | ⟨rfl, hno⟩
      · exact .inl rfl
      · have hfollows : d.node.role ≠ .leader := fun hl => hno (hdeposed hl)
        have hnone : registered = [] := by
          by_contra hne
          exact hfollows (hreg hne)
        exact .inr ⟨hfollows, by rw [hnone, List.append_nil]⟩
    · cases first with
      | neutral ha _ => exact ha.elim
      | pipe did => cases did
      | cut kept =>
        have hcut := Kept.mirrorLogTip
          (Kept.rewrite hkept (fun s => s.truncateFrom (satAdd endOffset 1)))
        exact hcut.trans (kept.trans (closing_kept others hclosing))

theorem outline_ran {r : RaftNode × List Action} {registered : List (ℕ × RequestId)}
    (hout : Outline d.node r) (happlied : d.node.lastApplied = d.node.commitIndex)
    (hb : d.node.role = .leader → Bounded d.node)
    (hreg : registered ≠ [] → d.node.role = .leader)
    (hrun : Sequence Did { d with node := r.1, pending := d.pending ++ registered } r.2 d') :
    (∃ entries, Advanced d registered entries d') ∨ ∃ endOffset, Cut d endOffset d' := by
  cases hout with
  | grow stretch =>
    obtain ⟨pending, hpending, hkept⟩ := stretch_ran stretch hrun
    exact .inl ⟨_, advanced_grow stretch happlied hpending hkept⟩
  | drain stretch above within _ =>
    obtain ⟨u, hstretch, hdrain⟩ := hrun.split
    obtain ⟨pending, hpending, hkept⟩ := stretch_ran stretch hstretch
    exact .inl ⟨_, advanced_drain stretch happlied above within hpending hkept
      (sequence_pipe hdrain (drainApplyPipeline_applies _))⟩
  | cut stretch keeps deposed neutral =>
    exact .inr ⟨_, cut_ran stretch keeps deposed neutral hreg hrun⟩
  | serve req leader => exact .inl ⟨[], serve_advanced happlied (hb leader) hrun⟩

/-! ## Completed and captured snapshots -/

structure Completed (d : Driver σ) (c : SnapshotCompletion) (rest : List SnapshotCompletion)
    (d' : Driver σ) : Prop where
  done : d.snapshotDone = c :: rest
  after : Kept { d with
    node := (d.node.handleSnapshotComplete c.metadata).1
    logStore := compacted d c
    snapshotDone := rest
    snapshotWorkerInFlight := false } d'
  answer : ∃ w, d'.trace = d.trace ++ w ∧
    ∀ request, c.reply = some request → Effect.snapshotReply request (.ok (infoOf c)) ∈ w

structure Failed (d : Driver σ) (cause : Prop) (d' : Driver σ) : Prop where
  halt : d'.haltReason ≠ none
  hushed : Hushed d d'
  cause : d.faults = [] → Reliable σ → cause ∨ Failure d'

theorem processActions_one (d : Driver σ) (a : Action) (origin : Option NodeId) :
    d.processActions [a] origin = ((runAction processAcked origin d {} a).driver,
      (runAction processAcked origin d {} a).captured) := by
  unfold Driver.processActions runActions
  dsimp only
  split_ifs <;> rfl

theorem feed_snapshotComplete (d : Driver σ) (metadata : SnapshotMeta)
    (r : Driver σ × CapturedResponse) (hr : r = d.feed (.snapshotComplete metadata) none) :
    (Kept { d with
        node := (d.node.handleSnapshotComplete metadata).1
        logStore := if isSnapshotMetaNewer d.node.lastSnapshotMeta metadata
          then d.logStore.purgePrefix metadata.lastIncludedIndex else d.logStore } r.1 ∧
      r.2.error = none) ∨
    (r.1.haltReason ≠ none ∧ Hushed d r.1 ∧ d.faults ≠ [] ∧ r.2.error ≠ none) := by
  have hstep : d.node.step (.snapshotComplete metadata) = d.node.handleSnapshotComplete metadata :=
    rfl
  rw [Driver.feed, hstep] at hr
  unfold RaftNode.handleSnapshotComplete at hr ⊢
  by_cases hnew : isSnapshotMetaNewer d.node.lastSnapshotMeta metadata
  · rw [if_pos hnew, processActions_one] at hr
    rw [if_pos hnew, if_pos hnew, hr]
    have hpurged := purge_outcome { d with node := { d.node with
      snapshotInFlight := false
      lastSnapshotMeta := some metadata } } metadata.lastIncludedIndex _ rfl
    rcases hpurged with hkept | ⟨hhalt, hushed, hrest⟩
    · exact .inl hkept
    · exact .inr ⟨hhalt, ⟨hushed.trace, hushed.jobs⟩, hrest⟩
  · rw [if_neg hnew] at hr
    rw [if_neg hnew, if_neg hnew, hr]
    exact .inl ⟨.refl _, rfl⟩

theorem handleSnapshotCompleted_outcome {c : SnapshotCompletion} {rest : List SnapshotCompletion}
    (hdone : d.snapshotDone = c :: rest) :
    Completed d c rest d.handleSnapshotCompleted ∨
      Failed d (∃ e, c.result = .error e) d.handleSnapshotCompleted := by
  generalize hbad : (∃ e, c.result = .error e) = bad
  have hfail : ∀ {x : Driver σ} (message : String), Hushed d x →
      (d.faults = [] → Reliable σ → bad ∨ Failure x) →
      Failed d bad ((x.replySnapshot c.reply (.error (.storage message))).halt message) := by
    intro x message ht hcause
    have hreply := (replySnapshot_kept x c.reply (.error (.storage message))).hushed
    have hend : Hushed x ((x.replySnapshot c.reply (.error (.storage message))).halt message) :=
      hreply.congr rfl rfl
    exact ⟨nofun, ht.trans hend, fun hnil hrel => (hcause hnil hrel).imp_right (·.mono hend.trace)⟩
  have hidle : Kept { d with snapshotDone := rest, snapshotWorkerInFlight := false }
      { d with snapshotDone := rest, snapshotWorkerInFlight := false } := .refl _
  unfold Driver.handleSnapshotCompleted
  rw [hdone]
  dsimp only
  rcases hresult : c.result with e | u
  · exact .inr (hfail _ (hushed_same rfl rfl) (fun _ _ => .inl (hbad ▸ ⟨e, hresult⟩)))
  have hanchor := logWrite_after hidle
    (fun s => s.updateSnapshotAnchor c.throughTerm c.throughIndex)
    (.anchor c.throughTerm c.throughIndex) trivial
  dsimp only
  rcases hr : Driver.anchorLog { d with snapshotDone := rest, snapshotWorkerInFlight := false }
    c.throughTerm c.throughIndex with ⟨d₁, _ | e⟩ <;> rw [← Driver.anchorLog, hr] at hanchor <;>
    dsimp only
  swap
  · obtain ⟨hcause, hushed⟩ := hanchor.failure e rfl
    exact .inr (hfail _ ⟨hushed.trace, hushed.jobs⟩ (fun hnil _ => (hcause hnil).elim))
  have hkept := hanchor.success rfl
  have htrace₁ : Hushed d d₁ := ⟨hkept.trace, hkept.jobs⟩
  rcases feed_snapshotComplete d₁ c.metadata _ rfl
    with ⟨hfed, hnone⟩ | ⟨hhalt, htrace, hfaults, hsome⟩
  · rw [hnone]
    obtain ⟨w', hw', hin⟩ := replySnapshot_ok (d₁.feed (.snapshotComplete c.metadata) none).1 c
    have hafter := (Kept.completes hkept c.metadata).trans hfed
    obtain ⟨w, hw, -⟩ := hafter.trace
    have hw₁ : (d₁.feed (.snapshotComplete c.metadata) none).1.trace = d.trace ++ w := hw
    refine .inl ⟨hdone, hafter.trans (replySnapshot_kept _ c.reply _), w ++ w', ?_,
      fun request hreq => List.mem_append_right _ (hin request hreq)⟩
    rw [← List.append_assoc, ← hw₁]
    exact hw'
  · rcases herr : (d₁.feed (.snapshotComplete c.metadata) none).2.error with _ | e
    · exact absurd herr hsome
    · have hreply := replySnapshot_kept (d₁.feed (.snapshotComplete c.metadata) none).1 c.reply
        (.error e)
      refine .inr ⟨?_, htrace₁.trans (htrace.trans hreply.hushed), fun hnil _ => ?_⟩
      · rw [hreply.halt]
        exact hhalt
      · exact absurd (hkept.faults hnil) hfaults

/-- A trigger that reaches an idle leader captures the state machine or breaks. -/
theorem handleTriggerSnapshot_outcome {request : RequestId} (hrole : d.node.role = .leader)
    (hengine : d.node.snapshotInFlight = false) (hworker : d.snapshotWorkerInFlight = false) :
    Captured { d with node := { d.node with snapshotInFlight := true } } d.node.commitIndex
        (some request) (d.handleTriggerSnapshot request) ∨
      Failed d (d.logStore.termAt d.node.commitIndex = none) (d.handleTriggerSnapshot request) := by
  obtain ⟨hok, hfail⟩ := dispatchSnapshotWorker_outcome
    { d with node := { d.node with snapshotInFlight := true } } d.node.commitIndex (some request)
  unfold Driver.handleTriggerSnapshot
  rw [if_neg (by simp [hrole]), if_neg (by simp [hengine, hworker])]
  rcases hr :
    Driver.dispatchSnapshotWorker { d with node := { d.node with snapshotInFlight := true } }
      d.node.commitIndex (some request) with ⟨d₁, _ | e⟩ <;> rw [hr] at hok hfail
  · exact .inl (hok rfl)
  · obtain ⟨hcause, hkept⟩ := hfail e rfl
    refine .inr ⟨nofun, ⟨hkept.trace, hkept.jobs⟩, fun hnil hrel => .inl ?_⟩
    exact (hcause hnil hrel).resolve_left (by simp [hworker])

/-! ## Turns -/

def Registered (d : Driver σ) (event : DriverEvent) (registered : List (ℕ × RequestId))
    (d' : Driver σ) : Prop :=
  registered = [] ∨ ∃ request command, event = .client request command ∧ d.node.role = .leader ∧
    d'.node.lastLogIndex = d.node.lastLogIndex + 1 ∧
    registered = [(d.node.lastLogIndex + 1, request)]

inductive Passed (d : Driver σ) : DriverEvent → Driver σ → Prop
  | advanced {event : DriverEvent} {registered : List (ℕ × RequestId)} {entries : List Entry}
      {d' : Driver σ} (plain : installs d event = none)
      (registers : Registered d event registered d')
      (advance : Advanced d registered entries d') : Passed d event d'
  | cut {event : DriverEvent} {endOffset : ℕ} {d' : Driver σ} (plain : installs d event = none)
      (cut : Cut d endOffset d') : Passed d event d'
  | installed {event : DriverEvent} {snap : SnapshotMeta} {data : Bytes} {d' : Driver σ}
      (installing : installs d event = some (snap, data)) (installed : Installed d snap data d') :
      Passed d event d'
  | triggered {request : RequestId} {d' : Driver σ} (leader : d.node.role = .leader)
      (engine : d.node.snapshotInFlight = false)
      (captured : Captured { d with node := { d.node with snapshotInFlight := true } }
        d.node.commitIndex (some request) d') : Passed d (.triggerSnapshot request) d'
  | completed {c : SnapshotCompletion} {rest : List SnapshotCompletion} {d' : Driver σ}
      (completed : Completed d c rest d') : Passed d .snapshotCompleted d'

theorem Passed.kept {event : DriverEvent} (h : Passed d event d') (hk : Kept d' d'') :
    Passed d event d'' := by
  cases h with
  | advanced plain registers advance =>
    refine .advanced plain (registers.imp_right ?_) (advance.kept hk)
    rintro ⟨request, command, hevent, hl, htip, hreg⟩
    exact ⟨request, command, hevent, hl, (tip_of_core hk.node).trans htip, hreg⟩
  | cut plain cut =>
    obtain ⟨m, pending, hm, hp, hkept⟩ := cut.after
    exact .cut plain ⟨cut.keeps, m, pending, hm, hp, hkept.trans hk⟩
  | installed installing installed =>
    obtain ⟨store, sm, hstore, hsm, hkept⟩ := installed.after
    exact .installed installing ⟨installed.newer, store, sm, hstore, hsm, hkept.trans hk⟩
  | triggered leader engine captured =>
    obtain ⟨term, serializer, hterm, hview, hkept⟩ := captured.job
    exact .triggered leader engine ⟨captured.idle, term, serializer, hterm, hview, hkept.trans hk⟩
  | completed completed =>
    obtain ⟨w, hw, hin⟩ := completed.answer
    obtain ⟨w', hw', -⟩ := hk.trace
    exact .completed ⟨completed.done, completed.after.trans hk, w ++ w',
      by rw [hw', hw, List.append_assoc], fun r hr => List.mem_append_left _ (hin r hr)⟩

theorem handleClientPropose_tip {command : Bytes} {pre : Driver σ} {origin : Option NodeId}
    (hpre : pre.node = (n.handleClientPropose command).1) :
    (pre.processActions (n.handleClientPropose command).2 origin).1.node.lastLogIndex =
      (n.handleClientPropose command).1.lastLogIndex := by
  rw [← hpre]
  refine tip_of_core (runActions_core origin (fun a ha => ?_) pre {})
  unfold RaftNode.handleClientPropose at ha
  split_ifs at ha
  · cases ha
  · rcases List.mem_cons.mp ha with rfl | ha
    · exact id
    · have := advanceCommit_applies _ a ha
      cases a <;> first | exact this.elim | exact id

theorem batch_ran {event : DriverEvent} {r : RaftNode × List Action}
    {registered : List (ℕ × RequestId)} {origin : Option NodeId} (hout : Outline d.node r)
    (hreg : Registers d event r registered) (happlied : d.node.lastApplied = d.node.commitIndex)
    (hb : d.node.role = .leader → Bounded d.node)
    (hseq : Sequence Did { d with node := r.1, pending := d.pending ++ registered } r.2
      (Driver.processActions { d with node := r.1, pending := d.pending ++ registered } r.2
        origin).1) :
    (∃ entries, Advanced d registered entries (Driver.processActions
        { d with node := r.1, pending := d.pending ++ registered } r.2 origin).1 ∧
      Registered d event registered (Driver.processActions
        { d with node := r.1, pending := d.pending ++ registered } r.2 origin).1) ∨
    ∃ endOffset, Cut d endOffset (Driver.processActions
      { d with node := r.1, pending := d.pending ++ registered } r.2 origin).1 := by
  rcases outline_ran hout happlied hb hreg.leads hseq with ⟨entries, hadv⟩ | hcut
  · refine .inl ⟨entries, hadv, ?_⟩
    rcases hreg with ⟨hnil, -⟩ | ⟨request, command, hevent, hl, rfl, htip, hreg⟩
    · exact .inl hnil
    · exact .inr ⟨request, command, hevent, hl, (handleClientPropose_tip rfl).trans htip, hreg⟩
  · exact .inr hcut

theorem shape_passed {event : DriverEvent} (h : Shape d event d') (hhalt : d.haltReason = none)
    (happlied : d.node.lastApplied = d.node.commitIndex)
    (hb : d.node.role = .leader → Bounded d.node) (hrunning : d'.haltReason = none) :
    Passed d event d' := by
  cases h with
  | idle plain kept => exact .advanced plain (.inl rfl) (advanced_of_kept happlied kept)
  | @batch _ r registered origin _ plain _ outline registers kept =>
    refine Passed.kept ?_ kept
    rcases processActions_settles { d with node := r.1, pending := d.pending ++ registered }
      r.2 origin hhalt with ⟨hseq, -⟩ | ⟨_, _, _, _, _, _, hbroken⟩
    · rcases batch_ran outline registers happlied hb hseq with ⟨entries, hadv, hreg⟩ | ⟨_, hcut⟩
      · exact .advanced plain hreg hadv
      · exact .cut plain hcut
    · exact absurd (kept.halt.symm.trans hrunning) hbroken.halt
  | @install _ snap data _ installing kept =>
    refine Passed.kept ?_ kept
    rcases processActions_settles d [.installSnapshot snap data] none hhalt with
      ⟨hseq, -⟩ | ⟨_, _, _, _, _, _, hbroken⟩
    · cases hseq.single with
      | neutral ha _ => exact ha.elim
      | pipe did => cases did
      | covered old _ =>
        have hnew := installs_newer installing
        omega
      | install installed => exact .installed installing installed
    · exact absurd (kept.halt.symm.trans hrunning) hbroken.halt
  | trigger leader engine worker =>
    rcases handleTriggerSnapshot_outcome leader engine worker with hcap | hfail
    · exact .triggered leader engine hcap
    · exact absurd hrunning hfail.halt
  | complete done =>
    rcases handleSnapshotCompleted_outcome done with hcomp | hfail
    · exact .completed hcomp
    · exact absurd hrunning hfail.halt

/-- A driver that is still running after its turn was running before, and its reads are drained. -/
theorem turn_running {event : DriverEvent} (h : (d.turn event).haltReason = none) :
    d.haltReason = none ∧ (d.handleDriverEvent event).haltReason = none ∧
      Kept (d.handleDriverEvent event) (d.turn event) := by
  unfold Driver.turn at h ⊢
  by_cases hhalt : d.haltReason.isSome = true
  · rw [if_pos hhalt] at h
    rw [h] at hhalt
    cases hhalt
  · have hnone : d.haltReason = none := by simpa using hhalt
    rw [if_neg hhalt] at h ⊢
    dsimp only at h ⊢
    have hreads := drainPendingReads_kept (d.handleDriverEvent event)
    by_cases hstop : (d.handleDriverEvent event).drainPendingReads.haltReason.isSome = true
    · rw [if_pos hstop] at h
      have hset : (d.handleDriverEvent event).drainPendingReads.failStopShutdown.haltReason =
          (d.handleDriverEvent event).drainPendingReads.haltReason := rfl
      rw [← hset, h] at hstop
      cases hstop
    · rw [if_neg hstop] at h ⊢
      exact ⟨hnone, hreads.halt.symm.trans h, hreads⟩

theorem turn_passed {event : DriverEvent} (hfit : Fit d event)
    (happlied : d.node.lastApplied = d.node.commitIndex)
    (hb : d.node.role = .leader → Bounded d.node) (hrunning : (d.turn event).haltReason = none) :
    Passed d event (d.turn event) := by
  obtain ⟨hhalt, hhandled, hkept⟩ := turn_running hrunning
  exact (shape_passed (handleDriverEvent_shape hfit hb) hhalt happlied hb hhandled).kept hkept

end RunningTurns
