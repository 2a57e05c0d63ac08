import Xraft.ProposalWaiters

/-! # Snapshot fidelity

The state machine is the state it was last restored to, followed by the entries applied since. What
a local worker saves is the state as it was when the snapshot's index was the last applied one,
however late the save.
-/
namespace SnapshotFidelity

open ProtocolTypes ConsensusEngine DurableStores NodeDriver ServerRecovery GuardedExecution
open ApplyPipeline PositionedLog BatchFootprints ActionOutcomes BatchOutcomes EngineOutlines
open DurableBeforeVisible LeaderAppendOnly TurnOutcomes RunningTurns OrderlyDriver ProposalWaiters

variable {σ : Type} {d d' : Driver σ}

/-! ## Lineages -/

structure Lineage (σ : Type) where
  base : σ
  index : ℕ
  term : ℕ
  applied : List Entry

def Lineage.tip (l : Lineage σ) : ℕ := l.index + l.applied.length

def Lineage.lastTerm (l : Lineage σ) : ℕ := (l.applied.getLast?.map Entry.term).getD l.term

def Lineage.extend (l : Lineage σ) (entries : List Entry) : Lineage σ :=
  { l with applied := l.applied ++ entries }

theorem Lineage.extend_nil (l : Lineage σ) : l.extend [] = l := by
  rw [Lineage.extend, List.append_nil]

theorem Lineage.lastTerm_extend (l : Lineage σ) {entries : List Entry} {e : Entry}
    (h : entries.getLast? = some e) : (l.extend entries).lastTerm = e.term := by
  simp [Lineage.lastTerm, Lineage.extend, List.getLast?_append, h]

structure Moment (σ : Type) where
  driver : Driver σ
  lineage : Lineage σ

/-- Entries in the log at the last applied index have the term that was applied there. -/
def Agrees (m : Moment σ) : Prop :=
  ∀ e ∈ m.driver.logStore.entries, e.index = m.driver.node.lastApplied → e.term = m.lineage.lastTerm

def appliedSince (d d' : Driver σ) : List Entry := applications (d'.trace.drop d.trace.length)

theorem appliedSince_eq {w : List Effect} (h : d'.trace = d.trace ++ w) :
    appliedSince d d' = applications w := by
  rw [appliedSince, h, List.drop_left]

theorem appliedSince_kept {x : Driver σ} (h : Kept x d') (hx : x.trace = d.trace) :
    appliedSince d d' = [] := by
  obtain ⟨w, hw, hmute⟩ := h.trace
  rw [hx] at hw
  rw [appliedSince_eq hw, applications_mute hmute]

theorem lastTerm_range {l : Lineage σ} {base tip first last : ℕ} {s : MemoryLogStore}
    (hlog : Spans base tip s.entries) (hnew : Spans first last (inRange s (first + 1) last))
    (hstill : first = last → ∀ e ∈ s.entries, e.index = last → e.term = l.lastTerm) :
    ∀ e ∈ s.entries, e.index = last →
      e.term = (l.extend (inRange s (first + 1) last)).lastTerm := by
  intro e he hi
  have hlen := hnew.length
  by_cases hlt : first < last
  · obtain ⟨x, hx, hlast, hindex⟩ := hnew.getLast hlt
    rw [Lineage.lastTerm_extend l hlast,
      hlog.positioned.unique he (mem_inRange.mp hx).1 (hi.trans hindex.symm)]
  · have hnil : inRange s (first + 1) last = [] := List.eq_nil_of_length_eq_zero (by omega)
    rw [hnil, Lineage.extend_nil]
    exact hstill (by omega) e he hi

section Machine

variable [StateMachine σ]

/-- The restored state followed by the entries at the indices after it up to `index`, each once and
in order, is `sm`. -/
structure Reaches (l : Lineage σ) (index : ℕ) (sm : σ) : Prop where
  positioned : Positioned l.index l.applied
  tip : l.tip = index
  state : advanceAll l.base l.applied = .ok sm

structure Live (m : Moment σ) : Prop where
  running : m.driver.haltReason = none
  applied : m.driver.node.lastApplied = m.driver.node.commitIndex
  reaches : Reaches m.lineage m.driver.node.lastApplied m.driver.stateMachine

/-- The job serializes the state machine of this moment under its last applied index and term. -/
structure Pictures (m : Moment σ) (job : SnapshotJob) : Prop where
  index : m.driver.node.lastApplied = job.throughIndex
  term : m.lineage.lastTerm = job.throughTerm
  view : StateMachine.beginSnapshot m.driver.stateMachine = .ok job.serializer

/-- The lineage behind a turn: an installed snapshot starts a new one. -/
def Lineage.after (l : Lineage σ) (d : Driver σ) (event : DriverEvent) (d' : Driver σ) :
    Lineage σ :=
  match installs d event with
  | none => l.extend (appliedSince d d')
  | some (snap, data) =>
    match StateMachine.restore d.stateMachine data with
    | .ok sm => ⟨sm, snap.lastIncludedIndex, snap.lastIncludedTerm, []⟩
    | .error _ => l

def Moment.next (m : Moment σ) : LifeEvent → Moment σ
  | .turn event => ⟨m.driver.turn event, m.lineage.after m.driver event (m.driver.turn event)⟩
  | .snapshotWorker => ⟨m.driver.runSnapshotWorker, m.lineage⟩

structure Chronicle (σ : Type) where
  now : Moment σ
  past : List (Moment σ)

def Chronicle.next (c : Chronicle σ) (e : LifeEvent) : Chronicle σ :=
  ⟨c.now.next e, c.past ++ [c.now]⟩

def firstLineage (initial : σ) (store : Durable) (d : Driver σ) : Lineage σ :=
  let applied := applications (d.trace.drop store.trace.length)
  match store.snapshotStore.loadLatestSnapshot with
  | none => ⟨initial, 0, 0, applied⟩
  | some (latest, data) =>
    match StateMachine.restore initial data with
    | .ok sm => ⟨sm, latest.lastIncludedIndex, latest.lastIncludedTerm, applied⟩
    | .error _ => ⟨initial, 0, 0, applied⟩

/-! ## Halting turns -/

theorem did_worker {a : Action} (h : Did d a d') (ha : ¬Captures a) : SameWorker d d' := by
  cases h with
  | neutral _ kept => exact ⟨kept.jobs, kept.inFlight⟩
  | stepDown kept => exact ⟨kept.jobs, kept.inFlight⟩
  | append _ kept => exact ⟨kept.jobs, kept.inFlight⟩
  | cut kept => exact ⟨kept.jobs, kept.inFlight⟩
  | purge kept => exact ⟨kept.jobs, kept.inFlight⟩
  | pipe did => exact PipeDid.worker did ha
  | covered _ kept => exact ⟨kept.jobs, kept.inFlight⟩
  | install installed =>
    obtain ⟨_, _, _, _, kept⟩ := installed.after
    exact ⟨kept.jobs, kept.inFlight⟩
  | answered kept => exact ⟨kept.jobs, kept.inFlight⟩
  | acked _ _ _ => exact absurd trivial ha

theorem broken_jobs {actions : List Action} {origin : Option NodeId} (hlate : Late actions)
    (hhalt : d.haltReason = none) (hstop : (d.processActions actions origin).1.haltReason ≠ none) :
    (d.processActions actions origin).1.snapshotJobs = d.snapshotJobs := by
  rcases processActions_settles d actions origin hhalt
    with ⟨-, hnone⟩ | ⟨_, _, _, _, heq, hseq, hbad⟩
  · exact absurd hnone hstop
  · have hsame := sequence_worker did_worker hseq (captures_last hlate heq)
    exact hbad.jobs.trans hsame.1

end Machine

theorem late_plain {actions : List Action} (h : ∀ a ∈ actions, ¬Captures a) : Late actions := by
  have hlate := late_append h List.Pairwise.nil
  rwa [List.append_nil] at hlate

theorem prelude_plain {a : Action} (h : Prelude a) : ¬Captures a := by
  rcases h with h | rfl
  · cases a <;> first | exact h.elim | exact id
  · exact id

theorem stretch_plain {n k : RaftNode} {opening : List Action} {entries : List Entry}
    (h : Stretch n opening entries k) : ∀ a ∈ opening ++ appends entries, ¬Captures a := by
  intro a ha
  rcases List.mem_append.mp ha with ha | ha
  · exact prelude_plain (h.opens a ha)
  · unfold appends at ha
    split_ifs at ha
    · cases ha
    · rw [List.mem_singleton.mp ha]
      exact id

theorem outline_late {n : RaftNode} {r : RaftNode × List Action} (h : Outline n r) : Late r.2 := by
  cases h with
  | grow stretch => exact late_plain (stretch_plain stretch)
  | drain stretch _ _ _ => exact late_append (stretch_plain stretch) (drainApplyPipeline_late _)
  | cut stretch _ _ neutral =>
    refine late_plain (fun a ha => ?_)
    rcases List.mem_append.mp ha with ha | ha
    · exact prelude_plain (stretch.opens a ha)
    · rcases List.mem_cons.mp ha with rfl | ha
      · exact id
      · exact prelude_plain (.inl (neutral a ha))
  | serve req _ => exact List.pairwise_singleton _ _

section Turns

variable [StateMachine σ]

theorem shape_jobs {event : DriverEvent} (h : Shape d event d') (hhalt : d.haltReason = none)
    (hstop : d'.haltReason ≠ none) : d'.snapshotJobs = d.snapshotJobs := by
  cases h with
  | idle _ kept => exact kept.jobs
  | @batch _ r registered origin _ _ _ outline _ kept =>
    rw [kept.halt] at hstop
    exact kept.jobs.trans (broken_jobs (outline_late outline) hhalt hstop)
  | install _ kept =>
    rw [kept.halt] at hstop
    exact kept.jobs.trans (broken_jobs (List.pairwise_singleton _ _) hhalt hstop)
  | trigger leader engine worker =>
    rcases handleTriggerSnapshot_outcome leader engine worker with hcap | hfail
    · obtain ⟨_, _, _, _, kept⟩ := hcap.job
      exact absurd (kept.halt.trans hhalt) hstop
    · exact hfail.hushed.jobs
  | complete done =>
    rcases handleSnapshotCompleted_outcome done with hcomp | hfail
    · exact absurd (hcomp.after.halt.trans hhalt) hstop
    · exact hfail.hushed.jobs

/-- A turn stops the driver only in its handler; the shutdown leaves the queue of snapshots
alone. -/
theorem turn_stopped {event : DriverEvent} (hhalt : d.haltReason = none)
    (hstop : (d.turn event).haltReason ≠ none) : (d.handleDriverEvent event).haltReason ≠ none ∧
      (d.turn event).snapshotJobs = (d.handleDriverEvent event).snapshotJobs := by
  have hreads := drainPendingReads_kept (d.handleDriverEvent event)
  unfold Driver.turn at hstop ⊢
  rw [if_neg (by simp [hhalt])] at hstop ⊢
  dsimp only at hstop ⊢
  split_ifs at hstop ⊢ with hset
  · have hstopped := Option.isSome_iff_ne_none.mp hset
    rw [hreads.halt] at hstopped
    exact ⟨hstopped, hreads.jobs⟩
  · exact absurd (by simpa using hset) hstop

theorem turn_jobs {event : DriverEvent} (hfit : Fit d event)
    (hb : d.node.role = .leader → Bounded d.node) (hstop : (d.turn event).haltReason ≠ none) :
    (d.turn event).snapshotJobs = d.snapshotJobs := by
  by_cases hhalt : d.haltReason = none
  · obtain ⟨hstopped, hjobs⟩ := turn_stopped hhalt hstop
    exact hjobs.trans (shape_jobs (handleDriverEvent_shape hfit hb) hhalt hstopped)
  · rw [turn_halted d event hhalt]

/-! ## Running turns -/

theorem mem_of_termAt {s : MemoryLogStore} {i t : ℕ} (h : s.termAt i = some t) :
    ∃ e ∈ s.entries, e.index = i ∧ e.term = t := by
  obtain ⟨e, hfind, hterm⟩ := Option.map_eq_some_iff.mp h
  exact ⟨e, List.mem_of_find?_eq_some hfind, by simpa using List.find?_some hfind, hterm⟩

theorem Reaches.extend {l : Lineage σ} {first last : ℕ} {sm sm' : σ} {entries : List Entry}
    (h : Reaches l first sm) (hspans : Spans first last entries)
    (hstate : advanceAll sm entries = .ok sm') : Reaches (l.extend entries) last sm' := by
  have htip : l.index + l.applied.length = first := h.tip
  refine ⟨?_, ?_, ?_⟩
  · have hpositioned := hspans.positioned
    rw [← htip] at hpositioned
    exact positioned_append h.positioned hpositioned
  · show l.index + (l.applied ++ entries).length = last
    rw [List.length_append, ← hspans.length]
    omega
  · show advanceAll l.base (l.applied ++ entries) = _
    rw [advanceAll_append h.state]
    exact hstate

theorem advanced_moment {l : Lineage σ} {registered : List (ℕ × RequestId)} {entries : List Entry}
    (ho : Orderly d) (hl : Live ⟨d, l⟩) (hagrees : Agrees ⟨d, l⟩)
    (ha : Advanced d registered entries d') (hrunning : d'.haltReason = none) :
    Live ⟨d', l.extend (newly d d')⟩ ∧ Agrees ⟨d', l.extend (newly d d')⟩ := by
  have ho' := ho.advanced ha
  obtain ⟨base, hbase, hspans⟩ := ho'.log
  rw [ha.snapshotMeta] at hbase
  have hcovered := ho.covered
  have hbefore := ho.applied
  have hafter := ha.lastApplied
  have hgrew : d.node.commitIndex ≤ d'.node.commitIndex := by
    rcases ha.commit with heq | ⟨hlt, -⟩ <;> omega
  have hnew : Spans d.node.lastApplied d'.node.commitIndex (newly d d') :=
    hspans.range (by omega) (by omega) ho'.within
  have hreaches := Reaches.extend hl.reaches hnew ha.state
  rw [← hafter] at hreaches
  refine ⟨⟨hrunning, hafter, hreaches⟩, fun e he hi => ?_⟩
  refine lastTerm_range hspans hnew (fun hstill x hx hi => ?_) e he (hi.trans hafter)
  -- what was appended stands above the last applied index
  rw [ha.logStore, extend_entries, List.mem_append] at hx
  rcases hx with hx | hx
  · exact hagrees x hx (hi.trans hstill.symm)
  · have habove := (ha.extend.positioned.index_of_mem hx).1
    have := ho.within
    omega

theorem pictures_of_termAt {l : Lineage σ} {job : SnapshotJob} (hl : Live ⟨d', l⟩)
    (hagrees : Agrees ⟨d', l⟩) (hindex : job.throughIndex = d'.node.commitIndex)
    (hterm : d'.logStore.termAt d'.node.commitIndex = some job.throughTerm)
    (hview : StateMachine.beginSnapshot d'.stateMachine = .ok job.serializer) :
    Pictures ⟨d', l⟩ job := by
  obtain ⟨e, he, hi, ht⟩ := mem_of_termAt hterm
  exact ⟨hl.applied.trans hindex.symm, (hagrees e he (hi.trans hl.applied.symm)).symm.trans ht,
    hview⟩

theorem queued_pictures {l : Lineage σ} {wants : Bool} (h : Queued d d'.node.commitIndex wants d')
    (hl : Live ⟨d', l⟩) (hagrees : Agrees ⟨d', l⟩) :
    ∀ job ∈ d'.snapshotJobs, job ∈ d.snapshotJobs ∨ Pictures ⟨d', l⟩ job := by
  intro job hjob
  rcases h with ⟨-, -, hjobs⟩ | ⟨-, -, -, term, voterSet, serializer, hterm, hview, hjobs⟩
  · rw [hjobs] at hjob
    exact .inl hjob
  · rw [hjobs, List.mem_append, List.mem_singleton] at hjob
    refine hjob.imp_right ?_
    rintro rfl
    exact pictures_of_termAt hl hagrees rfl hterm hview

theorem live_still {m : Moment σ} {event : DriverEvent} (hl : Live m) (hagrees : Agrees m)
    (hplain : installs m.driver event = none) (hsince : appliedSince m.driver d' = [])
    (hrunning : d'.haltReason = none) (hlast : d'.node.lastApplied = m.driver.node.lastApplied)
    (hcommit : d'.node.commitIndex = m.driver.node.commitIndex)
    (hstate : d'.stateMachine = m.driver.stateMachine)
    (hlog : ∀ e ∈ d'.logStore.entries, e ∈ m.driver.logStore.entries) :
    Live ⟨d', m.lineage.after m.driver event d'⟩ ∧
    Agrees ⟨d', m.lineage.after m.driver event d'⟩ := by
  have hsame : m.lineage.after m.driver event d' = m.lineage := by
    rw [Lineage.after, hplain]
    dsimp only
    rw [hsince, Lineage.extend_nil]
  have hreaches := hl.reaches
  rw [← hlast, ← hstate] at hreaches
  rw [hsame]
  exact ⟨⟨hrunning, hlast.trans (hl.applied.trans hcommit.symm), hreaches⟩,
    fun e he hi => hagrees e (hlog e he) (hi.trans hlast)⟩

theorem installed_moment {m : Moment σ} {event : DriverEvent} {snap : SnapshotMeta} {data : Bytes}
    (ho : Orderly m.driver) (hinstalls : installs m.driver event = some (snap, data))
    (hi : Installed m.driver snap data d') (hrunning : d'.haltReason = none) :
    Live ⟨d', m.lineage.after m.driver event d'⟩ ∧
    Agrees ⟨d', m.lineage.after m.driver event d'⟩ := by
  obtain ⟨store, sm, -, hsm, hkept⟩ := hi.after
  have hmarks := marks_of_core hkept.node
  have hnew := hi.newer
  have happlied := ho.applied
  have hcovered := ho.covered
  have hcommitted : m.driver.node.commitIndex ≤ snap.lastIncludedIndex := by omega
  have hlast : d'.node.lastApplied = snap.lastIncludedIndex :=
    hmarks.lastApplied.trans (Nat.max_eq_right hnew.le)
  have hlineage : m.lineage.after m.driver event d' =
      ⟨sm, snap.lastIncludedIndex, snap.lastIncludedTerm, []⟩ := by
    rw [Lineage.after, hinstalls]
    dsimp only
    rw [hsm]
  rw [hlineage]
  refine ⟨⟨hrunning, ?_, ⟨positioned_nil _, hlast.symm, ?_⟩⟩, fun e he hindex => ?_⟩
  · exact hlast.trans (hmarks.commitIndex.trans (Nat.max_eq_right hcommitted)).symm
  · exact congrArg Except.ok hkept.stateMachine.symm
  · -- behind the snapshot the log holds later indices only
    obtain ⟨base, hbase, hspans⟩ := ho.log
    obtain ⟨_, -, hbehind⟩ := behindSnapshot_spans hspans snap (by omega)
    have hlog : d'.logStore = behindSnapshot m.driver.logStore snap := hkept.logStore
    have hin : e ∈ d'.logStore.entries := he
    rw [hlog] at hin
    have habove := (hbehind.positioned.index_of_mem hin).1
    have hindex : e.index = d'.node.lastApplied := hindex
    omega

/-- One turn that leaves the driver running: the state machine keeps its lineage, and a snapshot
that was queued pictures the moment behind the turn. -/
theorem passed_moment {m : Moment σ} {event : DriverEvent} (ho : Orderly m.driver) (hl : Live m)
    (hagrees : Agrees m) (hp : Passed m.driver event d') (hrunning : d'.haltReason = none) :
    Live ⟨d', m.lineage.after m.driver event d'⟩ ∧ Agrees ⟨d', m.lineage.after m.driver event d'⟩ ∧
      ∀ job ∈ d'.snapshotJobs, job ∈ m.driver.snapshotJobs ∨
        Pictures ⟨d', m.lineage.after m.driver event d'⟩ job := by
  cases hp with
  | advanced plain _ advance =>
    obtain ⟨w, hw, happ⟩ := advance.trace
    have hlineage : m.lineage.after m.driver event d' = m.lineage.extend (newly m.driver d') := by
      rw [Lineage.after, plain]
      dsimp only
      rw [appliedSince_eq hw, happ]
    obtain ⟨hlive, hagrees'⟩ := advanced_moment ho hl hagrees advance hrunning
    obtain ⟨wants, hqueued, -⟩ := advance.queued
    rw [hlineage]
    exact ⟨hlive, hagrees', queued_pictures hqueued hlive hagrees'⟩
  | cut plain cut =>
    obtain ⟨n, pending, hn, -, hkept⟩ := cut.after
    have hmarks := marks_of_core hkept.node
    obtain ⟨hlive, hagrees'⟩ := live_still hl hagrees plain (appliedSince_kept hkept rfl) hrunning
      (hmarks.lastApplied.trans hn.lastApplied) (hmarks.commitIndex.trans hn.commitIndex)
      hkept.stateMachine (fun e he => by
        rw [hkept.logStore] at he
        exact List.mem_of_mem_filter he)
    refine ⟨hlive, hagrees', fun job hjob => .inl ?_⟩
    rw [hkept.jobs] at hjob
    exact hjob
  | installed installing installed =>
    obtain ⟨hlive, hagrees'⟩ := installed_moment ho installing installed hrunning
    obtain ⟨store, sm, -, -, hkept⟩ := installed.after
    refine ⟨hlive, hagrees', fun job hjob => .inl ?_⟩
    rw [hkept.jobs] at hjob
    exact hjob
  | @triggered request _ leader engine captured =>
    obtain ⟨term, serializer, hterm, hview, hkept⟩ := captured.job
    have hmarks := marks_of_core hkept.node
    have hlog : d'.logStore = m.driver.logStore := hkept.logStore
    have hstate : d'.stateMachine = m.driver.stateMachine := hkept.stateMachine
    have hcommit : d'.node.commitIndex = m.driver.node.commitIndex := hmarks.commitIndex
    have hplain : installs m.driver (.triggerSnapshot request) = none := rfl
    obtain ⟨hlive, hagrees'⟩ := live_still hl hagrees hplain (appliedSince_kept hkept rfl) hrunning
      hmarks.lastApplied hcommit hstate (fun e he => hlog ▸ he)
    refine ⟨hlive, hagrees', fun job hjob => ?_⟩
    rw [hkept.jobs, List.mem_append, List.mem_singleton] at hjob
    refine hjob.imp_right ?_
    rintro rfl
    refine pictures_of_termAt hlive hagrees' hcommit.symm ?_ ?_
    · rw [hlog, hcommit]
      exact hterm
    · rw [hstate]
      exact hview
  | @completed c rest _ completed =>
    have hkept := completed.after
    have hmarks := marks_of_core hkept.node
    have hsame : ∀ n, n = (m.driver.node.handleSnapshotComplete c.metadata).1 →
        n.lastApplied = m.driver.node.lastApplied ∧ n.commitIndex = m.driver.node.commitIndex := by
      rintro n rfl
      unfold RaftNode.handleSnapshotComplete
      split_ifs <;> exact ⟨rfl, rfl⟩
    obtain ⟨hlast, hcommit⟩ := hsame _ rfl
    have hplain : installs m.driver .snapshotCompleted = none := rfl
    obtain ⟨hlive, hagrees'⟩ := live_still hl hagrees hplain (appliedSince_kept hkept rfl) hrunning
      (hmarks.lastApplied.trans hlast) (hmarks.commitIndex.trans hcommit) hkept.stateMachine
      (fun e he => by
        rw [hkept.logStore] at he
        exact mem_compacted he)
    refine ⟨hlive, hagrees', fun job hjob => .inl ?_⟩
    rw [hkept.jobs] at hjob
    exact hjob

/-! ## The start -/

def Anchored (store : Durable) : Prop :=
  ∀ e ∈ store.logStore.entries, ∀ p ∈ store.snapshotStore.loadLatestSnapshot,
    e.index = p.1.lastIncludedIndex → e.term = p.1.lastIncludedTerm

def restoredLineage (sm : σ) (snap : Option SnapshotMeta) : Lineage σ :=
  ⟨sm, snapIndex snap, (snap.map SnapshotMeta.lastIncludedTerm).getD 0, []⟩

theorem firstLineage_eq {initial sm : σ} {store : Durable} {snap : Option SnapshotMeta}
    (h : Restores store initial sm snap) {w : List Effect} (hw : d.trace = store.trace ++ w) :
    firstLineage initial store d = (restoredLineage sm snap).extend (applications w) := by
  unfold firstLineage
  rw [hw, List.drop_left]
  rcases h with ⟨hnone, rfl, rfl⟩ | ⟨latest, data, hsome, hsm, rfl⟩
  · rw [hnone]
    rfl
  · rw [hsome]
    dsimp only
    rw [hsm]
    rfl

theorem start_moment (config : ClusterConfig) (voterSet : Option VoterSet) (rng : List ℕ)
    (maxFetchBatch : ℕ) (initial : σ) (faults : List (Option Fault)) (store : Durable)
    (hstore : Recoverable store) (hanchored : Anchored store)
    (hd : d = start config voterSet rng maxFetchBatch initial faults store)
    (h : d.haltReason = none) : Live ⟨d, firstLineage initial store d⟩ ∧
      Agrees ⟨d, firstLineage initial store d⟩ ∧
      ∀ job ∈ d.snapshotJobs, Pictures ⟨d, firstLineage initial store d⟩ job := by
  subst hd
  have ho := start_orderly config voterSet rng maxFetchBatch initial faults store hstore h
  obtain ⟨sm, snap, hrestores, hpumps⟩ := start_running config voterSet rng maxFetchBatch initial
    faults store h
  obtain ⟨base, hbase, hspans⟩ := recoverable_spans hstore
  obtain ⟨-, -, -, hlast⟩ := hstore
  rw [hrestores.snap_eq] at hbase hlast
  obtain ⟨happlied, -, -, -, hcovered, hwithin⟩ := recoverNode_marks config voterSet rng
    store.hsStore store.logStore snap hlast _ rfl
  have hp := hpumps _ rfl (happlied.le.trans hcovered)
  rw [happlied] at hp
  have hcommit : (start config voterSet rng maxFetchBatch initial faults store).node.commitIndex =
      (recoverNode config voterSet rng store.hsStore store.logStore snap).commitIndex := by
    have hmarks := marks_of_core hp.node
    rw [hmarks.commitIndex]
    dsimp only
    rw [(drainApplyPipeline_eq (happlied.le.trans hcovered)).1]
  generalize (recoverNode config voterSet rng store.hsStore store.logStore snap).commitIndex =
    through
    at hp hcommit hcovered hwithin
  have hnew := hspans.range hbase hcovered hwithin
  obtain ⟨w, hw, happ⟩ := hp.trace
  have hlog : (start config voterSet rng maxFetchBatch initial faults store).logStore =
    store.logStore := hp.logStore
  rw [firstLineage_eq hrestores hw, happ]
  have hroot : Reaches (restoredLineage sm snap) (snapIndex snap) sm :=
    ⟨positioned_nil _, rfl, rfl⟩
  have hreaches := Reaches.extend hroot hnew hp.state
  have hlive : Live ⟨start config voterSet rng maxFetchBatch initial faults store,
      (restoredLineage sm snap).extend (inRange store.logStore (snapIndex snap + 1) through)⟩ := by
    refine ⟨h, ho.applied, ?_⟩
    rw [ho.applied, hcommit]
    exact hreaches
  have hagrees : Agrees ⟨start config voterSet rng maxFetchBatch initial faults store,
      (restoredLineage sm snap).extend (inRange store.logStore (snapIndex snap + 1) through)⟩ := by
    intro e he hi
    rw [hlog] at he
    refine lastTerm_range hspans hnew (fun hstill x hx hindex => ?_) e he
      (hi.trans (ho.applied.trans hcommit))
    rcases hrestores with ⟨-, -, rfl⟩ | ⟨latest, data, hsome, -, rfl⟩
    · have hzero : through = 0 := hstill.symm
      have := (hspans.positioned.index_of_mem hx).1
      omega
    · exact hanchored x hx (latest, data) hsome (hindex.trans hstill.symm)
  refine ⟨hlive, hagrees, fun job hjob => ?_⟩
  have hqueued := hp.queued
  rw [← hcommit] at hqueued
  exact (queued_pictures hqueued hlive hagrees job hjob).resolve_left List.not_mem_nil

theorem start_jobs (config : ClusterConfig) (voterSet : Option VoterSet) (rng : List ℕ)
    (maxFetchBatch : ℕ) (initial : σ) (faults : List (Option Fault)) (store : Durable)
    (hstop : (start config voterSet rng maxFetchBatch initial faults store).haltReason ≠ none) :
    (start config voterSet rng maxFetchBatch initial faults store).snapshotJobs = [] := by
  have hdrain : ∀ x : Driver σ, x.haltReason = none → (recoveryDrain x).haltReason ≠ none →
      (recoveryDrain x).snapshotJobs = x.snapshotJobs := by
    intro x hx hstop
    unfold recoveryDrain at hstop ⊢
    dsimp only at hstop ⊢
    split_ifs at hstop ⊢ with hset
    · exact broken_jobs (d := { x with node := x.node.drainApplyPipeline.1 })
        (drainApplyPipeline_late _) hx (Option.isSome_iff_ne_none.mp hset)
    · exact absurd (by simpa using hset) hstop
  revert hstop
  unfold start
  rcases store.snapshotStore.loadLatestSnapshot with _ | ⟨latest, data⟩
  · exact hdrain _ rfl
  · dsimp only
    rcases StateMachine.restore initial data with e | sm
    · exact fun _ => rfl
    · exact hdrain _ rfl

/-! ## Chronicles -/

structure ChronicleInvariant (c : Chronicle σ) : Prop where
  managed : Managed c.now.driver
  live : c.now.driver.haltReason = none → Live c.now ∧ Agrees c.now
  jobs : ∀ job ∈ c.now.driver.snapshotJobs, ∃ m ∈ c.past ++ [c.now], Live m ∧ Pictures m job

theorem next_turn {c : Chronicle σ} {event : DriverEvent} (h : ChronicleInvariant c)
    (hfit : Fit c.now.driver event) : ChronicleInvariant (c.next (.turn event)) := by
  have hold : ∀ job ∈ c.now.driver.snapshotJobs,
      ∃ m ∈ (c.next (.turn event)).past ++ [(c.next (.turn event)).now], Live m ∧
      Pictures m job := by
    intro job hjob
    obtain ⟨m, hm, hpic⟩ := h.jobs job hjob
    exact ⟨m, List.mem_append_left _ hm, hpic⟩
  have hmanaged : Managed (c.now.driver.turn event) :=
    live_managed (e := .turn event) h.managed hfit
  by_cases hrunning : (c.now.driver.turn event).haltReason = none
  · have hhalt := (turn_running hrunning).1
    obtain ⟨hlive, hagrees⟩ := h.live hhalt
    obtain ⟨hlive', hagrees', hjobs⟩ := passed_moment (h.managed.orderly hhalt) hlive hagrees
      (h.managed.passed hfit hrunning) hrunning
    refine ⟨hmanaged, fun _ => ⟨hlive', hagrees'⟩, fun job hjob => ?_⟩
    rcases hjobs job hjob with hin | hpic
    · exact hold job hin
    · exact ⟨_, List.mem_append_right _ (List.mem_singleton_self _), hlive', hpic⟩
  · refine ⟨hmanaged, fun hrun => absurd hrun hrunning, fun job hjob => hold job ?_⟩
    have hjob : job ∈ (c.now.driver.turn event).snapshotJobs := hjob
    rwa [turn_jobs hfit h.managed.bounded hrunning] at hjob

theorem next_worker {c : Chronicle σ} (h : ChronicleInvariant c) :
    ChronicleInvariant (c.next .snapshotWorker) := by
  have hmanaged : Managed c.now.driver.runSnapshotWorker :=
    live_managed (e := .snapshotWorker) h.managed trivial
  have hjobs : ∀ job ∈ c.now.driver.runSnapshotWorker.snapshotJobs,
      job ∈ c.now.driver.snapshotJobs := by
    intro job hjob
    rcases runSnapshotWorker_outcome c.now.driver with ⟨-, hidle⟩ | ⟨j, rest, done, hworked⟩
    · rwa [hidle] at hjob
    · obtain ⟨_, _, _, _, -, -, -, heq⟩ := hworked.driver
      rw [heq] at hjob
      rw [hworked.jobs]
      exact List.mem_cons_of_mem _ hjob
  refine ⟨hmanaged, fun hrunning => ?_, fun job hjob => ?_⟩
  · obtain ⟨_, _, _, _, _, -, heq⟩ := DriverTurns.runSnapshotWorker_inert c.now.driver
    have hrunning : c.now.driver.runSnapshotWorker.haltReason = none := hrunning
    show Live ⟨c.now.driver.runSnapshotWorker, c.now.lineage⟩ ∧
      Agrees ⟨c.now.driver.runSnapshotWorker, c.now.lineage⟩
    rw [heq] at hrunning ⊢
    obtain ⟨hlive, hagrees⟩ := h.live hrunning
    exact ⟨⟨hrunning, hlive.applied, hlive.reaches⟩, hagrees⟩
  · obtain ⟨m, hm, hpic⟩ := h.jobs job (hjobs job hjob)
    exact ⟨m, List.mem_append_left _ hm, hpic⟩

def RestoresViews (σ : Type) [StateMachine σ] : Prop :=
  ∀ (s s₀ : σ) (data : Bytes), StateMachine.beginSnapshot s = .ok (.ok data) →
    StateMachine.restore s₀ data = .ok s

/-- The driver is at a quiescent point while it runs. Whenever its worker writes a snapshot, there
was such a point at which the snapshot's index was applied last, the entry applied there had the
snapshot's term, and restoring the snapshot gives the state machine of that point. -/
structure Faithful (c : Chronicle σ) : Prop where
  live : c.now.driver.haltReason = none → Live c.now
  saves : c.now.driver.runSnapshotWorker.snapshotStore = c.now.driver.snapshotStore ∨
    ∃ metadata data, c.now.driver.snapshotStore.saveSnapshot metadata data =
        .ok c.now.driver.runSnapshotWorker.snapshotStore ∧
      ∃ m ∈ c.past ++ [c.now], Live m ∧ m.driver.node.lastApplied = metadata.lastIncludedIndex ∧
        m.lineage.lastTerm = metadata.lastIncludedTerm ∧
        ∀ s₀, StateMachine.restore s₀ data = .ok m.driver.stateMachine

def opening (initial : σ) (store : Durable) (d : Driver σ) : Chronicle σ :=
  ⟨⟨d, firstLineage initial store d⟩, []⟩

theorem snapshots_are_faithful (hviews : RestoresViews σ) (config : ClusterConfig)
    (voterSet : Option VoterSet) (rng : List ℕ) (maxFetchBatch : ℕ) (initial : σ)
    (faults : List (Option Fault)) (store : Durable) (hstore : Recoverable store)
    (hanchored : Anchored store) {c : Chronicle σ}
    (hrun : Execution Chronicle.next (fun c e => FitLife c.now.driver e)
      (opening initial store (start config voterSet rng maxFetchBatch initial faults store)) c) :
    Faithful c := by
  have hstart : ChronicleInvariant
      (opening initial store (start config voterSet rng maxFetchBatch initial faults store)) := by
    have hmanaged := start_managed config voterSet rng maxFetchBatch initial faults store hstore
    by_cases hhalt : (start config voterSet rng maxFetchBatch initial faults store).haltReason =
      none
    · obtain ⟨hlive, hagrees, hjobs⟩ :=
        start_moment config voterSet rng maxFetchBatch initial faults store hstore hanchored
          rfl hhalt
      exact ⟨hmanaged, fun _ => ⟨hlive, hagrees⟩, fun job hjob =>
        ⟨_, List.mem_singleton_self _, hlive, hjobs job hjob⟩⟩
    · refine ⟨hmanaged, fun h => absurd h hhalt, fun job hjob => ?_⟩
      have hnil := start_jobs config voterSet rng maxFetchBatch initial faults store hhalt
      exact absurd (hnil ▸ hjob) List.not_mem_nil
  have hinv : ChronicleInvariant c := by
    refine hrun.invariant (fun x e h hok => ?_) hstart
    cases e with
    | turn event => exact next_turn h hok
    | snapshotWorker => exact next_worker h
  refine ⟨fun h => (hinv.live h).1, ?_⟩
  rcases runSnapshotWorker_outcome c.now.driver with ⟨-, hidle⟩ | ⟨job, rest, done, hworked⟩
  · exact .inl (congrArg Driver.snapshotStore hidle)
  refine hworked.saved.imp_right ?_
  rintro ⟨data, hserializer, hsave⟩
  have hin : job ∈ c.now.driver.snapshotJobs := by
    rw [hworked.jobs]
    exact List.mem_cons_self
  obtain ⟨m, hm, hlive, hpic⟩ := hinv.jobs job hin
  have hview := hpic.view
  rw [hserializer] at hview
  exact ⟨recordOf job data, data, hsave, m, hm, hlive, hpic.index, hpic.term,
    fun s₀ => hviews _ s₀ data hview⟩

end Turns

structure CommandHistory where
  bytes : Bytes

instance : StateMachine CommandHistory where
  apply s _ command := .ok ⟨s.bytes ++ command⟩
  query s _ := .ok s.bytes
  beginSnapshot s := .ok (.ok s.bytes)
  restore _ data := .ok ⟨data⟩

theorem commandHistory_restores : RestoresViews CommandHistory := by
  intro s s₀ data h
  rw [← Except.ok.inj (Except.ok.inj h)]
  rfl

theorem anchored_fresh : Anchored Durable.fresh := nofun

def firstHistory : Chronicle CommandHistory :=
  opening ⟨[]⟩ Durable.fresh
    (start (threeVoterConfig false 1) (some threeVoterSet) [] 64 ⟨[]⟩ [] Durable.fresh)

/-- A snapshot of the first command is triggered, and the second is applied before it is saved. -/
def lateSave : Chronicle CommandHistory :=
  replay Chronicle.next firstHistory (election ++
    [.turn (.client 5 [7]), .turn (.inboundFetch ⟨"c", 1, 2, 3, 1⟩), .turn (.triggerSnapshot 6),
      .turn (.client 7 [8]), .turn (.inboundFetch ⟨"c", 1, 2, 4, 1⟩)])

def latestOf (d : Driver CommandHistory) : Option (ℕ × ℕ × Bytes) :=
  d.snapshotStore.loadLatestSnapshot.map
    (fun p => (p.1.lastIncludedIndex, p.1.lastIncludedTerm, p.2))

theorem snapshots_are_faithful_late_save : Faithful lateSave ∧
    lateSave.now.driver.stateMachine.bytes = [7, 8] ∧
    latestOf lateSave.now.driver.runSnapshotWorker = some (2, 1, [7]) := by
  have hrun : Execution Chronicle.next (fun c e => FitLife c.now.driver e) firstHistory lateSave :=
    replay_execution (by decide +kernel)
  refine ⟨snapshots_are_faithful commandHistory_restores _ _ _ _ _ _ _ recoverable_fresh
    anchored_fresh hrun, ?_, ?_⟩
  · decide +kernel
  · decide +kernel

/-- A follower that was told to cut its log below its commit index is elected and refills it; then
the operator asks for a snapshot, which is saved under a term that was never applied. -/
theorem cut_below_commit_mislabels_snapshot :
    let c := replay Chronicle.next firstHistory (cutBelowCommit ++ [.turn (.triggerSnapshot 6)])
    Execution Chronicle.next (fun _ _ => True) firstHistory c ∧ c.now.driver.haltReason = none ∧
      latestOf c.now.driver.runSnapshotWorker = some (2, 2, [7]) ∧
      .apply ⟨2, 1, .command [7]⟩ ∈ c.now.driver.trace ∧
      ∀ m ∈ c.past ++ [c.now], m.lineage.lastTerm ≠ 2 := by
  intro c
  refine ⟨replay_execution (admissible_true _ _), ?_, ?_, ?_, ?_⟩
  · decide +kernel
  · decide +kernel
  · decide +kernel
  · decide +kernel

end SnapshotFidelity
