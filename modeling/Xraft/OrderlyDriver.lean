import Xraft.RunningTurns

/-! # The orderly driver

Between its turns a running driver has applied everything up to its commit index, its log covers
everything behind its latest snapshot, and the snapshots under way end below the commit index.
-/
namespace OrderlyDriver

open ProtocolTypes ConsensusEngine DurableStores NodeDriver ServerRecovery EngineTransitions
open GuardedExecution ApplyPipeline FaultFreeBatches PositionedLog BatchFootprints ActionOutcomes
open BatchOutcomes EngineOutlines DurableBeforeVisible LeaderAppendOnly TurnOutcomes RunningTurns

variable {σ : Type} {d d' : Driver σ}

def snapIndex (snap : Option SnapshotMeta) : ℕ := (snap.map SnapshotMeta.lastIncludedIndex).getD 0

structure Spans (base tip : ℕ) (entries : List Entry) : Prop where
  positioned : Positioned base entries
  length : base + entries.length = tip

structure Orderly (d : Driver σ) : Prop where
  applied : d.node.lastApplied = d.node.commitIndex
  within : d.node.commitIndex ≤ d.node.lastLogIndex
  covered : snapIndex d.node.lastSnapshotMeta ≤ d.node.commitIndex
  log : ∃ base ≤ snapIndex d.node.lastSnapshotMeta,
    Spans base d.node.lastLogIndex d.logStore.entries
  jobs : ∀ job ∈ d.snapshotJobs, job.throughIndex ≤ d.node.commitIndex
  done : ∀ c ∈ d.snapshotDone, c.throughIndex ≤ d.node.commitIndex ∧
    c.metadata.lastIncludedIndex = c.throughIndex ∧ c.metadata.lastIncludedTerm = c.throughTerm

/-! ## Logs -/

theorem positioned_append {k : ℕ} {xs ys : List Entry} (hx : Positioned k xs)
    (hy : Positioned (k + xs.length) ys) : Positioned k (xs ++ ys) := by
  intro i e he
  by_cases hi : i < xs.length
  · rw [List.getElem?_append_left hi] at he
    exact hx i e he
  · rw [List.getElem?_append_right (by omega)] at he
    have := hy _ e he
    omega

theorem Spans.extend {base tip : ℕ} {xs ys : List Entry} (h : Spans base tip xs)
    (hy : Positioned tip ys) : Spans base (tip + ys.length) (xs ++ ys) := by
  refine ⟨positioned_append h.positioned (h.length ▸ hy), ?_⟩
  rw [List.length_append, ← h.length]
  omega

theorem Spans.below {base tip bound : ℕ} {xs : List Entry} (h : Spans base tip xs)
    (hb : base < bound) :
    Spans base (min (bound - 1) tip) (xs.filter (fun e => decide (e.index < bound))) := by
  obtain ⟨j, rfl⟩ : ∃ j, bound = base + j + 1 := ⟨bound - base - 1, by omega⟩
  rw [h.positioned.filter_lt j]
  refine ⟨h.positioned.shorten (List.take_prefix _ _), ?_⟩
  have := h.length
  rw [List.length_take]
  omega

theorem Spans.above {base tip bound : ℕ} {xs : List Entry} (h : Spans base tip xs)
    (hb : base ≤ bound) (ht : bound ≤ tip) :
    Spans bound tip (xs.filter (fun e => decide (bound < e.index))) := by
  obtain ⟨j, rfl⟩ : ∃ j, bound = base + j := ⟨bound - base, by omega⟩
  have hfilter := h.positioned.filter_le j
  have hsame : (fun e : Entry => decide (base + j < e.index)) =
      (fun e : Entry => decide (base + j + 1 ≤ e.index)) := rfl
  rw [hsame, hfilter]
  refine ⟨h.positioned.drop j, ?_⟩
  have := h.length
  rw [List.length_drop]
  omega

theorem Spans.lastIndex {base tip : ℕ} {s : MemoryLogStore} (h : Spans base tip s.entries)
    (hne : s.entries ≠ []) : s.lastIndex = tip := by
  obtain ⟨l, x, hl⟩ := (List.eq_nil_or_concat s.entries).resolve_left hne
  have hx := h.positioned l.length x (by simp [hl])
  have hlen := h.length
  rw [hl, List.concat_eq_append, List.length_append, List.length_singleton] at hlen
  simp only [MemoryLogStore.lastIndex, hl, List.concat_eq_append, List.getLast?_append,
    List.getLast?_singleton, Option.some_or, Option.map_some, Option.getD_some]
  omega

theorem Spans.range {base tip first last : ℕ} {s : MemoryLogStore} (h : Spans base tip s.entries)
    (hfirst : base ≤ first) (hle : first ≤ last) (hlast : last ≤ tip) :
    Spans first last (inRange s (first + 1) last) := by
  have hbelow := h.below (by omega : base < last + 1)
  rw [show min (last + 1 - 1) tip = last by omega] at hbelow
  have habove := hbelow.above hfirst hle
  rw [List.filter_filter] at habove
  have hsame : inRange s (first + 1) last = s.entries.filter
      (fun e => decide (first < e.index) && decide (e.index < last + 1)) := by
    unfold inRange MemoryLogStore.getRange
    exact List.filter_congr (fun e _ => by rw [← Bool.decide_and]; rfl)
  rw [hsame]
  exact habove

theorem Spans.getLast {first last : ℕ} {xs : List Entry} (h : Spans first last xs)
    (hlt : first < last) : ∃ e ∈ xs, xs.getLast? = some e ∧ e.index = last := by
  have hlen := h.length
  have hne : xs ≠ [] := by
    rintro rfl
    simp only [List.length_nil] at hlen
    omega
  have hget := List.getElem?_eq_getElem (l := xs) (i := xs.length - 1) (by omega)
  refine ⟨xs[xs.length - 1], List.getElem_mem _, ?_, ?_⟩
  · rw [List.getLast?_eq_getElem?]
    exact hget
  · have := h.positioned _ _ hget
    omega

/-- The tip the driver mirrors is the end of the log, or of the snapshot in front of an empty
one. -/
theorem effectiveLogTip_eq {base tip : ℕ} (h : Spans base tip d.logStore.entries)
    (hbase : base ≤ snapIndex d.node.lastSnapshotMeta)
    (htip : snapIndex d.node.lastSnapshotMeta ≤ tip) : d.effectiveLogTip.1 = tip := by
  have hlast : d.logStore.lastIndex = tip ∨
      d.logStore.lastIndex = 0 ∧ tip = snapIndex d.node.lastSnapshotMeta := by
    by_cases hne : d.logStore.entries = []
    · have hlen := h.length
      rw [hne, List.length_nil] at hlen
      exact .inr ⟨by simp [MemoryLogStore.lastIndex, hne], by omega⟩
    · exact .inl (h.lastIndex hne)
  unfold Driver.effectiveLogTip
  rcases hmeta : d.node.lastSnapshotMeta with _ | snap
  · rw [hmeta, snapIndex, Option.map_none, Option.getD_none] at hlast
    show d.logStore.lastIndex = tip
    omega
  · rw [hmeta, snapIndex, Option.map_some, Option.getD_some] at hlast htip
    dsimp only
    split_ifs with hlt
    · show snap.lastIncludedIndex = tip
      omega
    · show d.logStore.lastIndex = tip
      omega

/-! ## Turns -/

theorem Orderly.kept (h : Orderly d) (hk : Kept d d') : Orderly d' := by
  have hmarks := marks_of_core hk.node
  have htip := tip_of_core hk.node
  refine ⟨?_, ?_, ?_, ?_, ?_, ?_⟩
  · rw [hmarks.lastApplied, hmarks.commitIndex, h.applied]
  · rw [hmarks.commitIndex, htip]
    exact h.within
  · rw [hmarks.lastSnapshotMeta, hmarks.commitIndex]
    exact h.covered
  · rw [hmarks.lastSnapshotMeta, htip, hk.logStore]
    exact h.log
  · rw [hk.jobs, hmarks.commitIndex]
    exact h.jobs
  · rw [hk.done, hmarks.commitIndex]
    exact h.done

theorem extend_entries (s : MemoryLogStore) (entries : List Entry) :
    (PositionedLog.extend s entries).entries = s.entries ++ entries := rfl

theorem orderly_mirror {base tip : ℕ} (hspans : Spans base tip d.logStore.entries)
    (applied : d.node.lastApplied = d.node.commitIndex) (within : d.node.commitIndex ≤ tip)
    (covered : snapIndex d.node.lastSnapshotMeta ≤ d.node.commitIndex)
    (hbase : base ≤ snapIndex d.node.lastSnapshotMeta)
    (jobs : ∀ job ∈ d.snapshotJobs, job.throughIndex ≤ d.node.commitIndex)
    (done : ∀ c ∈ d.snapshotDone, c.throughIndex ≤ d.node.commitIndex ∧
      c.metadata.lastIncludedIndex = c.throughIndex ∧ c.metadata.lastIncludedTerm = c.throughTerm) :
    Orderly d.mirrorLogTip := by
  have htip : d.mirrorLogTip.node.lastLogIndex = tip :=
    effectiveLogTip_eq hspans hbase (covered.trans within)
  refine ⟨applied, ?_, covered, ⟨base, hbase, ?_⟩, jobs, done⟩
  · rw [htip]
    exact within
  · rw [htip]
    exact hspans

theorem Orderly.cut (h : Orderly d) (hroom : d.node.lastLogIndex < u64Max) {endOffset : ℕ}
    (hc : Cut d endOffset d') : Orderly d' := by
  obtain ⟨m, pending, hm, -, hkept⟩ := hc.after
  obtain ⟨base, hbase, hspans⟩ := h.log
  have hwithin := h.within
  have hcovered := h.covered
  have hkeeps := hc.keeps
  have hbound : d.node.commitIndex < satAdd endOffset 1 := by
    unfold satAdd
    omega
  refine Orderly.kept (orderly_mirror (hspans.below (by omega)) ?_ ?_ ?_ ?_ ?_ ?_) hkept
  · show m.lastApplied = m.commitIndex
    rw [hm.lastApplied, hm.commitIndex, h.applied]
  · show m.commitIndex ≤ _
    rw [hm.commitIndex]
    omega
  · show snapIndex m.lastSnapshotMeta ≤ m.commitIndex
    rw [hm.lastSnapshotMeta, hm.commitIndex]
    exact hcovered
  · show base ≤ snapIndex m.lastSnapshotMeta
    rw [hm.lastSnapshotMeta]
    exact hbase
  · show ∀ job ∈ d.snapshotJobs, job.throughIndex ≤ m.commitIndex
    rw [hm.commitIndex]
    exact h.jobs
  · show ∀ c ∈ d.snapshotDone, c.throughIndex ≤ m.commitIndex ∧ _
    rw [hm.commitIndex]
    exact h.done

/-- Behind an installed snapshot stands the rest of a log that agreed with it, or nothing. -/
theorem behindSnapshot_spans {base tip : ℕ} {s : MemoryLogStore} (h : Spans base tip s.entries)
    (metadata : SnapshotMeta) (hbase : base ≤ metadata.lastIncludedIndex) :
    ∃ tip', metadata.lastIncludedIndex ≤ tip' ∧
      Spans metadata.lastIncludedIndex tip' (behindSnapshot s metadata).entries := by
  unfold behindSnapshot
  dsimp only
  split_ifs with hagree
  · have hle : metadata.lastIncludedIndex ≤ tip := by
      obtain ⟨e, hfind, -⟩ := Option.map_eq_some_iff.mp hagree
      have hmem := List.mem_of_find?_eq_some hfind
      rw [DriverJournal.updateSnapshotAnchor_entries] at hmem
      have hindex : e.index = metadata.lastIncludedIndex := by simpa using List.find?_some hfind
      have := (h.positioned.index_of_mem hmem).2.1
      have := h.length
      omega
    refine ⟨tip, hle, ?_⟩
    have habove := h.above hbase hle
    rw [← DriverJournal.updateSnapshotAnchor_entries s metadata.lastIncludedTerm
      metadata.lastIncludedIndex] at habove
    exact habove
  · refine ⟨metadata.lastIncludedIndex, le_refl _, ?_⟩
    have hnone : (MemoryLogStore.truncateFrom (s.updateSnapshotAnchor metadata.lastIncludedTerm
        metadata.lastIncludedIndex) 1).entries = [] := by
      refine List.filter_eq_nil_iff.mpr (fun e he => ?_)
      rw [DriverJournal.updateSnapshotAnchor_entries] at he
      have := (h.positioned.index_of_mem he).1
      simp only [decide_eq_true_eq]
      omega
    rw [hnone]
    exact ⟨positioned_nil _, rfl⟩

theorem isSnapshotMetaNewer_iff {snap : Option SnapshotMeta} {metadata : SnapshotMeta} :
    isSnapshotMetaNewer snap metadata = true ↔
      snap = none ∨ snapIndex snap < metadata.lastIncludedIndex := by
  cases snap with
  | none => simp [isSnapshotMetaNewer]
  | some prior => simp [isSnapshotMetaNewer, snapIndex]

theorem Orderly.completed (h : Orderly d) {c : SnapshotCompletion}
    {rest : List SnapshotCompletion} (hc : Completed d c rest d') : Orderly d' := by
  obtain ⟨base, hbase, hspans⟩ := h.log
  have hin : c ∈ d.snapshotDone := by
    rw [hc.done]
    exact List.mem_cons_self
  obtain ⟨hthrough, hindex, -⟩ := h.done c hin
  have hwithin := h.within
  have hrest : ∀ x ∈ rest, x ∈ d.snapshotDone := by
    intro x hx
    rw [hc.done]
    exact List.mem_cons_of_mem _ hx
  have hkept := hc.after
  unfold compacted RaftNode.handleSnapshotComplete at hkept
  by_cases hnew : isSnapshotMetaNewer d.node.lastSnapshotMeta c.metadata
  · rw [if_pos hnew, if_pos hnew] at hkept
    have hle : base ≤ c.metadata.lastIncludedIndex := by
      rcases isSnapshotMetaNewer_iff.mp hnew with hnone | hlt
      · rw [hnone] at hbase
        exact hbase.trans (Nat.zero_le _)
      · omega
    have habove := hspans.above hle (by omega : c.metadata.lastIncludedIndex ≤ d.node.lastLogIndex)
    rw [← DriverJournal.updateSnapshotAnchor_entries d.logStore c.throughTerm
      c.throughIndex] at habove
    refine Orderly.kept ?_ hkept
    refine ⟨h.applied, hwithin, ?_, ⟨_, le_refl _, habove⟩, h.jobs,
      fun x hx => h.done x (hrest x hx)⟩
    show c.metadata.lastIncludedIndex ≤ d.node.commitIndex
    omega
  · rw [if_neg hnew, if_neg hnew] at hkept
    refine Orderly.kept ?_ hkept
    refine ⟨h.applied, hwithin, h.covered, ⟨base, hbase, ?_⟩, h.jobs,
      fun x hx => h.done x (hrest x hx)⟩
    dsimp only
    rw [DriverJournal.updateSnapshotAnchor_entries]
    exact hspans

/-! ## The worker -/

structure Finishes (job : SnapshotJob) (c : SnapshotCompletion) : Prop where
  index : c.throughIndex = job.throughIndex
  term : c.throughTerm = job.throughTerm
  metaIndex : c.metadata.lastIncludedIndex = job.throughIndex
  metaTerm : c.metadata.lastIncludedTerm = job.throughTerm
  reply : c.reply = job.reply

def recordOf (job : SnapshotJob) (data : Bytes) : SnapshotMeta :=
  ⟨job.throughIndex, job.throughTerm, "", job.voterSet, some data.length⟩

structure Worked (d : Driver σ) (job : SnapshotJob) (rest : List SnapshotJob)
    (c : SnapshotCompletion) (d' : Driver σ) : Prop where
  jobs : d.snapshotJobs = job :: rest
  driver : ∃ w store faults trace, (∀ x ∈ w, Mute x) ∧ (d.faults = [] → faults = []) ∧
    trace = d.trace ++ w ∧ d' = { d with
      snapshotJobs := rest
      snapshotDone := d.snapshotDone ++ [c]
      snapshotStore := store
      faults := faults
      trace := trace }
  finishes : Finishes job c
  saved : d'.snapshotStore = d.snapshotStore ∨ ∃ data, job.serializer = .ok data ∧
    d.snapshotStore.saveSnapshot (recordOf job data) data = .ok d'.snapshotStore
  failed : d.faults = [] → (∃ data, job.serializer = .ok data) → c.result = .ok () ∨ Failure d'

/-- A save writes the record or leaves the store alone, whatever it reports. -/
theorem saveSnapshot_written (d : Driver σ) (metadata : SnapshotMeta) (data : Bytes) :
    ∃ w store faults, (∀ x ∈ w, Mute x) ∧ (d.faults = [] → faults = []) ∧
      (d.saveSnapshot metadata data).1 = { d with
        snapshotStore := store
        faults := faults
        trace := d.trace ++ w } ∧
      (store = d.snapshotStore ∨ d.snapshotStore.saveSnapshot metadata data = .ok store) ∧
      (d.faults = [] → (d.saveSnapshot metadata data).2 ≠ none →
        Failure (d.saveSnapshot metadata data).1) := by
  have htail : d.faults = [] → d.faults.tail = [] := fun h => by rw [h, List.tail_nil]
  unfold Driver.saveSnapshot
  rcases hsave : d.snapshotStore.saveSnapshot metadata data with e | store
  · refine ⟨[.snapshotFailed e], d.snapshotStore, d.faults, by simp [Mute], id, rfl, .inl rfl,
      fun _ _ => ⟨e, .inr (List.mem_append_right _ (List.mem_singleton_self _))⟩⟩
  · dsimp only
    unfold Driver.durably
    rcases hfault : d.nextFault with _ | f
    · exact ⟨[.saveSnapshot metadata], store, d.faults.tail, by simp [Mute], htail, rfl, .inr rfl,
        fun _ h => absurd rfl h⟩
    · have hne : d.faults ≠ [] := by
        intro hnil
        rw [nextFault_none hnil] at hfault
        cases hfault
      dsimp only
      split_ifs
      · exact ⟨[.saveSnapshot metadata, .snapshotFailed f.error], store, d.faults.tail,
          by simp [Mute], htail, rfl, .inr rfl, fun hnil => absurd hnil hne⟩
      · exact ⟨[.snapshotFailed f.error], d.snapshotStore, d.faults.tail, by simp [Mute],
          htail, rfl, .inl rfl, fun hnil => absurd hnil hne⟩

theorem runSnapshotWorker_outcome (d : Driver σ) :
    (d.snapshotJobs = [] ∧ d.runSnapshotWorker = d) ∨
      ∃ job rest c, Worked d job rest c d.runSnapshotWorker := by
  unfold Driver.runSnapshotWorker
  rcases hjobs : d.snapshotJobs with _ | ⟨job, rest⟩
  · exact .inl ⟨rfl, rfl⟩
  refine .inr ⟨job, rest, ?_⟩
  dsimp only
  rcases hser : job.serializer with e | data
  · refine ⟨_, hjobs, ⟨[], d.snapshotStore, d.faults, d.trace, by simp, id,
      (List.append_nil _).symm, rfl⟩, ⟨rfl, rfl, rfl, rfl, rfl⟩, .inl rfl, fun _ hok => ?_⟩
    obtain ⟨data, hdata⟩ := hok
    rw [hser] at hdata
    cases hdata
  · obtain ⟨w, store, faults, hmute, hnil, hdriver, hstore, hfail⟩ :=
      saveSnapshot_written d (recordOf job data) data
    unfold recordOf at hdriver hstore hfail
    dsimp only
    rcases hr : d.saveSnapshot ⟨job.throughIndex, job.throughTerm, "", job.voterSet,
      some data.length⟩ data with ⟨d₁, _ | e⟩ <;> rw [hr] at hdriver hfail <;>
      dsimp only at hdriver hfail ⊢ <;> subst hdriver
    · exact ⟨_, hjobs, ⟨w, store, faults, _, hmute, hnil, rfl, rfl⟩, ⟨rfl, rfl, rfl, rfl, rfl⟩,
        hstore.imp_right (fun h => ⟨data, hser, h⟩), fun _ _ => .inl rfl⟩
    · exact ⟨_, hjobs, ⟨w, store, faults, _, hmute, hnil, rfl, rfl⟩, ⟨rfl, rfl, rfl, rfl, rfl⟩,
        hstore.imp_right (fun h => ⟨data, hser, h⟩), fun hnone _ => .inr (hfail hnone nofun)⟩

theorem Orderly.worked (h : Orderly d) {job : SnapshotJob} {rest : List SnapshotJob}
    {c : SnapshotCompletion} (hw : Worked d job rest c d') : Orderly d' := by
  obtain ⟨w, store, faults, trace, -, -, -, rfl⟩ := hw.driver
  have hjobs := hw.jobs
  refine ⟨h.applied, h.within, h.covered, h.log, fun x hx => ?_, fun x hx => ?_⟩
  · refine h.jobs x ?_
    rw [hjobs]
    exact List.mem_cons_of_mem _ hx
  · rcases List.mem_append.mp hx with hx | hx
    · exact h.done x hx
    · rw [List.mem_singleton.mp hx, hw.finishes.index, hw.finishes.metaIndex, hw.finishes.term,
        hw.finishes.metaTerm]
      refine ⟨h.jobs job ?_, rfl, rfl⟩
      rw [hjobs]
      exact List.mem_cons_self

/-! ## Turns and starts -/

def FitLife (d : Driver σ) : LifeEvent → Prop
  | .turn event => Fit d event
  | .snapshotWorker => True

instance (d : Driver σ) (e : LifeEvent) : Decidable (FitLife d e) := by
  unfold FitLife
  split <;> infer_instance

structure Managed (d : Driver σ) : Prop where
  orderly : d.haltReason = none → Orderly d
  crowned : d.node.role = .leader → Crowned d.node

theorem Managed.bounded (h : Managed d) : d.node.role = .leader → Bounded d.node :=
  fun hl => (h.crowned hl).bounded

section Turns

variable [StateMachine σ]

theorem Orderly.advanced (h : Orderly d) {registered : List (ℕ × RequestId)} {entries : List Entry}
    (ha : Advanced d registered entries d') : Orderly d' := by
  obtain ⟨base, hbase, hspans⟩ := h.log
  have hgrew : d.node.lastLogIndex ≤ d'.node.lastLogIndex := by
    rw [ha.extend.tip]
    omega
  have hwithin := h.within
  have hcommit : d.node.commitIndex ≤ d'.node.commitIndex ∧
      d'.node.commitIndex ≤ d'.node.lastLogIndex := by
    rcases ha.commit with heq | ⟨hlt, hle⟩
    · omega
    · exact ⟨hlt.le, hle⟩
  refine ⟨ha.lastApplied, hcommit.2, ?_, ⟨base, ?_, ?_⟩, fun job hjob => ?_, fun c hc => ?_⟩
  · rw [ha.snapshotMeta]
    exact h.covered.trans hcommit.1
  · rw [ha.snapshotMeta]
    exact hbase
  · rw [ha.logStore, extend_entries, ha.extend.tip]
    exact hspans.extend ha.extend.positioned
  · obtain ⟨wants, hqueued, -, -⟩ := ha.queued
    rcases hqueued with ⟨-, -, hjobs⟩ | ⟨-, -, -, term, voterSet, serializer, -, -, hjobs⟩
    · rw [hjobs] at hjob
      exact (h.jobs job hjob).trans hcommit.1
    · rw [hjobs, List.mem_append, List.mem_singleton] at hjob
      rcases hjob with hjob | rfl
      · exact (h.jobs job hjob).trans hcommit.1
      · exact le_refl _
  · rw [ha.done] at hc
    exact ⟨(h.done c hc).1.trans hcommit.1, (h.done c hc).2⟩

theorem Orderly.installed (h : Orderly d) {metadata : SnapshotMeta} {data : Bytes}
    (hi : Installed d metadata data d') : Orderly d' := by
  obtain ⟨store, sm, -, -, hkept⟩ := hi.after
  obtain ⟨base, hbase, hspans⟩ := h.log
  have hnew := hi.newer
  have happlied := h.applied
  have hcovered := h.covered
  obtain ⟨tip', hle, hspans'⟩ := behindSnapshot_spans hspans metadata (by omega)
  have hnewer : isSnapshotMetaNewer d.node.lastSnapshotMeta (renamed metadata) = true :=
    isSnapshotMetaNewer_iff.mpr (.inr (by
      show _ < metadata.lastIncludedIndex
      omega))
  have hcommit : max d.node.commitIndex metadata.lastIncludedIndex =
      metadata.lastIncludedIndex := by
    omega
  have hlast : max d.node.lastApplied metadata.lastIncludedIndex = metadata.lastIncludedIndex := by
    omega
  have hmeta : (d.node.handleSnapshotInstalled (renamed metadata)).lastSnapshotMeta =
      some (renamed metadata) := if_pos hnewer
  refine Orderly.kept (orderly_mirror hspans' ?_ ?_ ?_ ?_ ?_ ?_) hkept
  · exact hlast.trans hcommit.symm
  · exact hcommit.le.trans hle
  · dsimp only
    rw [hmeta]
    exact hcommit.ge
  · dsimp only
    rw [hmeta]
    exact le_refl _
  · intro job hjob
    exact (h.jobs job hjob).trans (Nat.le_max_left _ _)
  · intro c hc
    exact ⟨(h.done c hc).1.trans (Nat.le_max_left _ _), (h.done c hc).2⟩

theorem Orderly.triggered (h : Orderly d) {reply : Option RequestId}
    (hc : Captured { d with node := { d.node with snapshotInFlight := true } }
      d.node.commitIndex reply d') : Orderly d' := by
  obtain ⟨term, serializer, -, -, hkept⟩ := hc.job
  refine Orderly.kept ?_ hkept
  refine ⟨h.applied, h.within, h.covered, h.log, fun job hjob => ?_, h.done⟩
  rcases List.mem_append.mp hjob with hjob | hjob
  · exact h.jobs job hjob
  · rw [List.mem_singleton.mp hjob]

theorem Orderly.passed (h : Orderly d) {event : DriverEvent}
    (hroom : d.node.lastLogIndex < u64Max) (hp : Passed d event d') : Orderly d' := by
  cases hp with
  | advanced _ _ advance => exact h.advanced advance
  | cut _ cut => exact h.cut hroom cut
  | installed _ installed => exact h.installed installed
  | triggered _ _ captured => exact h.triggered captured
  | completed completed => exact h.completed completed

/-! ## The start -/

def Restores (store : Durable) (initial sm : σ) (snap : Option SnapshotMeta) : Prop :=
  store.snapshotStore.loadLatestSnapshot = none ∧ sm = initial ∧ snap = none ∨
    ∃ latest data, store.snapshotStore.loadLatestSnapshot = some (latest, data) ∧
      StateMachine.restore initial data = .ok sm ∧ snap = some latest

/-- A start that leaves the driver running has restored the latest snapshot and drained the log. -/
theorem start_running (config : ClusterConfig) (voterSet : Option VoterSet) (rng : List ℕ)
    (maxFetchBatch : ℕ) (initial : σ) (faults : List (Option Fault)) (store : Durable)
    (h : (start config voterSet rng maxFetchBatch initial faults store).haltReason = none) :
    ∃ sm snap, Restores store initial sm snap ∧
      ∀ n, n = recoverNode config voterSet rng store.hsStore store.logStore snap →
        n.lastApplied ≤ n.commitIndex → Pumps
          { boot config voterSet rng maxFetchBatch faults store sm snap with
            node := n.drainApplyPipeline.1 }
          (n.lastApplied + 1) n.commitIndex (due n)
          (start config voterSet rng maxFetchBatch initial faults store) := by
  have hdrain : ∀ x : Driver σ, x.haltReason = none → (recoveryDrain x).haltReason = none →
      ∀ n, n = x.node → n.lastApplied ≤ n.commitIndex →
        Pumps { x with node := n.drainApplyPipeline.1 } (n.lastApplied + 1) n.commitIndex (due n)
          (recoveryDrain x) := by
    rintro x hx hrun n rfl hle
    unfold recoveryDrain at hrun ⊢
    dsimp only at hrun ⊢
    rcases processActions_settles { x with node := x.node.drainApplyPipeline.1 }
      x.node.drainApplyPipeline.2 none hx with ⟨hseq, hnone⟩ | ⟨_, _, _, _, _, _, hbroken⟩
    · rw [if_neg (by simp [hnone])]
      exact drain_pumps hle (sequence_pipe hseq (drainApplyPipeline_applies _))
    · rw [if_pos (Option.isSome_iff_ne_none.mpr hbroken.halt)] at hrun
      exact absurd hrun hbroken.halt
  unfold start at h ⊢
  rcases hlatest : store.snapshotStore.loadLatestSnapshot with _ | ⟨latest, data⟩
  · rw [hlatest] at h
    exact ⟨initial, none, .inl ⟨hlatest, rfl, rfl⟩, hdrain _ rfl h⟩
  · rw [hlatest] at h
    dsimp only at h ⊢
    rcases hrestore : StateMachine.restore initial data with e | sm
    · rw [hrestore] at h
      cases h
    · rw [hrestore] at h
      exact ⟨sm, some latest, .inr ⟨latest, data, hlatest, hrestore, rfl⟩, hdrain _ rfl h⟩

/-- Stores whose log covers everything behind their latest snapshot and reaches at least to it. -/
def Recoverable (store : Durable) : Prop :=
  ∃ base ≤ snapIndex (store.snapshotStore.loadLatestSnapshot.map Prod.fst),
    Positioned base store.logStore.entries ∧
      snapIndex (store.snapshotStore.loadLatestSnapshot.map Prod.fst) ≤ store.logStore.lastIndex

theorem recoverable_spans {store : Durable} (h : Recoverable store) :
    ∃ base ≤ snapIndex (store.snapshotStore.loadLatestSnapshot.map Prod.fst),
      Spans base store.logStore.lastIndex store.logStore.entries := by
  obtain ⟨base, hbase, hpos, hlast⟩ := h
  refine ⟨base, hbase, hpos, ?_⟩
  by_cases hne : store.logStore.entries = []
  · have hzero : store.logStore.lastIndex = 0 := by simp [MemoryLogStore.lastIndex, hne]
    rw [hne, List.length_nil, hzero]
    omega
  · have hspans : Spans base (base + store.logStore.entries.length) store.logStore.entries :=
      ⟨hpos, rfl⟩
    exact (hspans.lastIndex hne).symm

theorem Restores.snap_eq {store : Durable} {initial sm : σ} {snap : Option SnapshotMeta}
    (h : Restores store initial sm snap) :
    store.snapshotStore.loadLatestSnapshot.map Prod.fst = snap := by
  rcases h with ⟨hnone, -, rfl⟩ | ⟨latest, data, hsome, -, rfl⟩
  · rw [hnone]
    rfl
  · rw [hsome]
    rfl

theorem recoverNode_marks (config : ClusterConfig) (voterSet : Option VoterSet) (rng : List ℕ)
    (hsStore : Option HardState) (logStore : MemoryLogStore) (snap : Option SnapshotMeta)
    (hle : snapIndex snap ≤ logStore.lastIndex) (n : RaftNode)
    (hn : n = recoverNode config voterSet rng hsStore logStore snap) :
    n.lastApplied = snapIndex snap ∧ n.lastLogIndex = logStore.lastIndex ∧
      n.lastSnapshotMeta = snap ∧ n.snapshotInFlight = false ∧ snapIndex snap ≤ n.commitIndex ∧
      n.commitIndex ≤ logStore.lastIndex := by
  subst hn
  have hzero : (RaftNode.build config voterSet rng).commitIndex = 0 := rfl
  refine ⟨Nat.zero_max _, rfl, rfl, rfl, ?_, ?_⟩
  · exact (Nat.le_max_right _ _).trans (Nat.le_max_left _ _)
  · exact Nat.max_le.mpr ⟨Nat.max_le.mpr ⟨Nat.zero_le _, hle⟩, Nat.min_le_right _ _⟩

theorem start_orderly (config : ClusterConfig) (voterSet : Option VoterSet) (rng : List ℕ)
    (maxFetchBatch : ℕ) (initial : σ) (faults : List (Option Fault)) (store : Durable)
    (hstore : Recoverable store)
    (h : (start config voterSet rng maxFetchBatch initial faults store).haltReason = none) :
    Orderly (start config voterSet rng maxFetchBatch initial faults store) := by
  obtain ⟨sm, snap, hrestores, hpumps⟩ := start_running config voterSet rng maxFetchBatch initial
    faults store h
  obtain ⟨base, hbase, hspans⟩ := recoverable_spans hstore
  obtain ⟨-, -, -, hlast⟩ := hstore
  rw [hrestores.snap_eq] at hbase hlast
  obtain ⟨happlied, htip, hmeta, -, hcovered, hwithin⟩ := recoverNode_marks config voterSet rng
    store.hsStore store.logStore snap hlast _ rfl
  have hle := happlied.le.trans hcovered
  have hp := hpumps _ rfl hle
  have hnode := (drainApplyPipeline_eq hle).1
  have hmarks := marks_of_core hp.node
  have hend := tip_of_core hp.node
  dsimp only at hmarks hend
  rw [hnode] at hmarks hend
  refine ⟨?_, ?_, ?_, ⟨base, ?_, ?_⟩, fun job hjob => ?_, fun c hc => ?_⟩
  · rw [hmarks.lastApplied, hmarks.commitIndex]
  · rw [hmarks.commitIndex, hend]
    exact hwithin
  · rw [hmarks.lastSnapshotMeta, hmarks.commitIndex]
    exact hcovered
  · rw [hmarks.lastSnapshotMeta]
    exact hbase
  · rw [hend, hp.logStore]
    exact hspans
  · rw [hmarks.commitIndex]
    rcases hp.queued with ⟨-, -, hjobs⟩ | ⟨-, -, -, term, vs, serializer, -, -, hjobs⟩
    · rw [hjobs] at hjob
      cases hjob
    · rw [hjobs] at hjob
      rw [List.mem_singleton.mp hjob]
  · rw [hp.done] at hc
    cases hc

/-! ## Whole lives -/

theorem Managed.passed (h : Managed d) {event : DriverEvent} (hfit : Fit d event)
    (hrunning : (d.turn event).haltReason = none) : Passed d event (d.turn event) :=
  turn_passed hfit (h.orderly (turn_running hrunning).1).applied h.bounded hrunning

theorem live_managed {e : LifeEvent} (h : Managed d) (hfit : FitLife d e) :
    Managed (Driver.live d e) := by
  cases e with
  | turn event =>
    have hfit : Fit d event := hfit
    refine ⟨fun hrunning => ?_, fun hl => live_crowned h.crowned hfit.permitted hl⟩
    have horderly := h.orderly (turn_running hrunning).1
    exact horderly.passed hfit.tip (h.passed hfit hrunning)
  | snapshotWorker =>
    show Managed d.runSnapshotWorker
    have hnode := DriverTurns.runSnapshotWorker_node d
    refine ⟨fun hrunning => ?_, fun hl => ?_⟩
    · rcases runSnapshotWorker_outcome d with ⟨-, hsame⟩ | ⟨job, rest, c, hworked⟩
      · rw [hsame] at hrunning ⊢
        exact h.orderly hrunning
      · have hhalt : d.haltReason = none := by
          obtain ⟨_, _, _, _, -, -, -, heq⟩ := hworked.driver
          rw [heq] at hrunning
          exact hrunning
        exact (h.orderly hhalt).worked hworked
    · rw [hnode] at hl ⊢
      exact h.crowned hl

theorem start_managed (config : ClusterConfig) (voterSet : Option VoterSet) (rng : List ℕ)
    (maxFetchBatch : ℕ) (initial : σ) (faults : List (Option Fault)) (store : Durable)
    (hstore : Recoverable store) :
    Managed (start config voterSet rng maxFetchBatch initial faults store) :=
  ⟨start_orderly config voterSet rng maxFetchBatch initial faults store hstore,
    fun hl => absurd hl (start_role config voterSet rng maxFetchBatch initial faults store)⟩

end Turns

end OrderlyDriver
