import Xraft.InterruptedOperations

/-! # A log that survives its crashes

The life of a file log: calls that complete, truncations and purges that a crash interrupts, and
crashes that lose bytes of the segment files, each followed by a reopening that may be interrupted
in turn. Beside the store stands the log that it should hold.
-/
namespace CrashAtomicity

open ProtocolTypes DurableStores ByteFrames WriteAheadLog WalFrames SegmentReplay FileLogRefinement
open CrashRecovery InterruptedOperations GuardedExecution
open SampleCodecs (sampleCodec)

variable {codec : WalCodec} {s : FileLogStore} {segs : List Segment} {d : Directory} {floor : ℕ}
  {anchor : Option (ℕ × ℕ)} {log : List Entry} {pending : Option ℕ}

/-! ## Reopening -/

def reopenings (codec : WalCodec) (d : Directory) (crashes : List (ℕ × ℕ)) : Directory :=
  crashes.foldl (fun d crash => after d (openSteps codec d crash.1) crash.2) d

theorem Preserves.reopenings (h : Preserves codec d floor anchor log) (crashes : List (ℕ × ℕ)) :
    Preserves codec (reopenings codec d crashes) floor anchor log := by
  induction crashes generalizing d with
  | nil => exact h
  | cons crash rest ih =>
    obtain ⟨pending, segs, hrecoverable, rfl⟩ := h
    exact ih (hrecoverable.openSteps crash.1 crash.2)

theorem Preserves.opens (h : Preserves codec d floor anchor log) (maxSegmentSize : ℕ) :
    ∃ s segs, FileLogStore.openWithMaxSegmentSize codec d maxSegmentSize = .ok s ∧
      Layout codec none s segs ∧ live s.firstValidIndex segs = log := by
  obtain ⟨pending, segs, hrecoverable, rfl⟩ := h
  obtain ⟨s, segs', hopen, hlayout, hlive, hfirst, -⟩ := hrecoverable.opens maxSegmentSize
  exact ⟨s, segs', hopen, hlayout, hfirst ▸ hlive⟩

theorem recoverable_cut {front back : List Segment} {g : Segment} {kept : ℕ}
    (hsound : ∀ g' ∈ front ++ [g], Sound codec g') (hside : Sidecars d floor anchor pending)
    (hmax : ∀ target ∈ pending, target < u64Max) (harranged : Arranged (front ++ g :: back))
    (hfiles : d.walFiles = front.map (fileOf codec) ++
      [(nameOf g, (stream (frame codec) g.2).take kept)]) :
    Recoverable codec d floor anchor pending (front ++ [(g.1, whole (frame codec) kept g.2)]) := by
  obtain ⟨tail, htail, htorn⟩ := take_stream (frame codec) kept g.2
  obtain ⟨lost, hlost⟩ := whole_prefix (frame codec) kept g.2
  rw [htail] at hfiles
  have hg := hsound g (by simp)
  have hsound' := sound_whole hsound kept
  have hkept : Arranged (front ++ [(g.1, whole (frame codec) kept g.2)]) := by
    have hsplit : Arranged (front ++ (g.1, whole (frame codec) kept g.2 ++ lost) :: back) := by
      rw [hlost]
      exact harranged
    exact hsplit.kept
  by_cases hempty : tail = []
  · refine Stored.recoverable ⟨⟨hsound', ?_⟩, hside, hkept, hmax⟩
    rw [hfiles, hempty, List.append_nil, List.map_append]
    rfl
  · have hrecover := recover_torn (g := (g.1, whole (frame codec) kept g.2)) hsound' hfiles hempty
      hg.storable (htorn.resolve_left hempty)
    refine ⟨hside, _, ⟨(hrecover 0 0 none).2, hside.write (isSegment_nameOf g) _, hkept, hmax⟩,
      fun maxSegmentSize => (hrecover maxSegmentSize floor anchor).1⟩

/-- A crash that loses bytes leaves the first frames of the log. -/
theorem Layout.crashed (h : Layout codec pending s segs)
    (hmax : ∀ target ∈ pending, target < u64Max) (hcrash : Crashed s.dir d) :
    ∃ segs', framesOf segs' <+: framesOf segs ∧
      Recoverable codec d s.firstValidIndex s.snapshotAnchor pending segs' := by
  have hside := hcrash.sidecars_kept h.side
  rcases hcrash.segments_cut h.holds with hnone | ⟨segsL, g, segsR, kept, rfl, hsound, hcut⟩
  · have hempty : Stored codec d s.firstValidIndex s.snapshotAnchor pending [] :=
      ⟨⟨fun g hg => absurd hg List.not_mem_nil, hnone⟩, hside,
        h.arranged.sublist (List.nil_sublist _), hmax⟩
    exact ⟨[], List.nil_prefix, hempty.recoverable⟩
  · refine ⟨_, ?_, recoverable_cut hsound hside hmax h.arranged hcut⟩
    obtain ⟨lost, hlost⟩ := whole_prefix (frame codec) kept g.2
    have hsplit : g.2 ++ framesOf segsR =
        whole (frame codec) kept g.2 ++ (lost ++ framesOf segsR) := by
      rw [← List.append_assoc, hlost]
    refine ⟨lost ++ framesOf segsR, ?_⟩
    rw [framesOf_append, framesOf_append, framesOf_singleton, List.append_assoc, ← hsplit]
    rfl

/-! ## The life of a log -/

structure Journal where
  store : FileLogStore
  log : List Entry
  failed : Bool

inductive JournalOp where
  | append (entries : List Entry)
  | truncateFrom (index : ℕ)
  | purgePrefix (through : ℕ)
  | updateSnapshotAnchor (term index : ℕ)
  | reopen (maxSegmentSize : ℕ)
  -- a crash after some durable steps, openings that crash as well, and one that does not
  | crashInTruncate (index steps : ℕ) (crashes : List (ℕ × ℕ)) (maxSegmentSize : ℕ)
  | crashInPurge (through steps : ℕ) (crashes : List (ℕ × ℕ)) (maxSegmentSize : ℕ)
  -- a crash that leaves a prefix of the bytes written
  | crashInAppend (dir : Directory) (crashes : List (ℕ × ℕ)) (maxSegmentSize : ℕ)

def Journal.start (codec : WalCodec) (path : String) (maxSegmentSize : ℕ) :
    Except XRaftError Journal :=
  (FileLogStore.openWithMaxSegmentSize codec (Directory.empty path) maxSegmentSize).map
    fun store => ⟨store, [], false⟩

def Journal.commit (j : Journal) (result : Except XRaftError FileLogStore) (log : List Entry) :
    Journal where
  store := result.toOption.getD j.store
  log := log
  failed := j.failed || !result.isOk

def restart (codec : WalCodec) (d : Directory) (crashes : List (ℕ × ℕ)) (maxSegmentSize : ℕ) :
    Except XRaftError FileLogStore :=
  FileLogStore.openWithMaxSegmentSize codec (reopenings codec d crashes) maxSegmentSize

/-- A truncation or a purge counts from the moment its marker is in place. -/
def Journal.step (codec : WalCodec) (j : Journal) : JournalOp → Journal
  | .append entries => j.commit (j.store.append codec entries) (j.log ++ entries)
  | .truncateFrom index =>
    j.commit (j.store.truncateFrom index) (j.log.filter (fun e => e.index < index))
  | .purgePrefix through =>
    j.commit (j.store.purgePrefix through) (j.log.filter (fun e => through < e.index))
  | .updateSnapshotAnchor term index =>
    j.commit (.ok (j.store.updateSnapshotAnchor term index)) j.log
  | .reopen maxSegmentSize =>
    j.commit (FileLogStore.openWithMaxSegmentSize codec j.store.dir maxSegmentSize) j.log
  | .crashInTruncate index steps crashes maxSegmentSize =>
    j.commit (restart codec (after j.store.dir (truncateSteps j.store index) steps) crashes
        maxSegmentSize)
      (if steps < 2 then j.log else j.log.filter (fun e => e.index < index))
  | .crashInPurge through steps crashes maxSegmentSize =>
    j.commit (restart codec (after j.store.dir (purgeSteps j.store through) steps) crashes
        maxSegmentSize)
      (if steps < 2 then j.log else j.log.filter (fun e => through < e.index))
  | .crashInAppend dir crashes maxSegmentSize =>
    let result := restart codec dir crashes maxSegmentSize
    -- whatever was not written in full is gone, and nothing else
    j.commit result (j.log.take ((result.toOption.map fun s => s.entries.length).getD 0))

def Journal.Calls (codec : WalCodec) (j : Journal) : JournalOp → Prop
  | .append entries =>
    (∀ e ∈ entries, Storable codec e ∧ j.store.lastIndex < e.index ∧
      j.store.firstValidIndex < e.index) ∧ entries.Pairwise (fun a b => a.index < b.index)
  | .truncateFrom index => index ≤ u64Max
  | .purgePrefix through => through ≤ u64Max
  | .updateSnapshotAnchor term index => term ≤ u64Max ∧ index ≤ u64Max
  | .reopen _ => True
  | .crashInTruncate index _ _ _ => index ≤ u64Max
  | .crashInPurge through _ _ _ => through ≤ u64Max
  | .crashInAppend dir _ _ => Crashed j.store.dir dir

/-- Calls in which the first frame of a batch finds room: the segment that it would create is
new. -/
def Journal.Admits (codec : WalCodec) (j : Journal) (op : JournalOp) : Prop :=
  j.Calls codec op ∧ match op with
    | .append entries => ∀ e ∈ entries.head?, HasRoom j.store e.index (frame codec e).length
    | _ => True

structure Keeps (codec : WalCodec) (j : Journal) : Prop where
  layout : ∃ segs, Layout codec none j.store segs ∧ live j.store.firstValidIndex segs = j.log
  sound : j.failed = false

theorem Layout.entries_eq (h : Layout codec pending s segs) :
    s.entries = keyed (live s.firstValidIndex segs) := h.entries

theorem Keeps.entries {j : Journal} (h : Keeps codec j) : j.store.entries = keyed j.log := by
  obtain ⟨segs, hlayout, hlog⟩ := h.layout
  rw [Layout.entries_eq hlayout, hlog]

theorem Keeps.commit {j : Journal} (h : Keeps codec j) {result : Except XRaftError FileLogStore}
    {log : List Entry}
    (hresult : ∃ s segs, result = .ok s ∧ Layout codec none s segs ∧
      live s.firstValidIndex segs = log) :
    Keeps codec (j.commit result log) := by
  obtain ⟨s, segs, rfl, hlayout, hlive⟩ := hresult
  refine ⟨⟨segs, hlayout, hlive⟩, ?_⟩
  simp [Journal.commit, h.sound, Except.isOk, Except.toBool]

/-- Everything in the files is below an index above the end of the log and its floor. -/
theorem Layout.frames_lt (h : Layout codec pending s segs) {index : ℕ} (hlast : s.lastIndex < index)
    (hfloor : s.firstValidIndex < index) : ∀ x ∈ framesOf segs, x.index < index := by
  intro x hx
  by_cases hlive : s.firstValidIndex < x.index
  · have hmem : x ∈ live s.firstValidIndex segs := List.mem_filter.mpr ⟨hx, decide_eq_true hlive⟩
    have hsame :
        s.lastIndex = (MemoryLogStore.mk (live s.firstValidIndex segs) [] none).lastIndex := by
      rw [FileLogStore.lastIndex, Layout.entries_eq h, keyed, List.getLast?_map, Option.map_map]
      rfl
    have hle := FileLogRefinement.le_lastIndex
      (m := ⟨live s.firstValidIndex segs, [], none⟩) (h.arranged.live_ascending _) hmem
    omega
  · omega

theorem Layout.appends (h : Layout codec pending s segs) {entries : List Entry}
    (hentries : ∀ e ∈ entries, Storable codec e ∧ s.lastIndex < e.index ∧
      s.firstValidIndex < e.index)
    (hascending : entries.Pairwise (fun a b => a.index < b.index))
    (hroom : ∀ e ∈ entries.head?, HasRoom s e.index (frame codec e).length) :
    ∃ s' segs', s.append codec entries = .ok s' ∧ Layout codec pending s' segs' ∧
      live s'.firstValidIndex segs' = live s.firstValidIndex segs ++ entries := by
  have hall : (framesOf segs ++ entries).Pairwise (fun a b => a.index < b.index) :=
    List.pairwise_append.mpr ⟨h.arranged.ascending, hascending, fun x hx e he =>
      Layout.frames_lt h (hentries e he).2.1 (hentries e he).2.2 x hx⟩
  obtain ⟨s', segs', hok, hlayout, -, hframes, hfirst, -⟩ := h.append
    (fun e he => (hentries e he).1) hall (fun e he => (hentries e he).2.2) hroom
  refine ⟨s', segs', hok, hlayout, ?_⟩
  have hnew : entries.filter (fun e => s.firstValidIndex < e.index) = entries :=
    List.filter_eq_self.mpr fun e he => decide_eq_true (hentries e he).2.2
  rw [hfirst, live, hframes, List.filter_append, hnew, live]

theorem Layout.purges (h : Layout codec pending s segs) {through : ℕ} (hfits : through ≤ u64Max) :
    ∃ s' segs', s.purgePrefix through = .ok s' ∧ Layout codec pending s' segs' ∧
      live s'.firstValidIndex segs' =
        (live s.firstValidIndex segs).filter (fun e => through < e.index) := by
  by_cases hraise : s.firstValidIndex < through
  · obtain ⟨s', segs', hok, hlayout, -, hlive, hfirst, -⟩ := h.purgePrefix hfits hraise
    exact ⟨s', segs', hok, hlayout, by rw [hfirst, hlive, live_raise hraise.le]⟩
  · have hle := not_lt.mp hraise
    have hsame : s.purgePrefix through = .ok s := by rw [FileLogStore.purgePrefix, if_pos hle]
    refine ⟨s, segs, hsame, h, (List.filter_eq_self.mpr fun e he => ?_).symm⟩
    exact decide_eq_true (hle.trans_lt (live_subset he).2)

theorem Preserves.restart (h : Preserves codec d floor anchor log) (crashes : List (ℕ × ℕ))
    (maxSegmentSize : ℕ) :
    ∃ s segs, restart codec d crashes maxSegmentSize = .ok s ∧ Layout codec none s segs ∧
      live s.firstValidIndex segs = log :=
  Preserves.opens (Preserves.reopenings h crashes) maxSegmentSize

/-- An interrupted truncation comes up with the log before it or the log after it. -/
theorem Keeps.restart_truncate {j : Journal} (h : Keeps codec j) {index : ℕ}
    (hindex : index ≤ u64Max) (steps : ℕ) (crashes : List (ℕ × ℕ)) (maxSegmentSize : ℕ) :
    ∃ s segs, restart codec (after j.store.dir (truncateSteps j.store index) steps) crashes
        maxSegmentSize = .ok s ∧ Layout codec none s segs ∧
      live s.firstValidIndex segs =
        if steps < 2 then j.log else j.log.filter (fun e => e.index < index) := by
  obtain ⟨segs, hlayout, hlog⟩ := h.layout
  obtain ⟨log, hsteps, hend⟩ := InterruptedOperations.Mapped.truncateSteps hlayout.toMapped hindex
    (fun target ht => nomatch ht) steps
  rw [hend (fun target ht => nomatch ht), surviving_none, hlog] at hsteps
  exact Preserves.restart hsteps crashes maxSegmentSize

theorem Keeps.restart_purge {j : Journal} (h : Keeps codec j) {through : ℕ}
    (hfits : through ≤ u64Max) (steps : ℕ) (crashes : List (ℕ × ℕ)) (maxSegmentSize : ℕ) :
    ∃ s segs, restart codec (after j.store.dir (purgeSteps j.store through) steps) crashes
        maxSegmentSize = .ok s ∧ Layout codec none s segs ∧
      live s.firstValidIndex segs =
        if steps < 2 then j.log else j.log.filter (fun e => through < e.index) := by
  obtain ⟨segs, hlayout, hlog⟩ := h.layout
  obtain ⟨floor, hsteps⟩ := InterruptedOperations.Mapped.purgeSteps hlayout.toMapped hfits
    (fun target ht => nomatch ht) steps
  rw [surviving_none, hlog] at hsteps
  exact Preserves.restart hsteps crashes maxSegmentSize

theorem Keeps.step {j : Journal} (h : Keeps codec j) {op : JournalOp} (hop : j.Admits codec op) :
    Keeps codec (j.step codec op) := by
  obtain ⟨segs, hlayout, hlog⟩ := h.layout
  obtain ⟨hcalls, hroom⟩ := hop
  cases op with
  | append entries =>
    obtain ⟨s, segs', hok, hlayout', hlive⟩ := Layout.appends hlayout hcalls.1 hcalls.2 hroom
    exact h.commit ⟨s, segs', hok, hlayout', by rw [hlive, hlog]⟩
  | truncateFrom index =>
    obtain ⟨s, segs', hok, hlayout', -, hlive, hfirst, -⟩ := hlayout.truncateFrom hcalls
    exact h.commit ⟨s, segs', hok, hlayout', by rw [hfirst, hlive, hlog]⟩
  | purgePrefix through =>
    obtain ⟨s, segs', hok, hlayout', hlive⟩ := Layout.purges hlayout hcalls
    exact h.commit ⟨s, segs', hok, hlayout', by rw [hlive, hlog]⟩
  | updateSnapshotAnchor term index =>
    obtain ⟨hlayout', hfirst, -⟩ := @Layout.updateSnapshotAnchor codec j.store segs none hlayout
      ⟨[], [], j.store.snapshotAnchor⟩ rfl term index hcalls.1 hcalls.2
    exact h.commit ⟨_, segs, rfl, hlayout', by rw [hfirst, hlog]⟩
  | reopen maxSegmentSize =>
    refine h.commit ⟨_, segs, open_whole hlayout.side hlayout.holds maxSegmentSize,
      opened_layout hlayout.holds hlayout.side hlayout.arranged maxSegmentSize, hlog⟩
  | crashInTruncate index steps crashes maxSegmentSize =>
    exact h.commit (h.restart_truncate hcalls steps crashes maxSegmentSize)
  | crashInPurge through steps crashes maxSegmentSize =>
    exact h.commit (h.restart_purge hcalls steps crashes maxSegmentSize)
  | crashInAppend dir crashes maxSegmentSize =>
    obtain ⟨kept, hfront, hrecoverable⟩ :=
      Layout.crashed hlayout (fun target ht => nomatch ht) hcalls
    obtain ⟨s, segs', hok, hlayout', hlive⟩ :=
      Preserves.restart ⟨none, kept, hrecoverable, surviving_none _ _⟩ crashes maxSegmentSize
    refine h.commit ⟨s, segs', hok, hlayout', ?_⟩
    rw [hok]
    show _ = j.log.take s.entries.length
    rw [Layout.entries_eq hlayout', keyed, List.length_map, hlive, ← hlog]
    exact List.prefix_iff_eq_take.mp (hfront.filter _)

theorem start_keeps (codec : WalCodec) (path : String) (maxSegmentSize : ℕ) :
    ∃ start, Journal.start codec path maxSegmentSize = .ok start ∧ start.log = [] ∧
      start.store.segments = [] ∧ start.store.firstValidIndex = 0 ∧ Keeps codec start := by
  obtain ⟨s, hopen, himage, hfirst, -⟩ := open_empty codec path maxSegmentSize
  exact ⟨⟨s, [], false⟩, by rw [Journal.start, hopen]; rfl, rfl, himage.segments, hfirst,
    ⟨[], himage.layout, rfl⟩, rfl⟩

/-- In every life in which frames find room no call fails and the store holds the log that it
should. At each point of it a truncation or a purge may stop after any of its durable steps, and the
openings behind it after any of theirs: the store comes up with the log before the call or, from the
moment the marker is in place, with the log behind it. -/
theorem truncate_and_purge_crash_atomic (codec : WalCodec) (path : String) (maxSegmentSize : ℕ) :
    ∃ start, Journal.start codec path maxSegmentSize = .ok start ∧
      ∀ j, Execution (Journal.step codec) (Journal.Admits codec) start j →
        j.failed = false ∧ j.store.entries = keyed j.log ∧
        ∀ steps crashes reopenSize,
          (∀ index ≤ u64Max, ∃ s,
            restart codec (after j.store.dir (truncateSteps j.store index) steps)
              crashes reopenSize = .ok s ∧
            s.entries = keyed (if steps < 2 then j.log
              else j.log.filter (fun e => e.index < index))) ∧
          ∀ through ≤ u64Max, ∃ s,
            restart codec (after j.store.dir (purgeSteps j.store through) steps)
              crashes reopenSize = .ok s ∧
            s.entries = keyed (if steps < 2 then j.log
              else j.log.filter (fun e => through < e.index)) := by
  obtain ⟨start, hstart, -, -, -, hkeeps⟩ := start_keeps codec path maxSegmentSize
  refine ⟨start, hstart, fun j hrun => ?_⟩
  have hj : Keeps codec j :=
    hrun.invariant (fun u op hu hop => Keeps.step hu hop) hkeeps
  refine ⟨hj.sound, hj.entries, fun steps crashes reopenSize => ⟨fun index hindex => ?_,
    fun through hfits => ?_⟩⟩
  · obtain ⟨s, segs, hok, hlayout, hlive⟩ := hj.restart_truncate hindex steps crashes reopenSize
    exact ⟨s, hok, by rw [Layout.entries_eq hlayout, hlive]⟩
  · obtain ⟨s, segs, hok, hlayout, hlive⟩ := hj.restart_purge hfits steps crashes reopenSize
    exact ⟨s, hok, by rw [Layout.entries_eq hlayout, hlive]⟩

theorem storable_noOp {index term : ℕ} (hindex : index ≤ u64Max) (hterm : term ≤ u64Max) :
    Storable sampleCodec ⟨index, term, .noOp⟩ := ⟨hindex, hterm, 0, [], rfl, by decide⟩

/-- Two frames are written; the truncation of the second stops behind its `set_len`, and so does the
first opening behind it. -/
theorem truncate_and_purge_crash_atomic_second : ∃ start j,
    Journal.start sampleCodec "log" 1 = .ok start ∧
    Execution (Journal.step sampleCodec) (Journal.Admits sampleCodec) start j ∧
    j.failed = false ∧ j.log = [⟨1, 1, .noOp⟩] ∧ j.store.entries = [(1, ⟨1, 1, .noOp⟩)] := by
  obtain ⟨start, hstart, hlives⟩ := truncate_and_purge_crash_atomic sampleCodec "log" 1
  obtain ⟨start', hstart', hlog, hsegments, hfirst, hkeeps⟩ := start_keeps sampleCodec "log" 1
  obtain rfl : start = start' := Except.ok.inj (hstart.symm.trans hstart')
  have hempty : start.store.entries = [] := by rw [hkeeps.entries, hlog]; rfl
  have hrun : Execution (Journal.step sampleCodec) (Journal.Admits sampleCodec) start
      (replay (Journal.step sampleCodec) start
        [.append [⟨1, 1, .noOp⟩, ⟨2, 1, .noOp⟩], .crashInTruncate 2 3 [(1, 1)] 1]) := by
    have hcut : 2 ≤ u64Max := by decide
    refine replay_execution ⟨⟨⟨fun e he => ?_, by decide⟩, ?_⟩, ⟨hcut, trivial⟩, trivial⟩
    · have hstorable : Storable sampleCodec e := by
        rcases List.mem_pair.mp he with rfl | rfl <;> exact storable_noOp (by decide) (by decide)
      have hpos : 0 < e.index := by
        rcases List.mem_pair.mp he with rfl | rfl <;> decide
      have hlast : start.store.lastIndex = 0 := by rw [FileLogStore.lastIndex, hempty]; rfl
      rw [hlast, hfirst]
      exact ⟨hstorable, hpos, hpos⟩
    · intro e he g hg
      rw [hsegments] at hg
      cases hg
  obtain ⟨hsound, hentries, -⟩ := hlives _ hrun
  have hfinal : (replay (Journal.step sampleCodec) start
      [.append [⟨1, 1, .noOp⟩, ⟨2, 1, .noOp⟩], .crashInTruncate 2 3 [(1, 1)] 1]).log =
      [⟨1, 1, .noOp⟩] := by
    show (start.log ++ [(⟨1, 1, .noOp⟩ : Entry), ⟨2, 1, .noOp⟩]).filter (fun e => e.index < 2) = _
    rw [hlog]
    decide
  rw [hfinal] at hentries
  exact ⟨start, _, hstart, hrun, hsound, hfinal, hentries⟩

/-- An empty log whose segments take one byte, so that every frame begins a segment. -/
def emptyJournal : Journal := ⟨opened sampleCodec (Directory.empty "log") 1 0 none [], [], false⟩

/-- The truncation of the second frame stops between `set_len` and the removal of the segment, and
the second entry is written again. -/
def rewritten : List JournalOp :=
  [.append [⟨1, 1, .noOp⟩, ⟨2, 1, .noOp⟩], .crashInTruncate 2 3 [] 1, .append [⟨2, 2, .noOp⟩]]

/-- The segment that is left empty is opened, and the frame, which is larger than the segment size,
goes to a new segment under the name that is still in use: two segments have one file. A purge up to
the entry before gives the first of them back, and with it the entry that it should keep. -/
theorem purge_deletes_active_segment : ∃ start j,
    Journal.start sampleCodec "log" 1 = .ok start ∧
    Execution (Journal.step sampleCodec) (Journal.Calls sampleCodec) start j ∧
    j.failed = false ∧ j.log = [⟨2, 2, .noOp⟩] ∧ j.store.entries = [] := by
  have hrun : Execution (Journal.step sampleCodec) (Journal.Calls sampleCodec) emptyJournal
      (replay (Journal.step sampleCodec) emptyJournal
        (rewritten ++ [.purgePrefix 1, .reopen 1])) := by
    have hcut : 2 ≤ u64Max := by decide
    have hpurge : 1 ≤ u64Max := by decide
    refine replay_execution ⟨⟨fun e he => ?_, by decide⟩, hcut, ⟨fun e he => ?_, by decide⟩, hpurge,
      trivial, trivial⟩
    · rcases List.mem_pair.mp he with rfl | rfl
      · exact ⟨storable_noOp (by decide) (by decide), by decide +kernel⟩
      · exact ⟨storable_noOp (by decide) (by decide), by decide +kernel⟩
    · rw [List.mem_singleton.mp he]
      exact ⟨storable_noOp (by decide) (by decide), by decide +kernel⟩
  exact ⟨emptyJournal, _, rfl, hrun, by decide +kernel⟩

end CrashAtomicity
