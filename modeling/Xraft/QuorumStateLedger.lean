import Xraft.GuardedExecution
import Xraft.QuorumStateFile

/-! # A ledger of the quorum-state file

Writes of the hard state and of the voter set, failed ones, crashes inside a write, and reopenings.
The ledger keeps what the running store reports and what the file holds; they part when a write
fails behind its rename.
-/
namespace QuorumStateLedger

open ProtocolTypes WriteAheadLog QuorumStateFile GuardedExecution
open SampleCodecs (soloVoters)

/-! ## Readings -/

def defaultHardState : HardState := ⟨0, none, 0⟩

/-- What a store reports; a hard state that was never persisted is the default one. -/
structure Reading where
  hardState : HardState
  voterSet : Option VoterSet
  deriving DecidableEq

def readingOf (s : FileHardStateStore) : Reading := ⟨s.load.getD defaultHardState, s.loadVoterSet⟩

def blank : Reading := ⟨defaultHardState, none⟩

inductive Change
  | hardState (state : HardState)
  | voterSet (vs : VoterSet)

def Change.on (r : Reading) : Change → Reading
  | .hardState state => { r with hardState := state }
  | .voterSet vs => { r with voterSet := some vs }

def write (json : QuorumJson) (s : FileHardStateStore) (fault : Option (WriteStage × String)) :
    Change → FileHardStateStore × Except XRaftError Unit
  | .hardState state => s.persist json state fault
  | .voterSet voterSet => s.persistVoterSet json voterSet fault

/-! ## The process and its ledger -/

inductive QuorumEvent
  | write (change : Change) (fault : Option (WriteStage × String))
  | crash (change : Change) (stage : WriteStage)
  | reopen

inductive Process
  | running (store : FileHardStateStore)
  | stopped (dir : Directory)

def Process.dir : Process → Directory
  | .running s => s.dir
  | .stopped dir => dir

def reopened (json : QuorumJson) (dir : Directory) : Process :=
  match FileHardStateStore.openAt json dir with
  | .ok s => .running s
  | .error _ => .stopped (dir.remove tmpFile)

/-- A stopped process writes nothing. A crash is a write that stops, and the store with it. -/
def Process.step (json : QuorumJson) : Process → QuorumEvent → Process
  | .running s, .write change fault => .running (write json s fault change).1
  | .running s, .crash change stage => .stopped (write json s (some (stage, "")) change).1.dir
  | p, .reopen => reopened json p.dir
  | .stopped dir, _ => .stopped dir

structure Ledger where
  memory : Option Reading
  disk : Reading

/-- A write that completes changes both sides. One that stops changes the disk if it got behind its
rename, and always writes what the store reports for the other value. -/
def Ledger.step (l : Ledger) : QuorumEvent → Ledger
  | .write change none => match l.memory with
    | some m => ⟨some (change.on m), change.on m⟩
    | none => l
  | .write change (some (stage, _)) => match l.memory with
    | some m => ⟨some m, if stage.replaced then change.on m else l.disk⟩
    | none => l
  | .crash change stage => match l.memory with
    | some m => ⟨none, if stage.replaced then change.on m else l.disk⟩
    | none => l
  | .reopen => ⟨some l.disk, l.disk⟩

variable {json : QuorumJson}

/-! ## Records on disk -/

def recordReading (d : OnDiskQuorumState) : Reading :=
  ⟨⟨d.currentTerm, d.votedFor, d.commitIndex⟩, d.voterSet⟩

def Shows (json : QuorumJson) (dir : Directory) (r : Reading) : Prop :=
  dir.read stateFile = none ∧ r = blank ∨ ∃ d, recorded json dir = some d ∧ r = recordReading d

theorem Shows.congr {dir dir' : Directory} {r : Reading} (h : Shows json dir r)
    (hread : dir'.read stateFile = dir.read stateFile) : Shows json dir' r := by
  rcases h with ⟨hnone, hr⟩ | ⟨d, hd, hr⟩
  · exact .inl ⟨hread.trans hnone, hr⟩
  · exact .inr ⟨d, (recorded_congr hread).trans hd, hr⟩

theorem readingOf_ofDisk (dir : Directory) (d : OnDiskQuorumState) :
    readingOf ⟨dir, .ofDisk d⟩ = recordReading d := by
  obtain ⟨term, vote, voters, commit⟩ := d
  by_cases hpersisted : (vote.isSome || decide (0 < term) || decide (0 < commit)) = true
  · simp [readingOf, recordReading, FileHardStateStore.load, FileHardStateStore.loadVoterSet,
      CachedQuorumState.ofDisk, hpersisted]
  · have hfalse := Bool.eq_false_iff.mpr hpersisted
    simp only [Bool.or_eq_false_iff, decide_eq_false_iff_not, not_lt, Nat.le_zero,
      Option.isSome_eq_false_iff, Option.isNone_iff_eq_none] at hfalse
    obtain ⟨⟨rfl, rfl⟩, rfl⟩ := hfalse
    rfl

def Flagged (s : FileHardStateStore) : Prop :=
  s.cached.hardStatePersisted = s.cached.hardState.isSome

theorem recordReading_fromCached {s : FileHardStateStore} (h : Flagged s) :
    recordReading (.fromCached s.cached) = readingOf s := by
  obtain ⟨dir, hardState, voterSet, persisted⟩ := s
  cases hardState with
  | none =>
    obtain rfl : persisted = false := h
    rfl
  | some state =>
    obtain rfl : persisted = true := h
    rfl

theorem openAt_shows {dir : Directory} {r : Reading} (h : Shows json dir r) :
    ∃ s, FileHardStateStore.openAt json dir = .ok s ∧ readingOf s = r ∧ Flagged s ∧
      s.dir.read stateFile = dir.read stateFile := by
  have hread := read_remove_tmp dir
  rcases h with ⟨hnone, rfl⟩ | ⟨d, hd, rfl⟩
  · refine ⟨⟨dir.remove tmpFile, {}⟩, ?_, rfl, rfl, hread⟩
    rw [FileHardStateStore.openAt, hread, hnone]
  · obtain ⟨raw, hraw, hd⟩ := Option.bind_eq_some_iff.mp hd
    obtain ⟨text, htext, hd⟩ := Option.bind_eq_some_iff.mp hd
    have hdecode : json.decode text = .ok d := by
      cases hcase : json.decode text with
      | error e =>
        rw [hcase] at hd
        cases hd
      | ok d' =>
        rw [hcase] at hd
        exact congrArg Except.ok (Option.some.inj hd)
    refine ⟨⟨dir.remove tmpFile, .ofDisk d⟩, ?_, readingOf_ofDisk _ d, ?_, hread⟩
    · rw [FileHardStateStore.openAt, hread, hraw]
      dsimp only
      rw [htext]
      dsimp only
      rw [hdecode]
    · rw [Flagged, CachedQuorumState.ofDisk]
      dsimp only
      split_ifs with hpersisted
      · rw [hpersisted]
        rfl
      · rw [Bool.eq_false_iff.mpr hpersisted]
        rfl

theorem shows_of_openAt {dir : Directory} {s : FileHardStateStore}
    (h : FileHardStateStore.openAt json dir = .ok s) : Shows json s.dir (readingOf s) ∧
    Flagged s := by
  have hshows : ∃ r, Shows json dir r := by
    rw [FileHardStateStore.openAt, read_remove_tmp] at h
    split at h
    · rename_i hnone
      exact ⟨blank, .inl ⟨hnone, rfl⟩⟩
    · rename_i raw hraw
      split at h
      · cases h
      · rename_i text htext
        split at h
        · cases h
        · rename_i d hd
          refine ⟨recordReading d, .inr ⟨d, ?_, rfl⟩⟩
          rw [recorded, hraw, Option.bind_some, htext, Option.bind_some, hd]
          rfl
  obtain ⟨r, hr⟩ := hshows
  obtain ⟨s', hopen, rfl, hflagged, hread⟩ := openAt_shows hr
  obtain rfl : s = s' := Except.ok.inj (h.symm.trans hopen)
  exact ⟨hr.congr hread, hflagged⟩

/-! ## Writes -/

def changed (cached : CachedQuorumState) : Change → CachedQuorumState
  | .hardState state => { cached with hardState := some state, hardStatePersisted := true }
  | .voterSet voterSet => { cached with voterSet := some voterSet }

theorem write_eq (s : FileHardStateStore) (fault : Option (WriteStage × String)) (change : Change) :
    write json s fault change = s.replace json (changed s.cached change) fault := by
  cases change <;> rfl

theorem changed_flagged {s : FileHardStateStore} (h : Flagged s) (dir : Directory)
    (change : Change) : Flagged ⟨dir, changed s.cached change⟩ := by
  cases change with
  | hardState state => rfl
  | voterSet voterSet => exact h

theorem changed_reading (s : FileHardStateStore) (dir : Directory) (change : Change) :
    readingOf ⟨dir, changed s.cached change⟩ = change.on (readingOf s) := by
  cases change <;> rfl

theorem shows_changed {s : FileHardStateStore} (h : Flagged s) {dir : Directory} (change : Change)
    (hread : dir.read stateFile = some (encodeCached json (changed s.cached change))) :
    Shows json dir (change.on (readingOf s)) := by
  refine .inr ⟨_, recorded_of_encoded hread, ?_⟩
  rw [← changed_reading s dir change]
  exact (recordReading_fromCached (changed_flagged h dir change)).symm

/-- A write that stops leaves the cache, and the file too unless it got behind its rename. -/
theorem write_stopped {s : FileHardStateStore} (h : Flagged s) {disk : Reading}
    (hdisk : Shows json s.dir disk) (change : Change) (stage : WriteStage) (e : String) :
    (write json s (some (stage, e)) change).1.cached = s.cached ∧
      Shows json (write json s (some (stage, e)) change).1.dir
        (if stage.replaced then change.on (readingOf s) else disk) := by
  rw [write_eq]
  refine ⟨rfl, ?_⟩
  have hread := read_leaves s.dir (encodeCached json (changed s.cached change)) stage
  cases hstage : stage.replaced with
  | false =>
    rw [hstage] at hread
    exact hdisk.congr hread
  | true =>
    rw [hstage] at hread
    exact shows_changed h change hread

/-! ## The ledger is right -/

structure Tracks (json : QuorumJson) (p : Process) (l : Ledger) : Prop where
  disk : Shows json p.dir l.disk
  memory : match p with
    | .running s => l.memory = some (readingOf s) ∧ Flagged s
    | .stopped _ => l.memory = none

theorem reading_congr {s s' : FileHardStateStore} (h : s'.cached = s.cached) :
    readingOf s' = readingOf s := by
  rw [readingOf, FileHardStateStore.load, FileHardStateStore.loadVoterSet, h]
  rfl

theorem tracks_reopened {dir : Directory} {r : Reading} (h : Shows json dir r) :
    Tracks json (reopened json dir) ⟨some r, r⟩ := by
  obtain ⟨s, hopen, hreading, hflagged, hread⟩ := openAt_shows h
  rw [reopened, hopen]
  exact ⟨h.congr hread, congrArg some hreading.symm, hflagged⟩

theorem Tracks.step {p : Process} {l : Ledger} (h : Tracks json p l) (e : QuorumEvent) :
    Tracks json (p.step json e) (l.step e) := by
  obtain ⟨memory, disk⟩ := l
  cases p with
  | stopped dir =>
    obtain rfl : memory = none := h.memory
    cases e with
    | reopen => exact tracks_reopened h.disk
    | write change fault =>
      cases fault with
      | none => exact h
      | some f => exact h
    | crash change stage => exact h
  | running s =>
    obtain ⟨rfl, hflagged⟩ := h.memory
    have hdisk : Shows json s.dir disk := h.disk
    cases e with
    | reopen => exact tracks_reopened hdisk
    | crash change stage => exact ⟨(write_stopped hflagged hdisk change stage "").2, rfl⟩
    | write change fault =>
      cases fault with
      | none =>
        rw [Process.step, write_eq]
        refine ⟨shows_changed hflagged change (read_renamed s.dir _), ?_, ?_⟩
        · exact congrArg some (changed_reading s _ change).symm
        · exact changed_flagged hflagged _ change
      | some f =>
        obtain ⟨hcached, hshows⟩ := write_stopped hflagged hdisk change f.1 f.2
        refine ⟨hshows, congrArg some (reading_congr hcached).symm, ?_⟩
        rw [Flagged, hcached]
        exact hflagged

/-- From a directory that opens, the store reports the argument of the last completed write of each
value, and a reopening reports that or the argument of a write that was stopped behind its rename. A
write never changes the other value in the store, and one that fails before its rename changes
nothing. -/
theorem quorum_state_follows_ledger (json : QuorumJson) (dir : Directory)
    (start : FileHardStateStore) (hopen : FileHardStateStore.openAt json dir = .ok start)
    (events : List QuorumEvent) :
    let p := replay (Process.step json) (.running start) events
    let l := replay Ledger.step ⟨some (readingOf start), readingOf start⟩ events
    (∃ s, FileHardStateStore.openAt json p.dir = .ok s ∧ readingOf s = l.disk) ∧
      ∀ s, p = .running s →
        l.memory = some (readingOf s) ∧
        (∀ state fault, (s.persist json state fault).1.loadVoterSet = s.loadVoterSet) ∧
        (∀ voterSet fault, (s.persistVoterSet json voterSet fault).1.load = s.load) ∧
        ∀ change stage e, stage.replaced = false →
          readingOf (write json s (some (stage, e)) change).1 = readingOf s ∧
          ∃ s', FileHardStateStore.openAt json (write json s (some (stage, e)) change).1.dir =
            .ok s' ∧ readingOf s' = l.disk := by
  intro p l
  have hstart : Tracks json (.running start) ⟨some (readingOf start), readingOf start⟩ := by
    obtain ⟨hshows, hflagged⟩ := shows_of_openAt hopen
    exact ⟨hshows, rfl, hflagged⟩
  have htracks : Tracks json p l := by
    have hrun (q : Process) (m : Ledger) (h : Tracks json q m) : Tracks json
        (replay (Process.step json) q events) (replay Ledger.step m events) := by
      induction events generalizing q m with
      | nil => exact h
      | cons e rest ih => exact ih _ _ (h.step e)
    exact hrun _ _ hstart
  refine ⟨?_, fun s hs => ?_⟩
  · obtain ⟨s, hs, hreading, -⟩ := openAt_shows htracks.disk
    exact ⟨s, hs, hreading⟩
  · rw [hs] at htracks
    obtain ⟨hmemory, hflagged⟩ := htracks.memory
    refine ⟨hmemory, fun state fault => ?_, fun voterSet fault => ?_,
      fun change stage e hstage => ?_⟩
    · cases fault <;> rfl
    · cases fault <;> rfl
    · obtain ⟨hcached, hshows⟩ := write_stopped hflagged htracks.disk change stage e
      rw [hstage] at hshows
      obtain ⟨s', hopen', hreading, -⟩ := openAt_shows hshows
      exact ⟨reading_congr hcached, s', hopen', hreading⟩

theorem open_empty (json : QuorumJson) (path : String) :
    FileHardStateStore.openAt json (Directory.empty path) =
      .ok ⟨(Directory.empty path).remove tmpFile, {}⟩ :=
  rfl

/-- A vote is persisted, and a crash interrupts the write of the voter set behind its rename. -/
theorem quorum_state_follows_ledger_crash : ∃ start s,
    FileHardStateStore.openAt sampleJson (Directory.empty "state") = .ok start ∧
    FileHardStateStore.openAt sampleJson (replay (Process.step sampleJson) (.running start)
      [.write (.hardState ⟨1, some 2, 0⟩) none, .crash (.voterSet soloVoters) .openDir]).dir =
        .ok s ∧
    readingOf s = ⟨⟨1, some 2, 0⟩, some soloVoters⟩ := by
  obtain ⟨⟨s, hopen, hreading⟩, -⟩ :=
    quorum_state_follows_ledger sampleJson (Directory.empty "state") _ (open_empty _ _)
    [.write (.hardState ⟨1, some 2, 0⟩) none, .crash (.voterSet soloVoters) .openDir]
  exact ⟨_, s, open_empty _ _, hopen, hreading⟩

/-- A write that fails on the directory returns an error and leaves the store as it was, and yet a
reopening reports its argument. -/
theorem failed_write_is_read_back : ∃ start s₁ s₂ s₃ e,
    FileHardStateStore.openAt sampleJson (Directory.empty "state") = .ok start ∧
    start.persist sampleJson ⟨1, some 2, 0⟩ none = (s₁, .ok ()) ∧
    s₁.persist sampleJson ⟨2, some 3, 0⟩ (some (.syncDir, "EIO")) = (s₂, .error e) ∧
    s₂.load = some ⟨1, some 2, 0⟩ ∧
    FileHardStateStore.openAt sampleJson s₂.dir = .ok s₃ ∧
    (readingOf s₃).hardState = ⟨2, some 3, 0⟩ := by
  obtain ⟨hshows, hflagged⟩ := shows_of_openAt (open_empty sampleJson "state")
  have hstart : Tracks sampleJson (.running _) ⟨some _, _⟩ := ⟨hshows, rfl, hflagged⟩
  have htracks := (hstart.step (.write (.hardState ⟨1, some 2, 0⟩) none)).step
    (.write (.hardState ⟨2, some 3, 0⟩) (some (.syncDir, "EIO")))
  obtain ⟨s₃, hopen, hreading, -⟩ := openAt_shows htracks.disk
  exact ⟨_, _, _, s₃, _, open_empty _ _, rfl, rfl, rfl, hopen, congrArg Reading.hardState hreading⟩

end QuorumStateLedger
