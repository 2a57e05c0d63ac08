import Xraft.FallibleSteps
import Xraft.SnapshotRetention

/-! # Opening a snapshot directory

The opening of a `FileSnapshotStore` on a disk that may refuse any read, removal or renaming, over
directories of snapshot files with any names and any content. The newest valid snapshot is followed
through the scan, the check, the clean-up and the pruning.
-/
namespace SnapshotDirectories

open ProtocolTypes DurableStores DecimalText WriteAheadLog SnapshotFiles SnapshotStores
open SnapshotRetention FallibleSteps FileSnapshotStore

/-! ## A disk that may fail -/

inductive FileOp
  | read (name : FileName)
  | remove (name : FileName)
  | rename (source target : FileName)
  deriving DecidableEq

/-- The error text with which the system refuses an operation, or nothing when it goes through. A
refused operation changes nothing. -/
abbrev Disk := FileOp → Option String

def Disk.Sound (disk : Disk) : Prop := ∀ op, disk op = none

structure Abandoned where
  dir : Directory
  error : XRaftError

def refusal (d : Directory) (context : String) (name : FileName) (e : String) : Abandoned :=
  ⟨d, .storage (context ++ d.display name ++ ": " ++ e)⟩

def removeOn (disk : Disk) (context : String) (d : Directory) (name : FileName) :
    Except Abandoned Directory :=
  if (d.read name).isSome then
    match disk (.remove name) with
    | some e => .error (refusal d context name e)
    | none => .ok (d.remove name)
  else .ok d

def renameOn (disk : Disk) (d : Directory) (source target : FileName) :
    Except Abandoned Directory :=
  match disk (.rename source target) with
  | some e => .error (refusal d "" source e)
  | none => .ok (d.rename source target)

/-- The clean-up only warns of a file that it cannot remove. -/
def removeOrWarn (disk : Disk) (d : Directory) (name : FileName) : Directory :=
  match disk (.remove name) with
  | some _ => d
  | none => d.remove name

def settleBackupOn (disk : Disk) (d : Directory) (name : FileName) : Except Abandoned Directory :=
  if backupExt.reverse <+: name.reverse then
    let original := name.take (name.length - ".bak".length)
    if (d.read original).isSome then .ok (removeOrWarn disk d name) else renameOn disk d name
      original
  else .ok d

def recoverOn (disk : Disk) (d : Directory) (entries : List FileName) :
    Except Abandoned Directory :=
  let cleaned := (entries.filter (hasExtension "tmp".toList)).foldl (removeOrWarn disk) d
  entries.foldlM (settleBackupOn disk) cleaned

/-- A file that cannot be read counts as corrupt. -/
def readMetaOn (disk : Disk) (codec : SnapshotCodec) (d : Directory) (name : FileName) :
    Except XRaftError StoredMeta :=
  match disk (.read name) with
  | some e => .error (.storage (d.display name ++ ": " ++ e))
  | none => readMeta codec d name

def Scan.saw (s : Scan) (key : ℕ × ℕ) : Scan :=
  { s with
    highestFname := if s.highestFname.all (fun h => keyLt h key) then some key else s.highestFname }

def visitOn (disk : Disk) (codec : SnapshotCodec) (s : Scan) (name : FileName) :
    Except Abandoned Scan :=
  match parseSnapshotFilename name with
  | none => .ok s
  | some (term, index) =>
    let seen := Scan.saw s (index, term)
    match readMetaOn disk codec s.dir name with
    | .error _ => .ok (seen.skip (index, term) name)
    | .ok metadata =>
      if metadata.lastIncludedTerm ≠ term ∨ metadata.lastIncludedIndex ≠ index then
        .ok (seen.skip (index, term) name)
      else
        let canonical := snapshotFilename term index
        if name = canonical then .ok { seen with index := s.index ++ [metadata] }
        else if (s.dir.read canonical).isSome then do
          let dir ← removeOn disk "failed to remove non-canonical duplicate snapshot " s.dir name
          .ok { seen with dir := dir }
        else do
          let dir ← renameOn disk s.dir name canonical
          .ok { seen with dir := dir, index := s.index ++ [metadata] }

def dedupeOn (disk : Disk) :
    List StoredMeta → List ℕ → Directory → Except Abandoned (List StoredMeta × Directory)
  | [], _, d => .ok ([], d)
  | metadata :: rest, seenIndices, d =>
    if metadata.lastIncludedIndex ∈ seenIndices then do
      let dir ← removeOn disk "failed to remove stale same-index snapshot " d
        (snapshotPathFromMeta metadata)
      dedupeOn disk rest seenIndices dir
    else do
      let (keep, dir) ← dedupeOn disk rest (metadata.lastIncludedIndex :: seenIndices) d
      .ok (metadata :: keep, dir)

def scanOn (disk : Disk) (codec : SnapshotCodec) (d : Directory) (entries : List FileName) :
    Except Abandoned Scan :=
  (entries.filter (fun name =>
    hasExtension snapshotExt name && (parseSnapshotFilename name).isSome)).foldlM
    (visitOn disk codec) ⟨d, [], none, [], []⟩

def rebuildIndexOn (disk : Disk) (codec : SnapshotCodec) (s : FileSnapshotStore)
    (entries : List FileName) : Except Abandoned FileSnapshotStore := do
  let scan ← scanOn disk codec s.dir entries
  let index := scan.index.mergeSort newestFirst
  match scan.highestFname.filter (fun highest => highest ∈ scan.skippedKeys &&
      !index.head?.any (fun metadata => !keyLt (keyOf metadata) highest)) with
  | some highest =>
    .error ⟨scan.dir, .storage
      (s!"latest snapshot (term {highest.2}, index {highest.1}) is corrupt or has " ++
      "header/filename mismatch; refusing to fall back to older snapshot")⟩
  | none => do
    let (keep, dir) ← dedupeOn disk index [] scan.dir
    let cleaned ← scan.corruptPaths.foldlM
      (removeOn disk "failed to remove corrupt snapshot file ") dir
    .ok { s with dir := cleaned, index := keep }

def pruneLoopOn (disk : Disk) : ℕ → FileSnapshotStore → Except Abandoned FileSnapshotStore
  | 0, s => .ok s
  | fuel + 1, s =>
    if s.maxRetained < s.index.length then
      match s.index.getLast? with
      | some old => do
        let dir ← removeOn disk "" s.dir (snapshotPathFromMeta old)
        pruneLoopOn disk fuel { s with dir := dir, index := s.index.dropLast }
      | none => .ok s
    else .ok s

def pruneOn (disk : Disk) (s : FileSnapshotStore) : Except Abandoned FileSnapshotStore :=
  if s.maxRetained = 0 then .ok s else pruneLoopOn disk s.index.length s

def openOn (disk : Disk) (codec : SnapshotCodec) (d : Directory) (maxRetained : ℕ)
    (listed relisted : List FileName) : Except Abandoned FileSnapshotStore := do
  let recovered ← recoverOn disk d listed
  let rebuilt ← rebuildIndexOn disk codec ⟨recovered, [], maxRetained⟩ relisted
  pruneOn disk rebuilt

def leftBehind : Except Abandoned FileSnapshotStore → Directory
  | .ok s => s.dir
  | .error a => a.dir

/-! ## On a sound disk -/

theorem remove_missing {d : Directory} {name : FileName} (h : d.read name = none) :
    d.remove name = d := by
  have hall : OrderedMaps.erase name d.files = d.files := by
    rw [OrderedMaps.erase, List.filter_eq_self]
    intro p hp
    simp only [ne_eq, decide_eq_true_eq]
    intro heq
    have hread : d.read p.1 = some p.2 := OrderedMaps.lookup_of_mem d.sorted hp
    rw [heq, h] at hread
    cases hread
  cases d
  simp only [Directory.remove] at hall ⊢
  simp only [hall]

section Sound

variable {disk : Disk} (hdisk : disk.Sound)

include hdisk

theorem removeOn_sound (context : String) (d : Directory) (name : FileName) :
    removeOn disk context d name = .ok (d.remove name) := by
  rw [removeOn, hdisk]
  split_ifs with h
  · rfl
  · rw [remove_missing (Option.not_isSome_iff_eq_none.mp h)]

theorem renameOn_sound (d : Directory) (source target : FileName) :
    renameOn disk d source target = .ok (d.rename source target) := by
  rw [renameOn, hdisk]

theorem removeOrWarn_sound (d : Directory) (name : FileName) :
    removeOrWarn disk d name = d.remove name := by
  rw [removeOrWarn, hdisk]

theorem recoverOn_sound (d : Directory) (entries : List FileName) :
    recoverOn disk d entries = .ok (recoverIncompleteWrites d entries) := by
  have hwarn : removeOrWarn disk = Directory.remove :=
    funext fun d => funext fun name => removeOrWarn_sound hdisk d name
  rw [recoverOn, hwarn]
  refine foldlM_ok (fun d name => ?_) _ _
  rw [settleBackupOn, settleBackup, hwarn]
  dsimp only
  split_ifs
  · rfl
  · rw [renameOn_sound hdisk]
  · rfl

theorem visitOn_sound (codec : SnapshotCodec) (s : Scan) (name : FileName) :
    visitOn disk codec s name = .ok (s.visit codec name) := by
  have hread : readMetaOn disk codec s.dir name = readMeta codec s.dir name := by
    rw [readMetaOn, hdisk]
  rw [visitOn, Scan.visit, hread]
  cases parseSnapshotFilename name with
  | none => rfl
  | some key =>
    dsimp only
    cases readMeta codec s.dir name with
    | error e => rfl
    | ok metadata =>
      dsimp only
      by_cases hheader : metadata.lastIncludedTerm ≠ key.1 ∨ metadata.lastIncludedIndex ≠ key.2
      · rw [if_pos hheader, if_pos hheader]
        rfl
      · rw [if_neg hheader, if_neg hheader, removeOn_sound hdisk, renameOn_sound hdisk]
        by_cases hname : name = snapshotFilename key.1 key.2
        · rw [if_pos hname, if_pos hname]
          rfl
        · rw [if_neg hname, if_neg hname]
          cases (s.dir.read (snapshotFilename key.1 key.2)).isSome <;> rfl

theorem dedupeOn_sound (metas : List StoredMeta) (seenIndices : List ℕ) (d : Directory) :
    dedupeOn disk metas seenIndices d = .ok (dedupe metas seenIndices d) := by
  induction metas generalizing seenIndices d with
  | nil => rfl
  | cons metadata rest ih =>
    rw [dedupeOn, dedupe]
    split_ifs
    · rw [removeOn_sound hdisk]
      exact ih _ _
    · rw [ih]
      rfl

theorem pruneLoopOn_sound (fuel : ℕ) (s : FileSnapshotStore) :
    pruneLoopOn disk fuel s = .ok (pruneLoop fuel s) := by
  induction fuel generalizing s with
  | zero => rfl
  | succ fuel ih =>
    rw [pruneLoopOn, pruneLoop]
    split_ifs
    · cases s.index.getLast? with
      | none => rfl
      | some old =>
        dsimp only
        rw [removeOn_sound hdisk]
        exact ih _
    · rfl

theorem rebuildIndexOn_sound (codec : SnapshotCodec) (s : FileSnapshotStore)
    (entries : List FileName) :
    (rebuildIndexOn disk codec s entries).mapError Abandoned.error =
      rebuildIndex codec s entries := by
  unfold rebuildIndexOn rebuildIndex scanOn
  dsimp only
  rw [foldlM_ok (visitOn_sound hdisk codec)]
  generalize (entries.filter _).foldl _ _ = scan
  simp only [dedupeOn_sound hdisk, foldlM_ok (removeOn_sound hdisk _), bind, Except.bind]
  generalize scan.highestFname.filter _ = highest
  cases highest <;> rfl

/-- On a disk without faults this is the opening of the store. -/
theorem openOn_sound (codec : SnapshotCodec) (d : Directory) (maxRetained : ℕ)
    (listed relisted : List FileName) :
    (openOn disk codec d maxRetained listed relisted).mapError Abandoned.error =
      openWithRetention codec d maxRetained listed relisted := by
  have hprune (s : FileSnapshotStore) : pruneOn disk s = .ok s.prune := by
    rw [pruneOn, prune]
    split_ifs
    · rfl
    · exact pruneLoopOn_sound hdisk _ _
  rw [openOn, recoverOn_sound hdisk, openWithRetention, ← rebuildIndexOn_sound hdisk]
  simp only [hprune, bind, Except.bind]
  generalize rebuildIndexOn disk codec _ relisted = rebuilt
  cases rebuilt <;> rfl

end Sound

/-! ## Valid files -/

def keyOfName (name : FileName) : Option (ℕ × ℕ) := (parseSnapshotFilename name).map Prod.swap

def canonical (key : ℕ × ℕ) : FileName := snapshotFilename key.2 key.1

theorem keyOfName_le {name : FileName} {key : ℕ × ℕ} (h : keyOfName name = some key) :
    key.1 ≤ u64Max ∧ key.2 ≤ u64Max := by
  obtain ⟨⟨term, index⟩, hparse, rfl⟩ := Option.map_eq_some_iff.mp h
  unfold parseSnapshotFilename at hparse
  dsimp only at hparse
  split at hparse
  · cases hparse
  · split at hparse
    · cases hparse
    · split at hparse
      · rename_i hterm hindex
        cases hparse
        exact ⟨parseUnsigned_le hindex, parseUnsigned_le hterm⟩
      · cases hparse

theorem keyOfName_canonical {key : ℕ × ℕ} (h : key.1 ≤ u64Max ∧ key.2 ≤ u64Max) :
    keyOfName (canonical key) = some key := by
  rw [keyOfName, canonical, parse_filename h.2 h.1]
  rfl

theorem canonical_ne {name : FileName} {key other : ℕ × ℕ} (h : keyOfName name = some key)
    (hne : key ≠ other) (hother : other.1 ≤ u64Max ∧ other.2 ≤ u64Max) :
    name ≠ canonical other := by
  intro heq
  rw [heq, keyOfName_canonical hother] at h
  exact hne (Option.some.inj h).symm

theorem path_eq (m : StoredMeta) : snapshotPathFromMeta m = canonical (keyOf m) := rfl

variable {disk : Disk} {codec : SnapshotCodec} {d : Directory} {key : ℕ × ℕ}

def Good (codec : SnapshotCodec) (key : ℕ × ℕ) (bytes : Bytes) : Prop :=
  ∃ metadata, codec.readMetaFromFile bytes = .ok metadata ∧ keyOf metadata = key

structure ValidFile (codec : SnapshotCodec) (d : Directory) (key : ℕ × ℕ) (name : FileName)
    (bytes : Bytes) : Prop where
  read : d.read name = some bytes
  extension : hasExtension snapshotExt name = true
  named : keyOfName name = some key
  good : Good codec key bytes

def HasValid (codec : SnapshotCodec) (d : Directory) (key : ℕ × ℕ) : Prop :=
  ∃ name bytes, ValidFile codec d key name bytes

theorem readMeta_length {bytes : Bytes} {metadata : StoredMeta}
    (h : codec.readMetaFromFile bytes = .ok metadata) : bytes.length ≤ u64Max := by
  simp only [SnapshotCodec.readMetaFromFile, guard_eq_ok, bind_eq_ok, okOr_eq_ok,
    optionBind_eq_some, checkedAdd_eq_some] at h
  obtain ⟨_, _, _, ⟨_, ⟨_, ⟨_, _, _⟩, _⟩, hbound, rfl⟩, hlen, _⟩ := h
  rw [not_not.mp hlen]
  exact hbound

theorem decode_of_readMeta {bytes : Bytes} {metadata : StoredMeta}
    (h : codec.readMetaFromFile bytes = .ok metadata) :
    codec.decodeSnapshot bytes = .ok (metadata, payloadOf bytes) := by
  have hlen := readMeta_length h
  exact (SnapshotCodec.decodeSnapshot_iff hlen).mpr
    ((SnapshotCodec.readMetaFromFile_iff hlen).mp h)

theorem extension_canonical (key : ℕ × ℕ) : hasExtension snapshotExt (canonical key) = true := by
  rw [hasExtension, canonical, splitExtension_filename]
  simp

/-! ## One visit -/

inductive Visited (disk : Disk) (codec : SnapshotCodec) (s : Scan) (name : FileName) (key : ℕ × ℕ) :
    Except Abandoned Scan → Prop
  | skipped (h : disk (.read name) ≠ none ∨ ∀ bytes, s.dir.read name = some bytes →
      ¬Good codec key bytes) :
    Visited disk codec s name key (.ok ((Scan.saw s key).skip key name))
  | indexed {bytes : Bytes} {metadata : StoredMeta} (hread : s.dir.read name = some bytes)
      (hmeta : codec.readMetaFromFile bytes = .ok metadata) (hkey : keyOf metadata = key)
      (hname : name = canonical key) :
    Visited disk codec s name key (.ok { Scan.saw s key with index := s.index ++ [metadata] })
  | dropped (hname : name ≠ canonical key) (hthere : (s.dir.read (canonical key)).isSome) :
    Visited disk codec s name key (.ok { Scan.saw s key with dir := s.dir.remove name })
  | renamed {bytes : Bytes} {metadata : StoredMeta} (hread : s.dir.read name = some bytes)
      (hmeta : codec.readMetaFromFile bytes = .ok metadata) (hkey : keyOf metadata = key)
      (hname : name ≠ canonical key) (habsent : s.dir.read (canonical key) = none) :
    Visited disk codec s name key (.ok { Scan.saw s key with
      dir := s.dir.rename name (canonical key)
      index := s.index ++ [metadata] })
  | refused {op : FileOp} (hop : disk op ≠ none) {error : XRaftError} :
    Visited disk codec s name key (.error ⟨s.dir, error⟩)

theorem visitOn_cases {s : Scan} {name : FileName} (h : keyOfName name = some key) :
    Visited disk codec s name key (visitOn disk codec s name) := by
  obtain ⟨⟨term, index⟩, hparse, rfl⟩ := Option.map_eq_some_iff.mp h
  rw [visitOn, hparse]
  dsimp only
  cases hmeta : readMetaOn disk codec s.dir name with
  | error e =>
    refine .skipped ?_
    by_cases hdisk : disk (.read name) = none
    · right
      rintro bytes hread ⟨metadata, hgood, _⟩
      rw [readMetaOn, hdisk] at hmeta
      simp only [readMeta, hread, hgood] at hmeta
      cases hmeta
    · exact .inl hdisk
  | ok metadata =>
    obtain ⟨bytes, hread, hgood⟩ : ∃ bytes, s.dir.read name = some bytes ∧
        codec.readMetaFromFile bytes = .ok metadata := by
      rw [readMetaOn] at hmeta
      split at hmeta
      · cases hmeta
      · rw [readMeta] at hmeta
        split at hmeta
        · rename_i bytes hread
          exact ⟨bytes, hread, hmeta⟩
        · cases hmeta
    dsimp only
    by_cases hheader : metadata.lastIncludedTerm ≠ term ∨ metadata.lastIncludedIndex ≠ index
    · rw [if_pos hheader]
      refine .skipped (.inr ?_)
      rintro bytes' hread' ⟨metadata', hgood', hkey⟩
      cases hread.symm.trans hread'
      cases hgood.symm.trans hgood'
      have hboth : metadata.lastIncludedIndex = index ∧ metadata.lastIncludedTerm = term := by
        simpa [keyOf] using hkey
      rcases hheader with hterm | hindex
      · exact hterm hboth.2
      · exact hindex hboth.1
    · rw [if_neg hheader]
      push Not at hheader
      have hkey : keyOf metadata = (index, term) := Prod.ext hheader.2 hheader.1
      by_cases hname : name = snapshotFilename term index
      · rw [if_pos hname]
        exact .indexed hread hgood hkey hname
      · rw [if_neg hname]
        by_cases hthere : (s.dir.read (snapshotFilename term index)).isSome
        · rw [if_pos hthere, removeOn, hread]
          cases hdisk : disk (.remove name) with
          | none => exact .dropped hname hthere
          | some e => exact .refused (hdisk ▸ Option.some_ne_none e)
        · rw [if_neg hthere, renameOn]
          cases hdisk : disk (.rename name (snapshotFilename term index)) with
          | none =>
            exact .renamed hread hgood hkey hname (Option.not_isSome_iff_eq_none.mp hthere)
          | some e => exact .refused (hdisk ▸ Option.some_ne_none e)

/-! ## The scan -/

theorem keyLt_iff {a b : ℕ × ℕ} : keyLt a b = true ↔ a.1 < b.1 ∨ (a.1 = b.1 ∧ a.2 < b.2) := by
  rw [keyLt, decide_eq_true_iff]

structure Ranked (d : Directory) (todo : List FileName) (s : Scan) : Prop where
  top : ∀ name k, (d.read name).isSome → name ∉ todo → keyOfName name = some k →
    ∃ highest, s.highestFname = some highest ∧ ¬keyLt highest k
  named : ∀ highest, s.highestFname = some highest →
    ∃ name, (d.read name).isSome ∧ keyOfName name = some highest
  index : ∀ m ∈ s.index, ∃ name, (d.read name).isSome ∧ keyOfName name = some (keyOf m)

theorem Ranked.step {name : FileName} {rest : List FileName} {s s' : Scan} {k : ℕ × ℕ}
    (h : Ranked d (name :: rest) s) (hread : (d.read name).isSome) (hkey : keyOfName name = some k)
    (htop : s'.highestFname = (Scan.saw s k).highestFname)
    (hindex : ∀ m ∈ s'.index, m ∈ s.index ∨ keyOf m = k) : Ranked d rest s' := by
  rw [Scan.saw] at htop
  dsimp only at htop
  refine ⟨fun other k' hother hrest hk' => ?_, fun highest hhigh => ?_, fun m hm => ?_⟩
  · by_cases hall : s.highestFname.all (fun h => keyLt h k)
    · rw [if_pos hall] at htop
      refine ⟨k, htop, ?_⟩
      by_cases heq : other = name
      · cases (heq ▸ hk').symm.trans hkey
        simp [keyLt_iff]
      · obtain ⟨highest, hhigh, hle⟩ := h.top other k' hother
          (fun hmem => (List.mem_cons.mp hmem).elim heq hrest) hk'
        rw [hhigh, Option.all_some] at hall
        simp only [keyLt_iff] at hall hle ⊢
        omega
    · rw [if_neg hall] at htop
      rw [htop]
      by_cases heq : other = name
      · cases (heq ▸ hk').symm.trans hkey
        cases hhigh : s.highestFname with
        | none => simp [hhigh] at hall
        | some highest => exact ⟨highest, rfl, by simpa [hhigh] using hall⟩
      · exact h.top other k' hother (fun hmem => (List.mem_cons.mp hmem).elim heq hrest) hk'
  · rw [htop] at hhigh
    split_ifs at hhigh
    · cases hhigh
      exact ⟨name, hread, hkey⟩
    · exact h.named highest hhigh
  · rcases hindex m hm with hm | hm
    · exact h.index m hm
    · exact ⟨name, hread, hm ▸ hkey⟩

def Indexed (s : Scan) (key : ℕ × ℕ) : Prop := ∃ m ∈ s.index, keyOf m = key

/-- Where the files of one key are, with the names in `todo` still to be visited. -/
structure Followed (disk : Disk) (codec : SnapshotCodec) (d : Directory) (key : ℕ × ℕ)
    (todo : List FileName) (s : Scan) : Prop where
  nodup : todo.Nodup
  listed : ∀ name ∈ todo, (d.read name).isSome
  untouched : ∀ name ∈ todo, s.dir.read name = d.read name
  origin : (s.dir.read (canonical key)).isSome → (d.read (canonical key)).isSome ∨ Indexed s key
  once : s.index.Pairwise (fun a b => ¬(keyOf a = key ∧ keyOf b = key))
  indexed : ∀ m ∈ s.index, keyOf m = key → ∃ name bytes, ValidFile codec d key name bytes ∧
    s.dir.read (canonical key) = some bytes ∧ codec.readMetaFromFile bytes = .ok m
  settled : Indexed s key → canonical key ∉ todo ∧ canonical key ∉ s.corruptPaths
  accounted : ∀ name, (d.read name).isSome → keyOfName name = some key → name ∉ todo →
    Indexed s key ∨ name ∈ s.corruptPaths ∨ (name ≠ canonical key ∧ (d.read (canonical key)).isSome)
  corrupt : ∀ name ∈ s.corruptPaths, name ∉ todo ∧ s.dir.read name = d.read name ∧
    (d.read name).isSome
  fault : ∀ name ∈ s.corruptPaths, keyOfName name = some key → key ∈ s.skippedKeys ∧
    (disk (.read name) ≠ none ∨ ∀ bytes, d.read name = some bytes → ¬Good codec key bytes)
  kept : (d.read (canonical key)).isSome → s.dir.read (canonical key) = d.read (canonical key)

/-- Until the canonical file of a key is settled, a valid file of the key stays where it is. -/
theorem Followed.survives {todo : List FileName} {s : Scan} (h : Followed disk codec d key todo s)
    (hbound : key.1 ≤ u64Max ∧ key.2 ≤ u64Max)
    (hcanon : ∀ bytes, d.read (canonical key) = some bytes → Good codec key bytes)
    (hvalid : HasValid codec d key) : HasValid codec s.dir key := by
  have hstays {name : FileName} {bytes : Bytes} (hv : ValidFile codec d key name bytes)
      (hread : s.dir.read name = d.read name) : HasValid codec s.dir key :=
    ⟨name, bytes, hread.trans hv.read, hv.extension, hv.named, hv.good⟩
  have hext := extension_canonical key
  by_cases hin : Indexed s key
  · obtain ⟨m, hm, hkey⟩ := hin
    obtain ⟨_, bytes, hv, hread, _⟩ := h.indexed m hm hkey
    exact ⟨canonical key, bytes, hread, hext, keyOfName_canonical hbound, hv.good⟩
  · have hplace {name : FileName} {bytes : Bytes} (hv : ValidFile codec d key name bytes)
        (hgone : ¬(name ≠ canonical key ∧ (d.read (canonical key)).isSome)) :
        HasValid codec s.dir key := by
      by_cases htodo : name ∈ todo
      · exact hstays hv (h.untouched name htodo)
      · rcases h.accounted name (hv.read ▸ rfl) hv.named htodo with hacc | hacc | hacc
        · exact absurd hacc hin
        · exact hstays hv (h.corrupt name hacc).2.1
        · exact absurd hacc hgone
    obtain ⟨name, bytes, hv⟩ := hvalid
    by_cases hgone : name ≠ canonical key ∧ (d.read (canonical key)).isSome
    · obtain ⟨bytes', hread⟩ := Option.isSome_iff_exists.mp hgone.2
      have hv' : ValidFile codec d key (canonical key) bytes' :=
        ⟨hread, hext, keyOfName_canonical hbound, hcanon bytes' hread⟩
      exact hplace hv' fun hne => hne.1 rfl
    · exact hplace hv hgone

section Step

variable {name : FileName} {rest : List FileName} {s : Scan} {k : ℕ × ℕ}

theorem Followed.skip (h : Followed disk codec d key (name :: rest) s)
    (hk : keyOfName name = some k) (hbad : disk (.read name) ≠ none ∨ ∀ bytes,
      s.dir.read name = some bytes → ¬Good codec k bytes) :
    Followed disk codec d key rest ((Scan.saw s k).skip k name) := by
  obtain ⟨hout, hnodup⟩ := List.nodup_cons.mp h.nodup
  have hsame := h.untouched name List.mem_cons_self
  have hthere := h.listed name List.mem_cons_self
  rw [hsame] at hbad
  refine ⟨hnodup, fun n hn => h.listed n (List.mem_cons_of_mem _ hn),
    fun n hn => h.untouched n (List.mem_cons_of_mem _ hn), h.origin, h.once, h.indexed, ?_,
    ?_, ?_, ?_, h.kept⟩
  · intro hin
    obtain ⟨htodo, hcorrupt⟩ := h.settled hin
    refine ⟨fun hmem => htodo (List.mem_cons_of_mem _ hmem), fun hmem => ?_⟩
    rcases List.mem_append.mp hmem with hmem | hmem
    · exact hcorrupt hmem
    · exact htodo (List.mem_singleton.mp hmem ▸ List.mem_cons_self)
  · intro other hother hkey hnot
    by_cases heq : other = name
    · exact .inr (.inl (List.mem_append_right _ (heq ▸ List.mem_cons_self)))
    · refine (h.accounted other hother hkey fun hmem => ?_).imp id
        (Or.imp (fun hmem => List.mem_append_left _ hmem) id)
      exact (List.mem_cons.mp hmem).elim heq hnot
  · intro other hmem
    rcases List.mem_append.mp hmem with hmem | hmem
    · obtain ⟨htodo, hfacts⟩ := h.corrupt other hmem
      exact ⟨fun hin => htodo (List.mem_cons_of_mem _ hin), hfacts⟩
    · cases List.mem_singleton.mp hmem
      exact ⟨hout, hsame, hthere⟩
  · intro other hmem hkey
    rcases List.mem_append.mp hmem with hmem | hmem
    · obtain ⟨hskipped, hfacts⟩ := h.fault other hmem hkey
      exact ⟨List.mem_cons_of_mem _ hskipped, hfacts⟩
    · cases List.mem_singleton.mp hmem
      cases hk.symm.trans hkey
      exact ⟨List.mem_cons_self, hbad⟩

theorem Followed.move (h : Followed disk codec d key (name :: rest) s) {s' : Scan}
    (hpaths : s'.corruptPaths = s.corruptPaths) (hkeys : s'.skippedKeys = s.skippedKeys)
    (hstay : ∀ n, n ≠ name → (s.dir.read n).isSome → s'.dir.read n = s.dir.read n)
    (hgrow : Indexed s key → Indexed s' key)
    (horigin : (s'.dir.read (canonical key)).isSome →
      (s.dir.read (canonical key)).isSome ∨ Indexed s' key)
    (honce : s'.index.Pairwise (fun a b => ¬(keyOf a = key ∧ keyOf b = key)))
    (hindexed : ∀ m ∈ s'.index, keyOf m = key → ∃ name bytes, ValidFile codec d key name bytes ∧
      s'.dir.read (canonical key) = some bytes ∧ codec.readMetaFromFile bytes = .ok m)
    (hsettled : Indexed s' key → canonical key ∉ rest ∧ canonical key ∉ s.corruptPaths)
    (hown : keyOfName name = some key →
      Indexed s' key ∨ (name ≠ canonical key ∧ (d.read (canonical key)).isSome))
    (hkept : (s.dir.read (canonical key)).isSome →
      s'.dir.read (canonical key) = s.dir.read (canonical key)) :
    Followed disk codec d key rest s' := by
  obtain ⟨hout, hnodup⟩ := List.nodup_cons.mp h.nodup
  refine ⟨hnodup, fun n hn => h.listed n (List.mem_cons_of_mem _ hn), ?_, ?_, honce,
    hindexed, ?_, ?_, ?_, ?_, ?_⟩
  · intro n hn
    have hsame := h.untouched n (List.mem_cons_of_mem _ hn)
    rw [hstay n (fun heq => hout (heq ▸ hn)) (hsame ▸ h.listed n (List.mem_cons_of_mem _ hn)),
      hsame]
  · intro hread
    rcases horigin hread with hold | hin
    · exact (h.origin hold).imp id hgrow
    · exact .inr hin
  · rw [hpaths]
    exact hsettled
  · intro other hother hkey hnot
    rw [hpaths]
    by_cases heq : other = name
    · rw [heq] at hkey ⊢
      exact (hown hkey).imp id .inr
    · exact (h.accounted other hother hkey
        fun hmem => (List.mem_cons.mp hmem).elim heq hnot).imp hgrow id
  · intro n hn
    rw [hpaths] at hn
    obtain ⟨htodo, hsame, hthere⟩ := h.corrupt n hn
    refine ⟨fun hmem => htodo (List.mem_cons_of_mem _ hmem), ?_, hthere⟩
    rw [hstay n (fun heq => htodo (heq ▸ List.mem_cons_self)) (hsame ▸ hthere), hsame]
  · intro n hn hkey
    rw [hpaths] at hn
    rw [hkeys]
    exact h.fault n hn hkey
  · intro hthere
    have hsame := h.kept hthere
    rw [hkept (hsame ▸ hthere), hsame]

theorem once_append {l : List StoredMeta} {metadata : StoredMeta}
    (h : l.Pairwise (fun a b => ¬(keyOf a = key ∧ keyOf b = key)))
    (hnew : keyOf metadata = key → ∀ m ∈ l, keyOf m ≠ key) :
    (l ++ [metadata]).Pairwise (fun a b => ¬(keyOf a = key ∧ keyOf b = key)) := by
  refine List.pairwise_append.mpr ⟨h, List.pairwise_singleton _ _, ?_⟩
  rintro a ha b hb ⟨hka, hkb⟩
  cases List.mem_singleton.mp hb
  exact hnew hkb a ha hka

theorem Followed.index (h : Followed disk codec d key (name :: rest) s)
    (hext : hasExtension snapshotExt name = true) (hk : keyOfName name = some k) {bytes : Bytes}
    {metadata : StoredMeta} (hread : s.dir.read name = some bytes)
    (hmeta : codec.readMetaFromFile bytes = .ok metadata) (hkey : keyOf metadata = k)
    (hname : name = canonical k) :
    Followed disk codec d key rest { Scan.saw s k with index := s.index ++ [metadata] } := by
  have hout := (List.nodup_cons.mp h.nodup).1
  have hnew (heq : keyOf metadata = key) : name = canonical key := by rw [hname, ← hkey, heq]
  refine h.move rfl rfl (fun n _ _ => rfl) ?_ .inl ?_ ?_ ?_ ?_ (fun _ => rfl)
  · rintro ⟨m, hm, hmk⟩
    exact ⟨m, List.mem_append_left _ hm, hmk⟩
  · refine once_append h.once fun heq m hm hmk => ?_
    exact (h.settled ⟨m, hm, hmk⟩).1 (hnew heq ▸ List.mem_cons_self)
  · intro m hm hmk
    rcases List.mem_append.mp hm with hm | hm
    · exact h.indexed m hm hmk
    · cases List.mem_singleton.mp hm
      refine ⟨name, bytes, ⟨?_, hext, ?_, metadata, hmeta, hmk⟩, ?_, hmeta⟩
      · rw [← h.untouched name List.mem_cons_self, hread]
      · rw [hk, ← hkey, hmk]
      · rw [← hnew hmk]
        exact hread
  · rintro ⟨m, hm, hmk⟩
    rcases List.mem_append.mp hm with hm | hm
    · obtain ⟨htodo, hcorrupt⟩ := h.settled ⟨m, hm, hmk⟩
      exact ⟨fun hmem => htodo (List.mem_cons_of_mem _ hmem), hcorrupt⟩
    · cases List.mem_singleton.mp hm
      rw [← hnew hmk]
      exact ⟨hout, fun hmem => (h.corrupt name hmem).1 List.mem_cons_self⟩
  · intro hown
    rw [hk] at hown
    exact .inl ⟨metadata, List.mem_append_right _ List.mem_cons_self,
      hkey.trans (Option.some.inj hown)⟩

theorem Followed.drop (h : Followed disk codec d key (name :: rest) s)
    (hk : keyOfName name = some k) (hbound : key.1 ≤ u64Max ∧ key.2 ≤ u64Max)
    (hname : name ≠ canonical k) (hthere : (s.dir.read (canonical k)).isSome) :
    Followed disk codec d key rest { Scan.saw s k with dir := s.dir.remove name } := by
  have hother : canonical key ≠ name := by
    by_cases heq : k = key
    · exact heq ▸ hname.symm
    · exact (canonical_ne hk heq hbound).symm
  have hcanon : (s.dir.remove name).read (canonical key) = s.dir.read (canonical key) := by
    rw [Directory.read_remove, if_neg hother]
  refine h.move rfl rfl ?_ id ?_ h.once ?_ ?_ ?_ (fun _ => hcanon)
  · intro n hn _
    exact (Directory.read_remove _ _ _).trans (if_neg hn)
  · intro hread
    exact .inl (hcanon ▸ hread)
  · intro m hm hmk
    obtain ⟨source, bytes, hv, hread, hmeta⟩ := h.indexed m hm hmk
    exact ⟨source, bytes, hv, hcanon.trans hread, hmeta⟩
  · intro hin
    obtain ⟨htodo, hcorrupt⟩ := h.settled hin
    exact ⟨fun hmem => htodo (List.mem_cons_of_mem _ hmem), hcorrupt⟩
  · intro hown
    cases hk.symm.trans hown
    rcases h.origin hthere with hd | hin
    · exact .inr ⟨hname, hd⟩
    · exact .inl hin

theorem Followed.rename (h : Followed disk codec d key (name :: rest) s)
    (hext : hasExtension snapshotExt name = true) (hk : keyOfName name = some k)
    (hbound : key.1 ≤ u64Max ∧ key.2 ≤ u64Max) {bytes : Bytes} {metadata : StoredMeta}
    (hread : s.dir.read name = some bytes) (hmeta : codec.readMetaFromFile bytes = .ok metadata)
    (hkey : keyOf metadata = k) (habsent : s.dir.read (canonical k) = none) :
    Followed disk codec d key rest { Scan.saw s k with
      dir := s.dir.rename name (canonical k)
      index := s.index ++ [metadata] } := by
  have hmoved (n : FileName) : (s.dir.rename name (canonical k)).read n =
      if n = canonical k then some bytes else if n = name then none else s.dir.read n :=
    Directory.read_rename hread n
  have hpresent {n : FileName} (hn : (s.dir.read n).isSome) : n ≠ canonical k := by
    intro heq
    rw [heq, habsent] at hn
    cases hn
  -- a key that is in the index has its canonical file already
  have hfresh (heq : k = key) : ¬Indexed s key := by
    rintro ⟨m, hm, hmk⟩
    obtain ⟨_, _, _, hcanon, _⟩ := h.indexed m hm hmk
    rw [← heq, habsent] at hcanon
    cases hcanon
  have hcanon (hne : k ≠ key) : (s.dir.rename name (canonical k)).read (canonical key) =
      s.dir.read (canonical key) := by
    have hck : canonical key ≠ canonical k := by
      have hkb := keyOfName_le hk
      exact (canonical_ne (keyOfName_canonical hkb) hne hbound).symm
    rw [hmoved, if_neg hck, if_neg (canonical_ne hk hne hbound).symm]
  refine h.move rfl rfl ?_ ?_ ?_ ?_ ?_ ?_ ?_
    (fun hsome => hcanon (fun heq => hpresent hsome (congrArg canonical heq.symm)))
  · intro n hn hsome
    exact (hmoved n).trans ((if_neg (hpresent hsome)).trans (if_neg hn))
  · rintro ⟨m, hm, hmk⟩
    exact ⟨m, List.mem_append_left _ hm, hmk⟩
  · intro hsome
    by_cases heq : k = key
    · exact .inr ⟨metadata, List.mem_append_right _ List.mem_cons_self, hkey.trans heq⟩
    · exact .inl (hcanon heq ▸ hsome)
  · exact once_append h.once fun heq m hm hmk => hfresh (hkey.symm.trans heq) ⟨m, hm, hmk⟩
  · intro m hm hmk
    rcases List.mem_append.mp hm with hm | hm
    · have hne : k ≠ key := fun heq => hfresh heq ⟨m, hm, hmk⟩
      obtain ⟨source, bytes', hv, hold, hmeta'⟩ := h.indexed m hm hmk
      exact ⟨source, bytes', hv, (hcanon hne).trans hold, hmeta'⟩
    · cases List.mem_singleton.mp hm
      have heq : k = key := hkey.symm.trans hmk
      refine ⟨name, bytes, ⟨?_, hext, heq ▸ hk, metadata, hmeta, hmk⟩, ?_, hmeta⟩
      · rw [← h.untouched name List.mem_cons_self, hread]
      · exact (hmoved _).trans (if_pos (congrArg canonical heq.symm))
  · rintro ⟨m, hm, hmk⟩
    by_cases heq : k = key
    · rw [← heq]
      refine ⟨fun hmem => ?_, fun hmem => ?_⟩
      · have hin := List.mem_cons_of_mem name hmem
        exact hpresent (h.untouched _ hin ▸ h.listed _ hin) rfl
      · obtain ⟨_, hsame, hsome⟩ := h.corrupt _ hmem
        exact hpresent (hsame ▸ hsome) rfl
    · rcases List.mem_append.mp hm with hm | hm
      · obtain ⟨htodo, hcorrupt⟩ := h.settled ⟨m, hm, hmk⟩
        exact ⟨fun hmem => htodo (List.mem_cons_of_mem _ hmem), hcorrupt⟩
      · cases List.mem_singleton.mp hm
        exact absurd (hkey.symm.trans hmk) heq
  · intro hown
    rw [hk] at hown
    exact .inl ⟨metadata, List.mem_append_right _ List.mem_cons_self,
      hkey.trans (Option.some.inj hown)⟩

end Step

def SnapshotFilesOnly (d : Directory) : Prop :=
  ∀ name, (d.read name).isSome → hasExtension snapshotExt name = true ∧ (keyOfName name).isSome

structure Newest (d : Directory) (key : ℕ × ℕ) : Prop where
  named : ∃ name, (d.read name).isSome ∧ keyOfName name = some key
  greatest : ∀ name k, (d.read name).isSome → keyOfName name = some k → ¬keyLt key k

def GivesUp (disk : Disk) (codec : SnapshotCodec) (d : Directory) (key : ℕ × ℕ) (a : Abandoned) :
    Prop :=
  (¬HasValid codec d key ∨ ∃ op, disk op ≠ none) ∧
    (HasValid codec d key → HasValid codec a.dir key)

/-- If a file of the key is valid, then so is the one under the canonical name, if there is one. -/
def CanonicalSound (codec : SnapshotCodec) (d : Directory) (key : ℕ × ℕ) : Prop :=
  HasValid codec d key → ∀ bytes, d.read (canonical key) = some bytes → Good codec key bytes

def Stalls (disk : Disk) (codec : SnapshotCodec) (d : Directory) (key : ℕ × ℕ) (a : Abandoned) :
    Prop :=
  (∃ op, disk op ≠ none) ∧
    (CanonicalSound codec d key → HasValid codec d key → HasValid codec a.dir key)

section Opening

variable (hfiles : SnapshotFilesOnly d) (hnew : Newest d key)

theorem Newest.bound (hnew : Newest d key) : key.1 ≤ u64Max ∧ key.2 ≤ u64Max := by
  obtain ⟨name, _, hname⟩ := hnew.named
  exact keyOfName_le hname

include hfiles hnew

theorem visit_follows {name : FileName} {rest : List FileName} {s : Scan}
    (hranked : Ranked d (name :: rest) s) (h : Followed disk codec d key (name :: rest) s) :
    Ends (Stalls disk codec d key) (fun s' => Ranked d rest s' ∧ Followed disk codec d key rest s')
      (visitOn disk codec s name) := by
  have hread := h.listed name List.mem_cons_self
  obtain ⟨hext, hsome⟩ := hfiles name hread
  obtain ⟨k, hk⟩ := Option.isSome_iff_exists.mp hsome
  have hold : ∀ m ∈ s.index, m ∈ s.index ∨ keyOf m = k := fun m hm => .inl hm
  have hadd {metadata : StoredMeta} (hkey : keyOf metadata = k) :
      ∀ m ∈ s.index ++ [metadata], m ∈ s.index ∨ keyOf m = k := by
    intro m hm
    rcases List.mem_append.mp hm with hm | hm
    · exact .inl hm
    · cases List.mem_singleton.mp hm
      exact .inr hkey
  have hvisit : Visited disk codec s name k (visitOn disk codec s name) := visitOn_cases hk
  generalize visitOn disk codec s name = outcome at hvisit ⊢
  cases hvisit with
  | skipped hbad => exact ⟨hranked.step hread hk rfl hold, h.skip hk hbad⟩
  | indexed hbytes hmeta hkey hname =>
    exact ⟨hranked.step hread hk rfl (hadd hkey), h.index hext hk hbytes hmeta hkey hname⟩
  | dropped hname hthere =>
    exact ⟨hranked.step hread hk rfl hold, h.drop hk hnew.bound hname hthere⟩
  | renamed hbytes hmeta hkey _ habsent =>
    exact ⟨hranked.step hread hk rfl (hadd hkey),
      h.rename hext hk hnew.bound hbytes hmeta hkey habsent⟩
  | refused hop =>
    exact ⟨⟨_, hop⟩, fun hcanon hvalid => h.survives hnew.bound (hcanon hvalid) hvalid⟩

theorem scan_follows {entries : List FileName} (hentries : entries.Perm d.names) :
    Ends (Stalls disk codec d key) (fun s => Ranked d [] s ∧ Followed disk codec d key [] s)
      (scanOn disk codec d entries) := by
  have hmem (name : FileName) : name ∈ entries ↔ (d.read name).isSome :=
    (hentries.mem_iff).trans mem_names
  have hall : entries.filter (fun name =>
      hasExtension snapshotExt name && (parseSnapshotFilename name).isSome) = entries := by
    rw [List.filter_eq_self]
    intro name hname
    obtain ⟨hext, hkey⟩ := hfiles name ((hmem name).mp hname)
    rw [keyOfName, Option.isSome_map] at hkey
    rw [hext, hkey]
    rfl
  have hnone {name : FileName} {p : Prop} (hread : (d.read name).isSome) (hout : name ∉ entries) :
      p :=
    absurd ((hmem name).mpr hread) hout
  rw [scanOn, hall]
  refine Ends.foldlM (fun todo s => Ranked d todo s ∧ Followed disk codec d key todo s)
    (fun name rest s hs => visit_follows hfiles hnew hs.1 hs.2) ⟨?_, ?_⟩
  · exact ⟨fun name k hread hout _ => hnone hread hout,
      fun _ h => absurd h (Option.some_ne_none _).symm, fun m hm => absurd hm List.not_mem_nil⟩
  · refine ⟨hentries.nodup_iff.mpr (names_nodup d), fun name hname => (hmem name).mp hname,
      fun _ _ => rfl, .inl, List.Pairwise.nil, fun m hm => absurd hm List.not_mem_nil, ?_,
      fun name hread _ hout => hnone hread hout, fun name hname => absurd hname List.not_mem_nil,
      fun name hname => absurd hname List.not_mem_nil, fun _ => rfl⟩
    rintro ⟨m, hm, _⟩
    exact absurd hm List.not_mem_nil

omit hfiles in
/-- At the end of a scan that has not indexed the key, every file of it was skipped, or gave way to
the canonical file, which was. -/
theorem Followed.condemned {s : Scan} (h : Followed disk codec d key [] s) (hin : ¬Indexed s key)
    {name : FileName} (hread : (d.read name).isSome) (hname : keyOfName name = some key) :
    name ∈ s.corruptPaths ∨
      ((d.read (canonical key)).isSome ∧ canonical key ∈ s.corruptPaths) := by
  rcases h.accounted name hread hname List.not_mem_nil with hacc | hacc | ⟨_, hthere⟩
  · exact absurd hacc hin
  · exact .inl hacc
  · rcases h.accounted _ hthere (keyOfName_canonical hnew.bound) List.not_mem_nil with
      hacc | hacc | hacc
    · exact absurd hacc hin
    · exact .inr ⟨hthere, hacc⟩
    · exact absurd rfl hacc.1

omit hfiles in
theorem Followed.skipped {s : Scan} (h : Followed disk codec d key [] s) (hin : ¬Indexed s key) :
    key ∈ s.skippedKeys := by
  obtain ⟨name, hread, hname⟩ := hnew.named
  rcases h.condemned hnew hin hread hname with hpath | ⟨_, hpath⟩
  · exact (h.fault name hpath hname).1
  · exact (h.fault _ hpath (keyOfName_canonical hnew.bound)).1

omit hfiles in
theorem Followed.reason {s : Scan} (h : Followed disk codec d key [] s) (hin : ¬Indexed s key)
    (hcanon : CanonicalSound codec d key) : ¬HasValid codec d key ∨ ∃ op, disk op ≠ none := by
  by_cases hvalid : HasValid codec d key
  · right
    obtain ⟨name, bytes, hv⟩ := id hvalid
    rcases h.condemned hnew hin (hv.read ▸ rfl) hv.named with hpath | ⟨hthere, hpath⟩
    · rcases (h.fault name hpath hv.named).2 with hfault | hbad
      · exact ⟨_, hfault⟩
      · exact absurd hv.good (hbad bytes hv.read)
    · obtain ⟨bytes', hread⟩ := Option.isSome_iff_exists.mp hthere
      rcases (h.fault _ hpath (keyOfName_canonical hnew.bound)).2 with hfault | hbad
      · exact ⟨_, hfault⟩
      · exact absurd (hcanon hvalid bytes' hread) (hbad bytes' hread)
  · exact .inl hvalid

end Opening

/-! ## The check and the clean-up -/

theorem keyLt_total {a b : ℕ × ℕ} (hab : ¬keyLt a b) (hba : ¬keyLt b a) : a = b := by
  simp only [keyLt_iff] at hab hba
  refine Prod.ext ?_ ?_ <;> omega

/-- The newest key leads the sorted index, with no second entry of the key behind it. -/
theorem sorted_head {s : Scan} (hnew : Newest d key) (hranked : Ranked d [] s)
    (h : Followed disk codec d key [] s) (hin : Indexed s key) :
    ∃ m rest, s.index.mergeSort newestFirst = m :: rest ∧ keyOf m = key ∧ m ∈ s.index ∧
      ∀ r ∈ rest, keyOf r ≠ key ∧ snapshotPathFromMeta r ≠ canonical key := by
  have hperm := List.mergeSort_perm s.index newestFirst
  have hsorted := newestFirst_sorted s.index
  obtain ⟨m₀, hm₀, hkey₀⟩ := hin
  have honce : (s.index.mergeSort newestFirst).Pairwise
      (fun a b => ¬(keyOf a = key ∧ keyOf b = key)) :=
    (hperm.pairwise_iff fun h' hc => h' ⟨hc.2, hc.1⟩).mpr h.once
  have hmem₀ := hperm.mem_iff.mpr hm₀
  generalize s.index.mergeSort newestFirst = sorted at hperm hsorted honce hmem₀
  cases sorted with
  | nil => cases hmem₀
  | cons m rest =>
    have hm : m ∈ s.index := hperm.mem_iff.mp List.mem_cons_self
    obtain ⟨name, hread, hname⟩ := hranked.index m hm
    have hle : ¬keyLt (keyOf m) key := by
      rcases List.mem_cons.mp hmem₀ with rfl | hrest
      · rw [hkey₀]
        simp [keyLt_iff]
      · have hfirst := (List.pairwise_cons.mp hsorted).1 m₀ hrest
        rw [newestFirst, hkey₀] at hfirst
        simpa using hfirst
    have hkey : keyOf m = key := (keyLt_total (hnew.greatest name _ hread hname) hle).symm
    refine ⟨m, rest, rfl, hkey, hm, fun r hr => ?_⟩
    have hne : keyOf r ≠ key := fun hr' => (List.pairwise_cons.mp honce).1 r hr ⟨hkey, hr'⟩
    obtain ⟨_, _, hrname⟩ := hranked.index r (hperm.mem_iff.mp (List.mem_cons_of_mem _ hr))
    rw [path_eq]
    exact ⟨hne, canonical_ne (keyOfName_canonical (keyOfName_le hrname)) hne hnew.bound⟩

def Leads (key : ℕ × ℕ) (m : StoredMeta) (bytes : Bytes) (index : List StoredMeta) (d : Directory) :
    Prop :=
  d.read (canonical key) = some bytes ∧
    ∃ rest, index = m :: rest ∧ ∀ r ∈ rest, snapshotPathFromMeta r ≠ canonical key

def Keeps (disk : Disk) (key : ℕ × ℕ) (bytes : Bytes) (a : Abandoned) : Prop :=
  (∃ op, disk op ≠ none) ∧ a.dir.read (canonical key) = some bytes

theorem removeOn_keeps {bytes : Bytes} (context : String) {d' : Directory} {name : FileName}
    (h : d'.read (canonical key) = some bytes) (hne : name ≠ canonical key) :
    Ends (Keeps disk key bytes) (fun r => r.read (canonical key) = some bytes)
      (removeOn disk context d' name) := by
  rw [removeOn]
  split_ifs
  · cases hdisk : disk (.remove name) with
    | some e => exact ⟨⟨_, hdisk ▸ Option.some_ne_none e⟩, h⟩
    | none => exact (Directory.read_remove _ _ _).trans ((if_neg hne.symm).trans h)
  · exact h

theorem dedupeOn_keeps {bytes : Bytes} {metas : List StoredMeta} {seenIndices : List ℕ}
    {d' : Directory} (h : d'.read (canonical key) = some bytes)
    (hmetas : ∀ r ∈ metas, snapshotPathFromMeta r ≠ canonical key) :
    Ends (Keeps disk key bytes)
      (fun r => r.2.read (canonical key) = some bytes ∧ ∀ m ∈ r.1, m ∈ metas)
      (dedupeOn disk metas seenIndices d') := by
  induction metas generalizing seenIndices d' with
  | nil => exact ⟨h, fun _ hm => hm⟩
  | cons m rest ih =>
    have hrest := fun r hr => hmetas r (List.mem_cons_of_mem m hr)
    rw [dedupeOn]
    split_ifs
    · refine (removeOn_keeps _ h (hmetas m List.mem_cons_self)).bind fun dir hdir => ?_
      exact (ih hdir hrest).mono (fun _ ha => ha)
        fun r hr => ⟨hr.1, fun m' hm' => List.mem_cons_of_mem _ (hr.2 m' hm')⟩
    · refine (ih h hrest).bind fun r hr => ⟨hr.1, fun m' hm' => ?_⟩
      rcases List.mem_cons.mp hm' with rfl | hm'
      · exact List.mem_cons_self
      · exact List.mem_cons_of_mem _ (hr.2 m' hm')

/-- The first entry of the index is never a duplicate. -/
theorem dedupeOn_leads {m : StoredMeta} {rest : List StoredMeta} {bytes : Bytes} {d' : Directory}
    (h : Leads key m bytes (m :: rest) d') :
    Ends (Keeps disk key bytes) (fun r => Leads key m bytes r.1 r.2)
      (dedupeOn disk (m :: rest) [] d') := by
  obtain ⟨hread, rest', heq, hrest⟩ := h
  cases heq
  have htail : Ends (Keeps disk key bytes)
      (fun r => r.2.read (canonical key) = some bytes ∧ ∀ r' ∈ r.1, r' ∈ rest)
      (dedupeOn disk rest [m.lastIncludedIndex] d') := dedupeOn_keeps hread hrest
  rw [dedupeOn, if_neg List.not_mem_nil]
  refine htail.bind fun r hr => ?_
  exact ⟨hr.1, r.1, rfl, fun r' hr' => hrest r' (hr.2 r' hr')⟩

theorem removeAllOn_keeps {bytes : Bytes} (context : String) {paths : List FileName}
    {d' : Directory} (h : d'.read (canonical key) = some bytes) (hpaths : canonical key ∉ paths) :
    Ends (Keeps disk key bytes) (fun r => r.read (canonical key) = some bytes)
      (paths.foldlM (removeOn disk context) d') := by
  induction paths generalizing d' with
  | nil => exact h
  | cons path rest ih =>
    rw [List.foldlM_cons]
    have hne : path ≠ canonical key := fun heq => hpaths (heq ▸ List.mem_cons_self)
    refine (removeOn_keeps context h hne).bind fun r hr => ih hr ?_
    exact fun hmem => hpaths (List.mem_cons_of_mem _ hmem)

theorem pruneLoopOn_keeps {fuel : ℕ} {s : FileSnapshotStore} {m : StoredMeta} {bytes : Bytes}
    (hmax : 1 ≤ s.maxRetained) (h : Leads key m bytes s.index s.dir) :
    Ends (Keeps disk key bytes) (fun s' => Leads key m bytes s'.index s'.dir)
      (pruneLoopOn disk fuel s) := by
  induction fuel generalizing s with
  | zero => exact h
  | succ fuel ih =>
    rw [pruneLoopOn]
    split_ifs with hmany
    · obtain ⟨hread, rest, hindex, hrest⟩ := h
      obtain ⟨front, old, rfl⟩ : ∃ front old, rest = front ++ [old] := by
        refine (List.eq_nil_or_concat' rest).resolve_left ?_
        rintro rfl
        rw [hindex, List.length_singleton] at hmany
        omega
      rw [hindex, ← List.cons_append, List.getLast?_concat]
      have hold := hrest old (List.mem_append_right _ List.mem_cons_self)
      refine (removeOn_keeps "" hread hold).bind fun dir hdir => ?_
      refine ih hmax ⟨hdir, front, ?_, fun r hr => hrest r (List.mem_append_left _ hr)⟩
      dsimp only
      rw [List.dropLast_concat]
    · exact h

theorem pruneOn_keeps {s : FileSnapshotStore} {m : StoredMeta} {bytes : Bytes}
    (h : Leads key m bytes s.index s.dir) :
    Ends (Keeps disk key bytes) (fun s' => Leads key m bytes s'.index s'.dir) (pruneOn disk s) := by
  rw [pruneOn]
  split_ifs with hmax
  · exact h
  · exact pruneLoopOn_keeps (Nat.one_le_iff_ne_zero.mpr hmax) h

theorem Keeps.givesUp {bytes : Bytes} {a : Abandoned} (h : Keeps disk key bytes a)
    (hnew : Newest d key) (hgood : Good codec key bytes) : GivesUp disk codec d key a := by
  refine ⟨.inr h.1, fun _ => ⟨canonical key, bytes, h.2, ?_, keyOfName_canonical hnew.bound, hgood⟩⟩
  exact extension_canonical key

def Opened (codec : SnapshotCodec) (d : Directory) (key : ℕ × ℕ) (s : FileSnapshotStore) : Prop :=
  ∃ m name bytes, ValidFile codec d key name bytes ∧ codec.readMetaFromFile bytes = .ok m ∧
    keyOf m = key ∧ Leads key m bytes s.index s.dir

theorem Ranked.newest {s : Scan} (h : Ranked d [] s) (hnew : Newest d key) :
    s.highestFname = some key := by
  obtain ⟨name, hread, hname⟩ := hnew.named
  obtain ⟨highest, hhigh, hle⟩ := h.top name key hread List.not_mem_nil hname
  obtain ⟨name', hread', hname'⟩ := h.named highest hhigh
  rw [hhigh, keyLt_total hle (hnew.greatest name' highest hread' hname')]

theorem Ranked.refuses {s : Scan} (h : Ranked d [] s) (hnew : Newest d key)
    (hskipped : key ∈ s.skippedKeys) (hin : ¬Indexed s key) :
    s.highestFname.filter (fun highest => highest ∈ s.skippedKeys &&
      !(s.index.mergeSort newestFirst).head?.any
        (fun metadata => !keyLt (keyOf metadata) highest)) = some key := by
  have hbelow : ∀ m, (s.index.mergeSort newestFirst).head? = some m →
      keyLt (keyOf m) key = true := by
    intro m hm
    have hmem : m ∈ s.index := (List.mergeSort_perm _ _).mem_iff.mp (List.mem_of_head? hm)
    obtain ⟨name, hread, hname⟩ := h.index m hmem
    by_contra hlt
    exact hin ⟨m, hmem, keyLt_total hlt (hnew.greatest name _ hread hname)⟩
  rw [h.newest hnew]
  cases hhead : (s.index.mergeSort newestFirst).head? with
  | none => simp [Option.filter, hskipped]
  | some m => simp [Option.filter, hskipped, hbelow m hhead]

theorem rebuild_follows {maxRetained : ℕ} {entries : List FileName} (hfiles : SnapshotFilesOnly d)
    (hnew : Newest d key) (hcanon : CanonicalSound codec d key) (hentries : entries.Perm d.names) :
    Ends (GivesUp disk codec d key) (Opened codec d key)
      (rebuildIndexOn disk codec ⟨d, [], maxRetained⟩ entries) := by
  have hstalls : ∀ a, Stalls disk codec d key a → GivesUp disk codec d key a :=
    fun a ha => ⟨.inr ha.1, ha.2 hcanon⟩
  refine ((scan_follows hfiles hnew hentries).mono hstalls fun _ hs => hs).bind
    fun scan hscan => ?_
  obtain ⟨hranked, hfollowed⟩ := hscan
  by_cases hin : Indexed scan key
  · obtain ⟨m, rest, hsorted, hkey, hm, hrest⟩ := sorted_head hnew hranked hfollowed hin
    obtain ⟨name, bytes, hv, hread, hmeta⟩ := hfollowed.indexed m hm hkey
    have hpass : scan.highestFname.filter (fun highest => highest ∈ scan.skippedKeys &&
        !(m :: rest).head?.any (fun metadata => !keyLt (keyOf metadata) highest)) = none := by
      have hself : keyLt (keyOf m) key = false := by
        rw [hkey, Bool.eq_false_iff, ne_eq, keyLt_iff]
        omega
      rw [hranked.newest hnew]
      simp [Option.filter, hself]
    dsimp only
    rw [hsorted, hpass]
    dsimp only
    have hclean : Ends (Keeps disk key bytes) (Opened codec d key) (do
        let (keep, dir) ← dedupeOn disk (m :: rest) [] scan.dir
        let cleaned ← scan.corruptPaths.foldlM
          (removeOn disk "failed to remove corrupt snapshot file ") dir
        .ok { dir := cleaned, index := keep, maxRetained := maxRetained }) := by
      have hlead : Leads key m bytes (m :: rest) scan.dir :=
        ⟨hread, rest, rfl, fun r hr => (hrest r hr).2⟩
      refine (dedupeOn_leads hlead).bind fun r hr => ?_
      have hpaths := (hfollowed.settled hin).2
      refine (removeAllOn_keeps _ hr.1 hpaths).bind fun d' hd' => ?_
      exact ⟨m, name, bytes, hv, hmeta, hkey, hd', hr.2⟩
    exact hclean.mono (fun a ha => ha.givesUp hnew hv.good) fun _ hs => hs
  · dsimp only
    rw [hranked.refuses hnew (hfollowed.skipped hnew hin) hin]
    exact ⟨hfollowed.reason hnew hin hcanon,
      fun hvalid => hfollowed.survives hnew.bound (hcanon hvalid) hvalid⟩

/-- A canonical file of the newest key that is not valid is never replaced, and nothing is indexed
in its place: the opening fails on every disk. -/
theorem rebuild_refuses {maxRetained : ℕ} {entries : List FileName} {bytes : Bytes}
    (hfiles : SnapshotFilesOnly d) (hnew : Newest d key) (hentries : entries.Perm d.names)
    (hread : d.read (canonical key) = some bytes) (hbad : ¬Good codec key bytes) :
    Ends (fun _ => True) (fun _ => False)
      (rebuildIndexOn disk codec ⟨d, [], maxRetained⟩ entries) := by
  refine ((scan_follows hfiles hnew hentries).mono (fun _ _ => trivial) fun _ hs => hs).bind
    fun scan hscan => ?_
  obtain ⟨hranked, hfollowed⟩ := hscan
  have hin : ¬Indexed scan key := by
    rintro ⟨m, hm, hkey⟩
    obtain ⟨_, bytes', hv, hread', _⟩ := hfollowed.indexed m hm hkey
    rw [hfollowed.kept (hread ▸ rfl), hread] at hread'
    cases hread'
    exact hbad hv.good
  dsimp only
  rw [hranked.refuses hnew (hfollowed.skipped hnew hin) hin]
  trivial

theorem recoverOn_files {listed : List FileName} (hfiles : SnapshotFilesOnly d)
    (hlisted : ∀ name ∈ listed, (d.read name).isSome) : recoverOn disk d listed = .ok d := by
  have hbin {name : FileName} (hname : name ∈ listed) :
      ∃ stem, splitExtension name = some (stem, snapshotExt) := by
    have hext := (hfiles name (hlisted name hname)).1
    rw [hasExtension, Option.any_eq_true] at hext
    obtain ⟨⟨stem, ext⟩, hsplit, heq⟩ := hext
    cases of_decide_eq_true heq
    exact ⟨stem, hsplit⟩
  have htmp : listed.filter (hasExtension "tmp".toList) = [] := by
    rw [List.filter_eq_nil_iff]
    intro name hname
    obtain ⟨stem, hsplit⟩ := hbin hname
    have hne : snapshotExt ≠ "tmp".toList := by decide
    rw [hasExtension, hsplit, Option.any_some, decide_eq_false hne]
    exact Bool.false_ne_true
  rw [recoverOn, htmp, List.foldl_nil]
  clear htmp
  induction listed with
  | nil => rfl
  | cons name rest ih =>
    obtain ⟨stem, hsplit⟩ := hbin List.mem_cons_self
    have hstay : settleBackupOn disk d name = .ok d := by
      rw [splitExtension_eq_some hsplit, settleBackupOn, if_neg (not_backup_bin stem)]
    rw [List.foldlM_cons, hstay]
    exact ih (fun n hn => hlisted n (List.mem_cons_of_mem _ hn))
      fun hn => hbin (List.mem_cons_of_mem _ hn)

theorem Opened.latest {s : FileSnapshotStore} (h : Opened codec d key s) :
    ∃ name bytes metadata data, ValidFile codec d key name bytes ∧
      codec.decodeSnapshot bytes = .ok (metadata, data) ∧
      s.loadLatestSnapshot codec = .ok (some (metadata, data)) := by
  obtain ⟨m, name, bytes, hv, hmeta, hkey, hread, rest, hindex, _⟩ := h
  have hdecode := decode_of_readMeta hmeta
  refine ⟨name, bytes, m, payloadOf bytes, hv, hdecode, ?_⟩
  rw [loadLatestSnapshot, hindex]
  dsimp only
  rw [readSnapshotFile, path_eq, hkey, hread]
  dsimp only
  rw [hdecode]
  rfl

/-- The opening fails only for want of a valid file of the key or because the disk refuses an
operation, it leads with the content of a valid file of the key, and leaves a valid file of the key
behind if there was one. -/
structure Survives (disk : Disk) (codec : SnapshotCodec) (d : Directory) (key : ℕ × ℕ)
    (outcome : Except Abandoned FileSnapshotStore) : Prop where
  failed : ∀ a, outcome = .error a → ¬HasValid codec d key ∨ ∃ op, disk op ≠ none
  latest : ∀ s, outcome = .ok s → ∃ name bytes metadata data, ValidFile codec d key name bytes ∧
    codec.decodeSnapshot bytes = .ok (metadata, data) ∧
    s.loadLatestSnapshot codec = .ok (some (metadata, data))
  left : HasValid codec d key → HasValid codec (leftBehind outcome) key

theorem survives_of_ends {outcome : Except Abandoned FileSnapshotStore} (hnew : Newest d key)
    (h : Ends (GivesUp disk codec d key) (Opened codec d key) outcome) :
    Survives disk codec d key outcome := by
  cases outcome with
  | error a =>
    refine ⟨fun _ _ => h.1, ?_, h.2⟩
    intro s hs
    cases hs
  | ok s =>
    refine ⟨?_, ?_, fun _ => ?_⟩
    · intro a ha
      cases ha
    · intro s' hs'
      cases hs'
      exact h.latest
    · obtain ⟨m, name, bytes, hv, _, _, hread, _⟩ := h
      exact ⟨canonical key, bytes, hread, extension_canonical key, keyOfName_canonical hnew.bound,
        hv.good⟩

/-- For every directory of snapshot files, in any listing order: the newest snapshot survives the
opening on any disk if the canonical file of the newest key is valid whenever any file of that key
is, and on a disk that refuses nothing it does so only then. -/
theorem newest_snapshot_survives_open (codec : SnapshotCodec) (disk : Disk) (d : Directory)
    (maxRetained : ℕ) (listed relisted : List FileName) (key : ℕ × ℕ)
    (hfiles : SnapshotFilesOnly d) (hlisted : listed.Perm d.names)
    (hrelisted : relisted.Perm d.names) (hnew : Newest d key) :
    (CanonicalSound codec d key →
      Survives disk codec d key (openOn disk codec d maxRetained listed relisted)) ∧
    (disk.Sound →
      (Survives disk codec d key (openOn disk codec d maxRetained listed relisted) ↔
        CanonicalSound codec d key)) := by
  have hopen : openOn disk codec d maxRetained listed relisted =
      (rebuildIndexOn disk codec ⟨d, [], maxRetained⟩ relisted >>= pruneOn disk) := by
    rw [openOn, recoverOn_files hfiles fun name hname => mem_names.mp (hlisted.subset hname)]
    rfl
  rw [hopen]
  have hsurvives (hcanon : CanonicalSound codec d key) : Survives disk codec d key
      (rebuildIndexOn disk codec ⟨d, [], maxRetained⟩ relisted >>= pruneOn disk) := by
    refine survives_of_ends hnew ?_
    refine (rebuild_follows hfiles hnew hcanon hrelisted).bind fun s hs => ?_
    obtain ⟨m, name, bytes, hv, hmeta, hkey, hlead⟩ := hs
    exact (pruneOn_keeps hlead).mono (fun a ha => ha.givesUp hnew hv.good)
      fun s' hs' => ⟨m, name, bytes, hv, hmeta, hkey, hs'⟩
  refine ⟨hsurvives, fun hsound => ⟨fun h hvalid bytes hread => ?_, hsurvives⟩⟩
  by_contra hbad
  have hfails : Ends (fun _ => True) (fun _ => False)
      (rebuildIndexOn disk codec ⟨d, [], maxRetained⟩ relisted) :=
    rebuild_refuses hfiles hnew hrelisted hread hbad
  cases hrebuild : rebuildIndexOn disk codec ⟨d, [], maxRetained⟩ relisted with
  | ok s =>
    rw [hrebuild] at hfails
    exact hfails
  | error a =>
    rw [hrebuild] at h
    rcases h.failed a rfl with hnone | ⟨op, hop⟩
    · exact hnone hvalid
    · exact hop (hsound op)

/-! ## A corrupt file under the canonical name -/

theorem files_of_names (h : ∀ name ∈ d.names,
    hasExtension snapshotExt name = true ∧ (keyOfName name).isSome) : SnapshotFilesOnly d :=
  fun name hread => h name (mem_names.mpr hread)

theorem newest_of_names (hnamed : ∃ name ∈ d.names, keyOfName name = some key)
    (hall : ∀ name ∈ d.names, ∀ k ∈ keyOfName name, ¬keyLt key k) : Newest d key := by
  obtain ⟨name, hmem, hname⟩ := hnamed
  exact ⟨⟨name, mem_names.mp hmem, hname⟩, fun n k hread hk => hall n (mem_names.mpr hread) k hk⟩

def seventh : Bytes :=
  content sampleSnapshotCodec (sampleSnapshotCodec.normalize threeBytes [1, 2, 3], [1, 2, 3])

def unpadded : FileName := "snapshot-2-7.bin".toList

theorem seventh_good : Good sampleSnapshotCodec (7, 2) seventh :=
  ⟨_, (Kept.of_save threeBytes_writable).readMeta, rfl⟩

def lone : Directory := (Directory.empty "data").write unpadded seventh

def crowded : Directory := lone.write (canonical (7, 2)) []

/-- One valid snapshot with an unpadded name is found, on a disk that refuses to read other
files. -/
theorem newest_snapshot_survives_open_unpadded :
    let disk : Disk := fun op => if op = .read (canonical (7, 2)) then some "busy" else none
    HasValid sampleSnapshotCodec
      (leftBehind (openOn disk sampleSnapshotCodec lone 1 lone.names lone.names)) (7, 2) := by
  intro disk
  have hcanon : lone.read (canonical (7, 2)) = none := by decide +kernel
  refine (newest_snapshot_survives_open sampleSnapshotCodec disk lone 1 lone.names lone.names (7, 2)
    (files_of_names (by decide +kernel)) (List.Perm.refl _) (List.Perm.refl _)
    (newest_of_names (by decide +kernel) (by decide +kernel))).1 ?_ |>.left
    ⟨unpadded, seventh, by decide +kernel, by decide +kernel, by decide +kernel, seventh_good⟩
  intro _ bytes hread
  rw [hcanon] at hread
  cases hread

/-- The newest key has a valid file, yet the opening deletes it and fails, with no fault of the
disk: the empty file under the canonical name is taken for its original. -/
theorem corrupt_canonical_loses_newest :
    SnapshotFilesOnly crowded ∧ Newest crowded (7, 2) ∧
    HasValid sampleSnapshotCodec crowded (7, 2) ∧
    ∃ a, openOn (fun _ => none) sampleSnapshotCodec crowded 1 crowded.names crowded.names =
      .error a ∧ ¬HasValid sampleSnapshotCodec a.dir (7, 2) := by
  refine ⟨files_of_names (by decide +kernel),
    newest_of_names (by decide +kernel) (by decide +kernel),
    ⟨unpadded, seventh, by decide +kernel, by decide +kernel, by decide +kernel, seventh_good⟩, ?_⟩
  have hleft : leftBehind (openOn (fun _ => none) sampleSnapshotCodec crowded 1 crowded.names
      crowded.names) = (Directory.empty "data").write (canonical (7, 2)) [] := by decide +kernel
  have hfails : (openOn (fun _ => none) sampleSnapshotCodec crowded 1 crowded.names
      crowded.names).toOption = none := by decide +kernel
  generalize openOn (fun _ => none) sampleSnapshotCodec crowded 1 crowded.names crowded.names =
    outcome at hleft hfails
  cases outcome with
  | ok s => cases hfails
  | error a =>
    refine ⟨a, rfl, ?_⟩
    have hdir : a.dir = (Directory.empty "data").write (canonical (7, 2)) [] := hleft
    rintro ⟨name, bytes, hread, _, _, metadata, hmeta, _⟩
    rw [hdir, Directory.read_write] at hread
    split_ifs at hread
    · cases hread
      cases hmeta
    · cases hread

end SnapshotDirectories
