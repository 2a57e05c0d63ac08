import Xraft.SnapshotFiles

/-! # Snapshot stores

`FileSnapshotStore` over a directory, with its recovery and index rebuild on open, and
`MemorySnapshotStore` with the checksums it keeps. The order in which `read_dir` lists a directory
is a parameter. Operations on the directory do not fail, except that a missing file cannot be read.
-/
namespace SnapshotStores

open ProtocolTypes DurableStores DecimalText WriteAheadLog SnapshotFiles

/-! ## File names -/

def snapshotExt : List Char := "bin".toList

def snapshotFilename (term index : ℕ) : FileName :=
  (canonicalId term index).toList ++ '.' :: snapshotExt

def stripFront : List Char → List Char → Option (List Char)
  | [], s => some s
  | c :: cs, d :: ds => if c = d then stripFront cs ds else none
  | _ :: _, [] => none

/-- Term and index of a name `snapshot-{term}-{index}`, padded or not, before its extension. -/
def parseSnapshotFilename (name : FileName) : Option (ℕ × ℕ) :=
  let stem := ((splitExtension name).map Prod.fst).getD name
  match stripFront "snapshot-".toList stem with
  | none => none
  | some rest =>
    match rest.dropWhile (fun c => c ≠ '-') with
    | [] => none
    | _ :: second =>
      match parseUnsigned u64Max (rest.takeWhile (fun c => c ≠ '-')),
        parseUnsigned u64Max second with
      | .ok term, .ok index => some (term, index)
      | _, _ => none

/-- `Path::file_name`: the last component that is neither empty nor a dot. -/
def pathFileName (path : List Char) : Option FileName :=
  match (path.splitOn '/').reverse.dropWhile (fun c => c = [] ∨ c = ['.']) with
  | [] => none
  | name :: _ => if name = ['.', '.'] then none else some name

def parseSnapshotPath (path : List Char) : Option (ℕ × ℕ) :=
  (pathFileName path).bind parseSnapshotFilename

def hasExtension (ext : List Char) (name : FileName) : Bool :=
  (splitExtension name).any (fun p => p.2 = ext)

/-! ## The memory store -/

structure MemoryStore where
  snapshots : List (StoredMeta × Bytes)
  deriving DecidableEq

def voterSetRequired : XRaftError :=
  .storage "save_snapshot: voter_set is required for new snapshots"

def lowerTerm (metadata existing : StoredMeta) : XRaftError :=
  .storage (s!"refusing to replace snapshot at index {metadata.lastIncludedIndex} term " ++
    s!"{existing.lastIncludedTerm} with lower term {metadata.lastIncludedTerm}")

def snapshotMissing (id : String) : XRaftError := .storage ("snapshot not found: " ++ id)

def MemoryStore.saveSnapshot (codec : SnapshotCodec) (s : MemoryStore) (metadata : StoredMeta)
    (data : Bytes) : Except XRaftError MemoryStore :=
  if metadata.voterSet.isNone then .error voterSetRequired
  else
    let replaced := s.snapshots.find? (fun p => p.1.lastIncludedIndex = metadata.lastIncludedIndex)
    match replaced.filter (fun p => metadata.lastIncludedTerm < p.1.lastIncludedTerm) with
    | some existing => .error (lowerTerm metadata existing.1)
    | none =>
      .ok ⟨s.snapshots.filter (fun p => p.1.lastIncludedIndex ≠ metadata.lastIncludedIndex) ++
        [(codec.normalize metadata data, data)]⟩

/-- The later of two snapshots; `max_by_key` keeps the last maximum. -/
def laterStored (a b : StoredMeta × Bytes) : StoredMeta × Bytes :=
  if a.1.lastIncludedIndex ≤ b.1.lastIncludedIndex then b else a

def MemoryStore.loadLatestSnapshot (s : MemoryStore) : Option (StoredMeta × Bytes) :=
  match s.snapshots with
  | [] => none
  | p :: rest => some (rest.foldl laterStored p)

def MemoryStore.loadSnapshot (s : MemoryStore) (index term : ℕ) : Option (StoredMeta × Bytes) :=
  s.snapshots.find? (fun p => p.1.id = canonicalId term index)

def MemoryStore.listSnapshots (s : MemoryStore) : List StoredMeta :=
  (s.snapshots.map Prod.fst).mergeSort (fun a b => b.lastIncludedIndex ≤ a.lastIncludedIndex)

def MemoryStore.without (s : MemoryStore) (id : String) : MemoryStore :=
  ⟨s.snapshots.filter (fun p => p.1.id ≠ id)⟩

def MemoryStore.deleteSnapshot (s : MemoryStore) (id : String) : Except XRaftError MemoryStore :=
  if (s.without id).snapshots.length = s.snapshots.length then
    let parsed := match parseSnapshotPath (id.toList ++ ".bin".toList) with
      | some key => some key
      | none => parseSnapshotPath id.toList
    match parsed with
    | some (term, index) =>
      let left := s.without (canonicalId term index)
      if left.snapshots.length = s.snapshots.length then .error (snapshotMissing id) else .ok left
    | none => .error (snapshotMissing id)
  else .ok (s.without id)

def MemoryStore.snapshotExists (s : MemoryStore) (index term : ℕ) : Bool :=
  s.snapshots.any (fun p => p.1.id = canonicalId term index)

def MemoryStore.findById (s : MemoryStore) (id : String) : Option StoredMeta :=
  (s.snapshots.find? (fun p => p.1.id = id)).map Prod.fst

/-! ## The file store -/

structure FileSnapshotStore where
  dir : Directory
  index : List StoredMeta
  maxRetained : ℕ
  deriving DecidableEq

namespace FileSnapshotStore

def snapshotPathFromMeta (metadata : StoredMeta) : FileName :=
  snapshotFilename metadata.lastIncludedTerm metadata.lastIncludedIndex

/-! ### Opening -/

def backupExt : List Char := ".bin.bak".toList

/-- Restores the backup of a file that is missing, and removes the backup of one that is there. -/
def settleBackup (d : Directory) (name : FileName) : Directory :=
  if backupExt.reverse <+: name.reverse then
    let original := name.take (name.length - ".bak".length)
    if (d.read original).isSome then d.remove name else d.rename name original
  else d

def recoverIncompleteWrites (d : Directory) (entries : List FileName) : Directory :=
  let cleaned := (entries.filter (hasExtension "tmp".toList)).foldl Directory.remove d
  entries.foldl settleBackup cleaned

def keyLt (a b : ℕ × ℕ) : Bool := a.1 < b.1 ∨ (a.1 = b.1 ∧ a.2 < b.2)

scoped instance : LawfulBEq (ℕ × ℕ) := inferInstance

def keyOf (metadata : StoredMeta) : ℕ × ℕ := (metadata.lastIncludedIndex, metadata.lastIncludedTerm)

structure Scan where
  dir : Directory
  index : List StoredMeta
  highestFname : Option (ℕ × ℕ)
  skippedKeys : List (ℕ × ℕ)
  corruptPaths : List FileName

def readMeta (codec : SnapshotCodec) (d : Directory) (name : FileName) :
    Except XRaftError StoredMeta :=
  match d.read name with
  | some content => codec.readMetaFromFile content
  | none => .error fileNotFound

def Scan.skip (s : Scan) (key : ℕ × ℕ) (name : FileName) : Scan :=
  { s with skippedKeys := key :: s.skippedKeys, corruptPaths := s.corruptPaths ++ [name] }

def Scan.visit (codec : SnapshotCodec) (s : Scan) (name : FileName) : Scan :=
  match parseSnapshotFilename name with
  | none => s
  | some (term, index) =>
    let seen := { s with
      highestFname := if s.highestFname.all (fun h => keyLt h (index, term)) then some (index, term)
        else s.highestFname }
    match readMeta codec s.dir name with
    | .error _ => seen.skip (index, term) name
    | .ok metadata =>
      if metadata.lastIncludedTerm ≠ term ∨ metadata.lastIncludedIndex ≠ index then
        seen.skip (index, term) name
      else
        let canonical := snapshotFilename term index
        if name = canonical then { seen with index := s.index ++ [metadata] }
        -- a second name of a snapshot: the canonical file is indexed on its own visit
        else if (s.dir.read canonical).isSome then { seen with dir := s.dir.remove name }
        else { seen with dir := s.dir.rename name canonical, index := s.index ++ [metadata] }

/-- Keeps the first entry of each index and removes the files of the others. -/
def dedupe : List StoredMeta → List ℕ → Directory → List StoredMeta × Directory
  | [], _, d => ([], d)
  | metadata :: rest, seenIndices, d =>
    if metadata.lastIncludedIndex ∈ seenIndices then
      dedupe rest seenIndices (d.remove (snapshotPathFromMeta metadata))
    else
      let (keep, dir) := dedupe rest (metadata.lastIncludedIndex :: seenIndices) d
      (metadata :: keep, dir)

def newestFirst (a b : StoredMeta) : Bool := !keyLt (keyOf a) (keyOf b)

def rebuildIndex (codec : SnapshotCodec) (s : FileSnapshotStore) (entries : List FileName) :
    Except XRaftError FileSnapshotStore :=
  let snapshotFiles := entries.filter (fun name =>
    hasExtension snapshotExt name && (parseSnapshotFilename name).isSome)
  let scan := snapshotFiles.foldl (Scan.visit codec) ⟨s.dir, [], none, [], []⟩
  let index := scan.index.mergeSort newestFirst
  match scan.highestFname.filter (fun highest => highest ∈ scan.skippedKeys &&
      !index.head?.any (fun metadata => !keyLt (keyOf metadata) highest)) with
  | some highest =>
    .error (.storage
      (s!"latest snapshot (term {highest.2}, index {highest.1}) is corrupt or has " ++
        "header/filename mismatch; refusing to fall back to older snapshot"))
  | none =>
    let (keep, dir) := dedupe index [] scan.dir
    .ok { s with dir := scan.corruptPaths.foldl Directory.remove dir, index := keep }

def pruneLoop : ℕ → FileSnapshotStore → FileSnapshotStore
  | 0, s => s
  | fuel + 1, s =>
    if s.maxRetained < s.index.length then
      match s.index.getLast? with
      | some old =>
        pruneLoop fuel
          { s with dir := s.dir.remove (snapshotPathFromMeta old), index := s.index.dropLast }
      | none => s
    else s

def prune (s : FileSnapshotStore) : FileSnapshotStore :=
  if s.maxRetained = 0 then s else pruneLoop s.index.length s

/-- `listed` and `relisted` are what the two scans of the directory see, in the order in which the
system lists it. -/
def openWithRetention (codec : SnapshotCodec) (d : Directory) (maxRetained : ℕ)
    (listed relisted : List FileName) : Except XRaftError FileSnapshotStore := do
  let rebuilt ← rebuildIndex codec ⟨recoverIncompleteWrites d listed, [], maxRetained⟩ relisted
  .ok rebuilt.prune

/-! ### Operations -/

/-- The new content goes to a temporary file; an old file is set aside until the new one is in its
place. -/
def atomicWrite (d : Directory) (path : FileName) (blob : Bytes) : Directory :=
  let stem := ((splitExtension path).map Prod.fst).getD path
  let tmpPath := stem ++ ".bin.tmp".toList
  let bakPath := stem ++ ".bin.bak".toList
  let written := d.write tmpPath blob
  let setAside := if (written.read path).isSome then (written.remove bakPath).rename path bakPath
    else written
  (setAside.rename tmpPath path).remove bakPath

def insertNewest (metadata : StoredMeta) : List StoredMeta → List StoredMeta
  | [] => [metadata]
  | m :: rest =>
    if m.lastIncludedIndex < metadata.lastIncludedIndex then metadata :: m :: rest
    else m :: insertNewest metadata rest

def saveSnapshot (codec : SnapshotCodec) (s : FileSnapshotStore) (metadata : StoredMeta)
    (data : Bytes) : Except XRaftError FileSnapshotStore :=
  if metadata.voterSet.isNone then .error voterSetRequired
  else
    let replaced := s.index.find? (fun m => m.lastIncludedIndex = metadata.lastIncludedIndex)
    match replaced.filter (fun m => metadata.lastIncludedTerm < m.lastIncludedTerm) with
    | some existing => .error (lowerTerm metadata existing)
    | none =>
      let saved := codec.normalize metadata data
      let path := snapshotPathFromMeta saved
      match codec.encodeSnapshot saved data with
      | .error e => .error e
      | .ok blob =>
        let written := atomicWrite s.dir path blob
        let stale := s.index.filter (fun m => m.lastIncludedIndex = metadata.lastIncludedIndex)
        let stalePaths := (stale.map snapshotPathFromMeta).filter (fun old => old ≠ path)
        let others := s.index.filter (fun m => m.lastIncludedIndex ≠ metadata.lastIncludedIndex)
        .ok (prune { s with
          dir := stalePaths.foldl Directory.remove written
          index := insertNewest saved others })

def readSnapshotFile (codec : SnapshotCodec) (d : Directory) (path : FileName) :
    Except XRaftError (StoredMeta × Bytes) :=
  match d.read path with
  | some raw => codec.decodeSnapshot raw
  | none => .error fileNotFound

def loadLatestSnapshot (codec : SnapshotCodec) (s : FileSnapshotStore) :
    Except XRaftError (Option (StoredMeta × Bytes)) :=
  match s.index with
  | [] => .ok none
  | newest :: _ => do
    let loaded ← readSnapshotFile codec s.dir (snapshotPathFromMeta newest)
    .ok (some loaded)

def loadSnapshot (codec : SnapshotCodec) (s : FileSnapshotStore) (index term : ℕ) :
    Except XRaftError (Option (StoredMeta × Bytes)) :=
  match s.index.find? (fun m => m.id = canonicalId term index) with
  | none => .ok none
  | some metadata => do
    let loaded ← readSnapshotFile codec s.dir (snapshotPathFromMeta metadata)
    .ok (some loaded)

def listSnapshots (s : FileSnapshotStore) : List StoredMeta := s.index

def indexOf (s : FileSnapshotStore) (id : String) : Option ℕ :=
  s.index.findIdx? (fun m => m.id = id)

/-- The position of a canonical id, or of the canonical form of what the id parses to. -/
def deletePosition (s : FileSnapshotStore) (id : String) : Option ℕ :=
  let canonical (path : List Char) : Option ℕ :=
    (parseSnapshotPath path).bind fun (term, index) => s.indexOf (canonicalId term index)
  match s.indexOf id with
  | some pos => some pos
  | none =>
    match canonical (id.toList ++ ".bin".toList) with
    | some pos => some pos
    | none => canonical id.toList

def deleteSnapshot (s : FileSnapshotStore) (id : String) : Except XRaftError FileSnapshotStore :=
  match s.deletePosition id with
  | none => .error (snapshotMissing id)
  | some pos =>
    .ok { s with
      dir := (s.index[pos]?).elim s.dir (fun m => s.dir.remove (snapshotPathFromMeta m))
      index := s.index.eraseIdx pos }

def snapshotExists (s : FileSnapshotStore) (index term : ℕ) : Bool :=
  s.index.any (fun m => m.id = canonicalId term index)

def findById (s : FileSnapshotStore) (id : String) : Option StoredMeta :=
  s.index.find? (fun m => m.id = id)

end FileSnapshotStore

end SnapshotStores
