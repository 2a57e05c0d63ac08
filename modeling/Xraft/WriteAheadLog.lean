import Mathlib.Data.Char
import Xraft.ByteFrames
import Xraft.DecimalText
import Xraft.DurableStores
import Xraft.OrderedMaps

/-! # The file-backed log

`FileLogStore`: segment files of checksummed frames, their replay on `open`, and the sidecar files
that hold the purge floor, the snapshot anchor, a pending truncation and the epoch checkpoint. A
directory maps file names to contents; its operations fail only on missing files. `CRC-32` and the
`bincode` form of a voter set come from outside the sources and are parameters. File sizes are
naturals, and syncing has no effect of its own.
-/
namespace WriteAheadLog

open ProtocolTypes DurableStores ByteFrames DecimalText

/-! ## Directories -/

abbrev FileName := List Char

structure Directory where
  path : String
  files : List (FileName × Bytes)
  sorted : OrderedMaps.Ascending files
  deriving DecidableEq

def Directory.empty (path : String) : Directory := ⟨path, [], List.Pairwise.nil⟩

def Directory.display (d : Directory) (name : FileName) : String :=
  d.path ++ "/" ++ String.ofList name

def Directory.read (d : Directory) (name : FileName) : Option Bytes :=
  OrderedMaps.lookup name d.files

def Directory.write (d : Directory) (name : FileName) (bytes : Bytes) : Directory :=
  ⟨d.path, OrderedMaps.insert name bytes d.files, d.sorted.insert⟩

/-- `fs::remove_file`; every caller takes a missing file for success. -/
def Directory.remove (d : Directory) (name : FileName) : Directory :=
  ⟨d.path, OrderedMaps.erase name d.files, d.sorted.erase⟩

/-- `open` with `create` and `append`: an existing file keeps its content. -/
def Directory.touch (d : Directory) (name : FileName) : Directory :=
  match d.read name with
  | some _ => d
  | none => d.write name []

/-- A write through an append handle; the handle of a removed file reaches nothing. -/
def Directory.appendTo (d : Directory) (name : FileName) (bytes : Bytes) : Directory :=
  match d.read name with
  | some old => d.write name (old ++ bytes)
  | none => d

def fileNotFound : XRaftError := .storage "No such file or directory (os error 2)"

/-- `File::set_len`, which cuts the file or extends it with zeros. -/
def Directory.setLen (d : Directory) (name : FileName) (len : ℕ) : Except XRaftError Directory :=
  match d.read name with
  | some old => .ok (d.write name (old.take len ++ List.replicate (len - old.length) 0))
  | none => .error fileNotFound

def Directory.persist (d : Directory) (name : FileName) (bytes : Bytes) : Directory :=
  let tmp := name ++ ".tmp".toList
  ((d.write tmp bytes).write name bytes).remove tmp

def Directory.names (d : Directory) : List FileName := d.files.map Prod.fst

def Directory.rename (d : Directory) (source target : FileName) : Directory :=
  match d.read source with
  | some bytes => (d.remove source).write target bytes
  | none => d

theorem Directory.read_write (d : Directory) (name other : FileName) (bytes : Bytes) :
    (d.write name bytes).read other = if other = name then some bytes else d.read other := by
  split_ifs with h
  · rw [h]
    exact OrderedMaps.lookup_insert_self
  · exact OrderedMaps.lookup_insert_ne h

theorem Directory.read_remove (d : Directory) (name other : FileName) :
    (d.remove name).read other = if other = name then none else d.read other := by
  split_ifs with h
  · rw [h]
    exact OrderedMaps.lookup_erase_self
  · exact OrderedMaps.lookup_erase_ne h

theorem Directory.read_rename {d : Directory} {source target : FileName} {bytes : Bytes}
    (h : d.read source = some bytes) (other : FileName) :
    (d.rename source target).read other =
      if other = target then some bytes else if other = source then none else d.read other := by
  rw [Directory.rename, h]
  dsimp only
  rw [Directory.read_write, Directory.read_remove]

/-- Stem and extension, divided at the last dot. A name has no extension when it holds no dot or
only a leading one. -/
def splitExtension (name : FileName) : Option (List Char × List Char) :=
  match name.reverse.dropWhile (fun c => c ≠ '.') with
  | [] => none
  | _ :: stem =>
    if stem = [] then none
    else some (stem.reverse, (name.reverse.takeWhile (fun c => c ≠ '.')).reverse)

theorem splitExtension_append {stem ext : List Char} (hstem : stem ≠ []) (hext : '.' ∉ ext) :
    splitExtension (stem ++ '.' :: ext) = some (stem, ext) := by
  have hplain : ∀ c ∈ ext.reverse, decide (c ≠ '.') = true := by
    intro c hc
    exact decide_eq_true (fun heq => hext (heq ▸ List.mem_reverse.mp hc))
  have hrev : (stem ++ '.' :: ext).reverse = ext.reverse ++ '.' :: stem.reverse := by simp
  rw [splitExtension, hrev, List.dropWhile_append_of_pos hplain,
    List.takeWhile_append_of_pos hplain]
  simp [hstem]

theorem splitExtension_eq_some {name stem ext : List Char}
    (h : splitExtension name = some (stem, ext)) : name = stem ++ '.' :: ext := by
  have hparts := List.takeWhile_append_dropWhile (p := fun c => decide (c ≠ '.'))
    (l := name.reverse)
  have hhead := List.head?_dropWhile_not (fun c => decide (c ≠ '.')) name.reverse
  rw [splitExtension] at h
  generalize name.reverse.dropWhile (fun c => decide (c ≠ '.')) = back at h hparts hhead
  cases back with
  | nil => cases h
  | cons c rest =>
    have hdot : c = '.' := by simpa using hhead
    dsimp only at h
    split_ifs at h
    cases h
    have hname := congrArg List.reverse hparts
    rw [List.reverse_reverse, hdot, List.reverse_append, List.reverse_cons,
      List.append_assoc] at hname
    exact hname.symm

def segmentExt : List Char := "wal".toList
def purgeMarkerFile : FileName := "purge.idx".toList
def snapshotAnchorFile : FileName := "snapshot-anchor.idx".toList
def epochCheckpointFile : FileName := "leader-epoch-checkpoint".toList
def truncateMarkerFile : FileName := "truncate-suffix.marker".toList

def isSegment (name : FileName) : Bool := (splitExtension name).any (fun p => p.2 = segmentExt)

def segmentFilename (baseIndex : ℕ) : FileName := padded 20 baseIndex ++ '.' :: segmentExt

def parseSegmentFilename (name : FileName) : Except XRaftError ℕ :=
  let stem := ((splitExtension name).map Prod.fst).getD name
  match parseUnsigned u64Max stem with
  | .ok index => .ok index
  | .error _ => .error (.storage ("non-numeric segment stem: " ++ String.ofList stem))

def Directory.walFiles (d : Directory) : List (FileName × Bytes) :=
  d.files.filter (fun f => isSegment f.1)

/-! ## Frames -/

structure WalCodec where
  crc32 : Bytes → UInt32
  encodeVoters : VoterSet → Bytes
  decodeVoters : Bytes → Except String VoterSet
  voters_roundTrip : ∀ vs, decodeVoters (encodeVoters vs) = .ok vs

def payloadTagNoop : UInt8 := 0
def payloadTagCommand : UInt8 := 1
def payloadTagSnapshot : UInt8 := 2
def payloadTagConfigChange : UInt8 := 3

def entryHeaderLen : ℕ := 21

/-- Tag and bytes of a payload. A snapshot marker has none: serializing one panics. -/
def WalCodec.payloadBytes (codec : WalCodec) : EntryPayload → Option (UInt8 × Bytes)
  | .noOp => some (payloadTagNoop, [])
  | .command b => some (payloadTagCommand, b)
  | .snapshot _ => none
  | .configChange vs => some (payloadTagConfigChange, codec.encodeVoters vs)

def WalCodec.serializeEntry (codec : WalCodec) (entry : Entry) : Option Bytes :=
  (codec.payloadBytes entry.payload).map fun (tag, payload) =>
    leBytes 8 entry.index ++
      (leBytes 8 entry.term ++ (tag :: (leBytes 4 payload.length ++ payload)))

def WalCodec.encodeFrame (codec : WalCodec) (entry : Entry) : Option Bytes :=
  (codec.serializeEntry entry).map fun data =>
    leBytes 4 data.length ++ (data ++ leBytes 4 (codec.crc32 data).toNat)

def slice (buf : Bytes) (start len : ℕ) : Bytes := (buf.drop start).take len

def WalCodec.deserializePayload (codec : WalCodec) (tag : UInt8) (payload : Bytes) :
    Except XRaftError EntryPayload :=
  if tag = payloadTagNoop then .ok .noOp
  else if tag = payloadTagCommand then .ok (.command payload)
  else if tag = payloadTagSnapshot then
    .error (.storage ("EntryPayload::Snapshot found in WAL segment; snapshot entries " ++
      "are in-memory compaction markers and must not be persisted to WAL"))
  else if tag = payloadTagConfigChange then
    match codec.decodeVoters payload with
    | .ok vs => .ok (.configChange vs)
    | .error e => .error (.storage ("VoterSet decode failed: " ++ e))
  else .error (.storage ("unknown payload tag: " ++ toString tag.toNat))

def WalCodec.deserializeEntry (codec : WalCodec) (data : Bytes) : Except XRaftError Entry :=
  if data.length < entryHeaderLen then
    .error (.storage ("entry data too short: " ++ toString data.length ++ " < 21"))
  else
    let index := leValue (slice data 0 8)
    let term := leValue (slice data 8 8)
    let tag := data.getD 16 0
    let payloadLen := leValue (slice data 17 4)
    if data.length < entryHeaderLen + payloadLen then
      .error (.storage "entry payload truncated")
    else
      match codec.deserializePayload tag (slice data entryHeaderLen payloadLen) with
      | .ok payload => .ok ⟨index, term, payload⟩
      | .error e => .error e

def hexWord (n : ℕ) : String :=
  "0x" ++ String.ofList ((List.range 8).reverse.map fun i => Nat.digitChar (n / 16 ^ i % 16))

def WalCodec.decodeFrame (codec : WalCodec) (buf : Bytes) (offset : ℕ) :
    Except XRaftError (Entry × ℕ) :=
  let remaining := buf.length - offset
  if remaining < 4 then .error (.storage "truncated frame: missing data_len")
  else
    let dataLen := leValue (slice buf offset 4)
    let total := 4 + dataLen + 4
    if remaining < total then .error (.storage "truncated frame: incomplete body")
    else
      let data := slice buf (offset + 4) dataLen
      let storedCrc := leValue (slice buf (offset + 4 + dataLen) 4)
      let computedCrc := (codec.crc32 data).toNat
      if storedCrc ≠ computedCrc then
        .error (.storage ("CRC mismatch at byte " ++ toString offset ++ ": stored=" ++
          hexWord storedCrc ++ " computed=" ++ hexWord computedCrc))
      else
        match codec.deserializeEntry data with
        | .ok entry => .ok (entry, offset + total)
        | .error e => .error e

theorem WalCodec.decodeFrame_next {codec : WalCodec} {buf : Bytes} {offset next : ℕ} {e : Entry}
    (h : codec.decodeFrame buf offset = .ok (e, next)) : offset < next := by
  unfold WalCodec.decodeFrame at h
  dsimp only at h
  split_ifs at h
  split at h
  · cases h
    omega
  · cases h

/-! ## The store -/

structure SegmentInfo where
  baseIndex : ℕ
  path : FileName
  deriving DecidableEq

/-- The state of an open store, with the directory it works on. The open append handle is the name
of its file; `entries` and `offsets` are ordered maps from log indices. -/
structure FileLogStore where
  dir : Directory
  segments : List SegmentInfo := []
  activeWriter : Option FileName := none
  activeSegmentSize : ℕ := 0
  entries : List (ℕ × Entry) := []
  offsets : List (ℕ × (ℕ × ℕ)) := []
  maxSegmentSize : ℕ
  firstValidIndex : ℕ := 0
  epochStarts : EpochStarts := []
  snapshotAnchor : Option (ℕ × ℕ) := none
  deriving DecidableEq

namespace FileLogStore

/-! ### Sidecars -/

def loadSidecar (d : Directory) (label : String) (name : FileName) (expected : ℕ) :
    Except XRaftError (Option Bytes) :=
  match d.read name with
  | none => .ok none
  | some buf =>
    if buf.length ≠ expected then
      .error (.storage (label ++ " " ++ d.display name ++ " has wrong length: " ++
        toString buf.length ++ " (expected " ++ toString expected ++ ")"))
    else .ok (some buf)

def loadPurgeMarker (s : FileLogStore) : Except XRaftError FileLogStore := do
  match ← loadSidecar s.dir "purge marker" purgeMarkerFile 8 with
  | none => .ok s
  | some buf => .ok { s with firstValidIndex := leValue buf }

def persistPurgeMarker (s : FileLogStore) : FileLogStore :=
  { s with dir := s.dir.persist purgeMarkerFile (leBytes 8 s.firstValidIndex) }

def loadSnapshotAnchor (s : FileLogStore) : Except XRaftError FileLogStore := do
  match ← loadSidecar s.dir "snapshot anchor" snapshotAnchorFile 16 with
  | none => .ok s
  | some buf =>
    .ok { s with snapshotAnchor := some (leValue (slice buf 0 8), leValue (slice buf 8 8)) }

def persistSnapshotAnchor (s : FileLogStore) : FileLogStore :=
  match s.snapshotAnchor with
  | none => s
  | some (term, index) =>
    { s with dir := s.dir.persist snapshotAnchorFile (leBytes 8 term ++ leBytes 8 index) }

def loadTruncateMarker (d : Directory) : Except XRaftError (Option ℕ) := do
  match ← loadSidecar d "truncate marker" truncateMarkerFile 8 with
  | none => .ok none
  | some buf => .ok (some (leValue buf))

def persistTruncateMarker (s : FileLogStore) (targetLastIndex : ℕ) : FileLogStore :=
  { s with dir := s.dir.persist truncateMarkerFile (leBytes 8 targetLastIndex) }

def clearTruncateMarker (s : FileLogStore) : FileLogStore :=
  { s with dir := s.dir.remove truncateMarkerFile }

def asBytes (text : List Char) : Bytes := text.flatMap String.utf8EncodeChar

def readToString (bytes : Bytes) : Option (List Char) :=
  (ByteArray.utf8Decode? ⟨bytes.toArray⟩).map Array.toList

theorem readToString_asBytes (text : List Char) : readToString (asBytes text) = some text := by
  have hbytes : (⟨(asBytes text).toArray⟩ : ByteArray) = text.utf8Encode := by
    apply ByteArray.ext
    simp [asBytes, List.utf8Encode]
  rw [readToString, hbytes, List.utf8Decode?_utf8Encode]
  simp

def checkpointError (d : Directory) (message : String) : XRaftError :=
  .storage (d.display epochCheckpointFile ++ message)

def checkpointNumber (d : Directory) (max : ℕ) (label : String) (shown text : List Char) :
    Except XRaftError ℕ :=
  match parseUnsigned max text with
  | .ok n => .ok n
  | .error e =>
    .error (checkpointError d (": invalid " ++ label ++ " '" ++ String.ofList shown ++ "': " ++
      e.display))

def checkpointLine (d : Directory) (line : List Char) : Except XRaftError (ℕ × ℕ) :=
  match words line with
  | [] => .error (checkpointError d (": empty entry line '" ++ String.ofList line ++ "'"))
  | [_] =>
    .error (checkpointError d (": entry line '" ++ String.ofList line ++ "' missing start_offset"))
  | epochStr :: startStr :: _ => do
    let epoch ← checkpointNumber d u64Max "epoch" epochStr epochStr
    let start ← checkpointNumber d u64Max "start_offset" startStr startStr
    .ok (epoch, start)

def checkpointEntries (d : Directory) (count : ℕ) :
    ℕ → List (List Char) → EpochStarts → Except XRaftError EpochStarts
  | 0, _, out => .ok out
  | _ + 1, [], _ =>
    .error (checkpointError d (": declared " ++ toString count ++ " entries but file ended early"))
  | n + 1, line :: rest, out => do
    let (epoch, start) ← checkpointLine d line
    checkpointEntries d count n rest (OrderedMaps.insert epoch start out)

def loadEpochCheckpoint (d : Directory) : Except XRaftError EpochStarts :=
  match d.read epochCheckpointFile with
  | none => .ok []
  | some bytes =>
    match readToString bytes with
    | none => .error (.storage "stream did not contain valid UTF-8")
    | some content =>
      match lines content with
      | [] => .error (checkpointError d " is empty")
      | versionLine :: rest => do
        let version ← checkpointNumber d 4294967295 "version line" versionLine (trim versionLine)
        if version ≠ 0 then
          .error (checkpointError d (": unsupported leader-epoch-checkpoint version " ++
            toString version))
        else
          match rest with
          | [] => .error (checkpointError d ": missing entry-count line")
          | countLine :: entryLines => do
            let count ← checkpointNumber d u64Max "count line" countLine (trim countLine)
            checkpointEntries d count count entryLines []

/-- The text of the checkpoint: a version, the number of epochs, and a line for each. -/
def checkpointText (starts : EpochStarts) : List Char :=
  '0' :: '\n' :: (numeral 20 starts.length ++ '\n' ::
    starts.flatMap fun p => numeral 20 p.1 ++ ' ' :: (numeral 20 p.2 ++ ['\n']))

def persistEpochCheckpoint (s : FileLogStore) : FileLogStore :=
  { s with dir := s.dir.persist epochCheckpointFile (asBytes (checkpointText s.epochStarts)) }

def rebuildEpochStarts (s : FileLogStore) : FileLogStore :=
  { s with epochStarts := recordEpochs [] (s.entries.map Prod.snd) }

/-! ### Recovery -/

/-- A decoded frame counts unless it lies at or below the purge floor. -/
def recordFrame (s : FileLogStore) (segIdx frameStart : ℕ) (entry : Entry) : FileLogStore :=
  if s.firstValidIndex < entry.index then
    { s with
      offsets := OrderedMaps.insert entry.index (segIdx, frameStart) s.offsets
      entries := OrderedMaps.insert entry.index entry s.entries }
  else s

/-- The replay loop of one segment file. A frame that does not decode ends it: in the last segment
the file is cut there, in any other the error is final. -/
def replayFrames (codec : WalCodec) (path : FileName) (segIdx : ℕ) (isLast : Bool) (buf : Bytes)
    (cursor : ℕ) (s : FileLogStore) : Except XRaftError FileLogStore :=
  if hmore : cursor < buf.length then
    match hframe : codec.decodeFrame buf cursor with
    | .ok (entry, next) =>
      have : buf.length - next < buf.length - cursor := by
        have := WalCodec.decodeFrame_next hframe
        omega
      replayFrames codec path segIdx isLast buf next (s.recordFrame segIdx cursor entry)
    | .error e =>
      if isLast then do
        let dir ← s.dir.setLen path cursor
        .ok { s with dir }
      else .error e
  else .ok s
termination_by buf.length - cursor

def recoverSegment (codec : WalCodec) (s : FileLogStore) (path : FileName) (segIdx : ℕ)
    (isLast : Bool) : Except XRaftError FileLogStore :=
  match s.dir.read path with
  | none => .error fileNotFound
  | some buf => replayFrames codec path segIdx isLast buf 0 s

def recoverSegments (codec : WalCodec) : List FileName → FileLogStore →
    Except XRaftError FileLogStore
  | [], s => .ok s
  | path :: rest, s => do
    let baseIndex ← parseSegmentFilename path
    let segIdx := s.segments.length
    let s' ← recoverSegment codec { s with segments := s.segments ++ [⟨baseIndex, path⟩] } path
      segIdx rest.isEmpty
    recoverSegments codec rest s'

def openWriter (s : FileLogStore) (path : FileName) : Except XRaftError FileLogStore :=
  match s.dir.read path with
  | none => .error fileNotFound
  | some bytes => .ok { s with activeWriter := some path, activeSegmentSize := bytes.length }

def recover (codec : WalCodec) (s : FileLogStore) : Except XRaftError FileLogStore := do
  let s ← recoverSegments codec (s.dir.walFiles.map Prod.fst) s
  match s.segments.getLast? with
  | some last => s.openWriter last.path
  | none => .ok s

/-! ### Segments -/

def shouldRotate (s : FileLogStore) (additional : ℕ) : Bool :=
  s.activeWriter.isSome && decide (s.maxSegmentSize < s.activeSegmentSize + additional)

def createSegment (s : FileLogStore) (baseIndex : ℕ) : FileLogStore :=
  let path := segmentFilename baseIndex
  { s with
    dir := s.dir.touch path
    segments := s.segments ++ [⟨baseIndex, path⟩]
    activeWriter := some path
    activeSegmentSize := 0 }

def rotateSegment (s : FileLogStore) (nextBase : ℕ) : FileLogStore :=
  createSegment { s with activeWriter := none, activeSegmentSize := 0 } nextBase

def reopenActiveWriter (s : FileLogStore) : Except XRaftError FileLogStore :=
  match s.segments.getLast? with
  | some last => s.openWriter last.path
  | none => .ok { s with activeWriter := none, activeSegmentSize := 0 }

/-! ### Operations -/

def prepareSegment (s : FileLogStore) (index frameLen : ℕ) : FileLogStore :=
  let s := if s.shouldRotate frameLen then s.rotateSegment index else s
  if s.activeWriter.isNone then s.createSegment index else s

def writeFrame (s : FileLogStore) (path : FileName) (frame : Bytes) (entry : Entry) :
    FileLogStore :=
  let newEpochSeen := !s.epochStarts.any (fun p => p.1 = entry.term)
  let written := { s with
    dir := s.dir.appendTo path frame
    activeSegmentSize := s.activeSegmentSize + frame.length
    entries := OrderedMaps.insert entry.index entry s.entries
    offsets := OrderedMaps.insert entry.index (s.segments.length - 1, s.activeSegmentSize) s.offsets
    epochStarts := orInsert entry.term entry.index s.epochStarts }
  if newEpochSeen then written.persistEpochCheckpoint else written

def appendEntry (codec : WalCodec) (s : FileLogStore) (entry : Entry) :
    Except XRaftError FileLogStore :=
  match codec.encodeFrame entry with
  -- the source tests for a snapshot marker first, the one entry that does not serialize
  | none =>
    .error (.storage ("EntryPayload::Snapshot is an in-memory compaction marker " ++
      "and must not be written to WAL segment files"))
  | some frame =>
    let ready := s.prepareSegment entry.index frame.length
    match ready.activeWriter with
    | none => .error (.storage "no active segment writer")
    | some path => .ok (ready.writeFrame path frame entry)

def append (codec : WalCodec) (s : FileLogStore) (entries : List Entry) :
    Except XRaftError FileLogStore :=
  entries.foldlM (appendEntry codec) s

def get (s : FileLogStore) (index : ℕ) : Option Entry :=
  if index = 0 then none else OrderedMaps.lookup index s.entries

/-- Entries of the half-open range; an inverted range panics. -/
def getRange (s : FileLogStore) (first last : ℕ) : Option (List Entry) :=
  if last < first then none
  else some ((s.entries.filter (fun p => first ≤ p.1 ∧ p.1 < last)).map Prod.snd)

def lastIndex (s : FileLogStore) : ℕ := (s.entries.getLast?.map Prod.fst).getD 0

def lastTerm (s : FileLogStore) : ℕ := (s.entries.getLast?.map fun p => p.2.term).getD 0

def termAt (s : FileLogStore) (index : ℕ) : Option ℕ :=
  (OrderedMaps.lookup index s.entries).map Entry.term

def dropEntries (s : FileLogStore) (p : ℕ → Bool) : FileLogStore :=
  let keys := (s.entries.filter (fun e => p e.1)).map Prod.fst
  { s with
    entries := s.entries.filter (fun e => !keys.contains e.1)
    offsets := s.offsets.filter (fun o => !keys.contains o.1) }

def cutSegment (s : FileLogStore) (segIdx byteOffset : ℕ) : Except XRaftError FileLogStore :=
  match s.segments[segIdx]? with
  | none => .error (.storage "index out of bounds")
  | some boundary => do
    let tail := (s.segments.drop (segIdx + 1)).map SegmentInfo.path
    let dir ← (tail.foldl Directory.remove s.dir).setLen boundary.path byteOffset
    let kept := s.segments.take (segIdx + 1)
    if byteOffset = 0 then
      .ok { s with dir := dir.remove boundary.path, segments := kept.dropLast }
    else .ok { s with dir, segments := kept }

def truncateFrom (s : FileLogStore) (index : ℕ) : Except XRaftError FileLogStore :=
  match s.offsets.find? (fun p => index ≤ p.1) with
  -- nothing to cut, but a marker may be left from a truncation that was interrupted
  | none => .ok s.clearTruncateMarker
  | some (_, segIdx, byteOffset) => do
    let marked := { s.persistTruncateMarker (index - 1) with activeWriter := none }
    let cut ← marked.cutSegment segIdx byteOffset
    let rebuilt := (cut.dropEntries (fun k => index ≤ k)).rebuildEpochStarts.persistEpochCheckpoint
    let reopened ← rebuilt.reopenActiveWriter
    .ok reopened.clearTruncateMarker

/-- How many leading segments end at or below `through`; the last segment never counts. -/
def coveredSegments (through : ℕ) : List SegmentInfo → ℕ
  | _ :: next :: rest =>
    if next.baseIndex = 0 ∨ next.baseIndex - 1 ≤ through then
      coveredSegments through (next :: rest) + 1
    else 0
  | _ => 0

def reclaimSegments (s : FileLogStore) (through : ℕ) : Except XRaftError FileLogStore :=
  let dropCount := coveredSegments through s.segments
  if dropCount = 0 then .ok s
  else if s.offsets.all (fun p => dropCount ≤ p.2.1) then
    .ok { s with
      dir := ((s.segments.take dropCount).map SegmentInfo.path).foldl Directory.remove s.dir
      segments := s.segments.drop dropCount
      offsets := s.offsets.map fun p => (p.1, (p.2.1 - dropCount, p.2.2)) }
  else .error (.storage "offset for surviving entry must reference a kept segment")

def purgePrefix (s : FileLogStore) (through : ℕ) : Except XRaftError FileLogStore :=
  if through ≤ s.firstValidIndex then .ok s
  else do
    let marked := persistPurgeMarker { s with firstValidIndex := through }
    let kept ← (marked.dropEntries (fun k => k ≤ through)).reclaimSegments through
    .ok kept.rebuildEpochStarts.persistEpochCheckpoint

def updateSnapshotAnchor (s : FileLogStore) (term index : ℕ) : FileLogStore :=
  match s.snapshotAnchor with
  | some (_, prior) =>
    if index ≤ prior then s
    else persistSnapshotAnchor { s with snapshotAnchor := some (term, index) }
  | none => persistSnapshotAnchor { s with snapshotAnchor := some (term, index) }

def endOffsetForEpoch (s : FileLogStore) (epoch : ℕ) : Option ℕ :=
  endOffsetLookup s.epochStarts s.lastIndex s.snapshotAnchor epoch

/-- `open_with_max_segment_size`. The epoch map is rebuilt from the entries; the checkpoint on disk
is only read, so that a malformed one is noticed. -/
def openWithMaxSegmentSize (codec : WalCodec) (dir : Directory) (maxSegmentSize : ℕ) :
    Except XRaftError FileLogStore := do
  let marked ← loadPurgeMarker { dir, maxSegmentSize }
  let anchored ← marked.loadSnapshotAnchor
  let pending ← loadTruncateMarker dir
  let _ ← loadEpochCheckpoint dir
  let recovered ← anchored.recover codec
  let settled ← match pending with
    | some target => recovered.truncateFrom (satAdd target 1)
    | none => .ok recovered
  .ok settled.rebuildEpochStarts.persistEpochCheckpoint

end FileLogStore

end WriteAheadLog
