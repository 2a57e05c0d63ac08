import Xraft.SampleCodecs

/-! # Snapshot files

The binary format of a snapshot file and its three parsers: `decode_snapshot` on a buffer,
`read_meta_from_file`, and `decode_header_for_streaming` with the chunk reader behind it. Each
computes what the format assigns to a byte string, whatever the string is. `usize` has 64 bits, as
`u64` has.
-/
namespace SnapshotFiles

open ProtocolTypes DurableStores ByteFrames WriteAheadLog SampleCodecs

/-! ## Metadata and codecs -/

/-- Snapshot metadata as the stores keep it. The engine reads everything but the checksum. -/
structure StoredMeta extends SnapshotMeta where
  checksum : Option ℕ
  deriving DecidableEq, Repr

/-- What is taken from outside the sources: the encoding of voter sets, which is never empty since
it starts with a length, and a checksum that can be computed piece by piece. -/
structure SnapshotCodec extends WalCodec where
  encodeVoters_ne_nil : ∀ vs, encodeVoters vs ≠ []
  Hasher : Type
  newHasher : Hasher
  update : Hasher → Bytes → Hasher
  finalize : Hasher → UInt32
  incremental : ∀ parts : List Bytes, finalize (parts.foldl update newHasher) = crc32 parts.flatten

def sampleSnapshotCodec : SnapshotCodec where
  toWalCodec := sampleCodec
  encodeVoters_ne_nil := encodeVoters_ne_nil
  Hasher := ℕ
  newHasher := 0xFFFFFFFF
  update := crcUpdate
  finalize := crcFinalize
  incremental parts := congrArg crcFinalize (crcUpdate_flatten parts _)

def snapshotMagic : ℕ := 0x504E5358
def snapshotVersion : ℕ := 1
def fixedHeaderSize : ℕ := 26
def defaultChunkSize : ℕ := 1024 * 1024
def maxVoterSetLen : ℕ := 100000000

def checkedAdd (a b : ℕ) : Option ℕ := if a + b ≤ u64Max then some (a + b) else none

def okOr {α : Type} (message : String) : Option α → Except XRaftError α
  | some a => .ok a
  | none => .error (.storage message)

/-- A voter set of length zero stands for none. -/
def SnapshotCodec.parseVoterSet (codec : SnapshotCodec) (bytes : Bytes) :
    Except XRaftError (Option VoterSet) :=
  if 0 < bytes.length then
    match codec.decodeVoters bytes with
    | .ok vs => .ok (some vs)
    | .error e => .error (.storage ("voter_set decode: " ++ e))
  else .ok none

/-! ## Encoding -/

def SnapshotCodec.voterSetBytes (codec : SnapshotCodec) (voterSet : Option VoterSet) : Bytes :=
  match voterSet with
  | some vs => codec.encodeVoters vs
  | none => []

def SnapshotCodec.encodeSnapshot (codec : SnapshotCodec) (metadata : StoredMeta) (data : Bytes) :
    Except XRaftError Bytes := do
  let voterSetBytes := codec.voterSetBytes metadata.voterSet
  if 4294967295 < voterSetBytes.length then .error (.storage "voter_set too large")
  else if u64Max < data.length then .error (.storage "snapshot data length exceeds u64")
  else
    let _ ← okOr "overflow computing snapshot encoding size"
      (checkedAdd fixedHeaderSize voterSetBytes.length >>= (checkedAdd · 8) >>=
        (checkedAdd · data.length) >>= (checkedAdd · 4))
    .ok (leBytes 4 snapshotMagic ++ (leBytes 2 snapshotVersion ++
      (leBytes 8 metadata.lastIncludedIndex ++ (leBytes 8 metadata.lastIncludedTerm ++
      (leBytes 4 voterSetBytes.length ++ (voterSetBytes ++ (leBytes 8 data.length ++
      (data ++ leBytes 4 (codec.crc32 data).toNat))))))))

/-! ## Decoding a buffer -/

def SnapshotCodec.decodeSnapshot (codec : SnapshotCodec) (raw : Bytes) :
    Except XRaftError (StoredMeta × Bytes) := do
  if raw.length < fixedHeaderSize then .error (.storage "snapshot file too short for header")
  else
    let magic := leValue (slice raw 0 4)
    if magic ≠ snapshotMagic then
      .error (.storage ("bad snapshot magic: expected " ++ hexWord snapshotMagic ++ ", got " ++
        hexWord magic))
    else
      let version := leValue (slice raw 4 2)
      if version ≠ snapshotVersion then
        .error (.storage ("unsupported snapshot version: " ++ toString version))
      else
        let lastIncludedIndex := leValue (slice raw 6 8)
        let lastIncludedTerm := leValue (slice raw 14 8)
        let voterSetLen := leValue (slice raw 22 4)
        if maxVoterSetLen < voterSetLen then
          .error (.storage ("voter_set_len too large: " ++ toString voterSetLen))
        else
          let vsEnd ← okOr "overflow in voter_set_len" (checkedAdd fixedHeaderSize voterSetLen)
          let dataStart ← okOr "overflow in data_len offset" (checkedAdd vsEnd 8)
          if raw.length < dataStart then
            .error (.storage "snapshot file truncated in voter-set or data-len")
          else
            let voterSet ← codec.parseVoterSet (slice raw fixedHeaderSize voterSetLen)
            let dataLen := leValue (slice raw vsEnd 8)
            let dataEnd ← okOr "overflow in data_len" (checkedAdd dataStart dataLen)
            let crcEnd ← okOr "overflow in crc offset" (checkedAdd dataEnd 4)
            if raw.length < crcEnd then
              .error (.storage "snapshot file truncated in payload data or crc")
            else if crcEnd < raw.length then
              .error (.storage ("snapshot has " ++ toString (raw.length - crcEnd) ++
                " trailing bytes after crc (expected exact length " ++ toString crcEnd ++ ")"))
            else
              let data := slice raw dataStart dataLen
              let storedCrc := leValue (slice raw dataEnd 4)
              let computedCrc := (codec.crc32 data).toNat
              if storedCrc ≠ computedCrc then
                .error (.storage ("snapshot payload CRC mismatch: stored " ++ hexWord storedCrc ++
                  ", computed " ++ hexWord computedCrc))
              else
                .ok (⟨⟨lastIncludedIndex, lastIncludedTerm,
                  canonicalId lastIncludedTerm lastIncludedIndex, voterSet, some dataLen⟩,
                  some computedCrc⟩, data)

/-! ## Decoding a file -/

structure FileReader where
  content : Bytes
  position : ℕ

def FileReader.readExact (r : FileReader) (len : ℕ) : Except String (Bytes × FileReader) :=
  if r.position + len ≤ r.content.length then
    .ok (slice r.content r.position len, { r with position := r.position + len })
  else .error "failed to fill whole buffer"

def FileReader.read (r : FileReader) (context : String) (len : ℕ) :
    Except XRaftError (Bytes × FileReader) :=
  match r.readExact len with
  | .ok p => .ok p
  | .error e => .error (.storage (context ++ e))

structure FileHeader where
  lastIncludedIndex : ℕ
  lastIncludedTerm : ℕ
  voterSetLen : ℕ
  voterSet : Option VoterSet
  dataLen : ℕ

/-- The fields in front of the payload. Both file parsers read them alike, and differ in what they
say when the length field is cut off. -/
def SnapshotCodec.readHeader (codec : SnapshotCodec) (file : FileReader) (dataLenContext : String) :
    Except XRaftError (FileHeader × FileReader) := do
  let (hdr, file) ← file.read "" fixedHeaderSize
  if leValue (slice hdr 0 4) ≠ snapshotMagic then .error (.storage "bad snapshot magic")
  else
    let version := leValue (slice hdr 4 2)
    if version ≠ snapshotVersion then
      .error (.storage ("unsupported snapshot version: " ++ toString version))
    else
      let voterSetLen := leValue (slice hdr 22 4)
      if maxVoterSetLen < voterSetLen then
        .error (.storage ("voter_set_len too large: " ++ toString voterSetLen))
      else
        let (vsBuf, file) ← file.read "" voterSetLen
        let voterSet ← codec.parseVoterSet vsBuf
        let (dl, file) ← file.read dataLenContext 8
        .ok (⟨leValue (slice hdr 6 8), leValue (slice hdr 14 8), voterSetLen, voterSet,
          leValue dl⟩, file)

def FileHeader.toMeta (header : FileHeader) (storedCrc : ℕ) : StoredMeta :=
  ⟨⟨header.lastIncludedIndex, header.lastIncludedTerm,
    canonicalId header.lastIncludedTerm header.lastIncludedIndex, header.voterSet,
    some header.dataLen⟩, some storedCrc⟩

def SnapshotCodec.decodeHeaderForStreaming (codec : SnapshotCodec) (file : FileReader)
    (fileLen : ℕ) : Except XRaftError ((StoredMeta × ℕ × ℕ × ℕ) × FileReader) := do
  let (header, file) ← codec.readHeader file ""
  let headerSize ← okOr "overflow computing header size"
    (checkedAdd fixedHeaderSize header.voterSetLen >>= (checkedAdd · 8))
  let expectedLen ← okOr "overflow computing expected file size"
    (checkedAdd headerSize header.dataLen >>= (checkedAdd · 4))
  if fileLen ≠ expectedLen then
    .error (.storage ("snapshot file size mismatch: expected " ++ toString expectedLen ++
      " bytes, got " ++ toString fileLen))
  else
    let crcOffset ← okOr "overflow computing crc offset" (checkedAdd headerSize header.dataLen)
    let (crcBuf, _) ← FileReader.read { file with position := crcOffset } "" 4
    let storedCrc := leValue crcBuf
    .ok ((header.toMeta storedCrc, headerSize, header.dataLen, storedCrc), file)

/-- The payload through the hasher in pieces of at most `size` bytes. `fuel` bounds their number,
and `remaining` is always enough. -/
def SnapshotCodec.hashPayload (codec : SnapshotCodec) (size : ℕ) :
    ℕ → ℕ → FileReader → codec.Hasher → Except XRaftError (codec.Hasher × FileReader)
  | 0, _, file, hasher => .ok (hasher, file)
  | fuel + 1, remaining, file, hasher =>
    if remaining = 0 then .ok (hasher, file)
    else do
      let toRead := min size remaining
      let (buf, file) ← file.read "failed to read payload for CRC verification: " toRead
      codec.hashPayload size fuel (remaining - toRead) file (codec.update hasher buf)

def SnapshotCodec.readMetaFromFile (codec : SnapshotCodec) (content : Bytes) :
    Except XRaftError StoredMeta := do
  let (header, file) ← codec.readHeader ⟨content, 0⟩ "failed to read data_len: "
  let expectedFileSize ← okOr "overflow computing expected file size from data_len"
    (checkedAdd fixedHeaderSize header.voterSetLen >>= (checkedAdd · 8) >>=
      (checkedAdd · header.dataLen) >>= (checkedAdd · 4))
  if content.length ≠ expectedFileSize then
    .error (.storage ("snapshot file size mismatch: expected " ++ toString expectedFileSize ++
      " bytes (header + vs(" ++ toString header.voterSetLen ++ ") + data_len(" ++
      toString header.dataLen ++ ") + payload), got " ++ toString content.length))
  else
    let (hasher, file) ← codec.hashPayload (min header.dataLen (64 * 1024)) header.dataLen
      header.dataLen file codec.newHasher
    let computedCrc := (codec.finalize hasher).toNat
    let (crcBuf, _) ← file.read "failed to read stored CRC: " 4
    let storedCrc := leValue crcBuf
    if computedCrc ≠ storedCrc then
      .error (.storage ("snapshot payload CRC mismatch during indexing: stored " ++
        hexWord storedCrc ++ ", computed " ++ hexWord computedCrc))
    else .ok (header.toMeta storedCrc)

/-! ## Streaming -/

structure StoredChunkItem where
  chunkIndex : ℕ
  data : Bytes
  done : Bool
  metadata : Option StoredMeta
  deriving DecidableEq

/-- The chunk size of a reader is positive: zero asks for the default. -/
structure SnapshotChunkReader (codec : SnapshotCodec) where
  reader : FileReader
  metadata : Option StoredMeta
  chunkSize : ℕ
  remaining : ℕ
  dataLen : ℕ
  chunkIndex : ℕ
  finished : Bool
  crcHasher : codec.Hasher
  storedCrc : ℕ
  skipCrc : Bool
  windowCoversTail : Bool
  firstEmitted : Bool
  chunkSize_pos : 0 < chunkSize

namespace SnapshotChunkReader

variable {codec : SnapshotCodec}

def crcFault (r : SnapshotChunkReader codec) (hasher : codec.Hasher) : Option XRaftError :=
  let computedCrc := (codec.finalize hasher).toNat
  if !r.skipCrc ∧ computedCrc ≠ r.storedCrc then
    some (.storage ("snapshot payload CRC mismatch during streaming: stored " ++
      hexWord r.storedCrc ++ ", computed " ++ hexWord computedCrc))
  else none

def next (r : SnapshotChunkReader codec) :
    Option (Except XRaftError StoredChunkItem × SnapshotChunkReader codec) :=
  if r.finished then none
  else if r.dataLen = 0 then
    match r.crcFault r.crcHasher with
    | some e => some (.error e, { r with finished := true })
    | none =>
      some (.ok ⟨r.chunkIndex, [], true, r.metadata⟩, { r with finished := true, metadata := none })
  else if r.remaining = 0 then none
  else
    match r.reader.readExact (min r.chunkSize r.remaining) with
    | .error e =>
      some (.error (.storage ("chunk read error at offset " ++ toString (r.dataLen - r.remaining) ++
        ": " ++ e)), { r with finished := true })
    | .ok (buf, reader) =>
      let hasher := codec.update r.crcHasher buf
      let remaining := r.remaining - min r.chunkSize r.remaining
      let windowExhausted := decide (remaining = 0)
      let read := { r with
        reader := reader
        crcHasher := hasher
        remaining := remaining
        chunkIndex := r.chunkIndex + 1
        finished := windowExhausted }
      match if windowExhausted then r.crcFault hasher else none with
      | some e => some (.error e, read)
      | none =>
        let metadata := if r.firstEmitted then none else r.metadata
        some (.ok ⟨r.chunkIndex, buf, windowExhausted && r.windowCoversTail, metadata⟩,
          { read with
            metadata := if r.firstEmitted then r.metadata else none
            firstEmitted := true })

def drain : ℕ → SnapshotChunkReader codec → List (Except XRaftError StoredChunkItem)
  | 0, _ => []
  | fuel + 1, r =>
    match r.next with
    | none => []
    | some (item, rest) => item :: drain fuel rest

/-- A reader yields at most one item more than it has bytes to read. -/
def items (r : SnapshotChunkReader codec) : List (Except XRaftError StoredChunkItem) :=
  drain (r.remaining + 1) r

end SnapshotChunkReader

def effectiveChunkSize (chunkSize : ℕ) : ℕ := if chunkSize = 0 then defaultChunkSize else chunkSize

theorem effectiveChunkSize_pos (chunkSize : ℕ) : 0 < effectiveChunkSize chunkSize := by
  unfold effectiveChunkSize
  split_ifs with h
  · decide
  · exact Nat.pos_of_ne_zero h

/-- The number of chunks of a window; the sum that rounds it up may overflow. -/
def totalChunks (window chunkSize : ℕ) : Except XRaftError ℕ :=
  if window = 0 then .ok 1
  else okOr "overflow computing chunk count"
    ((checkedAdd window (chunkSize - 1)).map (· / chunkSize))

def callerMismatch (reader : String) (metadata fileMeta : StoredMeta) : XRaftError :=
  .storage (reader ++ ": caller metadata (term=" ++ toString metadata.lastIncludedTerm ++
    ", index=" ++ toString metadata.lastIncludedIndex ++ ") does not match file metadata (term=" ++
    toString fileMeta.lastIncludedTerm ++ ", index=" ++ toString fileMeta.lastIncludedIndex ++ ")")

def SnapshotCodec.fullReader (codec : SnapshotCodec) (fileMeta : StoredMeta) (file : FileReader)
    (dataLen storedCrc chunkSize : ℕ) : Except XRaftError (SnapshotChunkReader codec) := do
  let _ ← totalChunks dataLen (effectiveChunkSize chunkSize)
  .ok {
    reader := file
    metadata := some fileMeta
    chunkSize := effectiveChunkSize chunkSize
    remaining := dataLen
    dataLen := dataLen
    chunkIndex := 0
    finished := false
    crcHasher := codec.newHasher
    storedCrc := storedCrc
    skipCrc := false
    windowCoversTail := true
    firstEmitted := false
    chunkSize_pos := effectiveChunkSize_pos chunkSize }

def SnapshotCodec.chunkedReader (codec : SnapshotCodec) (content : Bytes) (metadata : StoredMeta)
    (chunkSize : ℕ) : Except XRaftError (SnapshotChunkReader codec) := do
  let ((fileMeta, _, dataLen, storedCrc), file) ←
    codec.decodeHeaderForStreaming ⟨content, 0⟩ content.length
  if fileMeta.lastIncludedIndex ≠ metadata.lastIncludedIndex ∨
      fileMeta.lastIncludedTerm ≠ metadata.lastIncludedTerm then
    .error (callerMismatch "chunked_reader" metadata fileMeta)
  else codec.fullReader fileMeta file dataLen storedCrc chunkSize

/-- A reader that yields one empty chunk, for an offset at or behind the end. -/
def SnapshotCodec.spentReader (codec : SnapshotCodec) (fileMeta : StoredMeta) (file : FileReader)
    (storedCrc chunkSize chunkIndex : ℕ) : SnapshotChunkReader codec where
  reader := file
  metadata := some fileMeta
  chunkSize := effectiveChunkSize chunkSize
  remaining := 0
  dataLen := 0
  chunkIndex := chunkIndex
  finished := false
  crcHasher := codec.newHasher
  storedCrc := storedCrc
  skipCrc := true
  windowCoversTail := true
  firstEmitted := false
  chunkSize_pos := effectiveChunkSize_pos chunkSize

def SnapshotCodec.chunkedReaderFromOffset (codec : SnapshotCodec) (content : Bytes)
    (metadata : StoredMeta) (chunkSize offset : ℕ) (maxBytes : Option ℕ) :
    Except XRaftError (SnapshotChunkReader codec) := do
  let ((fileMeta, headerSize, dataLen, storedCrc), file) ←
    codec.decodeHeaderForStreaming ⟨content, 0⟩ content.length
  if fileMeta.lastIncludedIndex ≠ metadata.lastIncludedIndex ∨
      fileMeta.lastIncludedTerm ≠ metadata.lastIncludedTerm then
    .error (callerMismatch "chunked_reader_from_offset" metadata fileMeta)
  else
    let size := effectiveChunkSize chunkSize
    if dataLen ≤ offset ∧ 0 < dataLen then
      .ok (codec.spentReader fileMeta file storedCrc chunkSize (offset / size))
    else if dataLen = 0 ∧ 0 < offset then
      .ok (codec.spentReader fileMeta file storedCrc chunkSize 0)
    else
      let remainingFromOffset := dataLen - offset
      let effectiveWindow := match maxBytes with
        | some mb => if 0 < mb then min remainingFromOffset mb else remainingFromOffset
        | none => remainingFromOffset
      let _ ← totalChunks effectiveWindow size
      .ok {
        reader := if 0 < offset then { file with position := headerSize + offset } else file
        metadata := some fileMeta
        chunkSize := size
        remaining := effectiveWindow
        dataLen := dataLen
        chunkIndex := offset / size
        finished := false
        crcHasher := codec.newHasher
        storedCrc := storedCrc
        skipCrc := decide (0 < offset ∨ effectiveWindow < dataLen)
        windowCoversTail := decide (dataLen ≤ offset + effectiveWindow)
        firstEmitted := false
        chunkSize_pos := effectiveChunkSize_pos chunkSize }

def SnapshotCodec.streamFile (codec : SnapshotCodec) (content : Bytes) (chunkSize : ℕ) :
    Except XRaftError (List StoredChunkItem) := do
  let ((fileMeta, _, dataLen, storedCrc), file) ←
    codec.decodeHeaderForStreaming ⟨content, 0⟩ content.length
  let reader ← codec.fullReader fileMeta file dataLen storedCrc chunkSize
  reader.items.mapM id

/-! ## The format -/

def voterSetLenOf (b : Bytes) : ℕ := leValue (slice b 22 4)
def dataLenOf (b : Bytes) : ℕ := leValue (slice b (26 + voterSetLenOf b) 8)
def payloadOf (b : Bytes) : Bytes := slice b (26 + voterSetLenOf b + 8) (dataLenOf b)
def storedCrcOf (b : Bytes) : ℕ := leValue (slice b (26 + voterSetLenOf b + 8 + dataLenOf b) 4)

def Headed (b : Bytes) : Prop :=
  26 ≤ b.length ∧ leValue (slice b 0 4) = snapshotMagic ∧
    leValue (slice b 4 2) = snapshotVersion ∧ voterSetLenOf b ≤ maxVoterSetLen

def Measured (b : Bytes) : Prop := b.length = 26 + voterSetLenOf b + 8 + dataLenOf b + 4

def metaOf (b : Bytes) (voterSet : Option VoterSet) : StoredMeta :=
  let index := leValue (slice b 6 8)
  let term := leValue (slice b 14 8)
  ⟨⟨index, term, canonicalId term index, voterSet, some (dataLenOf b)⟩, some (storedCrcOf b)⟩

structure SnapshotCodec.Spells (codec : SnapshotCodec) (b : Bytes) (metadata : StoredMeta)
    (data : Bytes) : Prop where
  headed : Headed b
  measured : Measured b
  voters : codec.parseVoterSet (slice b 26 (voterSetLenOf b)) = .ok metadata.voterSet
  checked : storedCrcOf b = (codec.crc32 (payloadOf b)).toNat
  metadata_eq : metadata = metaOf b metadata.voterSet
  data_eq : data = payloadOf b

/-! ## Inverting the parsers -/

theorem okOr_eq_ok {α : Type} {message : String} {o : Option α} {a : α} :
    okOr message o = .ok a ↔ o = some a := by
  cases o <;> simp [okOr]

theorem checkedAdd_eq_some {a b c : ℕ} : checkedAdd a b = some c ↔ a + b ≤ u64Max ∧ c = a + b := by
  unfold checkedAdd
  split_ifs with h <;> simp [h, eq_comm]

theorem optionBind_eq_some {α β : Type} {x : Option α} {f : α → Option β} {b : β} :
    (x >>= f) = some b ↔ ∃ a, x = some a ∧ f a = some b := Option.bind_eq_some_iff

theorem FileReader.read_eq_ok {r : FileReader} {context : String} {len : ℕ}
    {p : Bytes × FileReader} : r.read context len = .ok p ↔ r.position + len ≤ r.content.length ∧
      p = (slice r.content r.position len, ⟨r.content, r.position + len⟩) := by
  unfold FileReader.read FileReader.readExact
  split_ifs with h <;> simp [h, eq_comm]

theorem slice_slice {b : Bytes} {start len i n : ℕ} (h : i + n ≤ len) :
    slice (slice b start len) i n = slice b (start + i) n := by
  unfold slice
  rw [List.drop_take, List.take_take, List.drop_drop, Nat.min_eq_left (by omega)]

theorem slice_length {b : Bytes} {start len : ℕ} (h : start + len ≤ b.length) :
    (slice b start len).length = len := by
  unfold slice
  rw [List.length_take, List.length_drop]
  omega

theorem SnapshotCodec.decodeSnapshot_iff {codec : SnapshotCodec} {b : Bytes}
    (hb : b.length ≤ u64Max) {metadata : StoredMeta} {data : Bytes} :
    codec.decodeSnapshot b = .ok (metadata, data) ↔ codec.Spells b metadata data := by
  simp only [SnapshotCodec.decodeSnapshot, guard_eq_ok, bind_eq_ok, okOr_eq_ok, checkedAdd_eq_some]
  constructor
  · rintro ⟨hlen, hmagic, hversion, hvoters, _, ⟨_, rfl⟩, _, ⟨_, rfl⟩, _, voterSet, hvs, _,
      ⟨_, rfl⟩, _, ⟨_, rfl⟩, hlow, hhigh, hcrc, hok⟩
    cases hok
    have hsum : storedCrcOf b = (codec.crc32 (payloadOf b)).toNat := not_not.mp hcrc
    refine ⟨⟨not_lt.mp hlen, not_not.mp hmagic, not_not.mp hversion, not_lt.mp hvoters⟩,
      le_antisymm (not_lt.mp hhigh) (not_lt.mp hlow), hvs, hsum, ?_, rfl⟩
    rw [metaOf, hsum]
    rfl
  · rintro ⟨⟨hlen, hmagic, hversion, hvoters⟩, hmeasured, hvs, hcrc, hmeta, rfl⟩
    have hm : b.length = 26 + voterSetLenOf b + 8 + dataLenOf b + 4 := hmeasured
    have hvend : 26 + voterSetLenOf b ≤ b.length := by omega
    have hend : 26 + voterSetLenOf b + 8 ≤ b.length := by omega
    have hdata : 26 + voterSetLenOf b + 8 + dataLenOf b ≤ b.length := by omega
    refine ⟨not_lt.mpr hlen, not_not.mpr hmagic, not_not.mpr hversion, not_lt.mpr hvoters, _,
      ⟨hvend.trans hb, rfl⟩, _, ⟨hend.trans hb, rfl⟩, not_lt.mpr hend, _, hvs, _,
      ⟨hdata.trans hb, rfl⟩, _, ⟨hm ▸ hb, rfl⟩, not_lt.mpr hm.ge, not_lt.mpr hm.le,
      not_not.mpr hcrc, ?_⟩
    rw [hmeta, metaOf, hcrc]
    rfl

theorem SnapshotCodec.readHeader_iff {codec : SnapshotCodec} {b : Bytes} {context : String}
    {header : FileHeader} {file : FileReader} :
    codec.readHeader ⟨b, 0⟩ context = .ok (header, file) ↔
      Headed b ∧ 26 + voterSetLenOf b + 8 ≤ b.length ∧
      codec.parseVoterSet (slice b 26 (voterSetLenOf b)) = .ok header.voterSet ∧
      header = ⟨leValue (slice b 6 8), leValue (slice b 14 8), voterSetLenOf b, header.voterSet,
        dataLenOf b⟩ ∧
      file = ⟨b, 26 + voterSetLenOf b + 8⟩ := by
  simp only [SnapshotCodec.readHeader, guard_eq_ok, bind_eq_ok, FileReader.read_eq_ok]
  constructor
  · rintro ⟨_, ⟨hlen, rfl⟩, hrest⟩
    simp only [slice_slice (show 0 + 4 ≤ fixedHeaderSize by decide),
      slice_slice (show 4 + 2 ≤ fixedHeaderSize by decide),
      slice_slice (show 22 + 4 ≤ fixedHeaderSize by decide),
      slice_slice (show 6 + 8 ≤ fixedHeaderSize by decide),
      slice_slice (show 14 + 8 ≤ fixedHeaderSize by decide), zero_add] at hrest
    obtain ⟨hmagic, hversion, hvoters, _, ⟨_, rfl⟩, voterSet, hvs, _, ⟨hend, rfl⟩, hok⟩ := hrest
    cases hok
    exact ⟨⟨by simpa [fixedHeaderSize] using hlen, not_not.mp hmagic, not_not.mp hversion,
      not_lt.mp hvoters⟩, hend, hvs, rfl, rfl⟩
  · rintro ⟨⟨hlen, hmagic, hversion, hvoters⟩, hend, hvs, hheader, rfl⟩
    refine ⟨_, ⟨by simpa [fixedHeaderSize] using hlen, rfl⟩, ?_⟩
    simp only [slice_slice (show 0 + 4 ≤ fixedHeaderSize by decide),
      slice_slice (show 4 + 2 ≤ fixedHeaderSize by decide),
      slice_slice (show 22 + 4 ≤ fixedHeaderSize by decide),
      slice_slice (show 6 + 8 ≤ fixedHeaderSize by decide),
      slice_slice (show 14 + 8 ≤ fixedHeaderSize by decide), zero_add]
    refine ⟨not_not.mpr hmagic, not_not.mpr hversion, not_lt.mpr hvoters, _,
      ⟨le_trans (Nat.le_add_right _ 8) hend, rfl⟩, _, hvs, _, ⟨hend, rfl⟩, ?_⟩
    rw [hheader]
    rfl

structure SnapshotCodec.Opens (codec : SnapshotCodec) (b : Bytes) (metadata : StoredMeta) :
    Prop where
  headed : Headed b
  measured : Measured b
  voters : codec.parseVoterSet (slice b 26 (voterSetLenOf b)) = .ok metadata.voterSet
  metadata_eq : metadata = metaOf b metadata.voterSet

theorem SnapshotCodec.decodeHeaderForStreaming_iff {codec : SnapshotCodec} {b : Bytes}
    (hb : b.length ≤ u64Max) {metadata : StoredMeta} {headerSize dataLen storedCrc : ℕ}
    {file : FileReader} :
    codec.decodeHeaderForStreaming ⟨b, 0⟩ b.length =
        .ok ((metadata, headerSize, dataLen, storedCrc), file) ↔
      codec.Opens b metadata ∧ headerSize = 26 + voterSetLenOf b + 8 ∧ dataLen = dataLenOf b ∧
      storedCrc = storedCrcOf b ∧ file = ⟨b, 26 + voterSetLenOf b + 8⟩ := by
  simp only [SnapshotCodec.decodeHeaderForStreaming, guard_eq_ok, bind_eq_ok, okOr_eq_ok,
    optionBind_eq_some, checkedAdd_eq_some, FileReader.read_eq_ok, Prod.exists,
    SnapshotCodec.readHeader_iff]
  constructor
  · rintro ⟨header, _, ⟨hheaded, _, hvs, hheader, rfl⟩, _, ⟨_, ⟨_, rfl⟩, _, rfl⟩, _,
      ⟨_, ⟨_, rfl⟩, _, rfl⟩, hlen, _, ⟨_, rfl⟩, _, _, ⟨_, hread⟩, hok⟩
    cases hread
    cases hok
    rw [hheader] at hlen ⊢
    exact ⟨⟨hheaded, not_not.mp hlen, hvs, rfl⟩, rfl, rfl, rfl, rfl⟩
  · rintro ⟨⟨hheaded, hmeasured, hvs, hmeta⟩, rfl, rfl, rfl, rfl⟩
    have hm : b.length = 26 + voterSetLenOf b + 8 + dataLenOf b + 4 := hmeasured
    have hvend : 26 + voterSetLenOf b ≤ b.length := by omega
    have hend : 26 + voterSetLenOf b + 8 ≤ b.length := by omega
    have hdata : 26 + voterSetLenOf b + 8 + dataLenOf b ≤ b.length := by omega
    refine ⟨⟨_, _, _, metadata.voterSet, _⟩, _, ⟨hheaded, hend, hvs, rfl, rfl⟩, _,
      ⟨_, ⟨hvend.trans hb, rfl⟩, hend.trans hb, rfl⟩, _,
      ⟨_, ⟨hdata.trans hb, rfl⟩, hm ▸ hb, rfl⟩, not_not.mpr hm, _,
      ⟨hdata.trans hb, rfl⟩, _, _, ⟨hm.ge, rfl⟩, ?_⟩
    rw [hmeta]
    rfl

/-! ## Payloads in pieces -/

theorem slice_take (b : Bytes) (start len k : ℕ) :
    (slice b start len).take k = slice b start (min k len) := List.take_take

theorem slice_drop (b : Bytes) (start len k : ℕ) :
    (slice b start len).drop k = slice b (start + min k len) (len - min k len) := by
  unfold slice
  rw [List.drop_take, List.drop_drop]
  rcases le_total k len with h | h
  · rw [Nat.min_eq_left h]
  · rw [Nat.min_eq_right h, Nat.sub_eq_zero_of_le h, Nat.sub_self, List.take_zero, List.take_zero]

theorem slice_ne_nil {b : Bytes} {start len : ℕ} (h : start + len ≤ b.length) (hlen : len ≠ 0) :
    slice b start len ≠ [] := by
  intro hnil
  have hzero := slice_length h
  rw [hnil] at hzero
  exact hlen hzero.symm

def pieces (size : ℕ) (data : Bytes) : List Bytes := chunks size data.length data

@[simp] theorem pieces_nil (size : ℕ) : pieces size [] = [] := rfl

theorem chunks_fuel {size : ℕ} (hsize : 0 < size) {fuel : ℕ} {data : Bytes}
    (h : data.length ≤ fuel) : chunks size fuel data = pieces size data := by
  unfold pieces
  induction fuel using Nat.strong_induction_on generalizing data with
  | _ fuel ih =>
    cases data with
    | nil => cases fuel <;> rfl
    | cons x xs =>
      cases fuel with
      | zero => simp at h
      | succ fuel =>
        have hdrop : ((x :: xs).drop size).length ≤ xs.length := by
          rw [List.length_drop, List.length_cons]
          omega
        have hxs : xs.length ≤ fuel := Nat.le_of_succ_le_succ h
        rw [List.length_cons, chunks, chunks, ih fuel (Nat.lt_succ_self _) (hdrop.trans hxs)]
        congr 1
        exact (ih xs.length (Nat.lt_succ_of_le hxs) hdrop).symm

theorem pieces_step {size : ℕ} (hsize : 0 < size) {data : Bytes} (h : data ≠ []) :
    pieces size data = data.take size :: pieces size (data.drop size) := by
  cases data with
  | nil => exact absurd rfl h
  | cons x xs =>
    have hdrop : ((x :: xs).drop size).length ≤ xs.length := by
      rw [List.length_drop, List.length_cons]
      omega
    rw [← chunks_fuel hsize hdrop]
    rfl

theorem pieces_eq_nil {size : ℕ} (hsize : 0 < size) {data : Bytes} :
    pieces size data = [] ↔ data = [] := by
  constructor
  · intro h
    by_contra hne
    rw [pieces_step hsize hne] at h
    cases h
  · rintro rfl
    rfl

theorem pieces_flatten {size : ℕ} (hsize : 0 < size) (data : Bytes) :
    (pieces size data).flatten = data := by
  induction hlen : data.length using Nat.strong_induction_on generalizing data with
  | _ n ih =>
    by_cases hne : data = []
    · rw [hne]
      rfl
    · have hpos := List.length_pos_iff.mpr hne
      have hdrop : (data.drop size).length < n := by
        rw [List.length_drop]
        omega
      rw [pieces_step hsize hne, List.flatten_cons, ih _ hdrop _ rfl, List.take_append_drop]

theorem SnapshotCodec.hashPayload_eq {codec : SnapshotCodec} {size fuel remaining : ℕ}
    {file : FileReader} {hasher : codec.Hasher} (hsize : remaining ≠ 0 → 0 < size)
    (hfuel : remaining ≤ fuel) (hfit : file.position + remaining ≤ file.content.length) :
    codec.hashPayload size fuel remaining file hasher =
      .ok ((pieces size (slice file.content file.position remaining)).foldl codec.update hasher,
        ⟨file.content, file.position + remaining⟩) := by
  induction fuel generalizing remaining file hasher with
  | zero =>
    have hzero : remaining = 0 := by omega
    subst hzero
    simp [SnapshotCodec.hashPayload, slice]
  | succ fuel ih =>
    rw [SnapshotCodec.hashPayload]
    split_ifs with hzero
    · subst hzero
      simp [slice]
    · have hpos := hsize hzero
      have hread : file.read "failed to read payload for CRC verification: " (min size remaining) =
          .ok (slice file.content file.position (min size remaining),
            ⟨file.content, file.position + min size remaining⟩) :=
        FileReader.read_eq_ok.mpr ⟨by omega, rfl⟩
      dsimp only
      rw [hread, pieces_step hpos (slice_ne_nil hfit hzero), slice_take, slice_drop,
        List.foldl_cons]
      refine (ih (fun _ => hpos) (by omega) (by dsimp only; omega)).trans ?_
      dsimp only
      rw [show file.position + min size remaining + (remaining - min size remaining) =
        file.position + remaining by omega]

theorem SnapshotCodec.readMetaFromFile_iff {codec : SnapshotCodec} {b : Bytes}
    (hb : b.length ≤ u64Max) {metadata : StoredMeta} :
    codec.readMetaFromFile b = .ok metadata ↔ codec.Spells b metadata (payloadOf b) := by
  simp only [SnapshotCodec.readMetaFromFile, guard_eq_ok, bind_eq_ok, okOr_eq_ok,
    optionBind_eq_some, checkedAdd_eq_some, FileReader.read_eq_ok, Prod.exists,
    SnapshotCodec.readHeader_iff]
  have hash {file : FileReader} (hfile : file = ⟨b, 26 + voterSetLenOf b + 8⟩)
      (hm : b.length = 26 + voterSetLenOf b + 8 + dataLenOf b + 4) :
      ∃ hasher, codec.hashPayload (min (dataLenOf b) (64 * 1024)) (dataLenOf b) (dataLenOf b) file
          codec.newHasher = .ok (hasher, ⟨b, 26 + voterSetLenOf b + 8 + dataLenOf b⟩) ∧
        codec.finalize hasher = codec.crc32 (payloadOf b) := by
    subst hfile
    refine ⟨_, SnapshotCodec.hashPayload_eq (by omega) le_rfl (by dsimp only; omega), ?_⟩
    by_cases hzero : dataLenOf b = 0
    · have hempty : payloadOf b = [] := by
        rw [payloadOf, hzero]
        exact List.take_zero
      rw [hempty]
      have hnil : slice b (26 + voterSetLenOf b + 8) (dataLenOf b) = [] := hempty
      dsimp only
      rw [hnil]
      exact codec.incremental []
    · rw [codec.incremental, pieces_flatten (by omega)]
      rfl
  constructor
  · rintro ⟨header, _, ⟨hheaded, _, hvs, hheader, hfile⟩, _,
      ⟨_, ⟨_, ⟨_, ⟨_, rfl⟩, _, rfl⟩, _, rfl⟩, _, rfl⟩, hlen, hasher, file, hhash, _, _,
      ⟨_, hread⟩, hcrc, hok⟩
    rw [hheader] at hlen hhash hok
    have hm : b.length = 26 + voterSetLenOf b + 8 + dataLenOf b + 4 := not_not.mp hlen
    obtain ⟨hasher', hhash', hfinal⟩ := hash hfile hm
    rw [hhash'] at hhash
    cases hhash
    cases hread
    cases hok
    exact ⟨hheaded, hm, hvs, by rw [← hfinal]; exact (not_not.mp hcrc).symm, rfl, rfl⟩
  · rintro ⟨hheaded, hmeasured, hvs, hcrc, hmeta, _⟩
    have hm : b.length = 26 + voterSetLenOf b + 8 + dataLenOf b + 4 := hmeasured
    have hvend : 26 + voterSetLenOf b ≤ b.length := by omega
    have hend : 26 + voterSetLenOf b + 8 ≤ b.length := by omega
    have hdata : 26 + voterSetLenOf b + 8 + dataLenOf b ≤ b.length := by omega
    obtain ⟨hasher, hhash, hfinal⟩ := hash rfl hm
    refine ⟨⟨_, _, _, metadata.voterSet, _⟩, _, ⟨hheaded, hend, hvs, rfl, rfl⟩, _,
      ⟨_, ⟨_, ⟨_, ⟨hvend.trans hb, rfl⟩, hend.trans hb, rfl⟩, hdata.trans hb, rfl⟩, hm ▸ hb, rfl⟩,
      not_not.mpr hm, _, _, hhash, _, _, ⟨hm.ge, rfl⟩, not_not.mpr ?_, ?_⟩
    · rw [hfinal]
      exact hcrc.symm
    · rw [hmeta]
      rfl

/-! ## What a reader yields -/

/-- The chunks of a stream: numbered from `index`, the first with the metadata, the last marked when
the stream reaches the end of the payload. -/
def chunkRun (coversTail : Bool) : Option StoredMeta → ℕ → List Bytes → List StoredChunkItem
  | _, _, [] => []
  | metadata, index, [part] => [⟨index, part, coversTail, metadata⟩]
  | metadata, index, part :: next :: rest =>
    ⟨index, part, false, metadata⟩ :: chunkRun coversTail none (index + 1) (next :: rest)

def delivered (run : List StoredChunkItem) :
    Option XRaftError → List (Except XRaftError StoredChunkItem)
  | none => run.map .ok
  | some e => run.dropLast.map .ok ++ [.error e]

theorem chunkRun_cons (coversTail : Bool) (metadata : Option StoredMeta) (index : ℕ) (part : Bytes)
    {parts : List Bytes} (h : parts ≠ []) :
    chunkRun coversTail metadata index (part :: parts) =
      ⟨index, part, false, metadata⟩ :: chunkRun coversTail none (index + 1) parts := by
  cases parts with
  | nil => exact absurd rfl h
  | cons next rest => rfl

theorem chunkRun_ne_nil {coversTail : Bool} {metadata : Option StoredMeta} {index : ℕ}
    {parts : List Bytes} (h : parts ≠ []) : chunkRun coversTail metadata index parts ≠ [] := by
  rcases parts with _ | ⟨part, _ | ⟨next, rest⟩⟩
  · exact absurd rfl h
  · exact List.cons_ne_nil _ _
  · exact List.cons_ne_nil _ _

theorem delivered_cons {run : List StoredChunkItem} (h : run ≠ []) (item : StoredChunkItem)
    (fault : Option XRaftError) : delivered (item :: run) fault = .ok item ::
      delivered run fault := by
  cases fault with
  | none => rfl
  | some e =>
    rw [delivered, delivered, List.dropLast_cons_of_ne_nil h, List.map_cons, List.cons_append]

namespace SnapshotChunkReader

variable {codec : SnapshotCodec}

structure Reading (r : SnapshotChunkReader codec) : Prop where
  running : r.finished = false
  nonempty : r.dataLen ≠ 0
  remaining : r.remaining ≠ 0
  fits : r.reader.position + r.remaining ≤ r.reader.content.length

def window (r : SnapshotChunkReader codec) : Bytes :=
  slice r.reader.content r.reader.position r.remaining

def pendingMeta (r : SnapshotChunkReader codec) : Option StoredMeta :=
  if r.firstEmitted then none else r.metadata

theorem readExact_window {r : SnapshotChunkReader codec} (h : r.Reading) :
    r.reader.readExact (min r.chunkSize r.remaining) = .ok (r.window.take r.chunkSize,
      ⟨r.reader.content, r.reader.position + min r.chunkSize r.remaining⟩) := by
  have hfit := h.fits
  rw [FileReader.readExact, if_pos (by omega), window, slice_take]

theorem drain_finished {r : SnapshotChunkReader codec} (h : r.finished = true) (fuel : ℕ) :
    drain fuel r = [] := by
  cases fuel with
  | zero => rfl
  | succ fuel => simp [drain, next, h]

def advance (r : SnapshotChunkReader codec) : SnapshotChunkReader codec :=
  { r with
    reader := ⟨r.reader.content, r.reader.position + min r.chunkSize r.remaining⟩
    crcHasher := codec.update r.crcHasher (r.window.take r.chunkSize)
    remaining := r.remaining - min r.chunkSize r.remaining
    chunkIndex := r.chunkIndex + 1
    metadata := if r.firstEmitted then r.metadata else none
    firstEmitted := true }

theorem window_advance (r : SnapshotChunkReader codec) :
    r.advance.window = r.window.drop r.chunkSize := (slice_drop _ _ _ _).symm

theorem Reading.advance {r : SnapshotChunkReader codec} (h : r.Reading)
    (hmore : r.remaining - min r.chunkSize r.remaining ≠ 0) : r.advance.Reading := by
  refine ⟨h.running, h.nonempty, hmore, ?_⟩
  have hfit := h.fits
  simp only [SnapshotChunkReader.advance]
  omega

theorem next_advance {r : SnapshotChunkReader codec} (h : r.Reading)
    (hmore : r.remaining - min r.chunkSize r.remaining ≠ 0) :
    r.next = some (.ok ⟨r.chunkIndex, r.window.take r.chunkSize, false, r.pendingMeta⟩,
      r.advance) := by
  simp [next, h.running, h.nonempty, h.remaining, readExact_window h, hmore, pendingMeta, advance]

/-- The reader yields the pieces of its window, and checks the sum with the last of them. -/
theorem drain_reading {fuel : ℕ} {r : SnapshotChunkReader codec} (h : r.Reading)
    (hfuel : r.remaining < fuel) :
    drain fuel r = delivered
      (chunkRun r.windowCoversTail r.pendingMeta r.chunkIndex (pieces r.chunkSize r.window))
      (r.crcFault ((pieces r.chunkSize r.window).foldl codec.update r.crcHasher)) := by
  induction fuel generalizing r with
  | zero => omega
  | succ fuel ih =>
    have hpos := r.chunkSize_pos
    have hne : r.window ≠ [] := slice_ne_nil h.fits h.remaining
    rw [pieces_step hpos hne, List.foldl_cons, drain]
    by_cases hlast : r.remaining - min r.chunkSize r.remaining = 0
    · have hdrop : r.window.drop r.chunkSize = [] := by
        rw [← window_advance, window, advance, hlast]
        exact List.take_zero
      rw [hdrop, pieces_nil, List.foldl_nil, chunkRun]
      cases hfault : r.crcFault (codec.update r.crcHasher (r.window.take r.chunkSize)) with
      | none =>
        simp [next, h.running, h.nonempty, h.remaining, readExact_window h, hlast, hfault,
          delivered, drain_finished, pendingMeta]
      | some e =>
        simp [next, h.running, h.nonempty, h.remaining, readExact_window h, hlast, hfault,
          delivered, drain_finished]
    · have hread := h.advance hlast
      have hmore : pieces r.chunkSize (r.window.drop r.chunkSize) ≠ [] := by
        rw [ne_eq, pieces_eq_nil hpos, ← window_advance]
        exact slice_ne_nil hread.fits hread.remaining
      have hless : r.advance.remaining < fuel := by
        simp only [advance]
        omega
      rw [next_advance h hlast, chunkRun_cons _ _ _ _ hmore, delivered_cons (chunkRun_ne_nil hmore)]
      simp only [ih hread hless, window_advance]
      rfl

end SnapshotChunkReader

/-- Nothing is sent as one empty part. -/
def partsOf (size : ℕ) (data : Bytes) : List Bytes := if data = [] then [[]] else pieces size data

theorem partsOf_ne_nil {size : ℕ} (hsize : 0 < size) (data : Bytes) : partsOf size data ≠ [] := by
  unfold partsOf
  split_ifs with h
  · exact List.cons_ne_nil _ _
  · rwa [ne_eq, pieces_eq_nil hsize]

theorem partsOf_flatten {size : ℕ} (hsize : 0 < size) (data : Bytes) :
    (partsOf size data).flatten = data := by
  unfold partsOf
  split_ifs with h
  · rw [h]
    rfl
  · exact pieces_flatten hsize data

def snapshotChunks (metadata : StoredMeta) (size : ℕ) (data : Bytes) : List StoredChunkItem :=
  chunkRun true (some metadata) 0 (partsOf size data)

theorem chunkRun_data (coversTail : Bool) (metadata : Option StoredMeta) (index : ℕ)
    (parts : List Bytes) : (chunkRun coversTail metadata index parts).flatMap (·.data) =
      parts.flatten := by
  induction parts generalizing metadata index with
  | nil => rfl
  | cons part parts ih =>
    by_cases h : parts = []
    · subst h
      simp [chunkRun]
    · rw [chunkRun_cons _ _ _ _ h, List.flatMap_cons, ih, List.flatten_cons]

theorem chunkRun_metadata (coversTail : Bool) (metadata : Option StoredMeta) (index : ℕ)
    {parts : List Bytes} (h : parts ≠ []) :
    (chunkRun coversTail metadata index parts).map (·.metadata) =
      metadata :: List.replicate (parts.length - 1) none := by
  induction parts generalizing metadata index with
  | nil => exact absurd rfl h
  | cons part parts ih =>
    by_cases hnil : parts = []
    · subst hnil
      rfl
    · have hpos := List.length_pos_iff.mpr hnil
      rw [chunkRun_cons _ _ _ _ hnil, List.map_cons, ih none (index + 1) hnil,
        ← List.replicate_succ, List.length_cons]
      congr 2
      omega

theorem mapM_delivered (run : List StoredChunkItem) (fault : Option XRaftError)
    (items : List StoredChunkItem) :
    (delivered run fault).mapM id = .ok items ↔ fault = none ∧ items = run := by
  have hok (xs : List StoredChunkItem) (rest : List (Except XRaftError StoredChunkItem)) :
      (xs.map Except.ok ++ rest).mapM id = (rest.mapM id).map (xs ++ ·) := by
    induction xs with
    | nil => cases hrest : rest.mapM id <;> simp [hrest, Except.map]
    | cons x xs ih =>
      rw [List.map_cons, List.cons_append, List.mapM_cons, ih]
      cases hrest : rest.mapM id <;> rfl
  cases fault with
  | none =>
    have hall := hok run []
    rw [List.append_nil] at hall
    rw [delivered, hall]
    simp [Except.map, eq_comm, pure, Except.pure]
  | some e =>
    rw [delivered, hok]
    simp [Except.map, bind, Except.bind]

theorem SnapshotChunkReader.crcFault_eq_none {codec : SnapshotCodec} {r : SnapshotChunkReader codec}
    {hasher : codec.Hasher} :
    r.crcFault hasher = none ↔ r.skipCrc = true ∨ (codec.finalize hasher).toNat = r.storedCrc := by
  unfold crcFault
  cases r.skipCrc <;> simp

/-- A reader of the whole payload yields the stream of the snapshot when the sum is right, and
otherwise fails at its end. -/
theorem SnapshotCodec.fullReader_items {codec : SnapshotCodec} {metadata : StoredMeta} {b : Bytes}
    {start dataLen storedCrc chunkSize : ℕ} {reader : SnapshotChunkReader codec}
    (h : codec.fullReader metadata ⟨b, start⟩ dataLen storedCrc chunkSize = .ok reader)
    (hfit : start + dataLen ≤ b.length) {items : List StoredChunkItem} :
    reader.items.mapM id = .ok items ↔
      (codec.crc32 (slice b start dataLen)).toNat = storedCrc ∧
      items = snapshotChunks metadata (effectiveChunkSize chunkSize) (slice b start dataLen) := by
  obtain ⟨_, _, hreader⟩ := bind_eq_ok.mp h
  have hpos := effectiveChunkSize_pos chunkSize
  cases hreader
  by_cases hzero : dataLen = 0
  · subst hzero
    have hempty : slice b start 0 = [] := List.take_zero
    have hsum : codec.finalize codec.newHasher = codec.crc32 [] := codec.incremental []
    rw [hempty, snapshotChunks, partsOf, if_pos rfl, chunkRun]
    by_cases hcrc : (codec.crc32 []).toNat = storedCrc
    · simp [SnapshotChunkReader.items, SnapshotChunkReader.drain, SnapshotChunkReader.next,
        SnapshotChunkReader.crcFault, hsum, hcrc, pure, Except.pure, bind, Except.bind, eq_comm]
    · simp [SnapshotChunkReader.items, SnapshotChunkReader.drain, SnapshotChunkReader.next,
        SnapshotChunkReader.crcFault, hsum, hcrc, bind, Except.bind]
  · have hne := slice_ne_nil hfit hzero
    rw [SnapshotChunkReader.items,
      SnapshotChunkReader.drain_reading ⟨rfl, hzero, hzero, hfit⟩ (Nat.lt_succ_self _),
      mapM_delivered, SnapshotChunkReader.crcFault_eq_none, codec.incremental, pieces_flatten hpos,
      snapshotChunks, partsOf, if_neg hne]
    simp [SnapshotChunkReader.window, SnapshotChunkReader.pendingMeta]

theorem SnapshotCodec.fullReader_ok {codec : SnapshotCodec} {metadata : StoredMeta}
    {file : FileReader} {dataLen storedCrc chunkSize : ℕ}
    (h : dataLen + effectiveChunkSize chunkSize ≤ u64Max) :
    ∃ reader, codec.fullReader metadata file dataLen storedCrc chunkSize = .ok reader := by
  have hchunks : ∃ n, totalChunks dataLen (effectiveChunkSize chunkSize) = .ok n := by
    unfold totalChunks
    split_ifs with hzero
    · exact ⟨1, rfl⟩
    · rw [checkedAdd, if_pos (by omega)]
      exact ⟨_, rfl⟩
  obtain ⟨n, hn⟩ := hchunks
  exact ⟨_, bind_eq_ok.mpr ⟨n, hn, rfl⟩⟩

theorem SnapshotCodec.streamFile_iff {codec : SnapshotCodec} {b : Bytes} {chunkSize : ℕ}
    (hb : b.length + effectiveChunkSize chunkSize ≤ u64Max) {items : List StoredChunkItem} :
    codec.streamFile b chunkSize = .ok items ↔
      ∃ metadata, codec.Spells b metadata (payloadOf b) ∧
        items = snapshotChunks metadata (effectiveChunkSize chunkSize) (payloadOf b) := by
  simp only [SnapshotCodec.streamFile, bind_eq_ok, Prod.exists,
    SnapshotCodec.decodeHeaderForStreaming_iff (show b.length ≤ u64Max by omega)]
  constructor
  · rintro ⟨metadata, _, _, _, _, ⟨hopens, rfl, rfl, rfl, rfl⟩, reader, hreader, hitems⟩
    have hm : b.length = 26 + voterSetLenOf b + 8 + dataLenOf b + 4 := hopens.measured
    obtain ⟨hcrc, rfl⟩ := (SnapshotCodec.fullReader_items hreader (by omega)).mp hitems
    exact ⟨metadata, ⟨hopens.headed, hopens.measured, hopens.voters, hcrc.symm, hopens.metadata_eq,
      rfl⟩, rfl⟩
  · rintro ⟨metadata, hspells, rfl⟩
    have hm : b.length = 26 + voterSetLenOf b + 8 + dataLenOf b + 4 := hspells.measured
    obtain ⟨reader, hreader⟩ : ∃ reader, codec.fullReader metadata ⟨b, 26 + voterSetLenOf b + 8⟩
        (dataLenOf b) (storedCrcOf b) chunkSize = .ok reader :=
      SnapshotCodec.fullReader_ok (by omega)
    exact ⟨metadata, _, _, _, _, ⟨⟨hspells.headed, hspells.measured, hspells.voters,
      hspells.metadata_eq⟩, rfl, rfl, rfl, rfl⟩, reader, hreader,
      (SnapshotCodec.fullReader_items hreader (by omega)).mpr ⟨hspells.checked.symm, rfl⟩⟩

/-! ## One format -/

theorem SnapshotCodec.parseVoterSet_voterSetBytes (codec : SnapshotCodec)
    (voterSet : Option VoterSet) : codec.parseVoterSet (codec.voterSetBytes voterSet) =
      .ok voterSet := by
  cases voterSet with
  | none => rfl
  | some vs =>
    have hpos := List.length_pos_iff.mpr (codec.encodeVoters_ne_nil vs)
    rw [SnapshotCodec.voterSetBytes, SnapshotCodec.parseVoterSet, if_pos hpos,
      codec.voters_roundTrip]

def SnapshotCodec.normalize (codec : SnapshotCodec) (metadata : StoredMeta) (data : Bytes) :
    StoredMeta :=
  ⟨⟨metadata.lastIncludedIndex, metadata.lastIncludedTerm,
    canonicalId metadata.lastIncludedTerm metadata.lastIncludedIndex, metadata.voterSet,
    some data.length⟩, some (codec.crc32 data).toNat⟩

/-- Metadata and data that can be written: the positions are `u64`, the voter set is within its
limit, and the file can be held in memory. -/
structure SnapshotCodec.Writable (codec : SnapshotCodec) (metadata : StoredMeta) (data : Bytes) :
    Prop where
  index : metadata.lastIncludedIndex ≤ u64Max
  term : metadata.lastIncludedTerm ≤ u64Max
  voters : (codec.voterSetBytes metadata.voterSet).length ≤ maxVoterSetLen
  size : 38 + (codec.voterSetBytes metadata.voterSet).length + data.length ≤ u64Max

theorem slice_field {record : List Bytes} (k : ℕ) {field : Bytes} {start len : ℕ}
    (hfield : record[k]? = some field) (hstart : ((record.take k).map List.length).sum = start)
    (hlen : field.length = len) : slice record.flatten start len = field := by
  obtain ⟨hk, rfl⟩ := List.getElem?_eq_some_iff.mp hfield
  have hsplit : record.flatten = (record.take k).flatten ++
      (record[k] ++ (record.drop (k + 1)).flatten) := by
    rw [← List.flatten_cons, ← List.flatten_append, List.getElem_cons_drop, List.take_append_drop]
  rw [hsplit, slice, List.drop_left' (List.length_flatten.trans hstart), List.take_left' hlen]

def SnapshotCodec.fields (codec : SnapshotCodec) (metadata : StoredMeta) (data : Bytes) :
    List Bytes :=
  [leBytes 4 snapshotMagic, leBytes 2 snapshotVersion, leBytes 8 metadata.lastIncludedIndex,
    leBytes 8 metadata.lastIncludedTerm,
    leBytes 4 (codec.voterSetBytes metadata.voterSet).length,
    codec.voterSetBytes metadata.voterSet, leBytes 8 data.length, data,
    leBytes 4 (codec.crc32 data).toNat]

theorem SnapshotCodec.encodeSnapshot_eq {codec : SnapshotCodec} {metadata : StoredMeta}
    {data : Bytes} (h : codec.Writable metadata data) :
    codec.encodeSnapshot metadata data = .ok (codec.fields metadata data).flatten := by
  obtain ⟨_, _, hvoters, hsize⟩ := h
  simp only [maxVoterSetLen] at hvoters
  simp only [SnapshotCodec.encodeSnapshot, guard_eq_ok, bind_eq_ok, okOr_eq_ok,
    optionBind_eq_some, checkedAdd_eq_some, fixedHeaderSize]
  refine ⟨by omega, by omega, _, ⟨_, ⟨_, ⟨_, ⟨by omega, rfl⟩, by omega, rfl⟩, by omega, rfl⟩,
    by omega, rfl⟩, ?_⟩
  simp [SnapshotCodec.fields]

theorem SnapshotCodec.fields_length (codec : SnapshotCodec) (metadata : StoredMeta) (data : Bytes) :
    (codec.fields metadata data).flatten.length =
      38 + (codec.voterSetBytes metadata.voterSet).length + data.length := by
  simp [SnapshotCodec.fields]
  omega

theorem SnapshotCodec.fields_spell {codec : SnapshotCodec} {metadata : StoredMeta} {data : Bytes}
    (h : codec.Writable metadata data) :
    codec.Spells (codec.fields metadata data).flatten (codec.normalize metadata data) data := by
  obtain ⟨hindex, hterm, hvoters, hsize⟩ := h
  simp only [u64Max] at hindex hterm hsize
  obtain ⟨b, hb⟩ : ∃ b, (codec.fields metadata data).flatten = b := ⟨_, rfl⟩
  have hlen : b.length = 38 + (codec.voterSetBytes metadata.voterSet).length + data.length :=
    hb ▸ codec.fields_length metadata data
  have hmagic : slice b 0 4 = leBytes 4 snapshotMagic := hb ▸ slice_field 0 rfl rfl rfl
  have hversion : slice b 4 2 = leBytes 2 snapshotVersion := hb ▸ slice_field 1 rfl rfl rfl
  have hi : slice b 6 8 = leBytes 8 metadata.lastIncludedIndex := hb ▸ slice_field 2 rfl rfl rfl
  have ht : slice b 14 8 = leBytes 8 metadata.lastIncludedTerm := hb ▸ slice_field 3 rfl rfl rfl
  have hv : slice b 22 4 = leBytes 4 (codec.voterSetBytes metadata.voterSet).length :=
    hb ▸ slice_field 4 rfl rfl rfl
  have hvlen : voterSetLenOf b = (codec.voterSetBytes metadata.voterSet).length := by
    simp only [maxVoterSetLen] at hvoters
    rw [voterSetLenOf, hv, leValue_leBytes (by omega)]
  have hvs : slice b 26 (voterSetLenOf b) = codec.voterSetBytes metadata.voterSet := by
    rw [hvlen]
    exact hb ▸ slice_field 5 rfl rfl rfl
  have hd : slice b (26 + voterSetLenOf b) 8 = leBytes 8 data.length := by
    rw [hvlen]
    exact hb ▸ slice_field 6 rfl (by simp [SnapshotCodec.fields]; omega) rfl
  have hdlen : dataLenOf b = data.length := by rw [dataLenOf, hd, leValue_leBytes (by omega)]
  have hpayload : payloadOf b = data := by
    rw [payloadOf, hdlen, hvlen]
    exact hb ▸ slice_field 7 rfl (by simp [SnapshotCodec.fields]; omega) rfl
  have hcrc : storedCrcOf b = (codec.crc32 data).toNat := by
    have hc : slice b (26 + voterSetLenOf b + 8 + dataLenOf b) 4 =
        leBytes 4 (codec.crc32 data).toNat := by
      rw [hdlen, hvlen]
      exact hb ▸ slice_field 8 rfl (by simp [SnapshotCodec.fields]; omega) rfl
    rw [storedCrcOf, hc, leValue_leBytes (codec.crc32 data).toNat_lt]
  rw [hb]
  refine ⟨⟨by omega, ?_, ?_, hvlen.trans_le hvoters⟩, ?_, ?_, ?_, ?_, hpayload.symm⟩
  · rw [hmagic]
    exact leValue_leBytes (by decide)
  · rw [hversion]
    exact leValue_leBytes (by decide)
  · rw [Measured, hlen, hvlen, hdlen]
    omega
  · rw [hvs]
    exact codec.parseVoterSet_voterSetBytes metadata.voterSet
  · rw [hcrc, hpayload]
  · rw [metaOf, hi, ht, hdlen, hcrc, leValue_leBytes (by omega), leValue_leBytes (by omega)]
    rfl

/-- The three parsers agree on every byte string: all of them fail, or all of them succeed with the
same metadata and, where they produce one, the same payload. What `encode_snapshot` writes reads
back as the payload and the metadata with canonical id, size and checksum. -/
theorem one_snapshot_format (codec : SnapshotCodec) :
    (∀ (b : Bytes) (chunkSize : ℕ), b.length + effectiveChunkSize chunkSize ≤ u64Max →
      (∃ e₁ e₂ e₃, codec.decodeSnapshot b = .error e₁ ∧ codec.readMetaFromFile b = .error e₂ ∧
        codec.streamFile b chunkSize = .error e₃) ∨
      ∃ metadata data items, codec.decodeSnapshot b = .ok (metadata, data) ∧
        codec.readMetaFromFile b = .ok metadata ∧ codec.streamFile b chunkSize = .ok items ∧
        items.map (·.metadata) = some metadata :: List.replicate (items.length - 1) none ∧
        items.flatMap (·.data) = data) ∧
    ∀ (metadata : StoredMeta) (data : Bytes), codec.Writable metadata data →
      ∃ b, codec.encodeSnapshot metadata data = .ok b ∧
        codec.decodeSnapshot b = .ok (codec.normalize metadata data, data) := by
  constructor
  · intro b chunkSize hb
    have hlen : b.length ≤ u64Max := by omega
    have hpos := effectiveChunkSize_pos chunkSize
    by_cases h : ∃ metadata, codec.Spells b metadata (payloadOf b)
    · obtain ⟨metadata, hspells⟩ := h
      refine .inr ⟨metadata, payloadOf b, _, (SnapshotCodec.decodeSnapshot_iff hlen).mpr hspells,
        (SnapshotCodec.readMetaFromFile_iff hlen).mpr hspells,
        (SnapshotCodec.streamFile_iff hb).mpr ⟨metadata, hspells, rfl⟩, ?_, ?_⟩
      · have hmeta := chunkRun_metadata true (some metadata) 0
          (partsOf_ne_nil hpos (payloadOf b))
        have hcount := congrArg List.length hmeta
        rw [List.length_map, List.length_cons, List.length_replicate] at hcount
        rw [snapshotChunks, hmeta, hcount, Nat.add_sub_cancel]
      · rw [snapshotChunks, chunkRun_data, partsOf_flatten hpos]
    · left
      cases hdecode : codec.decodeSnapshot b with
      | ok p =>
        have hspells := (SnapshotCodec.decodeSnapshot_iff hlen).mp hdecode
        exact absurd ⟨p.1, hspells.data_eq ▸ hspells⟩ h
      | error e₁ =>
        cases hread : codec.readMetaFromFile b with
        | ok metadata =>
          exact absurd ⟨metadata, (SnapshotCodec.readMetaFromFile_iff hlen).mp hread⟩ h
        | error e₂ =>
          cases hstream : codec.streamFile b chunkSize with
          | ok items =>
            obtain ⟨metadata, hspells, _⟩ := (SnapshotCodec.streamFile_iff hb).mp hstream
            exact absurd ⟨metadata, hspells⟩ h
          | error e₃ => exact ⟨e₁, e₂, e₃, rfl, rfl, rfl⟩
  · intro metadata data h
    have hlen : (codec.fields metadata data).flatten.length ≤ u64Max := by
      rw [codec.fields_length]
      exact h.size
    exact ⟨_, SnapshotCodec.encodeSnapshot_eq h,
      (SnapshotCodec.decodeSnapshot_iff hlen).mpr (SnapshotCodec.fields_spell h)⟩

def threeBytes : StoredMeta := ⟨⟨7, 2, "", some soloVoters, none⟩, none⟩

theorem threeBytes_writable : sampleSnapshotCodec.Writable threeBytes [1, 2, 3] :=
  ⟨by decide, by decide, by decide, by decide⟩

/-- Three bytes behind a voter set of one voter, read in chunks of two. -/
theorem one_snapshot_format_three_bytes :
    ∃ b metadata items, sampleSnapshotCodec.encodeSnapshot threeBytes [1, 2, 3] = .ok b ∧
      sampleSnapshotCodec.decodeSnapshot b = .ok (metadata, [1, 2, 3]) ∧
      sampleSnapshotCodec.readMetaFromFile b = .ok metadata ∧
      sampleSnapshotCodec.streamFile b 2 = .ok items ∧
      items.flatMap (·.data) = [1, 2, 3] := by
  have hformat := one_snapshot_format sampleSnapshotCodec
  obtain ⟨b, hencode, hdecode⟩ := hformat.2 threeBytes [1, 2, 3] threeBytes_writable
  have hb : b = (sampleSnapshotCodec.fields threeBytes [1, 2, 3]).flatten := by
    rw [SnapshotCodec.encodeSnapshot_eq threeBytes_writable] at hencode
    exact (Except.ok.inj hencode).symm
  have hlen : b.length + effectiveChunkSize 2 ≤ u64Max := by
    rw [hb, SnapshotCodec.fields_length]
    decide
  rcases hformat.1 b 2 hlen
    with ⟨_, _, _, herror, _⟩ | ⟨metadata, data, items, hok, hread, hstream, _, hdata⟩
  · rw [hdecode] at herror
    cases herror
  · rw [hdecode] at hok
    cases hok
    exact ⟨b, _, items, hencode, hdecode, hread, hstream, hdata⟩

end SnapshotFiles
