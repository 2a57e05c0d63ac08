import Xraft.ProtocolTypes

/-! # Log and snapshot stores

`MemoryLogStore` with its epoch index, and `MemorySnapshotStore`. The `BTreeMap` of epoch starts is
an association list in key order. Failing operations are not part of these functions: the driver
decides per call whether the underlying device answers.
-/
namespace DurableStores

open ProtocolTypes

abbrev EpochStarts := List (ℕ × ℕ)

def orInsert (term : ℕ) (index : ℕ) : EpochStarts → EpochStarts
  | [] => [(term, index)]
  | (t, i) :: rest =>
    if term < t then (term, index) :: (t, i) :: rest
    else if term = t then (t, i) :: rest
    else (t, i) :: orInsert term index rest

def recordEpochs (starts : EpochStarts) (entries : List Entry) : EpochStarts :=
  entries.foldl (fun m e => orInsert e.term e.index m) starts

structure MemoryLogStore where
  entries : List Entry
  epochStarts : EpochStarts
  snapshotAnchor : Option (ℕ × ℕ)
  deriving DecidableEq

def MemoryLogStore.new : MemoryLogStore := ⟨[], [], none⟩

def Entry.isSnapshot (e : Entry) : Bool :=
  match e.payload with
  | .snapshot _ => true
  | _ => false

/-- `append` refuses compaction markers before it touches the log. -/
def MemoryLogStore.append (s : MemoryLogStore) (entries : List Entry) :
    Except XRaftError MemoryLogStore :=
  if entries.any Entry.isSnapshot then
    .error (.storage ("EntryPayload::Snapshot is an in-memory compaction marker " ++
      "and must not be written to WAL"))
  else
    .ok { s with
      entries := s.entries ++ entries
      epochStarts := recordEpochs s.epochStarts entries }

def MemoryLogStore.get (s : MemoryLogStore) (index : ℕ) : Option Entry :=
  if index = 0 then none else s.entries.find? (fun e => e.index = index)

/-- Entries of the half-open range `[first, end)`. -/
def MemoryLogStore.getRange (s : MemoryLogStore) (first last : ℕ) : List Entry :=
  s.entries.filter (fun e => first ≤ e.index ∧ e.index < last)

def MemoryLogStore.lastIndex (s : MemoryLogStore) : ℕ :=
  (s.entries.getLast?.map Entry.index).getD 0

def MemoryLogStore.lastTerm (s : MemoryLogStore) : ℕ :=
  (s.entries.getLast?.map Entry.term).getD 0

def MemoryLogStore.retain (s : MemoryLogStore) (p : Entry → Bool) : MemoryLogStore :=
  { s with
    entries := s.entries.filter p
    epochStarts := recordEpochs [] (s.entries.filter p) }

def MemoryLogStore.truncateFrom (s : MemoryLogStore) (index : ℕ) : MemoryLogStore :=
  s.retain (fun e => e.index < index)

def MemoryLogStore.purgePrefix (s : MemoryLogStore) (through : ℕ) : MemoryLogStore :=
  s.retain (fun e => through < e.index)

def MemoryLogStore.termAt (s : MemoryLogStore) (index : ℕ) : Option ℕ :=
  (s.entries.find? (fun e => e.index = index)).map Entry.term

/-- The anchor only moves up. -/
def MemoryLogStore.updateSnapshotAnchor (s : MemoryLogStore) (term : ℕ) (index : ℕ) :
    MemoryLogStore :=
  match s.snapshotAnchor with
  | some (_, prior) => if index ≤ prior then s else { s with snapshotAnchor := some (term, index) }
  | none => { s with snapshotAnchor := some (term, index) }

/-- Last offset of `epoch`: one below the next epoch's start, or the end of the log. An epoch that
the log no longer holds resolves to the snapshot anchor when the anchor is at least as new. -/
def endOffsetLookup (starts : EpochStarts) (logLastIndex : ℕ)
    (snapshotAnchor : Option (ℕ × ℕ)) (epoch : ℕ) : Option ℕ :=
  if starts.any (fun p => p.1 = epoch) then
    match starts.find? (fun p => epoch < p.1) with
    | some (_, next) => some (next - 1)
    | none => some logLastIndex
  else
    match snapshotAnchor with
    | some (anchorTerm, anchorIndex) => if epoch ≤ anchorTerm then some anchorIndex else none
    | none => none

def MemoryLogStore.endOffsetForEpoch (s : MemoryLogStore) (epoch : ℕ) : Option ℕ :=
  endOffsetLookup s.epochStarts s.lastIndex s.snapshotAnchor epoch

def zeroPad (width n : ℕ) : String :=
  let digits := toString n
  String.ofList (List.replicate (width - digits.length) '0') ++ digits

def canonicalId (term : ℕ) (index : ℕ) : String :=
  "snapshot-" ++ zeroPad 10 term ++ "-" ++ zeroPad 20 index

structure MemorySnapshotStore where
  snapshots : List (SnapshotMeta × Bytes)
  deriving DecidableEq

def MemorySnapshotStore.new : MemorySnapshotStore := ⟨[]⟩

/-- One snapshot per index; a lower term never replaces a higher one. -/
def MemorySnapshotStore.saveSnapshot (s : MemorySnapshotStore) (metadata : SnapshotMeta)
    (data : Bytes) : Except XRaftError MemorySnapshotStore :=
  if metadata.voterSet.isNone then
    .error (.storage "save_snapshot: voter_set is required for new snapshots")
  else
    let replaced := s.snapshots.find? (fun p => p.1.lastIncludedIndex = metadata.lastIncludedIndex)
    match replaced.filter (fun p => metadata.lastIncludedTerm < p.1.lastIncludedTerm) with
    | some existing =>
      .error (.storage
        (s!"refusing to replace snapshot at index {metadata.lastIncludedIndex} term " ++
        s!"{existing.1.lastIncludedTerm} with lower term {metadata.lastIncludedTerm}"))
    | none =>
      let saved : SnapshotMeta := { metadata with
        id := canonicalId metadata.lastIncludedTerm metadata.lastIncludedIndex
        sizeBytes := some data.length }
      .ok ⟨s.snapshots.filter (fun p => p.1.lastIncludedIndex ≠ metadata.lastIncludedIndex) ++
        [(saved, data)]⟩

/-- The later of two snapshots; `max_by_key` keeps the last maximum. -/
def laterSnapshot (a b : SnapshotMeta × Bytes) : SnapshotMeta × Bytes :=
  if a.1.lastIncludedIndex ≤ b.1.lastIncludedIndex then b else a

def MemorySnapshotStore.loadLatestSnapshot (s : MemorySnapshotStore) :
    Option (SnapshotMeta × Bytes) :=
  match s.snapshots with
  | [] => none
  | p :: rest => some (rest.foldl laterSnapshot p)

def MemorySnapshotStore.loadSnapshot (s : MemorySnapshotStore) (index : ℕ) (term : ℕ) :
    Option (SnapshotMeta × Bytes) :=
  s.snapshots.find? (fun p => p.1.id = canonicalId term index)

def MemorySnapshotStore.findById (s : MemorySnapshotStore) (id : String) : Option SnapshotMeta :=
  (s.snapshots.find? (fun p => p.1.id = id)).map Prod.fst

structure SnapshotChunkItem where
  chunkIndex : ℕ
  data : Bytes
  done : Bool
  metadata : Option SnapshotMeta

/-- `data.chunks(size)`; `fuel` bounds the number of chunks and `data.length` is always enough. -/
def chunks (size : ℕ) : ℕ → Bytes → List Bytes
  | 0, _ => []
  | _ + 1, [] => []
  | fuel + 1, b :: bs => (b :: bs).take size :: chunks size fuel ((b :: bs).drop size)

def MemorySnapshotStore.snapshotReaderFromOffset (s : MemorySnapshotStore)
    (metadata : SnapshotMeta) (requested offset : ℕ) (maxBytes : Option ℕ) :
    Except XRaftError (List SnapshotChunkItem) :=
  let size := if requested = 0 then 1024 * 1024 else requested
  match s.loadSnapshot metadata.lastIncludedIndex metadata.lastIncludedTerm with
  | none =>
    .error (.storage
      (s!"snapshot_reader: no snapshot found for (term={metadata.lastIncludedTerm}" ++
        s!", index={metadata.lastIncludedIndex})"))
  | some (loaded, full) =>
    let effectiveMax := match maxBytes with
      | some mb => if 0 < mb then mb else u64Max
      | none => u64Max
    if full.length ≤ offset ∧ (0 < offset ∨ full = []) then
      .ok [⟨if full = [] then 0 else offset / size, [], true, some loaded⟩]
    else
      let window := (full.take (satAdd offset effectiveMax)).drop offset
      let parts := chunks size window.length window
      let coversTail := decide (full.length ≤ offset + window.length)
      .ok (parts.mapIdx (fun i part =>
        ⟨offset / size + i, part, decide (i + 1 = parts.length) && coversTail,
          if i = 0 then some loaded else none⟩))

end DurableStores
