import Xraft.NodeDriver
import Xraft.SnapshotRetention

/-! # Snapshot transfer

The stream of chunks that a leader builds from its snapshot store, and the loop of the message
router that drains it and checks size and checksum. The router's deadline is not reached and its
progress logging is left out.
-/
namespace SnapshotTransfer

open ProtocolTypes DurableStores WriteAheadLog SnapshotFiles SnapshotStores SnapshotRetention
open RetainedMaps GuardedExecution

/-! ## The sender -/

structure TransferChunk where
  clusterId : String
  leaderEpoch : ℕ
  chunkIndex : ℕ
  data : Bytes
  done : Bool
  metadata : Option StoredMeta
  deriving DecidableEq

def intoFetchChunk (clusterId : String) (leaderEpoch : ℕ) (item : StoredChunkItem) :
    TransferChunk :=
  ⟨clusterId, leaderEpoch, item.chunkIndex, item.data, item.done, item.metadata⟩

/-- The default `snapshot_reader_from_offset`, which the memory store inherits. -/
def memoryReader (s : MemoryStore) (metadata : StoredMeta) (requested offset : ℕ)
    (maxBytes : Option ℕ) : Except XRaftError (List StoredChunkItem) :=
  let size := effectiveChunkSize requested
  match s.loadSnapshot metadata.lastIncludedIndex metadata.lastIncludedTerm with
  | none =>
    .error (.storage
      (s!"snapshot_reader: no snapshot found for (term={metadata.lastIncludedTerm}" ++
        s!", index={metadata.lastIncludedIndex})"))
  | some (loaded, full) =>
    let effectiveMax := match maxBytes with
      | some mb => if 0 < mb then mb else u64Max
      | none => u64Max
    if full.length ≤ offset ∧ (0 < offset ∨ full = []) then
      .ok [⟨if full = [] then 0 else offset / size, [], true, some loaded⟩]
    else
      let window := (full.take (satAdd offset effectiveMax)).drop offset
      let parts := chunks size window.length window
      let coversTail := decide (full.length ≤ offset + window.length)
      .ok (parts.mapIdx (fun i part =>
        ⟨offset / size + i, part, decide (i + 1 = parts.length) && coversTail,
          if i = 0 then some loaded else none⟩))

def fileReader (codec : SnapshotCodec) (s : FileSnapshotStore) (metadata : StoredMeta)
    (chunkSize offset : ℕ) (maxBytes : Option ℕ) :
    Except XRaftError (List (Except XRaftError StoredChunkItem)) :=
  match s.dir.read (FileSnapshotStore.snapshotPathFromMeta metadata) with
  | none => .error WriteAheadLog.fileNotFound
  | some content => do
    let reader ← codec.chunkedReaderFromOffset content metadata chunkSize offset maxBytes
    .ok reader.items

structure SnapshotSource where
  findById : String → Option StoredMeta
  readerFromOffset : StoredMeta → ℕ → ℕ → Option ℕ →
    Except XRaftError (List (Except XRaftError StoredChunkItem))

def SnapshotSource.ofMemory (s : MemoryStore) : SnapshotSource where
  findById := s.findById
  readerFromOffset metadata chunkSize offset maxBytes :=
    (memoryReader s metadata chunkSize offset maxBytes).map (fun items => items.map .ok)

def SnapshotSource.ofFile (codec : SnapshotCodec) (s : FileSnapshotStore) : SnapshotSource where
  findById := s.findById
  readerFromOffset := fileReader codec s

/-- The handler collects chunks up to the first error. -/
def untilError {α : Type} : List (Except XRaftError α) → List (Except XRaftError α)
  | [] => []
  | .ok a :: rest => .ok a :: untilError rest
  | .error e :: _ => [.error e]

/-- The stream for a request that passed the fences of `handle_inbound_fetch_snapshot`. The handler
asks for `chunkSize` zero when the request sets no limit, which leaves the size to the store. -/
def serveSnapshot (source : SnapshotSource) (chunkSize : ℕ) (clusterId : String) (leaderEpoch : ℕ)
    (req : FetchSnapshotRequest) : Except XRaftError (List (Except XRaftError TransferChunk)) :=
  match source.findById req.snapshotId with
  | none => .error (.snapshotNotFound req.snapshotId)
  | some metadata => do
    let items ← source.readerFromOffset metadata
      (if req.maxBytes = 0 then chunkSize else req.maxBytes) req.offset
      (if req.maxBytes = 0 then none else some req.maxBytes)
    .ok ((untilError items).map (fun item => item.map (intoFetchChunk clusterId leaderEpoch)))

/-! ## The receiver -/

def maxSnapshotInstallBytes : ℕ := 256 * 1024 * 1024

structure Drain where
  chunkCount : ℕ := 0
  completed : Bool := false
  err : Option String := none
  metadata : Option StoredMeta := none
  data : Bytes := []
  clusterId : Option String := none
  leaderEpoch : Option ℕ := none
  nextExpectedIndex : ℕ := 0

def Drain.chunkFault (s : Drain) (chunk : TransferChunk) : Option String :=
  if s.clusterId.any (fun prev => prev ≠ chunk.clusterId) then
    some ("FetchSnapshot stream cluster_id mutated mid-stream: " ++ s.clusterId.getD "" ++ " -> " ++
      chunk.clusterId)
  else if s.leaderEpoch.any (fun prev => prev ≠ chunk.leaderEpoch) then
    some (s!"FetchSnapshot stream leader_epoch mutated mid-stream: {s.leaderEpoch.getD 0} -> " ++
      s!"{chunk.leaderEpoch}")
  else if chunk.chunkIndex ≠ s.nextExpectedIndex then
    some (s!"FetchSnapshot chunk_index out of order: expected {s.nextExpectedIndex}, got " ++
      s!"{chunk.chunkIndex}")
  else if s.chunkCount = 0 ∧ chunk.metadata.isNone then
    some "FetchSnapshot first chunk missing required SnapshotMeta"
  else if maxSnapshotInstallBytes < satAdd s.data.length chunk.data.length then
    some (s!"FetchSnapshot reassembled data exceeded cap of {maxSnapshotInstallBytes} bytes " ++
      s!"(got {s.data.length} + {chunk.data.length})")
  else none

/-- Takes in a chunk that passed the checks. Metadata behind the first chunk is ignored. -/
def Drain.accept (s : Drain) (chunk : TransferChunk) : Drain :=
  { s with
    chunkCount := s.chunkCount + 1
    metadata := if s.chunkCount = 0 then chunk.metadata else s.metadata
    data := s.data ++ chunk.data
    clusterId := some (s.clusterId.getD chunk.clusterId)
    leaderEpoch := some (s.leaderEpoch.getD chunk.leaderEpoch)
    nextExpectedIndex := satAdd s.nextExpectedIndex 1 }

/-- The loop over the stream. A `done` chunk ends it, and what follows is not polled. -/
def drainLoop : List (Except XRaftError TransferChunk) → Drain → Drain
  | [], s => s
  | .error e :: _, s => { s with err := some e.display }
  | .ok chunk :: rest, s =>
    match s.chunkFault chunk with
    | some e => { s with err := some e }
    | none =>
      if chunk.done then { s.accept chunk with completed := true } else drainLoop rest
        (s.accept chunk)

inductive OutboundResult
  | fetchSnapshot (peer : NodeId) (clusterId : String) (leaderEpoch : ℕ) (chunkCount : ℕ)
      (completed : Bool) (metadata : Option StoredMeta) (data : Bytes)
  | error (peer : NodeId) (kind : String) (err : String)
  deriving DecidableEq

def upperHex (n : ℕ) : String :=
  let digits := (Nat.toDigits 16 n).map Char.toUpper
  "0x" ++ String.ofList (List.replicate (8 - digits.length) '0' ++ digits)

def fetchSnapshotError (peer : NodeId) (err : String) : OutboundResult :=
  .error peer "fetch_snapshot" err

/-- The result of a drained stream. `none` is the panic of a completed stream without metadata. -/
def Drain.outcome (codec : SnapshotCodec) (peer : NodeId) (s : Drain) : Option OutboundResult :=
  match s.err with
  | some e => some (fetchSnapshotError peer e)
  | none =>
    if !s.completed then
      some (fetchSnapshotError peer
        s!"FetchSnapshot stream ended after {s.chunkCount} chunks without done=true")
    else
      match s.metadata with
      | none => none
      | some declared =>
        let computedCrc := (codec.crc32 s.data).toNat
        if declared.sizeBytes.any (fun size => size ≠ s.data.length) then
          some (fetchSnapshotError peer
            (s!"FetchSnapshot integrity check failed: declared size {declared.sizeBytes.getD 0} " ++
            s!"bytes != reassembled {s.data.length} bytes (chunk_count={s.chunkCount})"))
        else if declared.checksum.any (fun crc => crc ≠ computedCrc) then
          some (fetchSnapshotError peer ("FetchSnapshot integrity check failed: declared crc32 " ++
            upperHex (declared.checksum.getD 0) ++ " != computed " ++ upperHex computedCrc ++
            s!" ({s.data.length} bytes, chunk_count={s.chunkCount})"))
        else
          some (.fetchSnapshot peer (s.clusterId.getD "") (s.leaderEpoch.getD 0) s.chunkCount
            s.completed (some declared) s.data)

def drainStream (codec : SnapshotCodec) (peer : NodeId)
    (stream : List (Except XRaftError TransferChunk)) : Option OutboundResult :=
  (drainLoop stream {}).outcome codec peer

/-! ## What a drained stream was -/

/-- The loop has taken in these chunks: numbered from zero, with one cluster id and one epoch, the
first with metadata. -/
structure Follows (consumed : List TransferChunk) (s : Drain) : Prop where
  count : s.chunkCount = consumed.length
  data : s.data = consumed.flatMap (·.data)
  next : s.nextExpectedIndex = min consumed.length u64Max
  cluster : s.clusterId = consumed.head?.map (·.clusterId)
  epoch : s.leaderEpoch = consumed.head?.map (·.leaderEpoch)
  metadata : s.metadata = consumed.head?.bind (·.metadata)
  announced : consumed ≠ [] → s.metadata.isSome
  uniform : ∀ c ∈ consumed, s.clusterId = some c.clusterId ∧ s.leaderEpoch = some c.leaderEpoch
  numbered : ∀ i c, consumed[i]? = some c → c.chunkIndex = min i u64Max

theorem Follows.start : Follows [] {} :=
  ⟨rfl, rfl, rfl, rfl, rfl, rfl, fun h => absurd rfl h, fun c hc => absurd hc List.not_mem_nil,
    fun i c h => by simp at h⟩

theorem chunkFault_eq_none {s : Drain} {chunk : TransferChunk} :
    s.chunkFault chunk = none ↔
      (∀ prev, s.clusterId = some prev → prev = chunk.clusterId) ∧
      (∀ prev, s.leaderEpoch = some prev → prev = chunk.leaderEpoch) ∧
      chunk.chunkIndex = s.nextExpectedIndex ∧
      (s.chunkCount = 0 → chunk.metadata.isSome) ∧
      s.data.length + chunk.data.length ≤ maxSnapshotInstallBytes := by
  have hcap : maxSnapshotInstallBytes < satAdd s.data.length chunk.data.length ↔
      maxSnapshotInstallBytes < s.data.length + chunk.data.length := by
    simp only [satAdd, maxSnapshotInstallBytes, u64Max]
    omega
  unfold Drain.chunkFault
  constructor
  · intro h
    split_ifs at h with h₁ h₂ h₃ h₄ h₅
    refine ⟨?_, ?_, not_not.mp h₃, ?_, not_lt.mp (hcap.not.mp h₅)⟩
    · intro prev hprev
      simpa [hprev] using h₁
    · intro prev hprev
      simpa [hprev] using h₂
    · intro hcount
      simpa [hcount, Option.isSome_iff_ne_none] using h₄
  · rintro ⟨h₁, h₂, h₃, h₄, h₅⟩
    rw [if_neg, if_neg, if_neg (not_not.mpr h₃), if_neg,
      if_neg (hcap.not.mpr (not_lt.mpr h₅))]
    · rintro ⟨hcount, hnone⟩
      rw [Option.isNone_iff_eq_none.mp hnone] at h₄
      cases h₄ hcount
    · cases hepoch : s.leaderEpoch with
      | none => simp
      | some prev => simpa using h₂ prev hepoch
    · cases hcluster : s.clusterId with
      | none => simp
      | some prev => simpa using h₁ prev hcluster

theorem Follows.accept {consumed : List TransferChunk} {s : Drain} (h : Follows consumed s)
    {chunk : TransferChunk} (hchunk : s.chunkFault chunk = none) :
    Follows (consumed ++ [chunk]) (s.accept chunk) := by
  obtain ⟨hcluster, hepoch, hindex, hfirst, _⟩ := chunkFault_eq_none.mp hchunk
  have hc : (s.accept chunk).clusterId = some chunk.clusterId := by
    simp only [Drain.accept]
    cases hs : s.clusterId with
    | none => rfl
    | some prev => rw [Option.getD_some, hcluster prev hs]
  have he : (s.accept chunk).leaderEpoch = some chunk.leaderEpoch := by
    simp only [Drain.accept]
    cases hs : s.leaderEpoch with
    | none => rfl
    | some prev => rw [Option.getD_some, hepoch prev hs]
  have hm : (s.accept chunk).metadata = (consumed ++ [chunk]).head?.bind (·.metadata) := by
    cases consumed with
    | nil => simp [Drain.accept, h.count]
    | cons c rest => simpa [Drain.accept, h.count] using h.metadata
  have huniform : ∀ c ∈ consumed ++ [chunk],
      (s.accept chunk).clusterId = some c.clusterId ∧
        (s.accept chunk).leaderEpoch = some c.leaderEpoch := by
    intro c hmem
    rcases List.mem_append.mp hmem with hmem | hmem
    · obtain ⟨hsc, hse⟩ := h.uniform c hmem
      rw [hc, he, hcluster _ hsc, hepoch _ hse]
      exact ⟨rfl, rfl⟩
    · rw [List.mem_singleton.mp hmem]
      exact ⟨hc, he⟩
  have hhead : ∃ c, (consumed ++ [chunk]).head? = some c ∧ c ∈ consumed ++ [chunk] := by
    cases consumed with
    | nil => exact ⟨chunk, rfl, List.mem_cons_self⟩
    | cons c rest => exact ⟨c, rfl, List.mem_cons_self⟩
  obtain ⟨c, hhead, hmem⟩ := hhead
  refine ⟨?_, ?_, ?_, ?_, ?_, hm, fun _ => ?_, huniform, ?_⟩
  · simp [Drain.accept, h.count]
  · simp [Drain.accept, h.data]
  · simp only [Drain.accept, h.next, satAdd, List.length_append, List.length_singleton]
    omega
  · rw [hhead, (huniform c hmem).1]
    rfl
  · rw [hhead, (huniform c hmem).2]
    rfl
  · simp only [Drain.accept]
    split_ifs with hcount
    · exact hfirst hcount
    · exact h.announced (fun hnil => hcount (by rw [h.count, hnil]; rfl))
  · intro i d hd
    rcases Nat.lt_trichotomy i consumed.length with hlt | heq | hgt
    · rw [List.getElem?_append_left hlt] at hd
      exact h.numbered i d hd
    · rw [heq, List.getElem?_append_right le_rfl, Nat.sub_self] at hd
      cases hd
      rw [hindex, h.next, heq]
    · rw [List.getElem?_append_right hgt.le, List.getElem?_eq_none (by simp; omega)] at hd
      cases hd

/-- The loop ends in an error, at the end of a stream without a last chunk, or with a last chunk. -/
theorem drainLoop_cases {stream : List (Except XRaftError TransferChunk)}
    {consumed : List TransferChunk} {s : Drain} (h : Follows consumed s) (herr : s.err = none)
    (hopen : s.completed = false) :
    (drainLoop stream s).err.isSome ∨
      ((drainLoop stream s).err = none ∧ (drainLoop stream s).completed = false) ∨
      ∃ more last rest, stream = (more ++ [last]).map .ok ++ rest ∧
        (∀ c ∈ more, c.done = false) ∧ last.done = true ∧
        Follows (consumed ++ (more ++ [last])) (drainLoop stream s) ∧
        (drainLoop stream s).err = none ∧ (drainLoop stream s).completed = true := by
  induction stream generalizing consumed s with
  | nil => exact .inr (.inl ⟨herr, hopen⟩)
  | cons item rest ih =>
    cases item with
    | error e => exact .inl rfl
    | ok chunk =>
      rw [drainLoop]
      cases hfault : s.chunkFault chunk with
      | some e => exact .inl rfl
      | none =>
        have hnext := h.accept hfault
        dsimp only
        split_ifs with hdone
        · refine .inr
            (.inr ⟨[], chunk, rest, rfl, fun c hc => absurd hc List.not_mem_nil, hdone, ?_,
              herr, rfl⟩)
          exact ⟨hnext.count, hnext.data, hnext.next, hnext.cluster, hnext.epoch, hnext.metadata,
            hnext.announced, hnext.uniform, hnext.numbered⟩
        · rcases ih hnext herr hopen with hleft | hmid | ⟨more, last, tail, rfl, hmore,
            hlast, hright⟩
          · exact .inl hleft
          · exact .inr (.inl hmid)
          · refine .inr (.inr ⟨chunk :: more, last, tail, rfl, ?_, hlast, ?_⟩)
            · intro c hc
              rcases List.mem_cons.mp hc with rfl | hc
              · exact Bool.eq_false_iff.mpr hdone
              · exact hmore c hc
            · rw [List.append_assoc] at hright
              exact hright

/-! ## A stream that is drained whole -/

def Drain.finished (s : Drain) (metadata : Option StoredMeta) (clusterId : String) (epoch : ℕ)
    (parts : List Bytes) : Drain :=
  { s with
    chunkCount := s.chunkCount + parts.length
    completed := true
    metadata := if s.chunkCount = 0 then metadata else s.metadata
    data := s.data ++ parts.flatten
    clusterId := some clusterId
    leaderEpoch := some epoch
    nextExpectedIndex := s.nextExpectedIndex + parts.length }

theorem drainLoop_run {parts : List Bytes} (hparts : parts ≠ []) {metadata : Option StoredMeta}
    {index : ℕ} {clusterId : String} {epoch : ℕ} {s : Drain}
    (hcluster : ∀ prev, s.clusterId = some prev → prev = clusterId)
    (hepoch : ∀ prev, s.leaderEpoch = some prev → prev = epoch)
    (hindex : s.nextExpectedIndex = index) (hfits : index + parts.length ≤ u64Max)
    (hfirst : s.chunkCount = 0 → metadata.isSome)
    (hcap : s.data.length + parts.flatten.length ≤ maxSnapshotInstallBytes) :
    drainLoop ((chunkRun true metadata index parts).map
        (fun item => .ok (intoFetchChunk clusterId epoch item))) s =
      s.finished metadata clusterId epoch parts := by
  induction parts generalizing metadata index s with
  | nil => exact absurd rfl hparts
  | cons part parts ih =>
    have hgetc : s.clusterId.getD clusterId = clusterId := by
      cases hs : s.clusterId with
      | none => rfl
      | some prev => exact hcluster prev hs
    have hgete : s.leaderEpoch.getD epoch = epoch := by
      cases hs : s.leaderEpoch with
      | none => rfl
      | some prev => exact hepoch prev hs
    rw [List.flatten_cons, List.length_append] at hcap
    rw [List.length_cons] at hfits
    have hpass (done : Bool) :
        s.chunkFault ⟨clusterId, epoch, index, part, done, metadata⟩ = none :=
      chunkFault_eq_none.mpr ⟨hcluster, hepoch, hindex.symm, hfirst, by dsimp only; omega⟩
    by_cases hlast : parts = []
    · subst hlast
      rw [chunkRun, List.map_singleton, intoFetchChunk, drainLoop, hpass]
      simp [Drain.accept, Drain.finished, hgetc, hgete, hindex,
        satAdd_eq (show index + 1 ≤ u64Max by omega)]
    · have hnext : drainLoop ((chunkRun true none (index + 1) parts).map
          (fun item => .ok (intoFetchChunk clusterId epoch item)))
          (s.accept ⟨clusterId, epoch, index, part, false, metadata⟩) =
          (s.accept ⟨clusterId, epoch, index, part, false, metadata⟩).finished none clusterId epoch
            parts := by
        refine ih hlast ?_ ?_ ?_ (by omega) ?_ ?_
        · rintro prev hprev
          rw [Drain.accept] at hprev
          exact (Option.some.inj hprev).symm.trans hgetc
        · rintro prev hprev
          rw [Drain.accept] at hprev
          exact (Option.some.inj hprev).symm.trans hgete
        · rw [Drain.accept, hindex]
          exact satAdd_eq (by omega)
        · intro hzero
          rw [Drain.accept] at hzero
          cases hzero
        · rw [Drain.accept, List.length_append]
          dsimp only
          omega
      rw [chunkRun_cons _ _ _ _ hlast, List.map_cons, intoFetchChunk, drainLoop, hpass]
      dsimp only
      rw [if_neg Bool.false_ne_true, hnext]
      simp [Drain.accept, Drain.finished, hindex, satAdd_eq (show index + 1 ≤ u64Max by omega)]
      omega

theorem pieces_length_le {size : ℕ} (hsize : 0 < size) (data : Bytes) :
    (pieces size data).length ≤ data.length := by
  induction hlen : data.length using Nat.strong_induction_on generalizing data with
  | _ n ih =>
    by_cases hne : data = []
    · subst hne
      simp
    · have hpos := List.length_pos_iff.mpr hne
      have hdrop : (data.drop size).length = n - size := by rw [List.length_drop, hlen]
      have hrest := ih (n - size) (by omega) (data.drop size) hdrop
      rw [pieces_step hsize hne, List.length_cons]
      omega

theorem partsOf_length_le {size : ℕ} (hsize : 0 < size) (data : Bytes) :
    (partsOf size data).length ≤ data.length + 1 := by
  unfold partsOf
  split_ifs
  · simp
  · exact (pieces_length_le hsize data).trans (Nat.le_succ _)

variable {codec : SnapshotCodec}

/-- A kept snapshot that is sent in chunks of any size is received as it was. -/
theorem drainStream_snapshotChunks {p : Snapshot} (hp : Kept codec p)
    (hcap : p.2.length ≤ maxSnapshotInstallBytes) {size : ℕ} (hsize : 0 < size) (peer : NodeId)
    (clusterId : String) (epoch : ℕ) :
    drainStream codec peer ((snapshotChunks p.1 size p.2).map
        (fun item => .ok (intoFetchChunk clusterId epoch item))) =
      some (.fetchSnapshot peer clusterId epoch (partsOf size p.2).length true (some p.1) p.2) := by
  have hlen := partsOf_length_le hsize p.2
  have hmax : maxSnapshotInstallBytes + 1 ≤ u64Max := by decide
  have hflat := partsOf_flatten hsize p.2
  have hsz : p.1.sizeBytes = some p.2.length := by
    rw [← hp.normal]
    rfl
  have hcrc : p.1.checksum = some (codec.crc32 p.2).toNat := by
    rw [← hp.normal]
    rfl
  have hloop : drainLoop ((snapshotChunks p.1 size p.2).map
      (fun item => .ok (intoFetchChunk clusterId epoch item))) {} =
      Drain.finished {} (some p.1) clusterId epoch (partsOf size p.2) := by
    refine drainLoop_run (partsOf_ne_nil hsize p.2) ?_ ?_ rfl (by omega) (fun _ => rfl) ?_
    · intro prev hprev
      cases hprev
    · intro prev hprev
      cases hprev
    · rw [hflat]
      simpa using hcap
  rw [drainStream, hloop]
  simp [Drain.outcome, Drain.finished, hflat, hsz, hcrc]

/-! ## What the stores send -/

theorem untilError_ok {α : Type} (items : List α) :
    untilError (items.map Except.ok) = items.map .ok := by
  induction items with
  | nil => rfl
  | cons item rest ih => rw [List.map_cons, untilError, ih]

theorem eq_map_ok_of_mapM {l : List (Except XRaftError StoredChunkItem)}
    {items : List StoredChunkItem} (h : l.mapM id = .ok items) : l = items.map .ok := by
  induction l generalizing items with
  | nil =>
    cases h
    rfl
  | cons x rest ih =>
    rw [List.mapM_cons, bind_eq_ok] at h
    obtain ⟨a, ha, hrest⟩ := h
    obtain ⟨b, hb, hitems⟩ := bind_eq_ok.mp hrest
    cases hitems
    rw [List.map_cons, ← ih hb, show x = .ok a from ha]

theorem mapIdx_chunkRun (coversTail : Bool) (metadata : Option StoredMeta) (index : ℕ)
    (parts : List Bytes) :
    parts.mapIdx (fun i part => (⟨index + i, part, decide (i + 1 = parts.length) && coversTail,
      if i = 0 then metadata else none⟩ : StoredChunkItem)) =
      chunkRun coversTail metadata index parts := by
  induction parts generalizing metadata index with
  | nil => rfl
  | cons part parts ih =>
    by_cases hlast : parts = []
    · subst hlast
      simp [chunkRun]
    · rw [chunkRun_cons _ _ _ _ hlast, ← ih none (index + 1), List.mapIdx_cons]
      have hpos := List.length_pos_iff.mpr hlast
      congr 1
      · simp [hlast]
      · refine List.mapIdx_eq_mapIdx_iff.mpr fun i hi => ?_
        simp only [List.length_cons, Nat.add_assoc, Nat.add_comm 1 i]
        simp

theorem loadSnapshot_stored {s : MemoryStore} (hd : Distinct codec s.snapshots) {p : Snapshot}
    (hp : p ∈ s.snapshots) :
    s.loadSnapshot p.1.lastIncludedIndex p.1.lastIncludedTerm = some p ∧ p.2.length ≤ u64Max := by
  have hk := hd.kept p hp
  have hsize := hk.writable.size
  refine ⟨?_, by omega⟩
  rw [MemoryStore.loadSnapshot, hd.find_id]
  exact ⟨hp, hk.id_eq⟩

theorem memoryReader_whole {s : MemoryStore} (hd : Distinct codec s.snapshots) {p : Snapshot}
    (hp : p ∈ s.snapshots) (chunkSize : ℕ) :
    memoryReader s p.1 chunkSize 0 none =
      .ok (snapshotChunks p.1 (effectiveChunkSize chunkSize) p.2) := by
  obtain ⟨hload, hlen⟩ := loadSnapshot_stored hd hp
  rw [memoryReader, hload]
  dsimp only
  by_cases hempty : p.2 = []
  · rw [if_pos ⟨by simp [hempty], .inr hempty⟩]
    simp [hempty, snapshotChunks, partsOf, chunkRun]
  · have hpos := List.length_pos_iff.mpr hempty
    have hwindow : (p.2.take (satAdd 0 u64Max)).drop 0 = p.2 := by
      rw [List.drop_zero, satAdd_eq (by omega), List.take_of_length_le (by omega)]
    rw [if_neg (by omega), hwindow, snapshotChunks, partsOf, if_neg hempty, ← mapIdx_chunkRun]
    simp [pieces]
    rfl

theorem chunkedReaderFromOffset_whole (codec : SnapshotCodec) (content : Bytes)
    (metadata fileMeta : StoredMeta) {headerSize dataLen storedCrc : ℕ} {file : FileReader}
    (hheader : codec.decodeHeaderForStreaming ⟨content, 0⟩ content.length =
      .ok ((fileMeta, headerSize, dataLen, storedCrc), file))
    (hindex : fileMeta.lastIncludedIndex = metadata.lastIncludedIndex)
    (hterm : fileMeta.lastIncludedTerm = metadata.lastIncludedTerm) (chunkSize : ℕ) :
    codec.chunkedReaderFromOffset content metadata chunkSize 0 none =
      codec.fullReader fileMeta file dataLen storedCrc chunkSize := by
  rw [SnapshotCodec.chunkedReaderFromOffset, hheader]
  simp only [bind, Except.bind, hindex, hterm, ne_eq, not_true_eq_false, or_false, if_false,
    SnapshotCodec.fullReader]
  rw [if_neg (by omega), if_neg (by omega)]
  simp

theorem Kept.header {p : Snapshot} (h : Kept codec p) :
    ∃ headerSize, codec.decodeHeaderForStreaming ⟨content codec p, 0⟩ (content codec p).length =
        .ok ((p.1, headerSize, p.2.length, (codec.crc32 p.2).toNat),
          ⟨content codec p, headerSize⟩) ∧
      headerSize + p.2.length ≤ (content codec p).length ∧
      slice (content codec p) headerSize p.2.length = p.2 := by
  have hspells := h.spells
  have hm : (content codec p).length = 26 + voterSetLenOf (content codec p) + 8 +
      dataLenOf (content codec p) + 4 := hspells.measured
  have hpayload : slice (content codec p) (26 + voterSetLenOf (content codec p) + 8)
      (dataLenOf (content codec p)) = p.2 := hspells.data_eq.symm
  have hlen : dataLenOf (content codec p) = p.2.length := by
    rw [← slice_length
      (show 26 + voterSetLenOf (content codec p) + 8 + dataLenOf (content codec p) ≤
        (content codec p).length by omega), hpayload]
  refine ⟨26 + voterSetLenOf (content codec p) + 8, ?_, by omega, hlen ▸ hpayload⟩
  refine (SnapshotCodec.decodeHeaderForStreaming_iff h.fits).mpr ⟨⟨hspells.headed, hspells.measured,
    hspells.voters, hspells.metadata_eq⟩, rfl, hlen.symm, ?_, rfl⟩
  rw [hspells.checked, ← hspells.data_eq]

theorem fileReader_whole {s : FileSnapshotStore} {shelf : List Snapshot}
    (hs : Shelved codec s shelf) {p : Snapshot} (hp : p ∈ shelf) (chunkSize : ℕ) :
    (p.2.length + effectiveChunkSize chunkSize ≤ u64Max →
      ∃ items, fileReader codec s p.1 chunkSize 0 none = .ok items) ∧
    ∀ items, fileReader codec s p.1 chunkSize 0 none = .ok items →
      items = (snapshotChunks p.1 (effectiveChunkSize chunkSize) p.2).map .ok := by
  have hread : s.dir.read (FileSnapshotStore.snapshotPathFromMeta p.1) = some (content codec p) :=
    hs.filed.present p hp
  obtain ⟨headerSize, hheader, hfit, hslice⟩ := Kept.header (hs.kept p hp)
  rw [fileReader, hread]
  dsimp only
  rw [chunkedReaderFromOffset_whole codec _ p.1 p.1 hheader rfl rfl chunkSize]
  constructor
  · intro hroom
    obtain ⟨reader, hreader⟩ : ∃ reader, codec.fullReader p.1 ⟨content codec p, headerSize⟩
        p.2.length (codec.crc32 p.2).toNat chunkSize = .ok reader :=
      SnapshotCodec.fullReader_ok hroom
    exact ⟨reader.items, bind_eq_ok.mpr ⟨reader, hreader, rfl⟩⟩
  · intro items h
    obtain ⟨reader, hreader, hitems⟩ := bind_eq_ok.mp h
    cases hitems
    refine eq_map_ok_of_mapM ((SnapshotCodec.fullReader_items hreader hfit).mpr ?_)
    rw [hslice]
    exact ⟨rfl, rfl⟩

/-! ## The stream of the driver -/

/-- The memory store as the driver's model has it, without checksums. -/
def withoutChecksums (s : MemoryStore) : MemorySnapshotStore :=
  ⟨s.snapshots.map (fun p => (p.1.toSnapshotMeta, p.2))⟩

def itemWithoutChecksum (item : StoredChunkItem) : SnapshotChunkItem :=
  ⟨item.chunkIndex, item.data, item.done, item.metadata.map (·.toSnapshotMeta)⟩

def chunkWithoutChecksum (chunk : TransferChunk) : FetchSnapshotChunk :=
  ⟨chunk.clusterId, chunk.leaderEpoch, chunk.chunkIndex, chunk.data, chunk.done,
    chunk.metadata.map (·.toSnapshotMeta)⟩

theorem findById_withoutChecksums (s : MemoryStore) (id : String) :
    (withoutChecksums s).findById id = (s.findById id).map (·.toSnapshotMeta) := by
  rw [MemorySnapshotStore.findById, withoutChecksums, List.find?_map, Option.map_map,
    MemoryStore.findById, Option.map_map]
  rfl

theorem reader_withoutChecksums (s : MemoryStore) (metadata : StoredMeta) (requested offset : ℕ)
    (maxBytes : Option ℕ) :
    (withoutChecksums s).snapshotReaderFromOffset metadata.toSnapshotMeta requested offset
      maxBytes = (memoryReader s metadata requested offset maxBytes).map
        (List.map itemWithoutChecksum) := by
  have hload :
    (withoutChecksums s).loadSnapshot metadata.lastIncludedIndex metadata.lastIncludedTerm =
      (s.loadSnapshot metadata.lastIncludedIndex metadata.lastIncludedTerm).map
        (fun p => (p.1.toSnapshotMeta, p.2)) := by
    rw [MemorySnapshotStore.loadSnapshot, withoutChecksums, List.find?_map,
      MemoryStore.loadSnapshot]
    rfl
  unfold MemorySnapshotStore.snapshotReaderFromOffset memoryReader
  rw [hload]
  cases s.loadSnapshot metadata.lastIncludedIndex metadata.lastIncludedTerm with
  | none => rfl
  | some p =>
    dsimp only [Option.map_some]
    split
    · rfl
    · refine congrArg Except.ok (List.ext_getElem? fun i => ?_)
      rw [List.getElem?_map, List.getElem?_mapIdx, List.getElem?_mapIdx, Option.map_map]
      cases i <;> rfl

/-- A leader in the epoch of a known replica, whose store does not fail, replies with the stream of
its store. -/
theorem handleInboundFetchSnapshot_serves {σ : Type} [NodeDriver.StateMachine σ]
    {d : NodeDriver.Driver σ} {s : MemoryStore}
    {req : FetchSnapshotRequest} (hstore : d.snapshotStore = withoutChecksums s)
    (hcluster : req.clusterId = d.node.config.clusterId) (hself : req.replicaId ≠ d.node.id)
    (hleader : d.node.role = .leader)
    (hknown : d.node.isKnownVoter req.replicaId ∨ d.node.hasPeer req.replicaId)
    (hepoch : req.leaderEpoch = d.node.currentTerm) (hfind : d.nextFault = none)
    (hread : d.afterCall.nextFault = none) :
    (d.handleInboundFetchSnapshot req).trace = d.trace ++ [.fetchSnapshotReply req
      ((serveSnapshot (.ofMemory s) 0 d.node.config.clusterId d.node.currentTerm req).map
        (List.filterMap (fun item => item.toOption.map chunkWithoutChecksum)))] := by
  have hreplica : ¬ (!d.node.isKnownVoter req.replicaId && !d.node.hasPeer req.replicaId) =
      true := by
    rcases hknown with h | h <;> simp [h]
  rw [NodeDriver.Driver.handleInboundFetchSnapshot, if_neg (not_not.mpr hcluster), if_neg hself,
    if_neg (not_not.mpr hleader), if_neg hreplica, if_neg (by omega), if_neg (by omega), hfind]
  dsimp only
  rw [hstore, findById_withoutChecksums, serveSnapshot]
  cases hmeta : s.findById req.snapshotId with
  | none =>
    simp only [SnapshotSource.ofMemory, hmeta]
    rfl
  | some metadata =>
    have hsize : (if req.maxBytes = 0 then 0 else req.maxBytes) = req.maxBytes := by
      split_ifs with h
      · exact h.symm
      · rfl
    simp only [SnapshotSource.ofMemory, hmeta, Option.map_some, hread,
      reader_withoutChecksums, hsize]
    cases memoryReader s metadata req.maxBytes req.offset
        (if req.maxBytes = 0 then none else some req.maxBytes) with
    | error e => rfl
    | ok items =>
      simp only [Except.map, bind, Except.bind, untilError_ok, List.map_map, List.filterMap_map]
      refine congrArg (fun chunks => d.trace ++ [.fetchSnapshotReply req (.ok chunks)]) ?_
      rw [← List.filterMap_eq_map]
      rfl

/-! ## Transfers -/

/-- A request for the whole of a snapshot is answered, and whatever the size of the chunks, the
stream is received as the metadata and the payload that are stored. -/
def Transfers (codec : SnapshotCodec) (source : SnapshotSource) (p : Snapshot) : Prop :=
  ∀ (peer : NodeId) (clusterId : String) (epoch : ℕ) (req : FetchSnapshotRequest),
    req.snapshotId = p.1.id → req.offset = 0 → req.maxBytes = 0 →
    (∃ stream, serveSnapshot source 0 clusterId epoch req = .ok stream) ∧
    ∀ chunkSize stream, serveSnapshot source chunkSize clusterId epoch req = .ok stream →
      ∃ chunkCount, drainStream codec peer stream =
        some (.fetchSnapshot peer clusterId epoch chunkCount true (some p.1) p.2)

def Authentic (codec : SnapshotCodec) (peer : NodeId)
    (stream : List (Except XRaftError TransferChunk)) : OutboundResult → Prop
  | .error sender kind _ => sender = peer ∧ kind = "fetch_snapshot"
  | .fetchSnapshot sender clusterId epoch chunkCount completed metadata data =>
    ∃ consumed last rest declared, stream = (consumed ++ [last]).map .ok ++ rest ∧
      sender = peer ∧ completed = true ∧ chunkCount = consumed.length + 1 ∧
      (∀ i c, (consumed ++ [last])[i]? = some c →
        c.chunkIndex = min i u64Max ∧ c.clusterId = clusterId ∧ c.leaderEpoch = epoch) ∧
      metadata = some declared ∧ (consumed ++ [last]).head?.bind (·.metadata) = some declared ∧
      (∀ c ∈ consumed, c.done = false) ∧ last.done = true ∧
      data = (consumed ++ [last]).flatMap (·.data) ∧
      (∀ size, declared.sizeBytes = some size → size = data.length) ∧
      ∀ crc, declared.checksum = some crc → crc = (codec.crc32 data).toNat

theorem transfers_of_reader {source : SnapshotSource} {p : Snapshot} (hp : Kept codec p)
    (hcap : p.2.length ≤ maxSnapshotInstallBytes) (hfind : source.findById p.1.id = some p.1)
    (hanswers : ∃ items, source.readerFromOffset p.1 0 0 none = .ok items)
    (hreads : ∀ chunkSize items, source.readerFromOffset p.1 chunkSize 0 none = .ok items →
      items = (snapshotChunks p.1 (effectiveChunkSize chunkSize) p.2).map .ok) :
    Transfers codec source p := by
  intro peer clusterId epoch req hid hoffset hmax
  have hserve (chunkSize : ℕ) : serveSnapshot source chunkSize clusterId epoch req = (do
      let items ← source.readerFromOffset p.1 chunkSize 0 none
      .ok ((untilError items).map (fun item => item.map (intoFetchChunk clusterId epoch)))) := by
    rw [serveSnapshot, hid, hfind, hoffset, hmax]
    rfl
  constructor
  · obtain ⟨items, hitems⟩ := hanswers
    exact ⟨_, (hserve 0).trans (by rw [hitems]; rfl)⟩
  · intro chunkSize stream hstream
    rw [hserve] at hstream
    obtain ⟨items, hitems, hok⟩ := bind_eq_ok.mp hstream
    cases hok
    refine ⟨(partsOf (effectiveChunkSize chunkSize) p.2).length, ?_⟩
    rw [hreads chunkSize items hitems, untilError_ok, List.map_map]
    exact drainStream_snapshotChunks hp hcap (effectiveChunkSize_pos chunkSize) peer clusterId epoch

theorem outcome_authentic {s : Drain} {more : List TransferChunk} {last : TransferChunk}
    {rest : List (Except XRaftError TransferChunk)} (h : Follows (more ++ [last]) s)
    (hmore : ∀ c ∈ more, c.done = false) (hlast : last.done = true) (herr : s.err = none)
    (hdone : s.completed = true) (codec : SnapshotCodec) (peer : NodeId) :
    ∃ r, s.outcome codec peer = some r ∧
      Authentic codec peer ((more ++ [last]).map .ok ++ rest) r := by
  obtain ⟨declared, hdeclared⟩ := Option.isSome_iff_exists.mp (h.announced (by simp))
  obtain ⟨hcluster, hepoch⟩ := h.uniform last (by simp)
  rw [Drain.outcome, herr, hdone]
  simp only [hdeclared, Bool.not_true, Bool.false_eq_true, if_false]
  split_ifs with hsize hcrc
  · exact ⟨_, rfl, rfl, rfl⟩
  · exact ⟨_, rfl, rfl, rfl⟩
  · refine ⟨_, rfl, more, last, rest, declared, rfl, rfl, rfl, ?_, ?_, rfl, ?_, hmore,
      hlast, h.data, ?_, ?_⟩
    · rw [h.count, List.length_append, List.length_singleton]
    · intro i c hc
      obtain ⟨hi, he⟩ := h.uniform c (List.mem_of_getElem? hc)
      rw [hi, he]
      exact ⟨h.numbered i c hc, rfl, rfl⟩
    · rw [← h.metadata, hdeclared]
    · intro size hs
      simpa [hs] using hsize
    · intro crc hs
      simpa [hs] using hcrc

theorem drainStream_authentic (codec : SnapshotCodec) (peer : NodeId)
    (stream : List (Except XRaftError TransferChunk)) :
    ∃ r, drainStream codec peer stream = some r ∧ Authentic codec peer stream r := by
  have hcases := @drainLoop_cases stream [] {} Follows.start rfl rfl
  rw [drainStream]
  rcases hcases with herr | ⟨herr, hopen⟩ |
    ⟨more, last, rest, rfl, hmore, hlast, hfollows, herr, hdone⟩
  · obtain ⟨e, he⟩ := Option.isSome_iff_exists.mp herr
    refine ⟨fetchSnapshotError peer e, ?_, rfl, rfl⟩
    rw [Drain.outcome, he]
  · rw [Drain.outcome, herr, hopen]
    exact ⟨_, rfl, rfl, rfl⟩
  · exact outcome_authentic hfollows hmore hlast herr hdone codec peer

theorem file_transfers {n : ℕ} {s : FileSnapshotStore} {m : KeyedMap Snapshot}
    (h : Represents codec n s m) {p : Snapshot} (hp : m.lookup (indexOf p) = some p)
    (hcap : p.2.length ≤ maxSnapshotInstallBytes) : Transfers codec (.ofFile codec s) p := by
  have hfind : s.findById p.1.id = some p.1 := by
    rw [h.find]
    exact ⟨rfl, p.2, hp⟩
  obtain ⟨shelf, hs, _, _, rfl⟩ := h
  have hmem : p ∈ shelf := ((shelved_lookup_iff hs.distinct.nodup).mp hp).1
  have hroom : maxSnapshotInstallBytes + effectiveChunkSize 0 ≤ u64Max := by decide
  exact transfers_of_reader (hs.kept p hmem) hcap hfind
    ((fileReader_whole hs hmem 0).1 (by omega)) (fun c => (fileReader_whole hs hmem c).2)

theorem memory_transfers {s : MemoryStore} {m : KeyedMap Snapshot} (h : Remembers codec s m)
    {p : Snapshot} (hp : m.lookup (indexOf p) = some p)
    (hcap : p.2.length ≤ maxSnapshotInstallBytes) : Transfers codec (.ofMemory s) p := by
  have hfind : s.findById p.1.id = some p.1 := by
    rw [h.find]
    exact ⟨rfl, p.2, hp⟩
  obtain ⟨hd, rfl⟩ := h
  have hmem : p ∈ s.snapshots := ((shelved_lookup_iff hd.nodup).mp hp).1
  have hreader (chunkSize : ℕ) : (SnapshotSource.ofMemory s).readerFromOffset p.1 chunkSize 0 none =
      .ok ((snapshotChunks p.1 (effectiveChunkSize chunkSize) p.2).map .ok) := by
    simp only [SnapshotSource.ofMemory, memoryReader_whole hd hmem]
    rfl
  refine transfers_of_reader (hd.kept p hmem) hcap hfind ⟨_, hreader 0⟩ ?_
  intro chunkSize items hitems
  rw [hreader] at hitems
  cases hitems
  rfl

/-- Snapshot transfer is lossless and tamper-evident. Every snapshot stored in a run, up to the size
the router accepts, is received with its metadata and payload from either store. Every stream, of
whatever content, is drained to an error or to a snapshot that the stream spells out. -/
theorem snapshot_transfer_faithful (codec : SnapshotCodec) (path : String) (maxRetained : ℕ)
    {t : Trio} (h : Execution (Trio.step codec) (Valid codec) (Trio.start path maxRetained) t) :
    (∀ p : Snapshot, t.model.lookup (indexOf p) = some p → p.2.length ≤ maxSnapshotInstallBytes →
      Transfers codec (.ofFile codec t.file) p ∧
      (maxRetained = 0 → Transfers codec (.ofMemory t.memory) p)) ∧
    ∀ peer stream, ∃ r, drainStream codec peer stream = some r ∧ Authentic codec peer stream r := by
  have hin : InStep codec maxRetained t :=
    h.invariant (fun _ _ hs hop => hs.step hop) (InStep.start path maxRetained)
  refine ⟨fun p hp hcap => ⟨file_transfers hin.represents hp hcap, fun hn => ?_⟩,
    drainStream_authentic codec⟩
  exact memory_transfers (hin.remembers hn) hp hcap

/-- A stored snapshot of three bytes reaches the router from either store. -/
theorem snapshot_transfer_faithful_three_bytes :
    let t := (Trio.start "data" 0).step sampleSnapshotCodec (.save threeBytes [1, 2, 3])
    let p : Snapshot := (sampleSnapshotCodec.normalize threeBytes [1, 2, 3], [1, 2, 3])
    Transfers sampleSnapshotCodec (.ofFile sampleSnapshotCodec t.file) p ∧
      Transfers sampleSnapshotCodec (.ofMemory t.memory) p := by
  intro t p
  have hrun : Execution (Trio.step sampleSnapshotCodec) (Valid sampleSnapshotCodec)
      (Trio.start "data" 0) t := Execution.single threeBytes_writable
  have h := (snapshot_transfer_faithful sampleSnapshotCodec "data" 0 hrun).1 p
    rfl (show 3 ≤ maxSnapshotInstallBytes by decide)
  exact ⟨h.1, h.2 rfl⟩

end SnapshotTransfer
