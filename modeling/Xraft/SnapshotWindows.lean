import Xraft.SnapshotTransfer

/-! # Windows of a snapshot

Reading a part of a snapshot. The default reader slices the loaded payload, the reader of the file
store seeks in the file. Both yield the chunks of one window, and a receiver that asks for window
after window ends up with the payload.
-/
namespace SnapshotWindows

open ProtocolTypes DurableStores WriteAheadLog SnapshotFiles SnapshotStores SnapshotRetention
open SnapshotTransfer RetainedMaps GuardedExecution

/-! ## Windows -/

/-- Where a window ends. No limit and a limit of zero both mean the end of the payload. -/
def windowEnd (length offset : ℕ) : Option ℕ → ℕ
  | some limit => if 0 < limit then min (offset + limit) length else length
  | none => length

/-- The chunks of a window by their position: one empty chunk behind the end of the payload, else
the bytes from the offset to the end of the window in pieces of `size`. -/
def windowChunks (p : Snapshot) (size offset : ℕ) (maxBytes : Option ℕ) : List StoredChunkItem :=
  if p.2.length ≤ offset then [⟨if p.2 = [] then 0 else offset / size, [], true, some p.1⟩]
  else
    let stop := windowEnd p.2.length offset maxBytes
    let count := (stop - offset + size - 1) / size
    (List.range count).map fun i =>
      ⟨offset / size + i, slice p.2 (offset + i * size) (min size (stop - (offset + i * size))),
        decide (i + 1 = count ∧ stop = p.2.length), if i = 0 then some p.1 else none⟩

theorem windowEnd_le (length offset : ℕ) (maxBytes : Option ℕ) :
    windowEnd length offset maxBytes ≤ length := by
  cases maxBytes with
  | none => exact le_rfl
  | some limit =>
    rw [windowEnd]
    split_ifs
    · exact min_le_right _ _
    · exact le_rfl

theorem lt_windowEnd {length offset : ℕ} (h : offset < length) (maxBytes : Option ℕ) :
    offset < windowEnd length offset maxBytes := by
  cases maxBytes with
  | none => exact h
  | some limit =>
    rw [windowEnd]
    split_ifs <;> omega

/-! ### Pieces by position -/

theorem slice_of_slice (b : Bytes) (start len skip size : ℕ) :
    slice (slice b start len) skip size = slice b (start + skip) (min size (len - skip)) := by
  unfold slice
  rw [List.drop_take, List.drop_drop, List.take_take]

theorem pieces_eq_range {size : ℕ} (hsize : 0 < size) (data : Bytes) :
    pieces size data =
      (List.range ((data.length + size - 1) / size)).map (fun i => slice data (i * size) size) := by
  induction hlen : data.length using Nat.strong_induction_on generalizing data with
  | _ n ih =>
    by_cases hne : data = []
    · subst hne
      have hzero : (n + size - 1) / size = 0 := by
        rw [← hlen]
        exact Nat.div_eq_of_lt (by simp; omega)
      rw [hzero]
      rfl
    · have hpos := List.length_pos_iff.mpr hne
      have hdrop : (data.drop size).length = n - size := by rw [List.length_drop, hlen]
      -- the first piece, and the pieces of the rest one position further
      have hcount : (n + size - 1) / size = (n - size + size - 1) / size + 1 := by
        rw [← Nat.add_div_right _ hsize]
        rcases le_total size n with hle | hlt
        · congr 1
          omega
        · rw [Nat.sub_eq_zero_of_le hlt, Nat.zero_add]
          have hone : (n + size - 1) / size = 1 :=
            Nat.div_eq_of_lt_le (by omega) (by omega)
          rw [hone]
          exact (Nat.div_eq_of_lt_le (by omega) (by omega)).symm
      rw [pieces_step hsize hne, ih (n - size) (by omega) _ hdrop, hcount, List.range_succ_eq_map,
        List.map_cons, List.map_map]
      congr 1
      · rw [Nat.zero_mul]
        rfl
      · refine List.map_congr_left fun i _ => ?_
        rw [Function.comp_apply, Nat.succ_mul, slice, slice, List.drop_drop, Nat.add_comm]

theorem chunkRun_range (coversTail : Bool) (metadata : Option StoredMeta) (index n : ℕ)
    (part : ℕ → Bytes) :
    chunkRun coversTail metadata index ((List.range n).map part) =
      (List.range n).map (fun i => ⟨index + i, part i, decide (i + 1 = n) && coversTail,
        if i = 0 then metadata else none⟩) := by
  rw [← mapIdx_chunkRun]
  refine List.ext_getElem (by simp) fun i hi hi' => ?_
  simp

theorem windowChunks_eq_run {p : Snapshot} {size offset : ℕ} (hsize : 0 < size)
    (hoffset : offset < p.2.length) (maxBytes : Option ℕ) :
    windowChunks p size offset maxBytes =
      chunkRun (decide (p.2.length ≤ windowEnd p.2.length offset maxBytes)) (some p.1)
      (offset / size)
        (pieces size (slice p.2 offset (windowEnd p.2.length offset maxBytes - offset))) := by
  have hle := windowEnd_le p.2.length offset maxBytes
  have hlt := lt_windowEnd hoffset maxBytes
  have hlen : (slice p.2 offset (windowEnd p.2.length offset maxBytes - offset)).length =
      windowEnd p.2.length offset maxBytes - offset := slice_length (by omega)
  rw [pieces_eq_range hsize, hlen, chunkRun_range, windowChunks, if_neg (by omega)]
  refine List.map_congr_left fun i _ => ?_
  rw [slice_of_slice, Nat.sub_sub]
  congr 1
  rw [Bool.decide_and]
  congr 2
  simp only [eq_iff_iff]
  omega

/-! ## The two readers -/

variable {codec : SnapshotCodec}

theorem drop_take_eq_slice {data : Bytes} {bound offset stop : ℕ}
    (h : min bound data.length = stop) : (data.take bound).drop offset =
      slice data offset (stop - offset) := by
  have htake : data.take bound = data.take stop := by
    rw [List.take_eq_take_iff]
    omega
  rw [htake, List.drop_take]
  rfl

theorem memoryReader_window {s : MemoryStore} (hd : Distinct codec s.snapshots) {p : Snapshot}
    (hp : p ∈ s.snapshots) (chunkSize offset : ℕ) (maxBytes : Option ℕ) :
    memoryReader s p.1 chunkSize offset maxBytes =
      .ok (windowChunks p (effectiveChunkSize chunkSize) offset maxBytes) := by
  obtain ⟨hload, hlen⟩ := loadSnapshot_stored hd hp
  unfold memoryReader
  rw [hload]
  dsimp only
  by_cases hoffset : p.2.length ≤ offset
  · have hspent : 0 < offset ∨ p.2 = [] := by
      rcases Nat.eq_zero_or_pos offset with hzero | hpos
      · exact .inr (List.length_eq_zero_iff.mp (by omega))
      · exact .inl hpos
    rw [if_pos ⟨hoffset, hspent⟩, windowChunks, if_pos hoffset]
  · rw [if_neg (by omega)]
    generalize hbound : satAdd offset _ = bound
    -- the sum of offset and limit saturates above the length of the payload
    have hstop : min bound p.2.length = windowEnd p.2.length offset maxBytes := by
      rw [← hbound, satAdd]
      cases maxBytes with
      | none =>
        dsimp only
        rw [windowEnd]
        omega
      | some limit =>
        dsimp only
        rw [windowEnd]
        split_ifs <;> omega
    have hlt := lt_windowEnd (Nat.lt_of_not_le hoffset) maxBytes
    have hcount : (slice p.2 offset (windowEnd p.2.length offset maxBytes - offset)).length =
        windowEnd p.2.length offset maxBytes - offset :=
      slice_length (by have hle := windowEnd_le p.2.length offset maxBytes; omega)
    rw [drop_take_eq_slice hstop, hcount, Nat.add_sub_cancel' hlt.le,
      windowChunks_eq_run (effectiveChunkSize_pos chunkSize) (by omega), ← mapIdx_chunkRun,
      pieces, hcount]

def windowReader (codec : SnapshotCodec) (p : Snapshot) (headerSize chunkSize offset window : ℕ) :
    SnapshotChunkReader codec where
  reader := ⟨content codec p, headerSize + offset⟩
  metadata := some p.1
  chunkSize := effectiveChunkSize chunkSize
  remaining := window
  dataLen := p.2.length
  chunkIndex := offset / effectiveChunkSize chunkSize
  finished := false
  crcHasher := codec.newHasher
  storedCrc := (codec.crc32 p.2).toNat
  skipCrc := decide (0 < offset ∨ window < p.2.length)
  windowCoversTail := decide (p.2.length ≤ offset + window)
  firstEmitted := false
  chunkSize_pos := effectiveChunkSize_pos chunkSize

theorem totalChunks_ok {window chunkSize : ℕ} (h : window + chunkSize ≤ u64Max) :
    ∃ n, totalChunks window chunkSize = .ok n := by
  unfold totalChunks
  split_ifs
  · exact ⟨1, rfl⟩
  · rw [checkedAdd, if_pos (by omega)]
    exact ⟨_, rfl⟩

theorem chunkedReaderFromOffset_window {p : Snapshot} (hp : Kept codec p) {chunkSize offset : ℕ}
    (hroom : p.2.length + effectiveChunkSize chunkSize ≤ u64Max)
    (hoffset : offset < p.2.length ∨ offset = 0 ∧ p.2.length = 0) (maxBytes : Option ℕ) :
    ∃ headerSize, headerSize + p.2.length ≤ (content codec p).length ∧
      slice (content codec p) headerSize p.2.length = p.2 ∧
      codec.chunkedReaderFromOffset (content codec p) p.1 chunkSize offset maxBytes =
        .ok (windowReader codec p headerSize chunkSize offset
          (windowEnd p.2.length offset maxBytes - offset)) := by
  obtain ⟨headerSize, hheader, hfit, hslice⟩ := Kept.header hp
  refine ⟨headerSize, hfit, hslice, ?_⟩
  have hle := windowEnd_le p.2.length offset maxBytes
  obtain ⟨n, hn⟩ : ∃ n, totalChunks (windowEnd p.2.length offset maxBytes - offset)
      (effectiveChunkSize chunkSize) = .ok n := totalChunks_ok (by omega)
  have hseek : (if 0 < offset then (⟨content codec p, headerSize + offset⟩ : FileReader)
      else ⟨content codec p, headerSize⟩) = ⟨content codec p, headerSize + offset⟩ := by
    split_ifs with hpos
    · rfl
    · rw [Nat.eq_zero_of_not_pos hpos, Nat.add_zero]
  rw [SnapshotCodec.chunkedReaderFromOffset, hheader]
  simp only [bind, Except.bind, ne_eq, not_true_eq_false, or_false, if_false]
  rw [if_neg (by omega), if_neg (by omega), hseek]
  cases maxBytes with
  | none =>
    rw [windowEnd] at hn ⊢
    rw [hn]
    rfl
  | some limit =>
    rw [windowEnd] at hn ⊢
    have hmin : min (p.2.length - offset) limit = min (offset + limit) p.2.length - offset := by
      omega
    by_cases hlimit : 0 < limit
    · simp only [if_pos hlimit, hmin] at hn ⊢
      rw [hn]
      rfl
    · simp only [if_neg hlimit] at hn ⊢
      rw [hn]
      rfl

/-- The reader at an offset yields the chunks of its window. The sum is checked when the window is
the whole payload, and is then right. -/
theorem windowReader_items {p : Snapshot} {headerSize chunkSize offset : ℕ}
    (hoffset : offset < p.2.length) (hfit : headerSize + p.2.length ≤ (content codec p).length)
    (hslice : slice (content codec p) headerSize p.2.length = p.2) (maxBytes : Option ℕ) :
    (windowReader codec p headerSize chunkSize offset
      (windowEnd p.2.length offset maxBytes - offset)).items =
      (windowChunks p (effectiveChunkSize chunkSize) offset maxBytes).map .ok := by
  have hpos := effectiveChunkSize_pos chunkSize
  have hle := windowEnd_le p.2.length offset maxBytes
  have hlt := lt_windowEnd hoffset maxBytes
  set window := windowEnd p.2.length offset maxBytes - offset with hwindow
  have hreading : (windowReader codec p headerSize chunkSize offset window).Reading := by
    refine ⟨rfl, ?_, ?_, ?_⟩
    · show p.2.length ≠ 0
      omega
    · show window ≠ 0
      omega
    · show headerSize + offset + window ≤ (content codec p).length
      omega
  have hbytes : (windowReader codec p headerSize chunkSize offset window).window =
      slice p.2 offset window := by
    show slice (content codec p) (headerSize + offset) window = slice p.2 offset window
    conv_rhs => rw [← hslice, slice_of_slice]
    congr 1
    omega
  have hcrc : (windowReader codec p headerSize chunkSize offset window).crcFault
      ((pieces (effectiveChunkSize chunkSize) (slice p.2 offset window)).foldl codec.update
        codec.newHasher) = none := by
    rw [SnapshotChunkReader.crcFault_eq_none, codec.incremental, pieces_flatten hpos]
    by_cases hpartial : 0 < offset ∨ window < p.2.length
    · exact .inl (decide_eq_true hpartial)
    · have hwhole : slice p.2 offset window = p.2 := by
        rw [show offset = 0 by omega, slice, List.drop_zero, List.take_of_length_le (by omega)]
      rw [hwhole]
      exact .inr rfl
  have hrun : (windowReader codec p headerSize chunkSize offset window).items =
      delivered (chunkRun (decide (p.2.length ≤ offset + window)) (some p.1)
          (offset / effectiveChunkSize chunkSize)
          (pieces (effectiveChunkSize chunkSize) (slice p.2 offset window)))
        ((windowReader codec p headerSize chunkSize offset window).crcFault
          ((pieces (effectiveChunkSize chunkSize) (slice p.2 offset window)).foldl codec.update
            codec.newHasher)) := by
    rw [← hbytes]
    exact SnapshotChunkReader.drain_reading hreading (Nat.lt_succ_self _)
  rw [hrun, hcrc, windowChunks_eq_run hpos hoffset, delivered, ← hwindow,
    show offset + window = windowEnd p.2.length offset maxBytes by omega]

theorem windowReader_empty {p : Snapshot} {headerSize chunkSize offset : ℕ} (hnil : p.2 = [])
    (hstart : offset = 0) (maxBytes : Option ℕ) :
    (windowReader codec p headerSize chunkSize offset
      (windowEnd p.2.length offset maxBytes - offset)).items =
      [.ok ⟨0, [], true, some p.1⟩] := by
  have hlen : p.2.length = 0 := by rw [hnil]; rfl
  have hsum : codec.finalize codec.newHasher = codec.crc32 p.2 := by
    rw [hnil]
    exact codec.incremental []
  have hle := windowEnd_le p.2.length offset maxBytes
  have hzero : windowEnd p.2.length offset maxBytes - offset = 0 := by omega
  rw [hzero, SnapshotChunkReader.items]
  simp [SnapshotChunkReader.drain, SnapshotChunkReader.next, SnapshotChunkReader.crcFault,
    windowReader, hsum, hnil, hstart]

theorem chunkedReaderFromOffset_spent {p : Snapshot} (hp : Kept codec p) {offset : ℕ}
    (hoffset : p.2.length ≤ offset) (hstart : 0 < offset) (chunkSize : ℕ) (maxBytes : Option ℕ) :
    ∃ file storedCrc,
    codec.chunkedReaderFromOffset (content codec p) p.1 chunkSize offset maxBytes =
      .ok (codec.spentReader p.1 file storedCrc chunkSize
        (if p.2 = [] then 0 else offset / effectiveChunkSize chunkSize)) := by
  obtain ⟨headerSize, hheader, -, -⟩ := Kept.header hp
  refine ⟨⟨content codec p, headerSize⟩, (codec.crc32 p.2).toNat, ?_⟩
  rw [SnapshotCodec.chunkedReaderFromOffset, hheader]
  simp only [bind, Except.bind, ne_eq, not_true_eq_false, or_false, if_false]
  by_cases hempty : p.2 = []
  · have hlen : p.2.length = 0 := by rw [hempty]; rfl
    rw [if_neg (by omega), if_pos ⟨hlen, hstart⟩, if_pos hempty]
  · have hpos := List.length_pos_iff.mpr hempty
    rw [if_pos ⟨hoffset, hpos⟩, if_neg hempty]

theorem fileReader_window {s : FileSnapshotStore} {shelf : List Snapshot}
    (hs : Shelved codec s shelf) {p : Snapshot} (hp : p ∈ shelf) {chunkSize : ℕ}
    (hroom : p.2.length + effectiveChunkSize chunkSize ≤ u64Max) (offset : ℕ)
    (maxBytes : Option ℕ) : fileReader codec s p.1 chunkSize offset maxBytes =
      .ok ((windowChunks p (effectiveChunkSize chunkSize) offset maxBytes).map .ok) := by
  have hread : s.dir.read (FileSnapshotStore.snapshotPathFromMeta p.1) = some (content codec p) :=
    hs.filed.present p hp
  have hpos := effectiveChunkSize_pos chunkSize
  rw [fileReader, hread]
  dsimp only
  by_cases hoffset : offset < p.2.length
  · obtain ⟨headerSize, hfit, hslice, hreader⟩ :=
      chunkedReaderFromOffset_window (hs.kept p hp) hroom (.inl hoffset) maxBytes
    rw [hreader]
    exact congrArg Except.ok (windowReader_items hoffset hfit hslice maxBytes)
  · rw [windowChunks, if_pos (by omega)]
    by_cases hstart : offset = 0
    · have hnil : p.2 = [] := List.length_eq_zero_iff.mp (by omega)
      obtain ⟨headerSize, -, -, hreader⟩ := chunkedReaderFromOffset_window (hs.kept p hp) hroom
        (.inr ⟨hstart, by omega⟩) maxBytes
      rw [hreader, if_pos hnil]
      exact congrArg Except.ok (windowReader_empty hnil hstart maxBytes)
    · obtain ⟨file, storedCrc, hreader⟩ := chunkedReaderFromOffset_spent (hs.kept p hp)
        (Nat.le_of_not_lt hoffset) (Nat.pos_of_ne_zero hstart) chunkSize maxBytes
      rw [hreader]
      rfl

/-! ## Window after window -/

/-- Asks for the window behind what was received until a chunk says that the payload is complete.
`fuel` bounds the number of requests. -/
def readWindows (read : ℕ → Except XRaftError (List StoredChunkItem)) : ℕ → Bytes → Option Bytes
  | 0, _ => none
  | fuel + 1, received =>
    match read received.length with
    | .error _ => none
    | .ok items =>
      let grown := received ++ items.flatMap (·.data)
      if items.any (·.done) then some grown else readWindows read fuel grown

theorem chunkRun_done (coversTail : Bool) (metadata : Option StoredMeta) (index : ℕ)
    {parts : List Bytes} (h : parts ≠ []) :
    (chunkRun coversTail metadata index parts).any (·.done) = coversTail := by
  induction parts generalizing metadata index with
  | nil => exact absurd rfl h
  | cons part parts ih =>
    by_cases hnil : parts = []
    · subst hnil
      simp [chunkRun]
    · rw [chunkRun_cons _ _ _ _ hnil, List.any_cons, ih none (index + 1) hnil, Bool.false_or]

theorem windowChunks_data {p : Snapshot} {size offset : ℕ} (hsize : 0 < size)
    (hoffset : offset < p.2.length) (maxBytes : Option ℕ) :
    (windowChunks p size offset maxBytes).flatMap (·.data) =
      slice p.2 offset (windowEnd p.2.length offset maxBytes - offset) := by
  rw [windowChunks_eq_run hsize hoffset, chunkRun_data, pieces_flatten hsize]

theorem windowChunks_done {p : Snapshot} {size offset : ℕ} (hsize : 0 < size)
    (hoffset : offset < p.2.length) (maxBytes : Option ℕ) :
    (windowChunks p size offset maxBytes).any (·.done) =
      decide (p.2.length ≤ windowEnd p.2.length offset maxBytes) := by
  have hlt := lt_windowEnd hoffset maxBytes
  have hle := windowEnd_le p.2.length offset maxBytes
  rw [windowChunks_eq_run hsize hoffset, chunkRun_done]
  rw [ne_eq, pieces_eq_nil hsize]
  exact slice_ne_nil (by omega) (by omega)

theorem take_append_slice (data : Bytes) {offset stop : ℕ} (h : offset ≤ stop) :
    data.take offset ++ slice data offset (stop - offset) = data.take stop := by
  rw [slice, ← List.take_add, Nat.add_sub_cancel' h]

/-- What was received is the payload up to its length, and each request brings more of it. -/
theorem readWindows_complete {p : Snapshot} {size : ℕ} (hsize : 0 < size) {maxBytes : Option ℕ}
    {read : ℕ → Except XRaftError (List StoredChunkItem)}
    (hread : ∀ offset, read offset = .ok (windowChunks p size offset maxBytes)) {fuel : ℕ}
    {received : Bytes} (hpart : received = p.2.take received.length)
    (hle : received.length ≤ p.2.length) (hfuel : p.2.length - received.length < fuel) :
    readWindows read fuel received = some p.2 := by
  induction fuel generalizing received with
  | zero => omega
  | succ fuel ih =>
    rw [readWindows, hread]
    dsimp only
    by_cases hoffset : received.length < p.2.length
    · have hgrown : received ++ slice p.2 received.length
          (windowEnd p.2.length received.length maxBytes - received.length) =
          p.2.take (windowEnd p.2.length received.length maxBytes) := by
        have hjoin := take_append_slice p.2 (lt_windowEnd hoffset maxBytes).le
        rwa [← hpart] at hjoin
      rw [windowChunks_data hsize hoffset, windowChunks_done hsize hoffset, hgrown]
      split_ifs with hdone
      · rw [List.take_of_length_le (of_decide_eq_true hdone)]
      · have hmore := of_decide_eq_false (Bool.eq_false_iff.mpr hdone)
        have hlen : (p.2.take (windowEnd p.2.length received.length maxBytes)).length =
            windowEnd p.2.length received.length maxBytes := by
          rw [List.length_take]
          omega
        have hlt := lt_windowEnd hoffset maxBytes
        refine ih ?_ ?_ ?_
        · rw [hlen]
        · rw [hlen]
          omega
        · rw [hlen]
          omega
    · have hall : received = p.2 := hpart.trans (List.take_of_length_le (by omega))
      rw [windowChunks, if_pos (Nat.le_of_not_lt hoffset)]
      simp [hall]

/-! ## Exact and resumable -/

/-- In every run of the stores, for every stored snapshot, chunk size, offset and limit, both
readers yield the chunks of the window, and reading window after window from the start ends with the
payload.
-/
theorem windowed_reading_exact (codec : SnapshotCodec) (path : String) (maxRetained : ℕ) {t : Trio}
    (h : Execution (Trio.step codec) (Valid codec) (Trio.start path maxRetained) t) {p : Snapshot}
    (hp : t.model.lookup (indexOf p) = some p) {chunkSize : ℕ} (hchunk : 0 < chunkSize)
    (hroom : p.2.length + chunkSize ≤ u64Max) (maxBytes : Option ℕ) :
    (∀ offset, fileReader codec t.file p.1 chunkSize offset maxBytes =
      .ok ((windowChunks p chunkSize offset maxBytes).map .ok)) ∧
    (∀ fuel, p.2.length < fuel → readWindows (fun offset =>
      (fileReader codec t.file p.1 chunkSize offset maxBytes).bind (List.mapM id)) fuel [] =
        some p.2) ∧
    (maxRetained = 0 →
      (∀ offset, memoryReader t.memory p.1 chunkSize offset maxBytes =
        .ok (windowChunks p chunkSize offset maxBytes)) ∧
      ∀ fuel, p.2.length < fuel →
        readWindows (fun offset => memoryReader t.memory p.1 chunkSize offset maxBytes) fuel [] =
          some p.2) := by
  have hin : InStep codec maxRetained t :=
    h.invariant (fun _ _ hs hop => hs.step hop) (InStep.start path maxRetained)
  have hsize : effectiveChunkSize chunkSize = chunkSize := if_neg (by omega)
  have hfile (offset : ℕ) : fileReader codec t.file p.1 chunkSize offset maxBytes =
      .ok ((windowChunks p chunkSize offset maxBytes).map .ok) := by
    obtain ⟨shelf, hs, _, _, hmap⟩ := hin.represents
    rw [← hmap] at hp
    have hmem : p ∈ shelf := ((shelved_lookup_iff hs.distinct.nodup).mp hp).1
    have hwindow := fileReader_window hs hmem (hsize.symm ▸ hroom) offset maxBytes
    rwa [hsize] at hwindow
  refine ⟨hfile, fun fuel hfuel => ?_, fun hn => ?_⟩
  · have hitems (offset : ℕ) :
        (fileReader codec t.file p.1 chunkSize offset maxBytes).bind (List.mapM id) =
          .ok (windowChunks p chunkSize offset maxBytes) := by
      rw [hfile]
      exact (mapM_delivered _ none _).mpr ⟨rfl, rfl⟩
    exact readWindows_complete hchunk hitems rfl (Nat.zero_le _) hfuel
  · obtain ⟨hd, hmap⟩ := hin.remembers hn
    rw [← hmap] at hp
    have hmem : p ∈ t.memory.snapshots := ((shelved_lookup_iff hd.nodup).mp hp).1
    have hmemory (offset : ℕ) : memoryReader t.memory p.1 chunkSize offset maxBytes =
        .ok (windowChunks p chunkSize offset maxBytes) := by
      have hwindow := memoryReader_window hd hmem chunkSize offset maxBytes
      rwa [hsize] at hwindow
    exact ⟨hmemory, fun fuel hfuel => readWindows_complete hchunk hmemory rfl (Nat.zero_le _) hfuel⟩

/-- Five bytes in chunks of two, from the middle and in windows of three. -/
theorem windowed_reading_exact_five_bytes :
    let data : Bytes := [1, 2, 3, 4, 5]
    let t := (Trio.start "data" 0).step sampleSnapshotCodec (.save threeBytes data)
    let metadata := sampleSnapshotCodec.normalize threeBytes data
    fileReader sampleSnapshotCodec t.file metadata 2 1 (some 3) =
      .ok [.ok ⟨0, [2, 3], false, some metadata⟩, .ok ⟨1, [4], false, none⟩] ∧
    memoryReader t.memory metadata 2 3 none = .ok [⟨1, [4, 5], true, some metadata⟩] ∧
    readWindows (fun offset => memoryReader t.memory metadata 2 offset (some 3)) 6 [] =
      some data := by
  intro data t metadata
  have hwritable : sampleSnapshotCodec.Writable threeBytes data :=
    ⟨threeBytes_writable.index, threeBytes_writable.term, threeBytes_writable.voters, by decide⟩
  have hrun : Execution (Trio.step sampleSnapshotCodec) (Valid sampleSnapshotCodec)
      (Trio.start "data" 0) t := Execution.single hwritable
  have hstored : t.model.lookup (indexOf (metadata, data)) = some (metadata, data) := rfl
  have hchunk : 0 < 2 := by decide
  have hroom : data.length + 2 ≤ u64Max := by decide
  have hpart := windowed_reading_exact sampleSnapshotCodec "data" 0 hrun hstored hchunk hroom
    (some 3)
  have hwhole := windowed_reading_exact sampleSnapshotCodec "data" 0 hrun hstored hchunk hroom none
  refine ⟨(hpart.1 1).trans ?_, ((hwhole.2.2 rfl).1 3).trans ?_, (hpart.2.2 rfl).2 6 (by decide)⟩
  · simp [windowChunks, windowEnd, slice, data, List.range_succ]
  · simp [windowChunks, windowEnd, slice, data, List.range_succ]

end SnapshotWindows
