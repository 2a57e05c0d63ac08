import Xraft.WriteAheadLog

/-! # Frames of the log

A frame decodes to its entry wherever it stands in a buffer, and a frame that was cut does not
decode. The replay loop reads back a stream of frames; in the last segment it cuts a torn tail.
-/
namespace WalFrames

open ProtocolTypes ByteFrames WriteAheadLog

variable {codec : WalCodec} {e : Entry}

structure Storable (codec : WalCodec) (e : Entry) : Prop where
  index : e.index ≤ u64Max
  term : e.term ≤ u64Max
  payload : ∃ tag bytes, codec.payloadBytes e.payload = some (tag, bytes) ∧
    bytes.length < 2 ^ 32 - 21

def frame (codec : WalCodec) (e : Entry) : Bytes := (codec.encodeFrame e).getD []

/-! ## Slices -/

theorem slice_middle {a b c : Bytes} {start len : ℕ} (ha : a.length = start) (hb : b.length = len) :
    slice (a ++ (b ++ c)) start len = b := by
  rw [slice, List.drop_left' ha, List.take_left' hb]

theorem slice_front {b c : Bytes} {len : ℕ} (hb : b.length = len) : slice (b ++ c) 0 len = b := by
  rw [slice, List.drop_zero, List.take_left' hb]

theorem leValue_u64 {n : ℕ} (h : n ≤ u64Max) : leValue (leBytes 8 n) = n := by
  refine leValue_leBytes ?_
  have hmax : u64Max < 256 ^ 8 := by decide
  omega

theorem leValue_u32 {n : ℕ} (h : n < 2 ^ 32) : leValue (leBytes 4 n) = n :=
  leValue_leBytes (lt_of_lt_of_eq h (by norm_num))

/-! ## Entries -/

theorem deserializePayload_payloadBytes {payload : EntryPayload} {tag : UInt8} {bytes : Bytes}
    (h : codec.payloadBytes payload = some (tag, bytes)) :
    codec.deserializePayload tag bytes = .ok payload := by
  cases payload with
  | noOp =>
    cases h
    rfl
  | command b =>
    cases h
    rfl
  | snapshot metadata => cases h
  | configChange vs =>
    cases h
    simp [WalCodec.deserializePayload, payloadTagConfigChange, payloadTagNoop, payloadTagCommand,
      payloadTagSnapshot, codec.voters_roundTrip]

theorem Storable.serialized (h : Storable codec e) :
    ∃ data, codec.serializeEntry e = some data ∧ data.length < 2 ^ 32 ∧
      codec.deserializeEntry data = .ok e := by
  obtain ⟨tag, bytes, hpayload, hlen⟩ := h.payload
  have hdata : codec.serializeEntry e = some (leBytes 8 e.index ++ (leBytes 8 e.term ++
      (tag :: (leBytes 4 bytes.length ++ bytes)))) := by
    rw [WalCodec.serializeEntry, hpayload]
    rfl
  refine ⟨_, hdata, ?_, ?_⟩
  · simp only [List.length_append, leBytes_length, List.length_cons]
    omega
  · have hindex : leValue (slice (leBytes 8 e.index ++ (leBytes 8 e.term ++
        (tag :: (leBytes 4 bytes.length ++ bytes)))) 0 8) = e.index := by
      rw [slice_front (leBytes_length 8 _), leValue_u64 h.index]
    have hterm : leValue (slice (leBytes 8 e.index ++ (leBytes 8 e.term ++
        (tag :: (leBytes 4 bytes.length ++ bytes)))) 8 8) = e.term := by
      rw [slice_middle (leBytes_length 8 _) (leBytes_length 8 _), leValue_u64 h.term]
    have htag : (leBytes 8 e.index ++ (leBytes 8 e.term ++
        (tag :: (leBytes 4 bytes.length ++ bytes)))).getD 16 0 = tag := by
      simp [List.getD, List.getElem?_append_right]
    have hfront : (leBytes 8 e.index ++ (leBytes 8 e.term ++ [tag])).length = 17 := by simp
    have hregroup : leBytes 8 e.index ++ (leBytes 8 e.term ++
        (tag :: (leBytes 4 bytes.length ++ bytes))) =
        (leBytes 8 e.index ++ (leBytes 8 e.term ++ [tag])) ++
          (leBytes 4 bytes.length ++ bytes) := by
      simp
    have hsize : leValue (slice (leBytes 8 e.index ++ (leBytes 8 e.term ++
        (tag :: (leBytes 4 bytes.length ++ bytes)))) 17 4) = bytes.length := by
      rw [hregroup, slice_middle hfront (leBytes_length 4 _), leValue_u32 (by omega)]
    have hbody : slice (leBytes 8 e.index ++ (leBytes 8 e.term ++
        (tag :: (leBytes 4 bytes.length ++ bytes)))) entryHeaderLen bytes.length = bytes := by
      rw [hregroup, ← List.append_assoc, slice,
        List.drop_left' (by simp [entryHeaderLen]), List.take_length]
    have hlength : (leBytes 8 e.index ++ (leBytes 8 e.term ++
        (tag :: (leBytes 4 bytes.length ++ bytes)))).length = entryHeaderLen + bytes.length := by
      simp [entryHeaderLen]
      omega
    rw [WalCodec.deserializeEntry, if_neg (by omega)]
    dsimp only
    rw [hsize, if_neg (by omega), htag, hbody, deserializePayload_payloadBytes hpayload,
      hindex, hterm]

theorem Storable.frame_eq (h : Storable codec e) :
    ∃ data, codec.encodeFrame e = some (frame codec e) ∧
      frame codec e = leBytes 4 data.length ++ (data ++ leBytes 4 (codec.crc32 data).toNat) ∧
      data.length < 2 ^ 32 ∧ codec.deserializeEntry data = .ok e := by
  obtain ⟨data, hdata, hlen, hback⟩ := h.serialized
  have hframe : codec.encodeFrame e =
      some (leBytes 4 data.length ++ (data ++ leBytes 4 (codec.crc32 data).toNat)) := by
    rw [WalCodec.encodeFrame, hdata]
    rfl
  refine ⟨data, ?_, ?_, hlen, hback⟩
  · rw [frame, hframe]
    rfl
  · rw [frame, hframe]
    rfl

theorem Storable.encodeFrame (h : Storable codec e) :
    codec.encodeFrame e = some (frame codec e) := by
  obtain ⟨data, hframe, -⟩ := h.frame_eq
  exact hframe

theorem Storable.frame_pos (h : Storable codec e) : 0 < (frame codec e).length := by
  obtain ⟨data, -, heq, -⟩ := h.frame_eq
  rw [heq]
  simp

/-! ## Decoding -/

/-- A frame inside a longer buffer decodes to its entry. -/
theorem decodeFrame_frame (h : Storable codec e) (before after : Bytes) :
    codec.decodeFrame (before ++ (frame codec e ++ after)) before.length =
      .ok (e, before.length + (frame codec e).length) := by
  obtain ⟨data, -, heq, hlen, hback⟩ := h.frame_eq
  have hcrc : (codec.crc32 data).toNat < 2 ^ 32 := (codec.crc32 data).toNat_lt
  have hsize : (frame codec e).length = 4 + data.length + 4 := by
    rw [heq]
    simp only [List.length_append, leBytes_length]
    omega
  have hbuf : before ++ (frame codec e ++ after) = before ++ (leBytes 4 data.length ++
      (data ++ (leBytes 4 (codec.crc32 data).toNat ++ after))) := by
    rw [heq]
    simp
  have hremaining : (before ++ (frame codec e ++ after)).length - before.length =
      (frame codec e).length + after.length := by
    simp only [List.length_append]
    omega
  have hlenField : leValue (slice (before ++ (frame codec e ++ after)) before.length 4) =
      data.length := by
    rw [hbuf, slice_middle rfl (leBytes_length 4 _), leValue_u32 hlen]
  have hdataField : slice (before ++ (frame codec e ++ after)) (before.length + 4) data.length =
      data := by
    rw [hbuf, ← List.append_assoc before, slice_middle (by simp) rfl]
  have hcrcField : leValue (slice (before ++ (frame codec e ++ after))
      (before.length + 4 + data.length) 4) = (codec.crc32 data).toNat := by
    rw [hbuf, ← List.append_assoc before, ← List.append_assoc,
      slice_middle (by simp; omega) (leBytes_length 4 _), leValue_u32 hcrc]
  rw [WalCodec.decodeFrame]
  dsimp only
  rw [hremaining, hlenField, hdataField, hcrcField, if_neg (by omega), if_neg (by omega),
    if_neg (not_not.mpr rfl), hback, hsize]

/-- A frame that was cut does not decode. -/
theorem decodeFrame_torn (h : Storable codec e) (before : Bytes) {tail : Bytes}
    (htail : tail <+: frame codec e) (hcut : tail.length < (frame codec e).length) :
    ∃ err, codec.decodeFrame (before ++ tail) before.length = .error err := by
  obtain ⟨data, -, heq, hlen, -⟩ := h.frame_eq
  have hsize : (frame codec e).length = 4 + data.length + 4 := by
    rw [heq]
    simp only [List.length_append, leBytes_length]
    omega
  have hremaining : (before ++ tail).length - before.length = tail.length := by
    simp only [List.length_append]
    omega
  rw [WalCodec.decodeFrame]
  dsimp only
  rw [hremaining]
  by_cases hshort : tail.length < 4
  · exact ⟨_, if_pos hshort⟩
  · rw [if_neg hshort]
    have hfront : slice (before ++ tail) before.length 4 = leBytes 4 data.length := by
      obtain ⟨rest, hrest⟩ := htail
      rw [slice, List.drop_left, ← List.take_append_of_le_length (by omega : 4 ≤ tail.length),
        hrest, heq, List.take_left' (leBytes_length 4 _)]
    rw [hfront, leValue_u32 hlen, if_pos (by omega)]
    exact ⟨_, rfl⟩

/-! ## Replay -/

def located (codec : WalCodec) : ℕ → List Entry → List (ℕ × Entry)
  | _, [] => []
  | start, e :: rest => (start, e) :: located codec (start + (frame codec e).length) rest

def recordAll (s : FileLogStore) (segIdx : ℕ) (frames : List (ℕ × Entry)) : FileLogStore :=
  frames.foldl (fun s f => s.recordFrame segIdx f.1 f.2) s

theorem replayFrames_pass {es : List Entry} (hes : ∀ e ∈ es, Storable codec e) (path : FileName)
    (segIdx : ℕ) (isLast : Bool) (before tail : Bytes) (s : FileLogStore) :
    FileLogStore.replayFrames codec path segIdx isLast
        (before ++ (stream (frame codec) es ++ tail)) before.length s =
      FileLogStore.replayFrames codec path segIdx isLast
        (before ++ (stream (frame codec) es ++ tail))
        (before.length + (stream (frame codec) es).length)
        (recordAll s segIdx (located codec before.length es)) := by
  induction es generalizing before s with
  | nil => rfl
  | cons e rest ih =>
    obtain ⟨he, hrest⟩ := List.forall_mem_cons.mp hes
    have hpos := he.frame_pos
    have hbuf : before ++ (stream (frame codec) (e :: rest) ++ tail) =
        before ++ (frame codec e ++ (stream (frame codec) rest ++ tail)) := by simp
    have hshift : before ++ (frame codec e ++ (stream (frame codec) rest ++ tail)) =
        (before ++ frame codec e) ++ (stream (frame codec) rest ++ tail) := by simp
    have hnext := ih hrest (before ++ frame codec e) (s.recordFrame segIdx before.length e)
    rw [← hshift, List.length_append] at hnext
    rw [hbuf, FileLogStore.replayFrames, dif_pos (by simp; omega)]
    split
    · rename_i entry next hframe
      rw [decodeFrame_frame he] at hframe
      cases hframe
      rw [hnext, stream_cons, List.length_append, Nat.add_assoc]
      rfl
    · rename_i err hframe
      rw [decodeFrame_frame he] at hframe
      cases hframe

theorem replayFrames_whole {es : List Entry} (hes : ∀ e ∈ es, Storable codec e) (path : FileName)
    (segIdx : ℕ) (isLast : Bool) (s : FileLogStore) :
    FileLogStore.replayFrames codec path segIdx isLast (stream (frame codec) es) 0 s =
      .ok (recordAll s segIdx (located codec 0 es)) := by
  have hpass := replayFrames_pass hes path segIdx isLast [] [] s
  simp only [List.nil_append, List.append_nil, List.length_nil, Nat.zero_add] at hpass
  rw [hpass, FileLogStore.replayFrames, dif_neg (lt_irrefl _)]

theorem replayFrames_torn {es : List Entry} (hes : ∀ e ∈ es, Storable codec e) (path : FileName)
    (segIdx : ℕ) (s : FileLogStore) {tail : Bytes} (hne : tail ≠ [])
    {lost : List Entry} (hlost : ∀ e ∈ lost, Storable codec e)
    (htorn : Torn (frame codec) lost tail) :
    FileLogStore.replayFrames codec path segIdx true (stream (frame codec) es ++ tail) 0 s =
      ((recordAll s segIdx (located codec 0 es)).dir.setLen path
        (stream (frame codec) es).length).bind
      (fun dir => .ok { recordAll s segIdx (located codec 0 es) with dir }) := by
  obtain ⟨e, he, hpre, hcut⟩ := htorn
  obtain ⟨err, herr⟩ := decodeFrame_torn (hlost e he) (stream (frame codec) es) hpre hcut
  have hpass := replayFrames_pass hes path segIdx true [] tail s
  simp only [List.nil_append, List.length_nil, Nat.zero_add] at hpass
  have hmore : (stream (frame codec) es).length < (stream (frame codec) es ++ tail).length := by
    have := List.length_pos_iff.mpr hne
    rw [List.length_append]
    omega
  rw [hpass, FileLogStore.replayFrames, dif_pos hmore]
  split
  · rename_i hframe
    rw [herr] at hframe
    cases hframe
  · rfl

/-! ### What replay records -/

def liveItems (floor : ℕ) (es : List Entry) : List (ℕ × Entry) :=
  (es.filter (fun e => floor < e.index)).map (fun e => (e.index, e))

def offsetItems (floor segIdx : ℕ) (frames : List (ℕ × Entry)) : List (ℕ × (ℕ × ℕ)) :=
  (frames.filter (fun f => floor < f.2.index)).map (fun f => (f.2.index, (segIdx, f.1)))

theorem recordAll_eq (s : FileLogStore) (segIdx : ℕ) (frames : List (ℕ × Entry)) :
    recordAll s segIdx frames = { s with
      entries := OrderedMaps.insertAll s.entries (liveItems s.firstValidIndex (frames.map Prod.snd))
      offsets :=
        OrderedMaps.insertAll s.offsets (offsetItems s.firstValidIndex segIdx frames) } := by
  induction frames generalizing s with
  | nil => rfl
  | cons f rest ih =>
    show recordAll (s.recordFrame segIdx f.1 f.2) segIdx rest = _
    rw [ih, FileLogStore.recordFrame]
    by_cases hlive : s.firstValidIndex < f.2.index
    · rw [if_pos hlive]
      simp [liveItems, offsetItems, hlive, OrderedMaps.insertAll]
    · rw [if_neg hlive]
      simp [liveItems, offsetItems, hlive]

theorem map_located (start : ℕ) (es : List Entry) : (located codec start es).map Prod.snd = es := by
  induction es generalizing start with
  | nil => rfl
  | cons e rest ih => rw [located, List.map_cons, ih]

end WalFrames
