import Xraft.PositionedLog
import Xraft.WalFrames

/-! # Opening a log directory

Names of segment files, the sidecar files, and what `open` makes of a directory whose segments hold
whole frames, or whole frames and a torn tail in the last one.
-/
namespace SegmentReplay

open ProtocolTypes DurableStores ByteFrames DecimalText WriteAheadLog WalFrames

variable {codec : WalCodec}

/-! ## Names -/

theorem padded_ne_nil (n : ℕ) : padded 20 n ≠ [] := by
  intro h
  have hlen : (padded 20 n).length = 20 := by rw [padded, List.length_map, digits_length]
  rw [h] at hlen
  cases hlen

theorem splitExtension_segmentFilename (base : ℕ) :
    splitExtension (segmentFilename base) = some (padded 20 base, segmentExt) :=
  splitExtension_append (padded_ne_nil base) (by decide)

theorem isSegment_segmentFilename (base : ℕ) : isSegment (segmentFilename base) = true := by
  rw [isSegment, splitExtension_segmentFilename]
  rfl

theorem u64_digits {n : ℕ} (h : n ≤ u64Max) : n < 10 ^ 20 := by
  have hmax : u64Max < 10 ^ 20 := by decide
  omega

theorem parseSegmentFilename_segmentFilename {base : ℕ} (h : base ≤ u64Max) :
    parseSegmentFilename (segmentFilename base) = .ok base := by
  rw [parseSegmentFilename, splitExtension_segmentFilename]
  simp only [Option.map_some, Option.getD_some]
  rw [parseUnsigned_padded (by decide) (u64_digits h) h]

theorem segmentFilename_lt {a b : ℕ} (hb : b ≤ u64Max) (h : a < b) :
    segmentFilename a < segmentFilename b := by
  refine lt_append (padded_lt (u64_digits hb) h) ?_
  rw [padded, padded, List.length_map, List.length_map, digits_length, digits_length]

/-! ## Segment files of a directory -/

theorem walFiles_ascending (d : Directory) : OrderedMaps.Ascending d.walFiles :=
  List.Pairwise.filter _ d.sorted

theorem walFiles_write {d : Directory} {name : FileName} (h : isSegment name = true)
    (bytes : Bytes) : (d.write name bytes).walFiles = OrderedMaps.insert name bytes d.walFiles :=
  OrderedMaps.filter_insert (p := isSegment) d.sorted h

theorem walFiles_write_other {d : Directory} {name : FileName} (h : isSegment name = false)
    (bytes : Bytes) : (d.write name bytes).walFiles = d.walFiles :=
  OrderedMaps.filter_insert_of_not (p := isSegment) h

theorem walFiles_remove (d : Directory) (name : FileName) :
    (d.remove name).walFiles = OrderedMaps.erase name d.walFiles :=
  OrderedMaps.filter_erase isSegment

theorem walFiles_remove_other {d : Directory} {name : FileName} (h : isSegment name = false) :
    (d.remove name).walFiles = d.walFiles := by
  rw [walFiles_remove, OrderedMaps.erase, List.filter_eq_self]
  intro f hf
  have hseg := (List.mem_filter.mp hf).2
  have hne : f.1 ≠ name := fun heq => by
    rw [heq, h] at hseg
    cases hseg
  simpa using hne

theorem read_of_mem_walFiles {d : Directory} {name : FileName} {bytes : Bytes}
    (h : (name, bytes) ∈ d.walFiles) : d.read name = some bytes :=
  OrderedMaps.lookup_of_mem d.sorted (List.mem_filter.mp h).1

theorem walFiles_overwrite {d : Directory} {front back : List (FileName × Bytes)} {name : FileName}
    {old : Bytes} (h : d.walFiles = front ++ (name, old) :: back) (hseg : isSegment name = true)
    (bytes : Bytes) : (d.write name bytes).walFiles = front ++ (name, bytes) :: back := by
  have hascending := walFiles_ascending d
  rw [h] at hascending
  obtain ⟨-, -, hcross⟩ := List.pairwise_append.mp hascending
  have hbelow : ∀ f ∈ front, f.1 < name := fun f hf => hcross f hf (name, old) List.mem_cons_self
  rw [walFiles_write hseg, h]
  exact OrderedMaps.insert_middle hbelow

theorem walFiles_touch {d : Directory} {name : FileName} (hseg : isSegment name = true)
    (hread : d.read name = none) : ∃ front back, d.walFiles = front ++ back ∧
      (d.touch name).walFiles = front ++ (name, []) :: back := by
  have hfresh : ∀ f ∈ d.walFiles, f.1 ≠ name := by
    rintro ⟨other, bytes⟩ hf rfl
    rw [read_of_mem_walFiles hf] at hread
    cases hread
  rw [Directory.touch, hread]
  dsimp only
  rw [walFiles_write hseg]
  exact OrderedMaps.insert_between (walFiles_ascending d) hfresh

theorem mem_walFiles_of_read {d : Directory} {name : FileName} {bytes : Bytes}
    (hseg : isSegment name = true) (h : d.read name = some bytes) : (name, bytes) ∈ d.walFiles :=
  List.mem_filter.mpr ⟨OrderedMaps.mem_of_lookup h, hseg⟩

/-! ## Sidecars -/

theorem append_tmp_ne (name : FileName) : name ++ ".tmp".toList ≠ name := by
  intro h
  have hlen := congrArg List.length h
  rw [List.length_append] at hlen
  have htmp : ".tmp".toList.length = 4 := by decide
  omega

theorem read_persist_self (d : Directory) (name : FileName) (bytes : Bytes) :
    (d.persist name bytes).read name = some bytes := by
  rw [Directory.persist, Directory.read_remove, if_neg (append_tmp_ne name).symm,
    Directory.read_write, if_pos rfl]

theorem read_persist_other {d : Directory} {name other : FileName} (h : other ≠ name)
    (htmp : other ≠ name ++ ".tmp".toList) (bytes : Bytes) :
    (d.persist name bytes).read other = d.read other := by
  rw [Directory.persist, Directory.read_remove, if_neg htmp, Directory.read_write, if_neg h,
    Directory.read_write, if_neg htmp]

theorem walFiles_persist {d : Directory} {name : FileName} (h : isSegment name = false)
    (htmp : isSegment (name ++ ".tmp".toList) = false) (bytes : Bytes) :
    (d.persist name bytes).walFiles = d.walFiles := by
  rw [Directory.persist, walFiles_remove_other htmp, walFiles_write_other h,
    walFiles_write_other htmp]

structure Checkpointed (starts : EpochStarts) : Prop where
  count : starts.length ≤ u64Max
  epochs : ∀ p ∈ starts, p.1 ≤ u64Max
  offsets : ∀ p ∈ starts, p.2 ≤ u64Max

/-- The sidecar files, with the floor, the anchor and the pending truncation they hold. -/
structure Sidecars (d : Directory) (floor : ℕ) (anchor : Option (ℕ × ℕ)) (pending : Option ℕ) :
    Prop where
  purge : d.read purgeMarkerFile = none ∧ floor = 0 ∨
    d.read purgeMarkerFile = some (leBytes 8 floor)
  floor_fits : floor ≤ u64Max
  anchored : d.read snapshotAnchorFile = anchor.map (fun a => leBytes 8 a.1 ++ leBytes 8 a.2)
  anchor_fits : ∀ a ∈ anchor, a.1 ≤ u64Max ∧ a.2 ≤ u64Max
  marker : d.read truncateMarkerFile = pending.map (leBytes 8)
  pending_fits : ∀ target ∈ pending, target ≤ u64Max
  checkpoint : d.read epochCheckpointFile = none ∨ ∃ starts, Checkpointed starts ∧
    d.read epochCheckpointFile = some (FileLogStore.asBytes (FileLogStore.checkpointText starts))

theorem Sidecars.congr {d d' : Directory} {floor : ℕ} {anchor : Option (ℕ × ℕ)}
    {pending : Option ℕ} (h : Sidecars d floor anchor pending)
    (hread : ∀ name ∈ [purgeMarkerFile, snapshotAnchorFile, truncateMarkerFile,
      epochCheckpointFile], d'.read name = d.read name) : Sidecars d' floor anchor pending := by
  have hp := hread purgeMarkerFile (by simp)
  have ha := hread snapshotAnchorFile (by simp)
  have hm := hread truncateMarkerFile (by simp)
  have hc := hread epochCheckpointFile (by simp)
  refine ⟨?_, h.floor_fits, ha.trans h.anchored, h.anchor_fits, hm.trans h.marker,
    h.pending_fits, ?_⟩
  · rw [hp]
    exact h.purge
  · rw [hc]
    exact h.checkpoint

theorem ne_sidecar {name : FileName} (h : isSegment name = true) :
    ∀ other ∈ [purgeMarkerFile, snapshotAnchorFile, truncateMarkerFile, epochCheckpointFile],
      other ≠ name := by
  rintro other hother rfl
  simp only [List.mem_cons, List.not_mem_nil, or_false] at hother
  rcases hother with rfl | rfl | rfl | rfl <;> exact absurd h (by decide)

section
variable {d : Directory} {floor : ℕ} {anchor : Option (ℕ × ℕ)} {pending : Option ℕ}

theorem Sidecars.write (h : Sidecars d floor anchor pending) {name : FileName}
    (hname : isSegment name = true) (bytes : Bytes) :
    Sidecars (d.write name bytes) floor anchor pending := by
  refine h.congr fun other hother => ?_
  rw [Directory.read_write, if_neg (ne_sidecar hname other hother)]

theorem Sidecars.remove (h : Sidecars d floor anchor pending) {name : FileName}
    (hname : isSegment name = true) : Sidecars (d.remove name) floor anchor pending := by
  refine h.congr fun other hother => ?_
  rw [Directory.read_remove, if_neg (ne_sidecar hname other hother)]

theorem Sidecars.persistCheckpoint (h : Sidecars d floor anchor pending) {starts : EpochStarts}
    (hstarts : Checkpointed starts) :
    Sidecars (d.persist epochCheckpointFile
      (FileLogStore.asBytes (FileLogStore.checkpointText starts))) floor anchor pending := by
  have hother (name : FileName) (hne : name ≠ epochCheckpointFile)
      (htmp : name ≠ epochCheckpointFile ++ ".tmp".toList) := read_persist_other (d := d) hne htmp
        (FileLogStore.asBytes (FileLogStore.checkpointText starts))
  have hp := hother purgeMarkerFile (by decide) (by decide)
  have ha := hother snapshotAnchorFile (by decide) (by decide)
  have hm := hother truncateMarkerFile (by decide) (by decide)
  refine ⟨?_, h.floor_fits, ha.trans h.anchored, h.anchor_fits, hm.trans h.marker, h.pending_fits,
    .inr ⟨starts, hstarts, read_persist_self d _ _⟩⟩
  rw [hp]
  exact h.purge

theorem Sidecars.persistFloor (h : Sidecars d floor anchor pending) {floor' : ℕ}
    (hfits : floor' ≤ u64Max) :
    Sidecars (d.persist purgeMarkerFile (leBytes 8 floor')) floor' anchor pending := by
  have hother (name : FileName) (hne : name ≠ purgeMarkerFile)
      (htmp : name ≠ purgeMarkerFile ++ ".tmp".toList) := read_persist_other (d := d) hne htmp
        (leBytes 8 floor')
  have ha := hother snapshotAnchorFile (by decide) (by decide)
  have hm := hother truncateMarkerFile (by decide) (by decide)
  have hc := hother epochCheckpointFile (by decide) (by decide)
  refine ⟨.inr (read_persist_self d _ _), hfits, ha.trans h.anchored, h.anchor_fits,
    hm.trans h.marker, h.pending_fits, ?_⟩
  rw [hc]
  exact h.checkpoint

theorem Sidecars.persistAnchor (h : Sidecars d floor anchor pending) {term index : ℕ}
    (hterm : term ≤ u64Max) (hindex : index ≤ u64Max) :
    Sidecars (d.persist snapshotAnchorFile (leBytes 8 term ++ leBytes 8 index)) floor
      (some (term, index)) pending := by
  have hother (name : FileName) (hne : name ≠ snapshotAnchorFile)
      (htmp : name ≠ snapshotAnchorFile ++ ".tmp".toList) := read_persist_other (d := d) hne htmp
        (leBytes 8 term ++ leBytes 8 index)
  have hp := hother purgeMarkerFile (by decide) (by decide)
  have hm := hother truncateMarkerFile (by decide) (by decide)
  have hc := hother epochCheckpointFile (by decide) (by decide)
  refine ⟨?_, h.floor_fits, read_persist_self d _ _, ?_, hm.trans h.marker, h.pending_fits, ?_⟩
  · rw [hp]
    exact h.purge
  · rintro a ha
    cases ha
    exact ⟨hterm, hindex⟩
  · rw [hc]
    exact h.checkpoint

theorem Sidecars.persistMarker (h : Sidecars d floor anchor pending) {target : ℕ}
    (hfits : target ≤ u64Max) :
    Sidecars (d.persist truncateMarkerFile (leBytes 8 target)) floor anchor (some target) := by
  have hother (name : FileName) (hne : name ≠ truncateMarkerFile)
      (htmp : name ≠ truncateMarkerFile ++ ".tmp".toList) := read_persist_other (d := d) hne htmp
        (leBytes 8 target)
  have hp := hother purgeMarkerFile (by decide) (by decide)
  have ha := hother snapshotAnchorFile (by decide) (by decide)
  have hc := hother epochCheckpointFile (by decide) (by decide)
  refine ⟨?_, h.floor_fits, ha.trans h.anchored, h.anchor_fits, read_persist_self d _ _, ?_, ?_⟩
  · rw [hp]
    exact h.purge
  · rintro t ht
    cases ht
    exact hfits
  · rw [hc]
    exact h.checkpoint

theorem Sidecars.clearMarker (h : Sidecars d floor anchor pending) :
    Sidecars (d.remove truncateMarkerFile) floor anchor none := by
  have hother (name : FileName) (hne : name ≠ truncateMarkerFile) :
      (d.remove truncateMarkerFile).read name = d.read name := by
    rw [Directory.read_remove, if_neg hne]
  have hp := hother purgeMarkerFile (by decide)
  have ha := hother snapshotAnchorFile (by decide)
  have hc := hother epochCheckpointFile (by decide)
  refine ⟨?_, h.floor_fits, ha.trans h.anchored, h.anchor_fits, ?_, ?_, ?_⟩
  · rw [hp]
    exact h.purge
  · rw [Directory.read_remove, if_pos rfl]
    rfl
  · rintro t ⟨⟩
  · rw [hc]
    exact h.checkpoint

end

/-! ### Reading them back -/

theorem loadPurgeMarker_eq {s : FileLogStore} {floor : ℕ} {anchor : Option (ℕ × ℕ)}
    {pending : Option ℕ} (h : Sidecars s.dir floor anchor pending) (hs : s.firstValidIndex = 0) :
    s.loadPurgeMarker = .ok { s with firstValidIndex := floor } := by
  rw [FileLogStore.loadPurgeMarker, FileLogStore.loadSidecar]
  rcases h.purge with ⟨hnone, hzero⟩ | hsome
  · rw [hnone, hzero, ← hs]
    rfl
  · rw [hsome]
    dsimp only
    rw [if_neg (by simp)]
    show Except.ok { s with firstValidIndex := leValue (leBytes 8 floor) } = _
    rw [leValue_u64 h.floor_fits]

theorem loadSnapshotAnchor_eq {s : FileLogStore} {floor : ℕ} {anchor : Option (ℕ × ℕ)}
    {pending : Option ℕ} (h : Sidecars s.dir floor anchor pending) (hs : s.snapshotAnchor = none) :
    s.loadSnapshotAnchor = .ok { s with snapshotAnchor := anchor } := by
  rw [FileLogStore.loadSnapshotAnchor, FileLogStore.loadSidecar, h.anchored]
  cases anchor with
  | none =>
    have hsame : { s with snapshotAnchor := none } = s := by rw [← hs]
    rw [hsame]
    rfl
  | some a =>
    obtain ⟨hterm, hindex⟩ := h.anchor_fits a rfl
    rw [Option.map_some]
    dsimp only
    rw [if_neg (by simp)]
    show Except.ok { s with
      snapshotAnchor := some (leValue (slice (leBytes 8 a.1 ++ leBytes 8 a.2) 0 8),
        leValue (slice (leBytes 8 a.1 ++ leBytes 8 a.2) 8 8)) } = _
    have hsecond : slice (leBytes 8 a.1 ++ leBytes 8 a.2) 8 8 = leBytes 8 a.2 := by
      have hmid := slice_middle (c := []) (leBytes_length 8 a.1) (leBytes_length 8 a.2)
      rwa [List.append_nil] at hmid
    rw [slice_front (leBytes_length 8 a.1), hsecond, leValue_u64 hterm, leValue_u64 hindex]

theorem loadTruncateMarker_eq {d : Directory} {floor : ℕ} {anchor : Option (ℕ × ℕ)}
    {pending : Option ℕ} (h : Sidecars d floor anchor pending) :
    FileLogStore.loadTruncateMarker d = .ok pending := by
  rw [FileLogStore.loadTruncateMarker, FileLogStore.loadSidecar, h.marker]
  cases pending with
  | none => rfl
  | some target =>
    rw [Option.map_some]
    dsimp only
    rw [if_neg (by simp)]
    show Except.ok (some (leValue (leBytes 8 target))) = _
    rw [leValue_u64 (h.pending_fits target rfl)]

theorem checkpointNumber_numeral (d : Directory) {n : ℕ} (h : n ≤ u64Max) (label : String)
    (shown : List Char) :
    FileLogStore.checkpointNumber d u64Max label shown (numeral 20 n) = .ok n := by
  rw [FileLogStore.checkpointNumber, parseUnsigned_numeral (by decide) (u64_digits h) h]

theorem checkpointLine_eq (d : Directory) {epoch start : ℕ} (hepoch : epoch ≤ u64Max)
    (hstart : start ≤ u64Max) :
    FileLogStore.checkpointLine d (numeral 20 epoch ++ ' ' :: numeral 20 start) =
      .ok (epoch, start) := by
  have hwords : words (numeral 20 epoch ++ ' ' :: numeral 20 start) =
      [numeral 20 epoch, numeral 20 start] :=
    words_pair (numeral_solid _ _) (numeral_solid _ _) (numeral_ne_nil _ (by decide))
      (numeral_ne_nil _ (by decide))
  rw [FileLogStore.checkpointLine, hwords]
  dsimp only
  rw [checkpointNumber_numeral d hepoch, checkpointNumber_numeral d hstart]
  rfl

theorem lines_starts (starts : EpochStarts) :
    lines (starts.flatMap fun p => numeral 20 p.1 ++ ' ' :: (numeral 20 p.2 ++ ['\n'])) =
      starts.map (fun p => numeral 20 p.1 ++ ' ' :: numeral 20 p.2) := by
  induction starts with
  | nil => rfl
  | cons p rest ih =>
    have hunbroken : ∀ c ∈ numeral 20 p.1 ++ ' ' :: numeral 20 p.2, c ≠ '\n' ∧ c ≠ '\r' := by
      intro c hc
      rcases List.mem_append.mp hc with hc | hc
      · exact (numeral_solid _ _).unbroken c hc
      · rcases List.mem_cons.mp hc with rfl | hc
        · decide
        · exact (numeral_solid _ _).unbroken c hc
    have hsplit :
      (p :: rest).flatMap (fun p => numeral 20 p.1 ++ ' ' :: (numeral 20 p.2 ++ ['\n'])) =
        (numeral 20 p.1 ++ ' ' :: numeral 20 p.2) ++ '\n' ::
          rest.flatMap (fun p => numeral 20 p.1 ++ ' ' :: (numeral 20 p.2 ++ ['\n'])) := by
      simp
    rw [hsplit, lines_cons hunbroken, ih, List.map_cons]

theorem checkpointEntries_eq (d : Directory) (count : ℕ) {starts : EpochStarts}
    (hstarts : ∀ p ∈ starts, p.1 ≤ u64Max ∧ p.2 ≤ u64Max) (out : EpochStarts) :
    FileLogStore.checkpointEntries d count starts.length
        (starts.map fun p => numeral 20 p.1 ++ ' ' :: numeral 20 p.2) out =
      .ok (OrderedMaps.insertAll out starts) := by
  induction starts generalizing out with
  | nil => rfl
  | cons p rest ih =>
    obtain ⟨hp, hrest⟩ := List.forall_mem_cons.mp hstarts
    rw [List.map_cons, List.length_cons, FileLogStore.checkpointEntries,
      checkpointLine_eq d hp.1 hp.2]
    exact ih hrest _

theorem loadEpochCheckpoint_ok {d : Directory} {floor : ℕ} {anchor : Option (ℕ × ℕ)}
    {pending : Option ℕ} (h : Sidecars d floor anchor pending) : ∃ starts,
    FileLogStore.loadEpochCheckpoint d = .ok starts := by
  rcases h.checkpoint with hnone | ⟨starts, hstarts, hread⟩
  · exact ⟨[], by rw [FileLogStore.loadEpochCheckpoint, hnone]⟩
  · refine ⟨OrderedMaps.insertAll [] starts, ?_⟩
    have hversion : lines (FileLogStore.checkpointText starts) = ['0'] :: lines
        (numeral 20 starts.length ++ '\n' ::
          starts.flatMap fun p => numeral 20 p.1 ++ ' ' :: (numeral 20 p.2 ++ ['\n'])) :=
      lines_cons (l := ['0']) (by simp) _
    have hcount : lines (numeral 20 starts.length ++ '\n' ::
          starts.flatMap fun p => numeral 20 p.1 ++ ' ' :: (numeral 20 p.2 ++ ['\n'])) =
        numeral 20 starts.length ::
          starts.map (fun p => numeral 20 p.1 ++ ' ' :: numeral 20 p.2) := by
      rw [lines_cons (numeral_solid _ _).unbroken, lines_starts]
    rw [FileLogStore.loadEpochCheckpoint, hread]
    dsimp only
    rw [FileLogStore.readToString_asBytes]
    dsimp only
    rw [hversion, hcount]
    have hzero : FileLogStore.checkpointNumber d 4294967295 "version line" ['0'] (trim ['0']) =
        .ok 0 := by
      rfl
    dsimp only
    rw [hzero, trim_solid (numeral_solid _ _), checkpointNumber_numeral d hstarts.count]
    exact checkpointEntries_eq d starts.length
      (fun p hp => ⟨hstarts.epochs p hp, hstarts.offsets p hp⟩) []

/-! ## Replaying the segments -/

/-- The base in the name of a segment, and the entries of its frames. -/
abbrev Segment := ℕ × List Entry

def nameOf (g : Segment) : FileName := segmentFilename g.1

theorem isSegment_nameOf (g : Segment) : isSegment (nameOf g) = true :=
    isSegment_segmentFilename g.1

def infoOf (g : Segment) : SegmentInfo := ⟨g.1, nameOf g⟩

def fileOf (codec : WalCodec) (g : Segment) : FileName × Bytes :=
    (nameOf g, stream (frame codec) g.2)

structure Sound (codec : WalCodec) (g : Segment) : Prop where
  base : g.1 ≤ u64Max
  storable : ∀ e ∈ g.2, Storable codec e

theorem Sound.parse {g : Segment} (h : Sound codec g) : parseSegmentFilename (nameOf g) = .ok g.1 :=
  parseSegmentFilename_segmentFilename h.base

def offsetsFrom (codec : WalCodec) (floor : ℕ) : ℕ → List Segment → List (ℕ × (ℕ × ℕ))
  | _, [] => []
  | k, g :: rest =>
    offsetItems floor k (located codec 0 g.2) ++ offsetsFrom codec floor (k + 1) rest

def replayed (codec : WalCodec) (s : FileLogStore) (segs : List Segment) : FileLogStore :=
  { s with
    segments := s.segments ++ segs.map infoOf
    entries := OrderedMaps.insertAll s.entries (liveItems s.firstValidIndex (segs.flatMap Prod.snd))
    offsets := OrderedMaps.insertAll s.offsets
      (offsetsFrom codec s.firstValidIndex s.segments.length segs) }

theorem insertAll_insertAll {V : Type} (m a b : List (ℕ × V)) :
    OrderedMaps.insertAll (OrderedMaps.insertAll m a) b = OrderedMaps.insertAll m (a ++ b) :=
  List.foldl_append.symm

theorem liveItems_append (floor : ℕ) (es fs : List Entry) :
    liveItems floor (es ++ fs) = liveItems floor es ++ liveItems floor fs := by
  rw [liveItems, List.filter_append, List.map_append, liveItems, liveItems]

theorem replayed_cons (s : FileLogStore) (g : Segment) (rest : List Segment) :
    replayed codec (recordAll { s with segments := s.segments ++ [infoOf g] } s.segments.length
      (located codec 0 g.2)) rest = replayed codec s (g :: rest) := by
  rw [recordAll_eq, map_located, replayed, replayed]
  simp only [insertAll_insertAll, List.flatMap_cons, liveItems_append, List.length_append,
    List.length_singleton, offsetsFrom, List.map_cons, List.append_assoc, List.singleton_append]

theorem offsetsFrom_append (floor k : ℕ) (segs rest : List Segment) :
    offsetsFrom codec floor k (segs ++ rest) =
      offsetsFrom codec floor k segs ++ offsetsFrom codec floor (k + segs.length) rest := by
  induction segs generalizing k with
  | nil => rfl
  | cons g segs ih =>
    rw [List.cons_append, offsetsFrom, ih, offsetsFrom, List.append_assoc, List.length_cons,
      Nat.add_right_comm, Nat.add_assoc]

theorem replayed_append (s : FileLogStore) (segs rest : List Segment) :
    replayed codec (replayed codec s segs) rest = replayed codec s (segs ++ rest) := by
  simp only [replayed, insertAll_insertAll, List.flatMap_append, liveItems_append,
    List.length_append, List.length_map, offsetsFrom_append, List.map_append, List.append_assoc]

/-- Whole segments are replayed one after the other, whatever follows them. -/
theorem recoverSegments_pass {segs : List Segment} (paths : List FileName) {s : FileLogStore}
    (h : ∀ g ∈ segs, Sound codec g ∧ s.dir.read (nameOf g) = some (stream (frame codec) g.2)) :
    FileLogStore.recoverSegments codec (segs.map nameOf ++ paths) s =
      FileLogStore.recoverSegments codec paths (replayed codec s segs) := by
  induction segs generalizing s with
  | nil => simp [replayed, liveItems, offsetsFrom, OrderedMaps.insertAll]
  | cons g rest ih =>
    obtain ⟨⟨hsound, hread⟩, hrest⟩ := List.forall_mem_cons.mp h
    rw [List.map_cons, List.cons_append, FileLogStore.recoverSegments, hsound.parse]
    show (FileLogStore.recoverSegment codec { s with segments := s.segments ++ [infoOf g] }
      (nameOf g) s.segments.length _ >>= FileLogStore.recoverSegments codec
        (rest.map nameOf ++ paths)) = _
    rw [FileLogStore.recoverSegment, hread]
    dsimp only
    rw [replayFrames_whole hsound.storable]
    show FileLogStore.recoverSegments codec (rest.map nameOf ++ paths) _ = _
    rw [ih, replayed_cons]
    intro g' hg'
    rw [recordAll_eq]
    exact hrest g' hg'

theorem setLen_front {d : Directory} {name : FileName} {content tail : Bytes}
    (h : d.read name = some (content ++ tail)) :
    d.setLen name content.length = .ok (d.write name content) := by
  rw [Directory.setLen, h]
  simp

/-- A torn tail of the last segment is cut off. -/
theorem recoverSegments_torn {g : Segment} (hg : Sound codec g) {s : FileLogStore} {tail : Bytes}
    (hne : tail ≠ []) {lost : List Entry} (hlost : ∀ e ∈ lost, Storable codec e)
    (htorn : Torn (frame codec) lost tail)
    (hread : s.dir.read (nameOf g) = some (stream (frame codec) g.2 ++ tail)) :
    FileLogStore.recoverSegments codec [nameOf g] s =
      .ok { replayed codec s [g] with
        dir := s.dir.write (nameOf g) (stream (frame codec) g.2) } := by
  rw [FileLogStore.recoverSegments, hg.parse]
  show (FileLogStore.recoverSegment codec { s with segments := s.segments ++ [infoOf g] } (nameOf g)
    s.segments.length true >>= FileLogStore.recoverSegments codec []) = _
  rw [FileLogStore.recoverSegment, hread]
  dsimp only
  rw [replayFrames_torn hg.storable _ _ _ hne hlost htorn, recordAll_eq, setLen_front hread,
    ← replayed_cons, recordAll_eq]
  simp [replayed, liveItems, offsetsFrom, OrderedMaps.insertAll, FileLogStore.recoverSegments, bind,
    Except.bind]

/-! ## Opening -/

def opened (codec : WalCodec) (dir : Directory) (maxSegmentSize floor : ℕ) (anchor : Option (ℕ × ℕ))
    (segs : List Segment) : FileLogStore :=
  let entries := OrderedMaps.insertAll [] (liveItems floor (segs.flatMap Prod.snd))
  let starts := recordEpochs [] (entries.map Prod.snd)
  { dir := dir.persist epochCheckpointFile
      (FileLogStore.asBytes (FileLogStore.checkpointText starts))
    segments := segs.map infoOf
    activeWriter := segs.getLast?.map nameOf
    activeSegmentSize := (segs.getLast?.map (fun g => (stream (frame codec) g.2).length)).getD 0
    entries := entries
    offsets := OrderedMaps.insertAll [] (offsetsFrom codec floor 0 segs)
    maxSegmentSize := maxSegmentSize
    firstValidIndex := floor
    epochStarts := starts
    snapshotAnchor := anchor }

/-- The directory holds these segments, and nothing else that counts as one. -/
def Holds (codec : WalCodec) (dir : Directory) (segs : List Segment) : Prop :=
  (∀ g ∈ segs, Sound codec g) ∧ dir.walFiles = segs.map (fileOf codec)

theorem Holds.read {dir : Directory} {segs : List Segment} (h : Holds codec dir segs) {g : Segment}
    (hg : g ∈ segs) : dir.read (nameOf g) = some (stream (frame codec) g.2) := by
  refine read_of_mem_walFiles ?_
  rw [h.2]
  exact List.mem_map_of_mem hg

theorem Holds.absent {dir : Directory} {segs : List Segment} (h : Holds codec dir segs) {index : ℕ}
    (hindex : index ≤ u64Max) (hnew : ∀ g ∈ segs, g.1 < index) :
    dir.read (segmentFilename index) = none := by
  by_contra hne
  obtain ⟨bytes, hread⟩ := Option.ne_none_iff_exists'.mp hne
  have hmem := mem_walFiles_of_read (isSegment_segmentFilename index) hread
  rw [h.2] at hmem
  obtain ⟨g, hg, heq⟩ := List.mem_map.mp hmem
  rw [fileOf, nameOf] at heq
  exact absurd (Prod.mk.inj heq).1 (segmentFilename_lt hindex (hnew g hg)).ne

theorem Holds.removeAll {dir : Directory} {front mid back : List Segment}
    (h : Holds codec dir (front ++ (mid ++ back))) :
    Holds codec ((mid.map nameOf).foldl Directory.remove dir) (front ++ back) := by
  induction mid generalizing dir with
  | nil => exact h
  | cons g mid ih =>
    refine @ih (dir.remove (nameOf g)) ⟨fun g' hg' => h.1 g' ?_, ?_⟩
    · rcases List.mem_append.mp hg' with hg' | hg'
      · exact List.mem_append_left _ hg'
      · exact List.mem_append_right _ (List.mem_cons_of_mem _ hg')
    · have hascending := walFiles_ascending dir
      have hfiles := h.2
      rw [List.cons_append, List.map_append, List.map_cons, fileOf] at hfiles
      rw [hfiles] at hascending
      rw [walFiles_remove, hfiles, OrderedMaps.erase_middle hascending, ← List.map_append]

theorem Sidecars.removeAll {dir : Directory} {floor : ℕ} {anchor : Option (ℕ × ℕ)}
    {pending : Option ℕ} (h : Sidecars dir floor anchor pending) (segs : List Segment) :
    Sidecars ((segs.map nameOf).foldl Directory.remove dir) floor anchor pending := by
  induction segs generalizing dir with
  | nil => exact h
  | cons g rest ih => exact ih (h.remove (isSegment_nameOf g))

def writerAt (codec : WalCodec) (s : FileLogStore) (segs : List Segment) : FileLogStore :=
  { s with
    activeWriter := segs.getLast?.map nameOf
    activeSegmentSize := (segs.getLast?.map (fun g => (stream (frame codec) g.2).length)).getD 0 }

theorem openWriter_last {s : FileLogStore} {segs : List Segment} (h : Holds codec s.dir segs)
    {g : Segment} (hlast : segs.getLast? = some g) :
    s.openWriter (nameOf g) = .ok (writerAt codec s segs) := by
  rw [FileLogStore.openWriter, h.read (List.mem_of_getLast? hlast), writerAt, hlast]
  rfl

theorem reopenActiveWriter_eq {s : FileLogStore} {segs : List Segment} (h : Holds codec s.dir segs)
    (hsegs : s.segments = segs.map infoOf) :
    s.reopenActiveWriter = .ok (writerAt codec s segs) := by
  have hget : s.segments.getLast? = segs.getLast?.map infoOf := by rw [hsegs, List.getLast?_map]
  rw [FileLogStore.reopenActiveWriter, hget]
  cases hlast : segs.getLast? with
  | none =>
    rw [writerAt, hlast]
    rfl
  | some g => exact openWriter_last h hlast

theorem recover_writer {s : FileLogStore} {segs : List Segment} (h : Holds codec s.dir segs)
    (hsegs : s.segments = segs.map infoOf) (hw : s.activeWriter = none)
    (hsize : s.activeSegmentSize = 0) :
    (match s.segments.getLast? with
      | some last => s.openWriter last.path
      | none => .ok s) = .ok (writerAt codec s segs) := by
  have hget : s.segments.getLast? = segs.getLast?.map infoOf := by rw [hsegs, List.getLast?_map]
  rw [hget]
  cases hlast : segs.getLast? with
  | none =>
    have hsame : { s with activeWriter := none, activeSegmentSize := 0 } = s := by
      rw [← hw, ← hsize]
    rw [writerAt, hlast]
    exact congrArg Except.ok hsame.symm
  | some g => exact openWriter_last h hlast

def unread (dir : Directory) (maxSegmentSize floor : ℕ) (anchor : Option (ℕ × ℕ)) : FileLogStore :=
  { dir, maxSegmentSize, firstValidIndex := floor, snapshotAnchor := anchor }

theorem recover_whole {dir : Directory} {segs : List Segment} (h : Holds codec dir segs)
    (maxSegmentSize floor : ℕ) (anchor : Option (ℕ × ℕ)) :
    (unread dir maxSegmentSize floor anchor).recover codec =
      .ok (writerAt codec (replayed codec (unread dir maxSegmentSize floor anchor) segs) segs) := by
  have hfiles : dir.walFiles.map Prod.fst = segs.map nameOf := by
    rw [h.2, List.map_map]
    rfl
  have hpass : FileLogStore.recoverSegments codec (segs.map nameOf)
      (unread dir maxSegmentSize floor anchor) =
      .ok (replayed codec (unread dir maxSegmentSize floor anchor) segs) := by
    rw [← List.append_nil (segs.map nameOf), recoverSegments_pass]
    · rfl
    · exact fun g hg => ⟨h.1 g hg, h.read hg⟩
  rw [FileLogStore.recover]
  show (FileLogStore.recoverSegments codec (dir.walFiles.map Prod.fst) _ >>= _) = _
  rw [hfiles, hpass]
  exact recover_writer h rfl rfl rfl

/-- `open` behind the sidecars: what is left to do once the segments are replayed. -/
theorem open_of_recover {dir : Directory} {floor : ℕ} {anchor : Option (ℕ × ℕ)} {pending : Option ℕ}
    (hside : Sidecars dir floor anchor pending) (maxSegmentSize : ℕ) {s : FileLogStore}
    (hrecover : (unread dir maxSegmentSize floor anchor).recover codec = .ok s) :
    FileLogStore.openWithMaxSegmentSize codec dir maxSegmentSize =
      (match pending with
        | some target => s.truncateFrom (satAdd target 1)
        | none => .ok s).bind
        fun settled => .ok settled.rebuildEpochStarts.persistEpochCheckpoint := by
  obtain ⟨starts, hstarts⟩ := loadEpochCheckpoint_ok hside
  have hpurge := loadPurgeMarker_eq (s := { dir, maxSegmentSize }) hside rfl
  have hanchor := loadSnapshotAnchor_eq (s := { dir, maxSegmentSize, firstValidIndex := floor })
    hside rfl
  rw [FileLogStore.openWithMaxSegmentSize, hpurge]
  show (({ dir, maxSegmentSize, firstValidIndex := floor } : FileLogStore).loadSnapshotAnchor >>=
    _) = _
  rw [hanchor, loadTruncateMarker_eq hside, hstarts]
  show ((unread dir maxSegmentSize floor anchor).recover codec >>= _) = _
  rw [hrecover]
  cases pending with
  | none => rfl
  | some target => rfl

theorem open_whole {dir : Directory} {floor : ℕ} {anchor : Option (ℕ × ℕ)}
    (hside : Sidecars dir floor anchor none) {segs : List Segment} (h : Holds codec dir segs)
    (maxSegmentSize : ℕ) :
    FileLogStore.openWithMaxSegmentSize codec dir maxSegmentSize =
      .ok (opened codec dir maxSegmentSize floor anchor segs) := by
  rw [open_of_recover hside maxSegmentSize (recover_whole h maxSegmentSize floor anchor)]
  rfl

theorem recover_torn {dir : Directory} {segs : List Segment} {g : Segment} {tail : Bytes}
    (hsound : ∀ g' ∈ segs ++ [g], Sound codec g')
    (hfiles : dir.walFiles = segs.map (fileOf codec) ++
      [(nameOf g, stream (frame codec) g.2 ++ tail)])
    (hne : tail ≠ []) {lost : List Entry} (hlost : ∀ e ∈ lost, Storable codec e)
    (htorn : Torn (frame codec) lost tail) (maxSegmentSize floor : ℕ) (anchor : Option (ℕ × ℕ)) :
    (unread dir maxSegmentSize floor anchor).recover codec =
        .ok (writerAt codec
          { replayed codec (unread dir maxSegmentSize floor anchor) (segs ++ [g]) with
          dir := dir.write (nameOf g) (stream (frame codec) g.2) } (segs ++ [g])) ∧
      Holds codec (dir.write (nameOf g) (stream (frame codec) g.2)) (segs ++ [g]) := by
  have hlast : dir.read (nameOf g) = some (stream (frame codec) g.2 ++ tail) := by
    refine read_of_mem_walFiles ?_
    rw [hfiles]
    simp
  have hfront (g' : Segment) (hg' : g' ∈ segs) :
      dir.read (nameOf g') = some (stream (frame codec) g'.2) := by
    refine read_of_mem_walFiles ?_
    rw [hfiles]
    exact List.mem_append_left _ (List.mem_map_of_mem hg')
  have hcut : Holds codec (dir.write (nameOf g) (stream (frame codec) g.2)) (segs ++ [g]) := by
    refine ⟨hsound, ?_⟩
    rw [walFiles_overwrite hfiles (isSegment_nameOf g), List.map_append]
    rfl
  have hnames : dir.walFiles.map Prod.fst = segs.map nameOf ++ [nameOf g] := by
    rw [hfiles, List.map_append, List.map_map]
    rfl
  refine ⟨?_, hcut⟩
  rw [FileLogStore.recover]
  show (FileLogStore.recoverSegments codec (dir.walFiles.map Prod.fst) _ >>= _) = _
  rw [hnames, recoverSegments_pass, recoverSegments_torn (hsound g (by simp)) hne hlost htorn hlast,
    replayed_append]
  · exact recover_writer hcut rfl rfl rfl
  · exact fun g' hg' => ⟨hsound g' (List.mem_append_left _ hg'), hfront g' hg'⟩

theorem open_torn {dir : Directory} {floor : ℕ} {anchor : Option (ℕ × ℕ)}
    (hside : Sidecars dir floor anchor none) {segs : List Segment} {g : Segment} {tail : Bytes}
    (hsound : ∀ g' ∈ segs ++ [g], Sound codec g')
    (hfiles : dir.walFiles = segs.map (fileOf codec) ++
      [(nameOf g, stream (frame codec) g.2 ++ tail)])
    (hne : tail ≠ []) {lost : List Entry} (hlost : ∀ e ∈ lost, Storable codec e)
    (htorn : Torn (frame codec) lost tail) (maxSegmentSize : ℕ) :
    FileLogStore.openWithMaxSegmentSize codec dir maxSegmentSize =
      .ok (opened codec (dir.write (nameOf g) (stream (frame codec) g.2)) maxSegmentSize
        floor anchor (segs ++ [g])) := by
  obtain ⟨hrecover, -⟩ := recover_torn hsound hfiles hne hlost htorn maxSegmentSize floor anchor
  rw [open_of_recover hside maxSegmentSize hrecover]
  rfl

end SegmentReplay
