import Mathlib.Order.Interval.Finset.Nat
import Xraft.GuardedExecution
import Xraft.SampleCodecs
import Xraft.SegmentReplay

/-! # The file log is a memory log

`FileLogStore` beside `MemoryLogStore` over appends, truncations, purges, anchors and reopenings.
The image of the file store is the list of its segments with the entries of their frames; every
operation acts on the image, and the entries above the purge floor are the memory log.
-/
namespace FileLogRefinement

open ProtocolTypes DurableStores ByteFrames WriteAheadLog WalFrames SegmentReplay GuardedExecution
open SampleCodecs (sampleCodec)

variable {codec : WalCodec} {s : FileLogStore} {segs : List Segment} {pending : Option ℕ}

/-! ## Images -/

/-- All frames, those below the purge floor included. -/
def framesOf (segs : List Segment) : List Entry := segs.flatMap Prod.snd

def live (floor : ℕ) (segs : List Segment) : List Entry :=
  (framesOf segs).filter (fun e => floor < e.index)

structure Ordered (segs : List Segment) : Prop where
  based : ∀ g ∈ segs, ∃ e rest, g.2 = e :: rest ∧ g.1 = e.index
  ascending : (framesOf segs).Pairwise (fun a b => a.index < b.index)
  positive : ∀ e ∈ framesOf segs, 0 < e.index

/-- Frames ascend through the segments, and those of a segment lie between its base and the next
one. A segment that a crash emptied keeps its place. -/
structure Arranged (segs : List Segment) : Prop where
  ascending : (framesOf segs).Pairwise (fun a b => a.index < b.index)
  positive : ∀ e ∈ framesOf segs, 0 < e.index
  named : segs.Pairwise (fun g h => g.1 < h.1 ∧ ∀ e ∈ g.2, e.index < h.1)
  based : ∀ g ∈ segs, ∀ e ∈ g.2, g.1 ≤ e.index

structure Image (codec : WalCodec) (s : FileLogStore) (segs : List Segment) : Prop where
  holds : Holds codec s.dir segs
  side : Sidecars s.dir s.firstValidIndex s.snapshotAnchor none
  ordered : Ordered segs
  segments : s.segments = segs.map infoOf
  writer : s.activeWriter = segs.getLast?.map nameOf
  size : s.activeSegmentSize =
    (segs.getLast?.map (fun g => (stream (frame codec) g.2).length)).getD 0
  entries : s.entries = liveItems s.firstValidIndex (framesOf segs)
  offsets : s.offsets = offsetsFrom codec s.firstValidIndex 0 segs
  epochs : s.epochStarts = recordEpochs [] (live s.firstValidIndex segs)

/-- A store and its segments before the epochs are rebuilt; a truncation may be pending. -/
structure Mapped (codec : WalCodec) (pending : Option ℕ) (s : FileLogStore) (segs : List Segment) :
    Prop where
  holds : Holds codec s.dir segs
  side : Sidecars s.dir s.firstValidIndex s.snapshotAnchor pending
  arranged : Arranged segs
  segments : s.segments = segs.map infoOf
  writer : s.activeWriter = segs.getLast?.map nameOf
  size : s.activeSegmentSize =
    (segs.getLast?.map (fun g => (stream (frame codec) g.2).length)).getD 0
  entries : s.entries = liveItems s.firstValidIndex (framesOf segs)
  offsets : s.offsets = offsetsFrom codec s.firstValidIndex 0 segs

structure Layout (codec : WalCodec) (pending : Option ℕ) (s : FileLogStore) (segs : List Segment) :
    Prop extends Mapped codec pending s segs where
  epochs : s.epochStarts = recordEpochs [] (live s.firstValidIndex segs)

theorem liveItems_eq (floor : ℕ) (segs : List Segment) :
    liveItems floor (framesOf segs) = (live floor segs).map (fun e => (e.index, e)) := rfl

theorem framesOf_append (a b : List Segment) : framesOf (a ++ b) = framesOf a ++ framesOf b :=
  List.flatMap_append

theorem framesOf_singleton (g : Segment) : framesOf [g] = g.2 := List.flatMap_singleton ..

theorem live_subset {floor : ℕ} {e : Entry} (h : e ∈ live floor segs) :
    e ∈ framesOf segs ∧ floor < e.index := by
  obtain ⟨hmem, hfloor⟩ := List.mem_filter.mp h
  exact ⟨hmem, of_decide_eq_true hfloor⟩

theorem storable_of_holds {dir : Directory} (h : Holds codec dir segs) {e : Entry}
    (he : e ∈ framesOf segs) : Storable codec e := by
  obtain ⟨g, hg, heg⟩ := List.mem_flatMap.mp he
  exact (h.1 g hg).storable e heg

theorem Ordered.arranged (h : Ordered segs) : Arranged segs := by
  obtain ⟨hinner, hcross⟩ := List.pairwise_flatMap.mp h.ascending
  have hbased : ∀ g ∈ segs, ∀ e ∈ g.2, g.1 ≤ e.index := by
    intro g hg e he
    obtain ⟨x, rest, hframes, hbase⟩ := h.based g hg
    have hfirst := hinner g hg
    rw [hframes] at hfirst he
    rw [hbase]
    rcases List.mem_cons.mp he with rfl | he
    · exact le_rfl
    · exact ((List.pairwise_cons.mp hfirst).1 e he).le
  refine ⟨h.ascending, h.positive, hcross.imp_of_mem fun {g g'} hg hg' hlt => ?_, hbased⟩
  obtain ⟨x, rest, hframes, -⟩ := h.based g hg
  obtain ⟨x', rest', hframes', hbase'⟩ := h.based g' hg'
  have hx : x ∈ g.2 := hframes ▸ List.mem_cons_self
  have hx' : x' ∈ g'.2 := hframes' ▸ List.mem_cons_self
  rw [hbase']
  exact ⟨(hbased g hg x hx).trans_lt (hlt x hx x' hx'), fun e he => hlt e he x' hx'⟩

theorem Image.layout (h : Image codec s segs) : Layout codec none s segs :=
  ⟨⟨h.holds, h.side, h.ordered.arranged, h.segments, h.writer, h.size, h.entries, h.offsets⟩,
    h.epochs⟩

theorem Layout.image (h : Layout codec none s segs) (hordered : Ordered segs) :
    Image codec s segs :=
  ⟨h.holds, h.side, hordered, h.segments, h.writer, h.size, h.entries, h.offsets, h.epochs⟩

theorem Arranged.live_ascending (h : Arranged segs) (floor : ℕ) :
    (live floor segs).Pairwise (fun a b => a.index < b.index) := h.ascending.filter _

theorem Arranged.items_ascending (h : Arranged segs) (floor : ℕ) :
    OrderedMaps.Ascending (liveItems floor (framesOf segs)) :=
  List.pairwise_map.mpr (h.live_ascending floor)

/-! ### Offsets -/

theorem offsetItems_keys (floor k start : ℕ) (es : List Entry) :
    (offsetItems floor k (located codec start es)).map Prod.fst =
      (es.filter (fun e => floor < e.index)).map Entry.index := by
  induction es generalizing start with
  | nil => rfl
  | cons e rest ih =>
    by_cases hlive : floor < e.index
    · simp only [offsetItems, located, List.filter_cons, decide_eq_true hlive, if_true,
        List.map_cons]
      exact congrArg (e.index :: ·) (ih _)
    · simp only [offsetItems, located, List.filter_cons, decide_eq_false hlive, Bool.false_eq_true,
        if_false]
      exact ih _

/-- There is an offset for each live entry, in the same order. -/
theorem offsetsFrom_keys (floor k : ℕ) (segs : List Segment) :
    (offsetsFrom codec floor k segs).map Prod.fst = (live floor segs).map Entry.index := by
  induction segs generalizing k with
  | nil => rfl
  | cons g rest ih =>
    rw [offsetsFrom, List.map_append, offsetItems_keys, ih, live, live, framesOf, framesOf,
      List.flatMap_cons, List.filter_append, List.map_append]

theorem Arranged.offsets_ascending (h : Arranged segs) (floor k : ℕ) :
    OrderedMaps.Ascending (offsetsFrom codec floor k segs) := by
  have hkeys : ((offsetsFrom codec floor k segs).map Prod.fst).Pairwise (· < ·) := by
    rw [offsetsFrom_keys]
    exact List.pairwise_map.mpr (h.live_ascending floor)
  exact List.pairwise_map.mp hkeys

/-! ### Checkpoints -/

theorem orInsert_length (term index : ℕ) (starts : EpochStarts) :
    (orInsert term index starts).length ≤ starts.length + 1 := by
  induction starts with
  | nil => simp [orInsert]
  | cons p rest ih =>
    rw [orInsert]
    split_ifs
    · simp
    · simp
    · simpa using ih

theorem recordEpochs_length (starts : EpochStarts) (entries : List Entry) :
    (recordEpochs starts entries).length ≤ starts.length + entries.length := by
  induction entries generalizing starts with
  | nil => simp [recordEpochs]
  | cons e rest ih =>
    have hstep := orInsert_length e.term e.index starts
    have hrest := ih (orInsert e.term e.index starts)
    rw [List.length_cons]
    show (recordEpochs (orInsert e.term e.index starts) rest).length ≤ _
    omega

theorem length_le_max {es : List Entry} {max : ℕ} (h : es.Pairwise (fun a b => a.index < b.index))
    (hpos : ∀ e ∈ es, 0 < e.index) (hmax : ∀ e ∈ es, e.index ≤ max) : es.length ≤ max := by
  have hnodup : (es.map Entry.index).Nodup := List.pairwise_map.mpr (h.imp (fun hlt => hlt.ne))
  have hsub : (es.map Entry.index).toFinset ⊆ Finset.Icc 1 max := by
    intro i hi
    obtain ⟨e, he, rfl⟩ := List.mem_map.mp (List.mem_toFinset.mp hi)
    exact Finset.mem_Icc.mpr ⟨hpos e he, hmax e he⟩
  have hcard := Finset.card_le_card hsub
  rw [List.toFinset_card_of_nodup hnodup, List.length_map, Nat.card_Icc] at hcard
  omega

theorem checkpointed_of_ascending {es : List Entry} (hstorable : ∀ e ∈ es, Storable codec e)
    (hascending : es.Pairwise (fun a b => a.index < b.index)) (hpos : ∀ e ∈ es, 0 < e.index) :
    Checkpointed (recordEpochs [] es) := by
  refine ⟨?_, fun p hp => ?_, fun p hp => ?_⟩
  · have hlength := recordEpochs_length [] es
    have hmax := length_le_max hascending hpos (fun e he => (hstorable e he).index)
    simp only [List.length_nil, Nat.zero_add] at hlength
    omega
  · obtain ⟨e, he, hterm, -⟩ := PositionedLog.start_mem hp
    exact hterm ▸ (hstorable e he).term
  · obtain ⟨e, he, -, hindex⟩ := PositionedLog.start_mem hp
    exact hindex ▸ (hstorable e he).index

theorem Arranged.checkpointed (h : Arranged segs) {dir : Directory} (hholds : Holds codec dir segs)
    (floor : ℕ) : Checkpointed (recordEpochs [] (live floor segs)) :=
  checkpointed_of_ascending (fun _ he => storable_of_holds hholds (live_subset he).1)
    (h.live_ascending floor) (fun e he => h.positive e (live_subset he).1)

/-! ## Reopening -/

theorem opened_layout {dir : Directory} {floor : ℕ} {anchor : Option (ℕ × ℕ)}
    (hholds : Holds codec dir segs) (hside : Sidecars dir floor anchor none)
    (harranged : Arranged segs) (maxSegmentSize : ℕ) :
    Layout codec none (opened codec dir maxSegmentSize floor anchor segs) segs := by
  have hentries : OrderedMaps.insertAll [] (liveItems floor (framesOf segs)) =
      liveItems floor (framesOf segs) :=
    OrderedMaps.insertAll_append (m := []) (harranged.items_ascending floor)
  have hoffsets : OrderedMaps.insertAll [] (offsetsFrom codec floor 0 segs) =
      offsetsFrom codec floor 0 segs :=
    OrderedMaps.insertAll_append (m := []) (harranged.offsets_ascending floor 0)
  have hstarts : recordEpochs [] ((OrderedMaps.insertAll [] (liveItems floor (framesOf segs))).map
      Prod.snd) = recordEpochs [] (live floor segs) := by
    rw [hentries, liveItems_eq, List.map_map]
    exact congrArg (recordEpochs []) (List.map_id _)
  refine ⟨⟨⟨hholds.1, ?_⟩, ?_, harranged, rfl, rfl, rfl, hentries, hoffsets⟩, hstarts⟩
  · show (dir.persist epochCheckpointFile _).walFiles = _
    rw [walFiles_persist (by decide) (by decide), hholds.2]
  · refine hside.persistCheckpoint ?_
    show Checkpointed (recordEpochs [] ((OrderedMaps.insertAll [] (liveItems floor
      (framesOf segs))).map Prod.snd))
    rw [hstarts]
    exact harranged.checkpointed hholds floor

theorem Image.reopen (h : Image codec s segs) (maxSegmentSize : ℕ) :
    ∃ s', FileLogStore.openWithMaxSegmentSize codec s.dir maxSegmentSize = .ok s' ∧
      Image codec s' segs ∧ s'.firstValidIndex = s.firstValidIndex ∧
      s'.snapshotAnchor = s.snapshotAnchor :=
  ⟨_, open_whole h.side h.holds maxSegmentSize,
    (opened_layout h.holds h.side h.ordered.arranged maxSegmentSize).image h.ordered, rfl, rfl⟩

/-! ## Appending -/

theorem located_append (start : ℕ) (es fs : List Entry) :
    located codec start (es ++ fs) =
      located codec start es ++ located codec (start + (stream (frame codec) es).length) fs := by
  induction es generalizing start with
  | nil => rfl
  | cons e rest ih =>
    rw [List.cons_append, located, ih, located, stream_cons, List.length_append, Nat.add_assoc,
      List.cons_append]

theorem Layout.persistEpochCheckpoint (h : Layout codec pending s segs) :
    Layout codec pending s.persistEpochCheckpoint segs := by
  refine ⟨⟨⟨h.holds.1, ?_⟩, ?_, h.arranged, h.segments, h.writer, h.size, h.entries, h.offsets⟩,
    h.epochs⟩
  · show (s.dir.persist epochCheckpointFile _).walFiles = _
    rw [walFiles_persist (by decide) (by decide), h.holds.2]
  · refine h.side.persistCheckpoint ?_
    rw [h.epochs]
    exact h.arranged.checkpointed h.holds _

/-- The store before a frame is written to the segment `g`, which may still be empty. -/
structure Ready (codec : WalCodec) (pending : Option ℕ) (s : FileLogStore) (front : List Segment)
    (g : Segment) : Prop where
  holds : Holds codec s.dir (front ++ [g])
  side : Sidecars s.dir s.firstValidIndex s.snapshotAnchor pending
  segments : s.segments = (front ++ [g]).map infoOf
  writer : s.activeWriter = some (nameOf g)
  size : s.activeSegmentSize = (stream (frame codec) g.2).length
  entries : s.entries = liveItems s.firstValidIndex (framesOf (front ++ [g]))
  offsets : s.offsets = offsetsFrom codec s.firstValidIndex 0 (front ++ [g])
  epochs : s.epochStarts = recordEpochs [] (live s.firstValidIndex (front ++ [g]))

theorem framesOf_concat (front : List Segment) (g : Segment) (e : Entry) :
    framesOf (front ++ [(g.1, g.2 ++ [e])]) = framesOf (front ++ [g]) ++ [e] := by
  simp [framesOf]

theorem offsetsFrom_concat (floor : ℕ) (front : List Segment) (g : Segment) {e : Entry}
    (hfloor : floor < e.index) :
    offsetsFrom codec floor 0 (front ++ [(g.1, g.2 ++ [e])]) =
      offsetsFrom codec floor 0 (front ++ [g]) ++
        [(e.index, (front.length, (stream (frame codec) g.2).length))] := by
  rw [offsetsFrom_append, offsetsFrom_append]
  simp [offsetsFrom, offsetItems, located_append, located, hfloor]

theorem Holds.appendTo {d : Directory} {front : List Segment} {g : Segment} {e : Entry}
    (h : Holds codec d (front ++ [g])) (he : Storable codec e) :
    Holds codec (d.appendTo (nameOf g) (frame codec e)) (front ++ [(g.1, g.2 ++ [e])]) := by
  have hread := h.read (g := g) (by simp)
  obtain ⟨hsound, hfiles⟩ := h
  rw [List.map_append] at hfiles
  refine ⟨fun g' hg' => ?_, ?_⟩
  · rcases List.mem_append.mp hg' with hg' | hg'
    · exact hsound g' (List.mem_append_left _ hg')
    · rw [List.mem_singleton.mp hg']
      refine ⟨(hsound g (by simp)).base, fun x hx => ?_⟩
      rcases List.mem_append.mp hx with hx | hx
      · exact (hsound g (by simp)).storable x hx
      · rw [List.mem_singleton.mp hx]
        exact he
  · rw [Directory.appendTo, hread, walFiles_overwrite hfiles (isSegment_nameOf g), List.map_append]
    simp [fileOf, nameOf]

theorem Ready.write {front : List Segment} {g : Segment} {e : Entry}
    (h : Ready codec pending s front g) (he : Storable codec e)
    (harranged : Arranged (front ++ [(g.1, g.2 ++ [e])])) (hfloor : s.firstValidIndex < e.index) :
    Layout codec pending (s.writeFrame (nameOf g) (frame codec e) e)
    (front ++ [(g.1, g.2 ++ [e])]) := by
  have hbelow : ∀ x ∈ framesOf (front ++ [g]), x.index < e.index := by
    have hascending := harranged.ascending
    rw [framesOf_concat] at hascending
    obtain ⟨-, -, hcross⟩ := List.pairwise_append.mp hascending
    exact fun x hx => hcross x hx e List.mem_cons_self
  have hlive : live s.firstValidIndex (front ++ [(g.1, g.2 ++ [e])]) =
      live s.firstValidIndex (front ++ [g]) ++ [e] := by
    rw [live, framesOf_concat, List.filter_append]
    simp [live, hfloor]
  have hentries : OrderedMaps.insert e.index e s.entries =
      liveItems s.firstValidIndex (framesOf (front ++ [(g.1, g.2 ++ [e])])) := by
    rw [h.entries, OrderedMaps.insert_above, liveItems_eq, liveItems_eq, hlive, List.map_append]
    · rfl
    · intro p hp
      obtain ⟨x, hx, rfl⟩ := List.mem_map.mp hp
      exact hbelow x (live_subset hx).1
  have hoffsets : OrderedMaps.insert e.index (s.segments.length - 1, s.activeSegmentSize)
    s.offsets =
      offsetsFrom codec s.firstValidIndex 0 (front ++ [(g.1, g.2 ++ [e])]) := by
    rw [offsetsFrom_concat _ _ _ hfloor, h.offsets, OrderedMaps.insert_above, h.segments, h.size]
    · simp
    · intro p hp
      have hkey : p.1 ∈ (live s.firstValidIndex (front ++ [g])).map Entry.index := by
        have hkeys := @offsetsFrom_keys codec s.firstValidIndex 0 (front ++ [g])
        rw [← hkeys]
        exact List.mem_map_of_mem hp
      obtain ⟨x, hx, hxp⟩ := List.mem_map.mp hkey
      exact hxp ▸ hbelow x (live_subset hx).1
  have hepochs : orInsert e.term e.index s.epochStarts =
      recordEpochs [] (live s.firstValidIndex (front ++ [(g.1, g.2 ++ [e])])) := by
    rw [hlive, h.epochs, recordEpochs, recordEpochs, List.foldl_append]
    rfl
  have hside : Sidecars (s.dir.appendTo (nameOf g) (frame codec e)) s.firstValidIndex
      s.snapshotAnchor pending := by
    rw [Directory.appendTo, h.holds.read (g := g) (by simp)]
    exact h.side.write (isSegment_nameOf g) _
  have hwritten : Layout codec pending { s with
      dir := s.dir.appendTo (nameOf g) (frame codec e)
      activeSegmentSize := s.activeSegmentSize + (frame codec e).length
      entries := OrderedMaps.insert e.index e s.entries
      offsets := OrderedMaps.insert e.index (s.segments.length - 1, s.activeSegmentSize) s.offsets
      epochStarts := orInsert e.term e.index s.epochStarts } (front ++ [(g.1, g.2 ++ [e])]) := by
    refine ⟨⟨Holds.appendTo h.holds he, hside, harranged, ?_, ?_, ?_, hentries, hoffsets⟩, hepochs⟩
    · show s.segments = _
      rw [h.segments]
      simp [infoOf, nameOf]
    · show s.activeWriter = _
      rw [h.writer]
      simp [nameOf]
    · show s.activeSegmentSize + _ = _
      rw [h.size]
      simp
  rw [FileLogStore.writeFrame]
  split_ifs
  · exact hwritten.persistEpochCheckpoint
  · exact hwritten

theorem Layout.ready_last {front : List Segment} {g : Segment}
    (h : Layout codec pending s (front ++ [g])) : Ready codec pending s front g := by
  have hlast : (front ++ [g]).getLast? = some g := by simp
  refine ⟨h.holds, h.side, h.segments, ?_, ?_, h.entries, h.offsets, h.epochs⟩
  · rw [h.writer, hlast]
    rfl
  · rw [h.size, hlast]
    rfl

theorem Layout.ready_new (h : Layout codec pending s segs) {index : ℕ} (hindex : index ≤ u64Max)
    (hnew : ∀ g ∈ segs, g.1 < index) :
    Ready codec pending (s.createSegment index) segs (index, []) := by
  have htouch : s.dir.touch (segmentFilename index) = s.dir.write (segmentFilename index) [] := by
    rw [Directory.touch, h.holds.absent hindex hnew]
  have hfiles : (s.dir.write (segmentFilename index) []).walFiles =
      (segs ++ [(index, [])]).map (fileOf codec) := by
    rw [walFiles_write (isSegment_segmentFilename index), h.holds.2, OrderedMaps.insert_above,
      List.map_append]
    · rfl
    · intro f hf
      obtain ⟨g, hg, rfl⟩ := List.mem_map.mp hf
      exact segmentFilename_lt hindex (hnew g hg)
  have hframes : framesOf (segs ++ [(index, [])]) = framesOf segs := by simp [framesOf]
  have hsound : ∀ g ∈ segs ++ [((index, []) : Segment)], Sound codec g := by
    intro g hg
    rcases List.mem_append.mp hg with hg | hg
    · exact h.holds.1 g hg
    · rw [List.mem_singleton.mp hg]
      exact ⟨hindex, fun e he => absurd he List.not_mem_nil⟩
  refine ⟨⟨hsound, ?_⟩, ?_, ?_, rfl, rfl, ?_, ?_, ?_⟩
  · show (s.dir.touch (segmentFilename index)).walFiles = _
    rw [htouch, hfiles]
  · show Sidecars (s.dir.touch (segmentFilename index)) _ _ _
    rw [htouch]
    exact h.side.write (isSegment_segmentFilename index) _
  · show s.segments ++ _ = _
    rw [h.segments, List.map_append]
    rfl
  · show s.entries = _
    rw [h.entries, hframes]
    rfl
  · show s.offsets = _
    rw [h.offsets, offsetsFrom_append]
    simp [offsetsFrom, offsetItems, located, FileLogStore.createSegment]
  · show s.epochStarts = _
    rw [h.epochs, live, live, hframes]
    rfl

theorem prepareSegment_cases (s : FileLogStore) (index frameLen : ℕ) :
    (s.prepareSegment index frameLen = s ∧ ∃ path, s.activeWriter = some path) ∨
      (s.prepareSegment index frameLen = s.createSegment index ∧
        (s.activeWriter = none ∨ s.maxSegmentSize < s.activeSegmentSize + frameLen)) := by
  rw [FileLogStore.prepareSegment]
  by_cases hrotate : s.shouldRotate frameLen = true
  · rw [if_pos hrotate]
    exact .inr ⟨rfl, .inr (of_decide_eq_true (Bool.and_eq_true_iff.mp hrotate).2)⟩
  · rw [if_neg hrotate]
    cases hwriter : s.activeWriter with
    | none => exact .inr ⟨rfl, .inl rfl⟩
    | some path => exact .inl ⟨rfl, path, rfl⟩

theorem Ordered.concat {segs' : List Segment} {e : Entry} (h : Ordered segs)
    (hframes : framesOf segs' = framesOf segs ++ [e])
    (hbased : ∀ g ∈ segs', ∃ e rest, g.2 = e :: rest ∧ g.1 = e.index)
    (hnew : ∀ x ∈ framesOf segs, x.index < e.index) (hpos : 0 < e.index) : Ordered segs' := by
  refine ⟨hbased, ?_, ?_⟩
  · rw [hframes]
    refine List.pairwise_append.mpr ⟨h.ascending, List.pairwise_singleton _ _, fun x hx y hy => ?_⟩
    rw [List.mem_singleton.mp hy]
    exact hnew x hx
  · intro x hx
    rw [hframes] at hx
    rcases List.mem_append.mp hx with hx | hx
    · exact h.positive x hx
    · rw [List.mem_singleton.mp hx]
      exact hpos

theorem Arranged.concat {front : List Segment} {g : Segment} {e : Entry}
    (h : Arranged (front ++ [g])) (hnew : ∀ x ∈ framesOf (front ++ [g]), x.index < e.index)
    (hpos : 0 < e.index) (hbase : g.1 ≤ e.index) : Arranged (front ++ [(g.1, g.2 ++ [e])]) := by
  obtain ⟨hfront, -, hlast⟩ := List.pairwise_append.mp h.named
  refine ⟨?_, ?_, ?_, fun g' hg' x hx => ?_⟩
  · rw [framesOf_concat]
    refine List.pairwise_append.mpr ⟨h.ascending, List.pairwise_singleton _ _, fun x hx y hy => ?_⟩
    rw [List.mem_singleton.mp hy]
    exact hnew x hx
  · intro x hx
    rw [framesOf_concat] at hx
    rcases List.mem_append.mp hx with hx | hx
    · exact h.positive x hx
    · rw [List.mem_singleton.mp hx]
      exact hpos
  · refine List.pairwise_append.mpr ⟨hfront, List.pairwise_singleton _ _, fun g' hg' g'' hg'' => ?_⟩
    rw [List.mem_singleton.mp hg'']
    exact hlast g' hg' g List.mem_cons_self
  · rcases List.mem_append.mp hg' with hg' | hg'
    · exact h.based g' (List.mem_append_left _ hg') x hx
    · rw [List.mem_singleton.mp hg'] at hx ⊢
      rcases List.mem_append.mp hx with hx | hx
      · exact h.based g (by simp) x hx
      · rw [List.mem_singleton.mp hx]
        exact hbase

theorem Arranged.grow (h : Arranged segs) {index : ℕ} (hnew : ∀ x ∈ framesOf segs, x.index < index)
    (hbases : ∀ g ∈ segs, g.1 < index) : Arranged (segs ++ [(index, [])]) := by
  have hframes : framesOf (segs ++ [(index, [])]) = framesOf segs := by simp [framesOf]
  refine ⟨hframes ▸ h.ascending, hframes ▸ h.positive, ?_, fun g hg x hx => ?_⟩
  · refine List.pairwise_append.mpr ⟨h.named, List.pairwise_singleton _ _, fun g hg g' hg' => ?_⟩
    rw [List.mem_singleton.mp hg']
    exact ⟨hbases g hg, fun x hx => hnew x (List.mem_flatMap.mpr ⟨g, hg, hx⟩)⟩
  · rcases List.mem_append.mp hg with hg | hg
    · exact h.based g hg x hx
    · rw [List.mem_singleton.mp hg] at hx
      cases hx

theorem Ordered.base_lt (h : Ordered segs) {index : ℕ} (hnew : ∀ x ∈ framesOf segs, x.index < index)
    {g : Segment} (hg : g ∈ segs) : g.1 < index := by
  obtain ⟨e, rest, hframes, hbase⟩ := h.based g hg
  rw [hbase]
  refine hnew e (List.mem_flatMap.mpr ⟨g, hg, ?_⟩)
  rw [hframes]
  exact List.mem_cons_self

/-- No segment is named above the index, and one that is named by it takes the frame: the name of a
new segment is free. -/
def HasRoom (s : FileLogStore) (index frameLen : ℕ) : Prop :=
  ∀ g ∈ s.segments, g.baseIndex ≤ index ∧
    (g.baseIndex = index → s.activeSegmentSize + frameLen ≤ s.maxSegmentSize)

instance (s : FileLogStore) (index frameLen : ℕ) : Decidable (HasRoom s index frameLen) :=
  inferInstanceAs (Decidable (∀ g ∈ s.segments, _))

theorem hasRoom_of_lt (hsegs : s.segments = segs.map infoOf) {index : ℕ}
    (h : ∀ g ∈ segs, g.1 < index) (frameLen : ℕ) : HasRoom s index frameLen := by
  intro info hinfo
  rw [hsegs] at hinfo
  obtain ⟨g, hg, rfl⟩ := List.mem_map.mp hinfo
  exact ⟨(h g hg).le, fun heq => absurd heq (h g hg).ne⟩

theorem HasRoom.bases {index frameLen : ℕ} (h : HasRoom s index frameLen)
    (hsegs : s.segments = segs.map infoOf) :
    ∀ g ∈ segs, g.1 ≤ index ∧ (g.1 = index → s.activeSegmentSize + frameLen ≤ s.maxSegmentSize) :=
  fun g hg => h (infoOf g) (hsegs ▸ List.mem_map_of_mem hg)

/-- The store as a frame finds it: the segment to write to, and what the write makes of it. -/
theorem Layout.prepare (h : Layout codec pending s segs) {e : Entry} (he : Storable codec e)
    {frameLen : ℕ} (hroom : HasRoom s e.index frameLen)
    (hnew : ∀ x ∈ framesOf segs, x.index < e.index) (hpos : 0 < e.index) :
    ∃ front g, Ready codec pending (s.prepareSegment e.index frameLen) front g ∧
      Arranged (front ++ [(g.1, g.2 ++ [e])]) ∧
      (Ordered segs → Ordered (front ++ [(g.1, g.2 ++ [e])])) ∧
      (∀ g' ∈ front ++ [g], g'.1 ≤ e.index) ∧ framesOf (front ++ [g]) = framesOf segs ∧
      (s.prepareSegment e.index frameLen).firstValidIndex = s.firstValidIndex ∧
      (s.prepareSegment e.index frameLen).snapshotAnchor = s.snapshotAnchor := by
  have hbases := hroom.bases h.segments
  rcases prepareSegment_cases s e.index frameLen with ⟨hsame, path, hpath⟩ | ⟨hcreate, hwhy⟩
  · have hlast : segs ≠ [] := by
      rintro rfl
      rw [h.writer] at hpath
      cases hpath
    obtain ⟨front, g, rfl⟩ := (List.eq_nil_or_concat' segs).resolve_left hlast
    rw [hsame]
    refine ⟨front, g, h.ready_last, h.arranged.concat hnew hpos (hbases g (by simp)).1,
      fun hordered => ?_, fun g' hg' => (hbases g' hg').1, rfl, rfl, rfl⟩
    refine hordered.concat (framesOf_concat front g e) (fun g' hg' => ?_) hnew hpos
    rcases List.mem_append.mp hg' with hg' | hg'
    · exact hordered.based g' (List.mem_append_left _ hg')
    · obtain ⟨x, rest, hframes, hbase⟩ := hordered.based g (by simp)
      rw [List.mem_singleton.mp hg']
      exact ⟨x, rest ++ [e], by rw [hframes]; rfl, hbase⟩
  · have hfree : ∀ g ∈ segs, g.1 < e.index := by
      intro g hg
      obtain ⟨hle, hfits⟩ := hbases g hg
      refine lt_of_le_of_ne hle fun heq => ?_
      rcases hwhy with hnone | hfull
      · rw [h.writer, Option.map_eq_none_iff, List.getLast?_eq_none_iff] at hnone
        rw [hnone] at hg
        cases hg
      · exact absurd hfull (not_lt.mpr (hfits heq))
    rw [hcreate]
    have hframes : framesOf (segs ++ [(e.index, [])]) = framesOf segs := by simp [framesOf]
    have hgrown := h.arranged.grow hnew hfree
    refine ⟨segs, (e.index, []), h.ready_new he.index hfree,
      hgrown.concat (hframes ▸ hnew) hpos le_rfl, fun hordered => ?_, fun g hg => ?_, hframes,
      rfl, rfl⟩
    · refine hordered.concat ?_ (fun g hg => ?_) hnew hpos
      · rw [framesOf_concat, hframes]
      · rcases List.mem_append.mp hg with hg | hg
        · exact hordered.based g hg
        · rw [List.mem_singleton.mp hg]
          exact ⟨e, [], rfl, rfl⟩
    · rcases List.mem_append.mp hg with hg | hg
      · exact (hfree g hg).le
      · rw [List.mem_singleton.mp hg]

theorem writeFrame_frame (s : FileLogStore) (path : FileName) (frame : Bytes) (e : Entry) :
    (s.writeFrame path frame e).firstValidIndex = s.firstValidIndex ∧
      (s.writeFrame path frame e).snapshotAnchor = s.snapshotAnchor := by
  rw [FileLogStore.writeFrame]
  split_ifs <;> exact ⟨rfl, rfl⟩

theorem Layout.appendEntry (h : Layout codec pending s segs) {e : Entry} (he : Storable codec e)
    (hroom : HasRoom s e.index (frame codec e).length)
    (hnew : ∀ x ∈ framesOf segs, x.index < e.index) (hfloor : s.firstValidIndex < e.index) :
    ∃ s' segs', FileLogStore.appendEntry codec s e = .ok s' ∧ Layout codec pending s' segs' ∧
      (Ordered segs → Ordered segs') ∧ (∀ g ∈ segs', g.1 ≤ e.index) ∧
      framesOf segs' = framesOf segs ++ [e] ∧ s'.firstValidIndex = s.firstValidIndex ∧
      s'.snapshotAnchor = s.snapshotAnchor := by
  obtain ⟨front, g, hready, harranged, hordered, hbases, hframes, hfirst, hanchor⟩ :=
    h.prepare he hroom hnew (by omega)
  obtain ⟨hfirst', hanchor'⟩ := writeFrame_frame (s.prepareSegment e.index (frame codec e).length)
    (nameOf g) (frame codec e) e
  refine ⟨_, front ++ [(g.1, g.2 ++ [e])], ?_, hready.write he harranged (hfirst ▸ hfloor),
    hordered, fun g' hg' => ?_, ?_, hfirst'.trans hfirst, hanchor'.trans hanchor⟩
  · rw [FileLogStore.appendEntry, he.encodeFrame]
    dsimp only
    rw [hready.writer]
  · rcases List.mem_append.mp hg' with hg' | hg'
    · exact hbases g' (List.mem_append_left _ hg')
    · rw [List.mem_singleton.mp hg']
      exact hbases g (by simp)
  · rw [framesOf_concat, hframes]

/-- A batch above everything in the files is appended, if there is room for its first frame. -/
theorem Layout.append (h : Layout codec pending s segs) {entries : List Entry}
    (hstorable : ∀ e ∈ entries, Storable codec e)
    (hascending : (framesOf segs ++ entries).Pairwise (fun a b => a.index < b.index))
    (hfloor : ∀ e ∈ entries, s.firstValidIndex < e.index)
    (hroom : ∀ e ∈ entries.head?, HasRoom s e.index (frame codec e).length) :
    ∃ s' segs', s.append codec entries = .ok s' ∧ Layout codec pending s' segs' ∧
      (Ordered segs → Ordered segs') ∧ framesOf segs' = framesOf segs ++ entries ∧
      s'.firstValidIndex = s.firstValidIndex ∧ s'.snapshotAnchor = s.snapshotAnchor := by
  induction entries generalizing s segs with
  | nil => exact ⟨s, segs, rfl, h, id, (List.append_nil _).symm, rfl, rfl⟩
  | cons e rest ih =>
    obtain ⟨he, hrest⟩ := List.forall_mem_cons.mp hstorable
    obtain ⟨hfe, hfrest⟩ := List.forall_mem_cons.mp hfloor
    obtain ⟨-, htail, hcross⟩ := List.pairwise_append.mp hascending
    have hnew : ∀ x ∈ framesOf segs, x.index < e.index :=
      fun x hx => hcross x hx e List.mem_cons_self
    obtain ⟨s₁, segs₁, happend, hlayout, hordered, hbases, hframes, hfirst, hanchor⟩ :=
      h.appendEntry he (hroom e rfl) hnew hfe
    have hnext : (framesOf segs₁ ++ rest).Pairwise (fun a b => a.index < b.index) := by
      rw [hframes, List.append_assoc]
      exact hascending
    have hroom' : ∀ x ∈ rest.head?, HasRoom s₁ x.index (frame codec x).length := by
      intro x hx
      have hlt := (List.pairwise_cons.mp htail).1 x (List.mem_of_mem_head? hx)
      exact hasRoom_of_lt hlayout.segments (fun g hg => (hbases g hg).trans_lt hlt) _
    obtain ⟨s₂, segs₂, hok, hlayout', hordered', hframes', hfirst', hanchor'⟩ :=
      ih hlayout hrest hnext (fun x hx => hfirst ▸ hfrest x hx) hroom'
    refine ⟨s₂, segs₂, ?_, hlayout', fun hall => hordered' (hordered hall), ?_,
      hfirst'.trans hfirst, hanchor'.trans hanchor⟩
    · rw [FileLogStore.append, List.foldlM_cons, happend]
      exact hok
    · rw [hframes', hframes, List.append_assoc]
      rfl

/-- Where every segment is named by its first frame there is always room. -/
theorem Image.append (h : Image codec s segs) {entries : List Entry}
    (hstorable : ∀ e ∈ entries, Storable codec e)
    (hascending : (framesOf segs ++ entries).Pairwise (fun a b => a.index < b.index))
    (hfloor : ∀ e ∈ entries, s.firstValidIndex < e.index) :
    ∃ s' segs', s.append codec entries = .ok s' ∧ Image codec s' segs' ∧
      framesOf segs' = framesOf segs ++ entries ∧ s'.firstValidIndex = s.firstValidIndex ∧
      s'.snapshotAnchor = s.snapshotAnchor := by
  have hroom : ∀ e ∈ entries.head?, HasRoom s e.index (frame codec e).length := by
    intro e he
    have hnew : ∀ x ∈ framesOf segs, x.index < e.index := fun x hx =>
      (List.pairwise_append.mp hascending).2.2 x hx e (List.mem_of_mem_head? he)
    exact hasRoom_of_lt h.segments (fun g hg => h.ordered.base_lt hnew hg) _
  obtain ⟨s', segs', hok, hlayout, hordered, hsame⟩ :=
    h.layout.append hstorable hascending hfloor hroom
  exact ⟨s', segs', hok, hlayout.image (hordered h.ordered), hsame⟩

/-! ## Truncating -/

theorem find_offsetItems {floor k start index : ℕ} {es : List Entry} {found : ℕ × (ℕ × ℕ)}
    (h : (offsetItems floor k (located codec start es)).find? (fun p => index ≤ p.1) = some found) :
    ∃ before x after, es = before ++ x :: after ∧
      found = (x.index, (k, start + (stream (frame codec) before).length)) ∧ index ≤ x.index ∧
      floor < x.index ∧ ∀ y ∈ before, floor < y.index → y.index < index := by
  induction es generalizing start with
  | nil => cases h
  | cons e rest ih =>
    by_cases hhit : floor < e.index ∧ index ≤ e.index
    · refine ⟨[], e, rest, rfl, ?_, hhit.2, hhit.1, fun y hy => absurd hy List.not_mem_nil⟩
      simp only [offsetItems, located, List.filter_cons, decide_eq_true hhit.1, if_true,
        List.map_cons, List.find?_cons, decide_eq_true hhit.2, Option.some.injEq] at h
      exact h.symm
    · have hrest : (offsetItems floor k (located codec (start + (frame codec e).length) rest)).find?
          (fun p => index ≤ p.1) = some found := by
        by_cases hlive : floor < e.index
        · have hbelow : ¬index ≤ e.index := fun hle => hhit ⟨hlive, hle⟩
          simpa only [offsetItems, located, List.filter_cons, decide_eq_true hlive, if_true,
            List.map_cons, List.find?_cons, decide_eq_false hbelow] using h
        · simpa only [offsetItems, located, List.filter_cons, decide_eq_false hlive,
            Bool.false_eq_true, if_false] using h
      obtain ⟨before, x, after, rfl, hfound, hindex, hfloor, hbefore⟩ := ih hrest
      refine ⟨e :: before, x, after, rfl, ?_, hindex, hfloor, fun y hy hy' => ?_⟩
      · rw [hfound, stream_cons, List.length_append, Nat.add_assoc]
      · rcases List.mem_cons.mp hy with rfl | hy
        · exact not_le.mp fun hle => hhit ⟨hy', hle⟩
        · exact hbefore y hy hy'

theorem below_of_find_none {floor k start index : ℕ} {es : List Entry}
    (h : (offsetItems floor k (located codec start es)).find? (fun p => index ≤ p.1) = none) :
    ∀ y ∈ es, floor < y.index → y.index < index := by
  intro y hy hlive
  have hkey : y.index ∈ (offsetItems floor k (located codec start es)).map Prod.fst := by
    rw [offsetItems_keys]
    exact List.mem_map_of_mem (List.mem_filter.mpr ⟨hy, decide_eq_true hlive⟩)
  obtain ⟨p, hp, hpy⟩ := List.mem_map.mp hkey
  have hnot := List.find?_eq_none.mp h p hp
  rw [hpy] at hnot
  simpa using hnot

theorem find_offsetsFrom {floor k index : ℕ} {found : ℕ × (ℕ × ℕ)}
    (h : (offsetsFrom codec floor k segs).find? (fun p => index ≤ p.1) = some found) :
    ∃ front base before x after back, segs = front ++ (base, before ++ x :: after) :: back ∧
      found = (x.index, (k + front.length, (stream (frame codec) before).length)) ∧
      index ≤ x.index ∧ floor < x.index ∧
      ∀ y ∈ framesOf front ++ before, floor < y.index → y.index < index := by
  induction segs generalizing k with
  | nil => cases h
  | cons g rest ih =>
    rw [offsetsFrom, List.find?_append] at h
    cases hfirst : (offsetItems floor k (located codec 0 g.2)).find? (fun p => index ≤ p.1) with
    | some p =>
      rw [hfirst, Option.some_or] at h
      obtain ⟨before, x, after, hes, hfound, hindex, hfloor, hbefore⟩ := find_offsetItems hfirst
      refine ⟨[], g.1, before, x, after, rest, by rw [← hes]; rfl, ?_, hindex, hfloor, ?_⟩
      · rw [← Option.some.inj h, hfound, Nat.zero_add]
        rfl
      · simpa [framesOf] using hbefore
    | none =>
      rw [hfirst, Option.none_or] at h
      obtain ⟨front, base, before, x, after, back, rfl, hfound, hindex, hfloor, hbefore⟩ := ih h
      refine ⟨g :: front, base, before, x, after, back, rfl, ?_, hindex, hfloor, ?_⟩
      · rw [hfound, List.length_cons, Nat.add_assoc, Nat.add_comm 1]
      · intro y hy hlive
        rw [framesOf, List.flatMap_cons, List.append_assoc] at hy
        rcases List.mem_append.mp hy with hy | hy
        · exact below_of_find_none hfirst y hy hlive
        · exact hbefore y hy hlive

theorem dropEntries_eq (h : s.offsets.map Prod.fst = s.entries.map Prod.fst) (p : ℕ → Bool) :
    s.dropEntries p = { s with
      entries := s.entries.filter (fun e => !p e.1)
      offsets := s.offsets.filter (fun o => !p o.1) } := by
  have hkeys (k : ℕ) (hk : k ∈ s.entries.map Prod.fst) :
      ((s.entries.filter (fun e => p e.1)).map Prod.fst).contains k = p k := by
    rw [Bool.eq_iff_iff, List.contains_iff_mem]
    constructor
    · intro hmem
      obtain ⟨e, he, rfl⟩ := List.mem_map.mp hmem
      exact (List.mem_filter.mp he).2
    · intro hp
      obtain ⟨e, he, rfl⟩ := List.mem_map.mp hk
      exact List.mem_map_of_mem (List.mem_filter.mpr ⟨he, hp⟩)
  have hentries : s.entries.filter (fun e =>
      !((s.entries.filter (fun e => p e.1)).map Prod.fst).contains e.1) =
      s.entries.filter (fun e => !p e.1) :=
    List.filter_congr fun e he => by rw [hkeys e.1 (List.mem_map_of_mem he)]
  have hoffsets : s.offsets.filter (fun o =>
      !((s.entries.filter (fun e => p e.1)).map Prod.fst).contains o.1) =
      s.offsets.filter (fun o => !p o.1) :=
    List.filter_congr fun o ho => by rw [hkeys o.1 (h ▸ List.mem_map_of_mem ho)]
  rw [FileLogStore.dropEntries, hentries, hoffsets]

theorem Mapped.same_keys (h : Mapped codec pending s segs) :
    s.offsets.map Prod.fst = s.entries.map Prod.fst := by
  rw [h.offsets, offsetsFrom_keys, h.entries, liveItems_eq, List.map_map]
  rfl

def keptSegments (front : List Segment) (base : ℕ) (before : List Entry) : List Segment :=
  if before = [] then front else front ++ [(base, before)]

theorem framesOf_kept (front : List Segment) (base : ℕ) (before : List Entry) :
    framesOf (keptSegments front base before) = framesOf front ++ before := by
  rw [keptSegments]
  split_ifs with hbefore
  · rw [hbefore, List.append_nil]
  · rw [framesOf_append, framesOf_singleton]

theorem framesOf_split (front : List Segment) (base : ℕ) (before after : List Entry)
    (back : List Segment) :
    framesOf (front ++ (base, before ++ after) :: back) =
      framesOf (keptSegments front base before) ++ (after ++ framesOf back) := by
  rw [framesOf_kept]
  simp [framesOf]

theorem offsetsFrom_split (floor : ℕ) (front : List Segment) (base : ℕ) (before after : List Entry)
    (back : List Segment) : ∃ cut,
    offsetsFrom codec floor 0 (front ++ (base, before ++ after) :: back) =
      offsetsFrom codec floor 0 (keptSegments front base before) ++ cut := by
  have hkept : offsetsFrom codec floor 0 (keptSegments front base before) =
      offsetsFrom codec floor 0 front ++ offsetItems floor front.length
        (located codec 0 before) := by
    rw [keptSegments]
    split_ifs with hbefore
    · simp [hbefore, located, offsetItems]
    · rw [offsetsFrom_append]
      simp [offsetsFrom]
  refine ⟨offsetItems floor front.length
    (located codec (stream (frame codec) before).length after) ++
      offsetsFrom codec floor (front.length + 1) back, ?_⟩
  rw [hkept, offsetsFrom_append, offsetsFrom, located_append]
  simp [offsetItems]

theorem Ordered.kept {front back : List Segment} {base : ℕ} {before after : List Entry}
    (h : Ordered (front ++ (base, before ++ after) :: back)) :
    Ordered (keptSegments front base before) := by
  have hframes := framesOf_split front base before after back
  refine ⟨fun g hg => ?_, ?_, fun e he => h.positive e ?_⟩
  · rw [keptSegments] at hg
    split_ifs at hg with hbefore
    · exact h.based g (List.mem_append_left _ hg)
    · rcases List.mem_append.mp hg with hg | hg
      · exact h.based g (List.mem_append_left _ hg)
      · obtain ⟨x, rest, hx, hbase⟩ := h.based (base, before ++ after) (by simp)
        obtain ⟨y, before', rfl⟩ := List.exists_cons_of_ne_nil hbefore
        rw [List.mem_singleton.mp hg]
        exact ⟨y, before', rfl, hbase.trans (congrArg Entry.index (List.cons.inj hx).1.symm)⟩
  · have hascending := h.ascending
    rw [hframes] at hascending
    exact (List.pairwise_append.mp hascending).1
  · rw [hframes]
    exact List.mem_append_left _ he

theorem Arranged.kept {front back : List Segment} {base : ℕ} {before after : List Entry}
    (h : Arranged (front ++ (base, before ++ after) :: back)) :
    Arranged (front ++ [(base, before)]) := by
  obtain ⟨hfront, -, hlast⟩ := List.pairwise_append.mp h.named
  have hframes : framesOf (front ++ (base, before ++ after) :: back) =
      framesOf (front ++ [(base, before)]) ++ (after ++ framesOf back) := by simp [framesOf]
  refine ⟨?_, fun e he => h.positive e ?_, ?_, fun g hg e he => ?_⟩
  · have hascending := h.ascending
    rw [hframes] at hascending
    exact (List.pairwise_append.mp hascending).1
  · rw [hframes]
    exact List.mem_append_left _ he
  · refine List.pairwise_append.mpr ⟨hfront, List.pairwise_singleton _ _, fun g hg g' hg' => ?_⟩
    rw [List.mem_singleton.mp hg']
    exact hlast g hg (base, before ++ after) List.mem_cons_self
  · rcases List.mem_append.mp hg with hg | hg
    · exact h.based g (List.mem_append_left _ hg) e he
    · rw [List.mem_singleton.mp hg] at he ⊢
      exact h.based (base, before ++ after) (by simp) e (List.mem_append_left _ he)

theorem Arranged.sublist (h : Arranged segs) {segs' : List Segment} (hsub : segs'.Sublist segs) :
    Arranged segs' :=
  ⟨h.ascending.sublist (hsub.flatMap Prod.snd),
    fun e he => h.positive e ((hsub.flatMap _).subset he), h.named.sublist hsub,
    fun g hg => h.based g (hsub.subset hg)⟩

theorem Arranged.keptSegments {front back : List Segment} {base : ℕ} {before after : List Entry}
    (h : Arranged (front ++ (base, before ++ after) :: back)) :
    Arranged (keptSegments front base before) := by
  rw [FileLogRefinement.keptSegments]
  split_ifs
  · exact h.kept.sublist (List.sublist_append_left _ _)
  · exact h.kept

theorem stream_length_zero {es : List Entry} (hes : ∀ e ∈ es, Storable codec e) :
    (stream (frame codec) es).length = 0 ↔ es = [] := by
  cases es with
  | nil => simp
  | cons e rest =>
    have hpos := (hes e List.mem_cons_self).frame_pos
    rw [stream_cons, List.length_append]
    simp only [reduceCtorEq, iff_false]
    omega

theorem holds_cut {dir : Directory} {front : List Segment} {base : ℕ} {before after : List Entry}
    (h : Holds codec dir (front ++ [(base, before ++ after)])) :
    dir.setLen (nameOf (base, before)) (stream (frame codec) before).length =
        .ok (dir.write (nameOf (base, before)) (stream (frame codec) before)) ∧
      Holds codec (dir.write (nameOf (base, before)) (stream (frame codec) before))
        (front ++ [(base, before)]) := by
  have hread := h.read (g := (base, before ++ after)) (by simp)
  rw [stream_append] at hread
  obtain ⟨hsound, hfiles⟩ := h
  rw [List.map_append] at hfiles
  refine ⟨setLen_front hread, fun g hg => ?_, ?_⟩
  · rcases List.mem_append.mp hg with hg | hg
    · exact hsound g (List.mem_append_left _ hg)
    · have hbound := hsound (base, before ++ after) (by simp)
      rw [List.mem_singleton.mp hg]
      exact ⟨hbound.base, fun e he => hbound.storable e (List.mem_append_left _ he)⟩
  · rw [List.map_append]
    exact walFiles_overwrite hfiles (isSegment_nameOf _) _

theorem boundary_segments {front back : List Segment} {base : ℕ} {before after : List Entry}
    (h : s.segments = (front ++ (base, before ++ after) :: back).map infoOf) :
    s.segments[front.length]? = some ⟨base, nameOf (base, before)⟩ ∧
      (s.segments.drop (front.length + 1)).map SegmentInfo.path = back.map nameOf := by
  constructor
  · rw [h]
    simp [infoOf, nameOf]
  · rw [h, ← List.map_drop, List.map_map]
    simp [infoOf, Function.comp_def]

/-- The boundary segment is cut where a frame begins, and every later one removed. -/
theorem cutSegment_eq {front back : List Segment} {base : ℕ} {before after : List Entry}
    {floor : ℕ} {anchor : Option (ℕ × ℕ)}
    (hholds : Holds codec s.dir (front ++ (base, before ++ after) :: back))
    (hside : Sidecars s.dir floor anchor pending)
    (hsegs : s.segments = (front ++ (base, before ++ after) :: back).map infoOf) :
    ∃ dir, s.cutSegment front.length (stream (frame codec) before).length =
        .ok { s with dir, segments := (keptSegments front base before).map infoOf } ∧
      Holds codec dir (keptSegments front base before) ∧ Sidecars dir floor anchor pending := by
  obtain ⟨hget, htail⟩ := boundary_segments hsegs
  have htake : s.segments.take (front.length + 1) = (front ++ [(base, before)]).map infoOf := by
    rw [hsegs, ← List.map_take]
    simp [List.take_append, infoOf, nameOf]
  have hremoved : Holds codec ((back.map nameOf).foldl Directory.remove s.dir)
      (front ++ [(base, before ++ after)]) := by
    have hall := @Holds.removeAll codec s.dir (front ++ [(base, before ++ after)]) back []
    rw [List.append_nil, List.append_nil, List.append_assoc] at hall
    exact hall hholds
  obtain ⟨hset, hcut⟩ := holds_cut hremoved
  have hside' := (hside.removeAll back).write (isSegment_nameOf (base, before))
    (stream (frame codec) before)
  have hstorable : ∀ e ∈ before, Storable codec e := (hcut.1 (base, before) (by simp)).storable
  rw [FileLogStore.cutSegment, hget]
  dsimp only
  rw [htail, htake]
  by_cases hbefore : before = []
  · refine ⟨_, ?_, ?_, hside'.remove (isSegment_nameOf (base, before))⟩
    · show (Directory.setLen _ (nameOf (base, before)) _ >>= _) = _
      rw [hset]
      show (if _ then _ else _) = _
      rw [if_pos ((stream_length_zero hstorable).mpr hbefore), keptSegments, if_pos hbefore,
        List.map_append, List.map_singleton, List.dropLast_concat]
    · rw [keptSegments, if_pos hbefore]
      have hall := @Holds.removeAll codec _ front [(base, before)] [] hcut
      rwa [List.append_nil] at hall
  · refine ⟨_, ?_, ?_, hside'⟩
    · show (Directory.setLen _ (nameOf (base, before)) _ >>= _) = _
      rw [hset]
      show (if _ then _ else _) = _
      rw [if_neg (fun hzero => hbefore ((stream_length_zero hstorable).mp hzero)), keptSegments,
        if_neg hbefore]
    · rw [keptSegments, if_neg hbefore]
      exact hcut

theorem rebuild_parts (hholds : Holds codec s.dir segs)
    (hside : Sidecars s.dir s.firstValidIndex s.snapshotAnchor pending) (harranged : Arranged segs)
    (hentries : s.entries = liveItems s.firstValidIndex (framesOf segs)) :
    Holds codec s.rebuildEpochStarts.persistEpochCheckpoint.dir segs ∧
      Sidecars s.rebuildEpochStarts.persistEpochCheckpoint.dir s.firstValidIndex s.snapshotAnchor
        pending ∧
      s.rebuildEpochStarts.persistEpochCheckpoint.epochStarts =
        recordEpochs [] (live s.firstValidIndex segs) := by
  have hstarts : recordEpochs [] (s.entries.map Prod.snd) =
      recordEpochs [] (live s.firstValidIndex segs) := by
    rw [hentries, liveItems_eq, List.map_map]
    exact congrArg (recordEpochs []) (List.map_id _)
  refine ⟨⟨hholds.1, ?_⟩, ?_, hstarts⟩
  · show (s.dir.persist epochCheckpointFile _).walFiles = _
    rw [walFiles_persist (by decide) (by decide), hholds.2]
  · refine hside.persistCheckpoint ?_
    show Checkpointed (recordEpochs [] (s.entries.map Prod.snd))
    rw [hstarts]
    exact harranged.checkpointed hholds _

theorem filter_split {α : Type} {p : α → Bool} {l r : List α} (hl : ∀ a ∈ l, p a = true)
    (hr : ∀ a ∈ r, p a = false) : (l ++ r).filter p = l := by
  have hnone : r.filter p = [] := List.filter_eq_nil_iff.mpr fun a ha => by rw [hr a ha]; decide
  rw [List.filter_append, List.filter_eq_self.mpr hl, hnone, List.append_nil]

theorem Mapped.clearTruncateMarker (h : Mapped codec pending s segs) :
    Mapped codec none s.clearTruncateMarker segs := by
  refine ⟨⟨h.holds.1, ?_⟩, h.side.clearMarker, h.arranged, h.segments, h.writer, h.size, h.entries,
    h.offsets⟩
  show (s.dir.remove truncateMarkerFile).walFiles = _
  rw [walFiles_remove_other (by decide), h.holds.2]

theorem below_of_find_offsets_none {floor k index : ℕ}
    (h : (offsetsFrom codec floor k segs).find? (fun p => index ≤ p.1) = none) :
    ∀ y ∈ live floor segs, y.index < index := by
  intro y hy
  have hkey : y.index ∈ (offsetsFrom codec floor k segs).map Prod.fst := by
    rw [offsetsFrom_keys]
    exact List.mem_map_of_mem hy
  obtain ⟨p, hp, hpy⟩ := List.mem_map.mp hkey
  have hnot := List.find?_eq_none.mp h p hp
  rw [hpy] at hnot
  simpa using hnot

theorem Layout.clearTruncateMarker (h : Layout codec pending s segs) :
    Layout codec none s.clearTruncateMarker segs :=
  ⟨h.toMapped.clearTruncateMarker, h.epochs⟩

/-- The end of a truncation before its marker goes: the epochs are rebuilt and the writer is
opened. -/
theorem settle (hholds : Holds codec s.dir segs)
    (hside : Sidecars s.dir s.firstValidIndex s.snapshotAnchor pending) (harranged : Arranged segs)
    (hsegs : s.segments = segs.map infoOf)
    (hentries : s.entries = liveItems s.firstValidIndex (framesOf segs))
    (hoffsets : s.offsets = offsetsFrom codec s.firstValidIndex 0 segs) :
    ∃ s', s.rebuildEpochStarts.persistEpochCheckpoint.reopenActiveWriter = .ok s' ∧
      Layout codec pending s' segs ∧ s'.firstValidIndex = s.firstValidIndex ∧
      s'.snapshotAnchor = s.snapshotAnchor := by
  obtain ⟨hholds', hside', hepochs⟩ := rebuild_parts hholds hside harranged hentries
  exact ⟨_, reopenActiveWriter_eq hholds' hsegs,
    ⟨⟨hholds', hside', harranged, hsegs, rfl, rfl, hentries, hoffsets⟩, hepochs⟩, rfl, rfl⟩

section Cut

variable {front back : List Segment} {base index floor : ℕ} {before after : List Entry} {x : Entry}

theorem Arranged.above_cut (h : Arranged (front ++ (base, before ++ x :: after) :: back))
    (hx : index ≤ x.index) : ∀ y ∈ x :: after ++ framesOf back, index ≤ y.index := by
  intro y hy
  have hascending := h.ascending
  rw [framesOf_split] at hascending
  obtain ⟨-, hrest, -⟩ := List.pairwise_append.mp hascending
  rcases List.mem_cons.mp hy with rfl | hy
  · exact hx
  · exact hx.trans ((List.pairwise_cons.mp hrest).1 y hy).le

theorem live_split (floor : ℕ) (front : List Segment) (base : ℕ) (before after : List Entry)
    (back : List Segment) : live floor (front ++ (base, before ++ after) :: back) =
      live floor (keptSegments front base before) ++
        (after ++ framesOf back).filter (fun e => floor < e.index) := by
  rw [live, framesOf_split, List.filter_append, live]

theorem offsetsFrom_cut
    (hbelow : ∀ y ∈ live floor (keptSegments front base before), y.index < index)
    (habove : ∀ y ∈ after ++ framesOf back, index ≤ y.index) :
    (offsetsFrom codec floor 0 (front ++ (base, before ++ after) :: back)).filter
        (fun o => !decide (index ≤ o.1)) =
      offsetsFrom codec floor 0 (keptSegments front base before) := by
  obtain ⟨cut, hcut⟩ := @offsetsFrom_split codec floor front base before after back
  have hkept := @offsetsFrom_keys codec floor 0 (keptSegments front base before)
  have hkeys := @offsetsFrom_keys codec floor 0 (front ++ (base, before ++ after) :: back)
  rw [hcut, List.map_append, live_split, List.map_append, hkept] at hkeys
  have hcutKeys := List.append_cancel_left hkeys
  rw [hcut]
  refine filter_split (fun o ho => ?_) (fun o ho => ?_)
  · have hkey := List.mem_map_of_mem (f := Prod.fst) ho
    rw [hkept] at hkey
    obtain ⟨y, hy, hyo⟩ := List.mem_map.mp hkey
    have hlt := hbelow y hy
    simp only [Bool.not_eq_true', decide_eq_false_iff_not]
    omega
  · have hkey := List.mem_map_of_mem (f := Prod.fst) ho
    rw [hcutKeys] at hkey
    obtain ⟨y, hy, hyo⟩ := List.mem_map.mp hkey
    have hle := habove y (List.mem_filter.mp hy).1
    simp only [Bool.not_eq_false', decide_eq_true_eq]
    omega

/-- The store once a suffix that begins at a frame is cut off, with the marker still there. -/
theorem Mapped.cutParts
    (h : Mapped codec pending s (front ++ (base, before ++ x :: after) :: back))
    (hindex : index ≤ u64Max) (hx : index ≤ x.index)
    (hbelow : ∀ y ∈ framesOf front ++ before, s.firstValidIndex < y.index → y.index < index) :
    ∃ dir cut,
    FileLogStore.cutSegment { s.persistTruncateMarker (index - 1) with activeWriter := none }
        front.length (stream (frame codec) before).length = .ok cut ∧ cut.dir = dir ∧
      cut.dropEntries (fun k => index ≤ k) = { s with
        activeWriter := none, dir, segments := (keptSegments front base before).map infoOf
        entries := liveItems s.firstValidIndex (framesOf (keptSegments front base before))
        offsets := offsetsFrom codec s.firstValidIndex 0 (keptSegments front base before) } ∧
      Holds codec dir (keptSegments front base before) ∧
      Sidecars dir s.firstValidIndex s.snapshotAnchor (some (index - 1)) ∧
      live s.firstValidIndex (keptSegments front base before) =
        (live s.firstValidIndex (front ++ (base, before ++ x :: after) :: back)).filter
          (fun e => e.index < index) := by
  have hmarked : Holds codec (s.persistTruncateMarker (index - 1)).dir
      (front ++ (base, before ++ x :: after) :: back) := by
    refine ⟨h.holds.1, ?_⟩
    show (s.dir.persist truncateMarkerFile _).walFiles = _
    rw [walFiles_persist (by decide) (by decide), h.holds.2]
  have hfits : index - 1 ≤ u64Max := by omega
  have hside := h.side.persistMarker hfits
  obtain ⟨dir, hcut, hholds, hside'⟩ := @cutSegment_eq codec
    { s.persistTruncateMarker (index - 1) with activeWriter := none } _ front back base before
    (x :: after) _ _ hmarked hside h.segments
  have habove := h.arranged.above_cut hx
  have hkeptBelow : ∀ y ∈ live s.firstValidIndex (keptSegments front base before),
      y.index < index := by
    intro y hy
    obtain ⟨hmem, hfloor⟩ := live_subset hy
    rw [framesOf_kept] at hmem
    exact hbelow y hmem hfloor
  have hfilter : (live s.firstValidIndex (front ++ (base, before ++ x :: after) :: back)).filter
      (fun e => e.index < index) = live s.firstValidIndex (keptSegments front base before) := by
    rw [live_split]
    refine filter_split (fun y hy => decide_eq_true (hkeptBelow y hy)) (fun y hy => ?_)
    exact decide_eq_false (not_lt.mpr (habove y (List.mem_filter.mp hy).1))
  have hentries : s.entries.filter (fun e => !decide (index ≤ e.1)) =
      liveItems s.firstValidIndex (framesOf (keptSegments front base before)) := by
    rw [h.entries, liveItems_eq, List.filter_map, liveItems_eq, ← hfilter]
    refine congrArg (List.map _) (List.filter_congr fun e _ => ?_)
    show (!decide (index ≤ e.index)) = decide (e.index < index)
    rw [← decide_not]
    exact decide_eq_decide.mpr not_le
  have hoffsets : s.offsets.filter (fun o => !decide (index ≤ o.1)) =
      offsetsFrom codec s.firstValidIndex 0 (keptSegments front base before) := by
    rw [h.offsets]
    exact offsetsFrom_cut hkeptBelow habove
  have hdrop := @dropEntries_eq { s.persistTruncateMarker (index - 1) with
    activeWriter := none, dir, segments := (keptSegments front base before).map infoOf }
    h.same_keys (fun k => index ≤ k)
  refine ⟨dir, _, hcut, rfl, hdrop.trans ?_, hholds, hside', hfilter.symm⟩
  dsimp only
  rw [← hentries, ← hoffsets]
  rfl

theorem Mapped.cutFrom (h : Mapped codec pending s (front ++ (base, before ++ x :: after) :: back))
    (hindex : index ≤ u64Max) (hx : index ≤ x.index)
    (hbelow : ∀ y ∈ framesOf front ++ before, s.firstValidIndex < y.index → y.index < index) :
    ∃ cut s', FileLogStore.cutSegment
        { s.persistTruncateMarker (index - 1) with activeWriter := none } front.length
        (stream (frame codec) before).length = .ok cut ∧
      (cut.dropEntries
        (fun k => index ≤ k)).rebuildEpochStarts.persistEpochCheckpoint.reopenActiveWriter =
          .ok s' ∧
      Layout codec (some (index - 1)) s' (keptSegments front base before) ∧
      live s.firstValidIndex (keptSegments front base before) =
        (live s.firstValidIndex (front ++ (base, before ++ x :: after) :: back)).filter
          (fun e => e.index < index) ∧
      s'.firstValidIndex = s.firstValidIndex ∧ s'.snapshotAnchor = s.snapshotAnchor := by
  obtain ⟨dir, cut, hcut, -, hdrop, hholds, hside, hlive⟩ := h.cutParts hindex hx hbelow
  obtain ⟨s', hok, hlayout, hsame⟩ := @settle codec { s with
      activeWriter := none, dir, segments := (keptSegments front base before).map infoOf
      entries := liveItems s.firstValidIndex (framesOf (keptSegments front base before))
      offsets := offsetsFrom codec s.firstValidIndex 0 (keptSegments front base before) } _ _
        hholds hside
    h.arranged.keptSegments rfl rfl rfl
  exact ⟨cut, s', hcut, by rw [hdrop, hok], hlayout, hlive, hsame⟩

end Cut

/-- `truncate_from` leaves the live entries below the index. -/
theorem Mapped.truncateFrom (h : Mapped codec pending s segs) {index : ℕ}
    (hindex : index ≤ u64Max) : ∃ s' segs', s.truncateFrom index = .ok s' ∧
    Mapped codec none s' segs' ∧
      (s'.epochStarts = recordEpochs [] (live s'.firstValidIndex segs') ∨
        s'.epochStarts = s.epochStarts ∧ segs' = segs) ∧
      (Ordered segs → Ordered segs') ∧
      live s.firstValidIndex segs' = (live s.firstValidIndex segs).filter
        (fun e => e.index < index) ∧
      s'.firstValidIndex = s.firstValidIndex ∧ s'.snapshotAnchor = s.snapshotAnchor := by
  cases hfind : s.offsets.find? (fun p => index ≤ p.1) with
  | none =>
    refine ⟨_, segs, by rw [FileLogStore.truncateFrom, hfind], h.clearTruncateMarker,
      .inr ⟨rfl, rfl⟩, id, ?_, rfl, rfl⟩
    rw [h.offsets] at hfind
    exact (List.filter_eq_self.mpr fun e he =>
      decide_eq_true (below_of_find_offsets_none hfind e he)).symm
  | some found =>
    have hfind' := hfind
    rw [h.offsets] at hfind'
    obtain ⟨front, base, before, x, after, back, rfl, rfl, hx, -, hbelow⟩ := find_offsetsFrom hfind'
    rw [Nat.zero_add] at hfind
    obtain ⟨cut, s', hcut, hok, hlayout, hlive, hsame⟩ := h.cutFrom hindex hx hbelow
    have hcleared := hlayout.clearTruncateMarker
    refine ⟨_, _, ?_, hcleared.toMapped, .inl hcleared.epochs, Ordered.kept, hlive, hsame⟩
    rw [FileLogStore.truncateFrom, hfind]
    show (FileLogStore.cutSegment _ _ _ >>= _) = _
    rw [hcut]
    exact congrArg (· >>= fun reopened => .ok (FileLogStore.clearTruncateMarker reopened)) hok

theorem Layout.truncateFrom (h : Layout codec pending s segs) {index : ℕ}
    (hindex : index ≤ u64Max) : ∃ s' segs', s.truncateFrom index = .ok s' ∧
    Layout codec none s' segs' ∧
      (Ordered segs → Ordered segs') ∧
      live s.firstValidIndex segs' = (live s.firstValidIndex segs).filter
        (fun e => e.index < index) ∧
      s'.firstValidIndex = s.firstValidIndex ∧ s'.snapshotAnchor = s.snapshotAnchor := by
  obtain ⟨s', segs', hok, hmapped, hepochs, hordered, hlive, hfirst, hanchor⟩ :=
    h.toMapped.truncateFrom hindex
  refine ⟨s', segs', hok, ⟨hmapped, ?_⟩, hordered, hlive, hfirst, hanchor⟩
  rcases hepochs with hepochs | ⟨hsame, rfl⟩
  · exact hepochs
  · rw [hsame, h.epochs, hfirst]

/-! ## Purging -/

theorem offsetItems_raise {floor through : ℕ} (h : floor ≤ through) (k start : ℕ)
    (es : List Entry) : (offsetItems floor k (located codec start es)).filter
      (fun o => !decide (o.1 ≤ through)) = offsetItems through k (located codec start es) := by
  induction es generalizing start with
  | nil => rfl
  | cons e rest ih =>
    have hrest := ih (start + (frame codec e).length)
    simp only [offsetItems] at hrest
    by_cases hlive : through < e.index
    · have hlow : floor < e.index := by omega
      have hkeep : ¬e.index ≤ through := by omega
      simp only [offsetItems, located, List.filter_cons, hlive, hlow, hkeep, decide_true,
        decide_false, if_true, List.map_cons, Bool.not_false, hrest]
    · have hdrop : e.index ≤ through := by omega
      by_cases hlow : floor < e.index
      · simp only [offsetItems, located, List.filter_cons, hlive, hlow, hdrop, decide_true,
          decide_false, if_true, List.map_cons, Bool.not_true, Bool.false_eq_true, if_false, hrest]
      · simp only [offsetItems, located, List.filter_cons, hlive, hlow, decide_false,
          Bool.false_eq_true, if_false, hrest]

theorem offsetsFrom_raise {floor through : ℕ} (h : floor ≤ through) (k : ℕ) (segs : List Segment) :
    (offsetsFrom codec floor k segs).filter (fun o => !decide (o.1 ≤ through)) =
      offsetsFrom codec through k segs := by
  induction segs generalizing k with
  | nil => rfl
  | cons g rest ih => rw [offsetsFrom, List.filter_append, offsetItems_raise h, ih, offsetsFrom]

theorem live_raise {floor through : ℕ} (h : floor ≤ through) (segs : List Segment) :
    (live floor segs).filter (fun e => through < e.index) = live through segs := by
  rw [live, List.filter_filter, live]
  refine List.filter_congr fun e _ => ?_
  by_cases hlive : through < e.index
  · have hlow : floor < e.index := by omega
    simp [hlive, hlow]
  · simp [hlive]

theorem liveItems_raise {floor through : ℕ} (h : floor ≤ through) (segs : List Segment) :
    (liveItems floor (framesOf segs)).filter (fun p => !decide (p.1 ≤ through)) =
      liveItems through (framesOf segs) := by
  rw [liveItems_eq, List.filter_map, liveItems_eq, ← live_raise h]
  refine congrArg (List.map _) (List.filter_congr fun e _ => ?_)
  show (!decide (e.index ≤ through)) = decide (through < e.index)
  rw [← decide_not]
  exact decide_eq_decide.mpr not_le

theorem offsetsFrom_segments {floor k : ℕ} {o : ℕ × (ℕ × ℕ)}
    (h : o ∈ offsetsFrom codec floor k segs) : k ≤ o.2.1 := by
  induction segs generalizing k with
  | nil => cases h
  | cons g rest ih =>
    rw [offsetsFrom] at h
    rcases List.mem_append.mp h with h | h
    · obtain ⟨p, -, rfl⟩ := List.mem_map.mp h
      exact le_rfl
    · exact (Nat.le_succ k).trans (ih h)

theorem offsetsFrom_shift (floor k n : ℕ) (segs : List Segment) :
    (offsetsFrom codec floor (k + n) segs).map (fun p => (p.1, (p.2.1 - n, p.2.2))) =
      offsetsFrom codec floor k segs := by
  induction segs generalizing k with
  | nil => rfl
  | cons g rest ih =>
    have hhead : (offsetItems floor (k + n) (located codec 0 g.2)).map
        (fun p => (p.1, (p.2.1 - n, p.2.2))) = offsetItems floor k (located codec 0 g.2) := by
      simp [offsetItems, Function.comp_def]
    rw [offsetsFrom, List.map_append, hhead, Nat.add_right_comm, ih, offsetsFrom]

theorem Ordered.drop (h : Ordered segs) (n : ℕ) : Ordered (segs.drop n) := by
  have hsub := List.drop_sublist n segs
  have hframes := hsub.flatMap Prod.snd
  exact ⟨fun g hg => h.based g (hsub.subset hg), h.ascending.sublist hframes,
    fun e he => h.positive e (hframes.subset he)⟩

/-- Covered segments hold nothing above the purge point, and the last segment is not covered. -/
theorem coveredSegments_spec (h : Arranged segs) (through : ℕ) :
    (∀ e ∈ framesOf (segs.take (FileLogStore.coveredSegments through (segs.map infoOf))),
      e.index ≤ through) ∧
      (segs ≠ [] → FileLogStore.coveredSegments through (segs.map infoOf) < segs.length) := by
  induction segs with
  | nil => exact ⟨fun e he => absurd he List.not_mem_nil, fun hne => absurd rfl hne⟩
  | cons g rest ih =>
    cases rest with
    | nil => exact ⟨fun e he => absurd he List.not_mem_nil, fun _ => Nat.one_pos⟩
    | cons g' rest =>
      obtain ⟨hdead, hlast⟩ := ih (h.sublist (List.sublist_cons_self _ _))
      rw [List.map_cons, List.map_cons, FileLogStore.coveredSegments]
      split_ifs with hcovered
      · refine ⟨fun e he => ?_, fun _ => ?_⟩
        · rw [List.take_succ_cons, framesOf, List.flatMap_cons] at he
          rcases List.mem_append.mp he with he | he
          · have hlt : e.index < (infoOf g').baseIndex :=
              ((List.pairwise_cons.mp h.named).1 g' List.mem_cons_self).2 e he
            omega
          · exact hdead e he
        · exact Nat.succ_lt_succ (hlast (List.cons_ne_nil _ _))
      · exact ⟨fun e he => absurd he List.not_mem_nil, fun _ => Nat.succ_pos _⟩

theorem getLast_drop {α : Type} {l : List α} {n : ℕ} (h : l ≠ [] → n < l.length) :
    (l.drop n).getLast? = l.getLast? := by
  by_cases hnil : l = []
  · rw [hnil, List.drop_nil]
  · rw [List.getLast?_drop, if_neg (not_le.mpr (h hnil))]

theorem reclaimSegments_eq {through n floor : ℕ} {anchor : Option (ℕ × ℕ)}
    (hholds : Holds codec s.dir segs) (hside : Sidecars s.dir floor anchor pending)
    (hsegs : s.segments = segs.map infoOf)
    (hn : FileLogStore.coveredSegments through s.segments = n)
    (hoffsets : s.offsets = offsetsFrom codec through n (segs.drop n)) :
    ∃ dir, s.reclaimSegments through = .ok { s with
        dir, segments := (segs.drop n).map infoOf, offsets :=
          offsetsFrom codec through 0 (segs.drop n) } ∧
      Holds codec dir (segs.drop n) ∧ Sidecars dir floor anchor pending := by
  rw [FileLogStore.reclaimSegments, hn]
  by_cases hzero : n = 0
  · subst hzero
    rw [List.drop_zero] at hoffsets
    refine ⟨s.dir, ?_, hholds, hside⟩
    rw [if_pos rfl, List.drop_zero, ← hsegs, ← hoffsets]
  · have hkept : s.offsets.all (fun p => n ≤ p.2.1) = true := by
      rw [List.all_eq_true, hoffsets]
      exact fun o ho => decide_eq_true (offsetsFrom_segments ho)
    have hpaths : (s.segments.take n).map SegmentInfo.path = (segs.take n).map nameOf := by
      rw [hsegs, ← List.map_take, List.map_map]
      rfl
    have hshift := @offsetsFrom_shift codec through 0 n (segs.drop n)
    rw [Nat.zero_add] at hshift
    refine ⟨((segs.take n).map nameOf).foldl Directory.remove s.dir, ?_, ?_, hside.removeAll _⟩
    · rw [if_neg hzero, if_pos hkept, hpaths, hoffsets, hshift, hsegs, List.map_drop]
    · have hall := @Holds.removeAll codec s.dir [] (segs.take n) (segs.drop n)
      rw [List.nil_append, List.nil_append, List.take_append_drop] at hall
      exact hall hholds

theorem Mapped.reclaimParts (h : Mapped codec pending s segs) {through n : ℕ}
    (hfits : through ≤ u64Max) (hraise : s.firstValidIndex < through)
    (hn : n = FileLogStore.coveredSegments through (segs.map infoOf)) :
    ∃ dir, FileLogStore.reclaimSegments (FileLogStore.dropEntries
        (FileLogStore.persistPurgeMarker { s with firstValidIndex := through })
        (fun k => k ≤ through)) through = .ok { s with
          dir, segments := (segs.drop n).map infoOf, firstValidIndex := through
          entries := liveItems through (framesOf (segs.drop n))
          offsets := offsetsFrom codec through 0 (segs.drop n) } ∧
      Holds codec dir (segs.drop n) ∧ Sidecars dir through s.snapshotAnchor pending ∧
      live through (segs.drop n) = live through segs ∧ (segs ≠ [] → n < segs.length) := by
  obtain ⟨hdead, hlast⟩ := coveredSegments_spec h.arranged through
  rw [← hn] at hdead hlast
  have hsplit : segs = segs.take n ++ segs.drop n := (List.take_append_drop n segs).symm
  have hdeadLive : live through (segs.take n) = [] :=
    List.filter_eq_nil_iff.mpr fun e he => by simpa using hdead e he
  have hlive : live through (segs.drop n) = live through segs := by
    conv_rhs => rw [hsplit]
    rw [live, live, framesOf_append, List.filter_append]
    show _ = live through (segs.take n) ++ _
    rw [hdeadLive, List.nil_append]
  have hdeadOffsets : offsetsFrom codec through 0 (segs.take n) = [] := by
    have hkeys := @offsetsFrom_keys codec through 0 (segs.take n)
    rw [hdeadLive] at hkeys
    exact List.map_eq_nil_iff.mp hkeys
  have hentries : s.entries.filter (fun e => !decide (e.1 ≤ through)) =
      liveItems through (framesOf (segs.drop n)) := by
    rw [h.entries, liveItems_raise hraise.le, liveItems_eq, liveItems_eq, hlive]
  have hoffsets : s.offsets.filter (fun o => !decide (o.1 ≤ through)) =
      offsetsFrom codec through n (segs.drop n) := by
    have hlength : offsetsFrom codec through (segs.take n).length (segs.drop n) =
        offsetsFrom codec through n (segs.drop n) := by
      by_cases hnil : segs = []
      · rw [hnil, List.drop_nil]
        rfl
      · rw [List.length_take_of_le (hlast hnil).le]
    rw [h.offsets, offsetsFrom_raise hraise.le]
    conv_lhs => rw [hsplit]
    rw [offsetsFrom_append, hdeadOffsets, List.nil_append, Nat.zero_add, hlength]
  have hmarked : Holds codec (s.dir.persist purgeMarkerFile (leBytes 8 through)) segs :=
    ⟨h.holds.1, by rw [walFiles_persist (by decide) (by decide), h.holds.2]⟩
  have hdrop :=
    @dropEntries_eq (FileLogStore.persistPurgeMarker { s with firstValidIndex := through })
      h.same_keys (fun k => k ≤ through)
  obtain ⟨dir, hreclaim, hholds, hside⟩ := @reclaimSegments_eq codec { s with
      dir := s.dir.persist purgeMarkerFile (leBytes 8 through), firstValidIndex := through
      entries := s.entries.filter (fun e => !decide (e.1 ≤ through))
      offsets := s.offsets.filter (fun o => !decide (o.1 ≤ through)) } segs _ through n _ _ hmarked
    (h.side.persistFloor hfits) h.segments (by rw [hn, ← h.segments]) hoffsets
  refine ⟨dir, ?_, hholds, hside, hlive, hlast⟩
  rw [hdrop, ← hentries]
  exact hreclaim

/-- `purge_prefix` raises the floor and gives the segments below it back. -/
theorem Layout.purgePrefix (h : Layout codec pending s segs) {through : ℕ}
    (hfits : through ≤ u64Max) (hraise : s.firstValidIndex < through) :
    ∃ s' segs', s.purgePrefix through = .ok s' ∧ Layout codec pending s' segs' ∧
      (Ordered segs → Ordered segs') ∧ live through segs' = live through segs ∧
      s'.firstValidIndex = through ∧ s'.snapshotAnchor = s.snapshotAnchor := by
  set n := FileLogStore.coveredSegments through (segs.map infoOf) with hn
  obtain ⟨dir, hreclaim, hholds, hside, hlive, hlast⟩ := h.toMapped.reclaimParts hfits hraise hn
  have harranged := h.arranged.sublist (List.drop_sublist n segs)
  obtain ⟨hholds', hside', hepochs⟩ := @rebuild_parts codec { s with
      dir, segments := (segs.drop n).map infoOf, firstValidIndex := through
      entries := liveItems through (framesOf (segs.drop n))
      offsets := offsetsFrom codec through 0 (segs.drop n) } _ _ hholds hside harranged rfl
  refine ⟨_, segs.drop n, ?_, ⟨⟨hholds', hside', harranged, rfl, ?_, ?_, rfl, rfl⟩, hepochs⟩,
    fun hordered => hordered.drop n, hlive, rfl, rfl⟩
  · rw [FileLogStore.purgePrefix, if_neg (not_le.mpr hraise)]
    exact congrArg (· >>= _) hreclaim
  · show s.activeWriter = _
    rw [h.writer, getLast_drop hlast]
  · show s.activeSegmentSize = _
    rw [h.size, getLast_drop hlast]

/-! ## Anchors -/

theorem Layout.updateSnapshotAnchor (h : Layout codec pending s segs) {memory : MemoryLogStore}
    (hanchor : s.snapshotAnchor = memory.snapshotAnchor) {term index : ℕ} (hterm : term ≤ u64Max)
    (hindex : index ≤ u64Max) :
    Layout codec pending (s.updateSnapshotAnchor term index) segs ∧
      (s.updateSnapshotAnchor term index).firstValidIndex = s.firstValidIndex ∧
      (s.updateSnapshotAnchor term index).snapshotAnchor =
        (memory.updateSnapshotAnchor term index).snapshotAnchor := by
  have hmoved : Layout codec pending (FileLogStore.persistSnapshotAnchor { s with
      snapshotAnchor := some (term, index) }) segs := by
    refine ⟨⟨⟨h.holds.1, ?_⟩, h.side.persistAnchor hterm hindex, h.arranged, h.segments, h.writer,
      h.size, h.entries, h.offsets⟩, h.epochs⟩
    show (s.dir.persist snapshotAnchorFile _).walFiles = _
    rw [walFiles_persist (by decide) (by decide), h.holds.2]
  rw [FileLogStore.updateSnapshotAnchor, MemoryLogStore.updateSnapshotAnchor, hanchor]
  cases memory.snapshotAnchor with
  | none => exact ⟨hmoved, rfl, rfl⟩
  | some prior =>
    dsimp only
    split_ifs
    · exact ⟨h, rfl, hanchor⟩
    · exact ⟨hmoved, rfl, rfl⟩

/-! ## Both stores side by side -/

inductive LogOp where
  | append (entries : List Entry)
  | truncateFrom (index : ℕ)
  | purgePrefix (through : ℕ)
  | updateSnapshotAnchor (term index : ℕ)
  | reopen (maxSegmentSize : ℕ)

structure Twin where
  file : FileLogStore
  memory : MemoryLogStore
  purgePoints : List ℕ
  failed : Bool

def Twin.start (codec : WalCodec) (path : String) (maxSegmentSize : ℕ) : Except XRaftError Twin :=
  (FileLogStore.openWithMaxSegmentSize codec (Directory.empty path) maxSegmentSize).map
    fun file => ⟨file, .new, [], false⟩

def Twin.commit (t : Twin) (file : Except XRaftError FileLogStore)
    (memory : Except XRaftError MemoryLogStore) : Twin :=
  { t with
    file := file.toOption.getD t.file
    memory := memory.toOption.getD t.memory
    failed := t.failed || !(file.isOk && memory.isOk) }

def Twin.step (codec : WalCodec) (t : Twin) : LogOp → Twin
  | .append entries => t.commit (t.file.append codec entries) (t.memory.append entries)
  | .truncateFrom index => t.commit (t.file.truncateFrom index) (.ok (t.memory.truncateFrom index))
  | .purgePrefix through =>
    { t.commit (t.file.purgePrefix through) (.ok (t.memory.purgePrefix through)) with
      purgePoints := through :: t.purgePoints }
  | .updateSnapshotAnchor term index =>
    t.commit (.ok (t.file.updateSnapshotAnchor term index))
      (.ok (t.memory.updateSnapshotAnchor term index))
  | .reopen maxSegmentSize =>
    t.commit (FileLogStore.openWithMaxSegmentSize codec t.file.dir maxSegmentSize) (.ok t.memory)

/-- The calls a log makes: batches ascend, above the end of the log and above every purge point. -/
def Twin.Admits (codec : WalCodec) (t : Twin) : LogOp → Prop
  | .append entries =>
    (∀ e ∈ entries, Storable codec e ∧ t.memory.lastIndex < e.index ∧ ∀ p ∈ t.purgePoints,
      p < e.index) ∧ entries.Pairwise (fun a b => a.index < b.index)
  | .truncateFrom index => index ≤ u64Max
  | .purgePrefix through => through ≤ u64Max
  | .updateSnapshotAnchor term index => term ≤ u64Max ∧ index ≤ u64Max
  | .reopen _ => True

structure Agree (file : FileLogStore) (memory : MemoryLogStore) : Prop where
  get : ∀ index, file.get index = memory.get index
  getRange : ∀ first last, first ≤ last →
    file.getRange first last = some (memory.getRange first last)
  lastIndex : file.lastIndex = memory.lastIndex
  lastTerm : file.lastTerm = memory.lastTerm
  termAt : ∀ index, file.termAt index = memory.termAt index
  endOffsetForEpoch : ∀ epoch, file.endOffsetForEpoch epoch = memory.endOffsetForEpoch epoch

/-- The memory log is the part of the image above the floor, which is the greatest purge point. -/
structure Mirrors (codec : WalCodec) (t : Twin) (segs : List Segment) : Prop where
  image : Image codec t.file segs
  entries : t.memory.entries = live t.file.firstValidIndex segs
  epochs : t.memory.epochStarts = recordEpochs [] t.memory.entries
  anchor : t.file.snapshotAnchor = t.memory.snapshotAnchor
  purged : ∀ p ∈ t.purgePoints, p ≤ t.file.firstValidIndex
  floor : t.file.firstValidIndex = 0 ∨ t.file.firstValidIndex ∈ t.purgePoints
  sound : t.failed = false

theorem lookup_items (es : List Entry) (index : ℕ) :
    OrderedMaps.lookup index (es.map fun e => (e.index, e)) =
      es.find? (fun e => e.index = index) := by
  rw [OrderedMaps.lookup, List.find?_map, Option.map_map]
  exact Option.map_id'

theorem Mirrors.agree {t : Twin} (h : Mirrors codec t segs) : Agree t.file t.memory := by
  have hitems : t.file.entries = t.memory.entries.map (fun e => (e.index, e)) := by
    rw [h.image.entries, liveItems_eq, h.entries]
  have hlast : t.file.lastIndex = t.memory.lastIndex := by
    rw [FileLogStore.lastIndex, hitems, List.getLast?_map, Option.map_map]
    rfl
  have hepochs : t.file.epochStarts = t.memory.epochStarts := by
    rw [h.image.epochs, h.epochs, h.entries]
  refine ⟨fun index => ?_, fun first last hle => ?_, hlast, ?_, fun index => ?_, fun epoch => ?_⟩
  · rw [FileLogStore.get, MemoryLogStore.get, hitems, lookup_items]
  · rw [FileLogStore.getRange, if_neg (not_lt.mpr hle), hitems, List.filter_map, List.map_map,
      MemoryLogStore.getRange]
    exact congrArg some (List.map_id _)
  · rw [FileLogStore.lastTerm, hitems, List.getLast?_map, Option.map_map]
    rfl
  · rw [FileLogStore.termAt, MemoryLogStore.termAt, hitems, lookup_items]
  · rw [FileLogStore.endOffsetForEpoch, MemoryLogStore.endOffsetForEpoch, hepochs, hlast, h.anchor]

theorem le_lastIndex {m : MemoryLogStore} (h : m.entries.Pairwise (fun a b => a.index < b.index))
    {e : Entry} (he : e ∈ m.entries) : e.index ≤ m.lastIndex := by
  obtain ⟨front, last, hsplit⟩ :=
    (List.eq_nil_or_concat' m.entries).resolve_left (List.ne_nil_of_mem he)
  rw [hsplit] at h he
  rw [MemoryLogStore.lastIndex, hsplit, List.getLast?_concat]
  rcases List.mem_append.mp he with he | he
  · exact ((List.pairwise_append.mp h).2.2 e he last List.mem_cons_self).le
  · rw [List.mem_singleton.mp he]
    exact le_rfl

theorem Mirrors.below {t : Twin} (h : Mirrors codec t segs) {index : ℕ}
    (hlast : t.memory.lastIndex < index) (hpurged : ∀ p ∈ t.purgePoints, p < index) :
    t.file.firstValidIndex < index ∧ ∀ x ∈ framesOf segs, x.index < index := by
  have hfloor : t.file.firstValidIndex < index := by
    rcases h.floor with hzero | hmem
    · omega
    · exact hpurged _ hmem
  refine ⟨hfloor, fun x hx => ?_⟩
  by_cases hlive : t.file.firstValidIndex < x.index
  · have hx' : x ∈ t.memory.entries := by
      rw [h.entries]
      exact List.mem_filter.mpr ⟨hx, decide_eq_true hlive⟩
    have hle := le_lastIndex (h.entries ▸ h.image.ordered.arranged.live_ascending _) hx'
    omega
  · omega

theorem not_snapshot {e : Entry} (h : Storable codec e) : Entry.isSnapshot e = false := by
  obtain ⟨tag, bytes, hbytes, -⟩ := h.payload
  rw [Entry.isSnapshot]
  split
  · rename_i hpayload
    rw [hpayload] at hbytes
    cases hbytes
  · rfl

/-- A call that leaves the floor in place: both stores take it and hold the same entries after. -/
theorem Mirrors.commit {t : Twin} (h : Mirrors codec t segs) {file : FileLogStore}
    {memory : MemoryLogStore} {segs' : List Segment} (himage : Image codec file segs')
    (hfirst : file.firstValidIndex = t.file.firstValidIndex)
    (hentries : memory.entries = live t.file.firstValidIndex segs')
    (hepochs : memory.epochStarts = recordEpochs [] memory.entries)
    (hanchor : file.snapshotAnchor = memory.snapshotAnchor) :
    Mirrors codec (t.commit (.ok file) (.ok memory)) segs' := by
  refine ⟨himage, ?_, hepochs, hanchor, fun p hp => hfirst ▸ h.purged p hp, ?_, ?_⟩
  · show memory.entries = live file.firstValidIndex segs'
    rw [hfirst, hentries]
  · show file.firstValidIndex = 0 ∨ file.firstValidIndex ∈ t.purgePoints
    rw [hfirst]
    exact h.floor
  · simp [Twin.commit, h.sound, Except.isOk, Except.toBool]

theorem Mirrors.append {t : Twin} (h : Mirrors codec t segs) {entries : List Entry}
    (hop : t.Admits codec (.append entries)) :
    ∃ segs', Mirrors codec (t.step codec (.append entries)) segs' := by
  obtain ⟨hentries, hascending⟩ := hop
  have hstorable : ∀ e ∈ entries, Storable codec e := fun e he => (hentries e he).1
  have hbelow (e : Entry) (he : e ∈ entries) := h.below (hentries e he).2.1 (hentries e he).2.2
  have hall : (framesOf segs ++ entries).Pairwise (fun a b => a.index < b.index) :=
    List.pairwise_append.mpr
      ⟨h.image.ordered.ascending, hascending, fun x hx e he => (hbelow e he).2 x hx⟩
  obtain ⟨file, segs', hfile, himage, hframes, hfirst, hanchor⟩ :=
    h.image.append hstorable hall (fun e he => (hbelow e he).1)
  have hmemory : t.memory.append entries = .ok { t.memory with
      entries := t.memory.entries ++ entries
      epochStarts := recordEpochs t.memory.epochStarts entries } := by
    have hnone : entries.any Entry.isSnapshot = false :=
      List.any_eq_false.mpr fun e he => by rw [not_snapshot (hstorable e he)]; decide
    rw [MemoryLogStore.append, hnone]
    rfl
  have hnew : entries.filter (fun e => t.file.firstValidIndex < e.index) = entries :=
    List.filter_eq_self.mpr fun e he => decide_eq_true (hbelow e he).1
  refine ⟨segs', ?_⟩
  rw [Twin.step, hfile, hmemory]
  refine h.commit himage hfirst ?_ ?_ (hanchor.trans h.anchor)
  · show t.memory.entries ++ entries = live t.file.firstValidIndex segs'
    rw [live, hframes, List.filter_append, hnew, h.entries, live]
  · show recordEpochs t.memory.epochStarts entries = recordEpochs [] (t.memory.entries ++ entries)
    rw [h.epochs, recordEpochs, recordEpochs, recordEpochs, List.foldl_append]

theorem Mirrors.purgePrefix {t : Twin} (h : Mirrors codec t segs) {through : ℕ}
    (hop : through ≤ u64Max) :
    ∃ segs', Mirrors codec (t.step codec (.purgePrefix through)) segs' := by
  by_cases hraise : t.file.firstValidIndex < through
  · obtain ⟨file, segs', hfile, hlayout, hordered, hlive, hfirst, hanchor⟩ :=
      h.image.layout.purgePrefix hop hraise
    refine ⟨segs', ?_⟩
    rw [Twin.step, hfile]
    refine ⟨hlayout.image (hordered h.image.ordered), ?_, rfl, hanchor.trans h.anchor,
      fun p hp => ?_, ?_, ?_⟩
    · show t.memory.entries.filter (fun e => through < e.index) = live file.firstValidIndex segs'
      rw [hfirst, hlive, h.entries, live_raise hraise.le]
    · show p ≤ file.firstValidIndex
      rw [hfirst]
      rcases List.mem_cons.mp hp with rfl | hp
      · exact le_rfl
      · exact (h.purged p hp).trans hraise.le
    · exact .inr (hfirst ▸ List.mem_cons_self)
    · simp [Twin.commit, h.sound, Except.isOk, Except.toBool]
  · have hle := not_lt.mp hraise
    have hsame : t.file.purgePrefix through = .ok t.file := by
      rw [FileLogStore.purgePrefix, if_pos hle]
    refine ⟨segs, ?_⟩
    rw [Twin.step, hsame]
    refine ⟨h.image, ?_, rfl, h.anchor, fun p hp => ?_, ?_, ?_⟩
    · show t.memory.entries.filter (fun e => through < e.index) = live t.file.firstValidIndex segs
      rw [h.entries, List.filter_eq_self]
      exact fun e he => decide_eq_true (hle.trans_lt (live_subset he).2)
    · rcases List.mem_cons.mp hp with rfl | hp
      · exact hle
      · exact h.purged p hp
    · exact h.floor.imp_right (List.mem_cons_of_mem _)
    · simp [Twin.commit, h.sound, Except.isOk, Except.toBool]

theorem Mirrors.step {t : Twin} (h : Mirrors codec t segs) {op : LogOp} (hop : t.Admits codec op) :
    ∃ segs', Mirrors codec (t.step codec op) segs' := by
  cases op with
  | append entries => exact h.append hop
  | truncateFrom index =>
    obtain ⟨file, segs', hfile, hlayout, hordered, hlive, hfirst, hanchor⟩ :=
      h.image.layout.truncateFrom hop
    refine ⟨segs', ?_⟩
    rw [Twin.step, hfile]
    refine h.commit (hlayout.image (hordered h.image.ordered)) hfirst ?_ rfl
      (hanchor.trans h.anchor)
    show t.memory.entries.filter (fun e => e.index < index) = live t.file.firstValidIndex segs'
    rw [hlive, h.entries]
  | purgePrefix through => exact h.purgePrefix hop
  | updateSnapshotAnchor term index =>
    obtain ⟨hlayout, hfirst, hanchor⟩ := h.image.layout.updateSnapshotAnchor h.anchor hop.1 hop.2
    have hmemory : (t.memory.updateSnapshotAnchor term index).entries = t.memory.entries ∧
        (t.memory.updateSnapshotAnchor term index).epochStarts = t.memory.epochStarts := by
      rw [MemoryLogStore.updateSnapshotAnchor]
      split
      · split_ifs <;> exact ⟨rfl, rfl⟩
      · exact ⟨rfl, rfl⟩
    refine ⟨segs, h.commit (hlayout.image h.image.ordered) hfirst ?_ ?_ hanchor⟩
    · rw [hmemory.1, h.entries]
    · rw [hmemory.1, hmemory.2, h.epochs]
  | reopen maxSegmentSize =>
    obtain ⟨file, hfile, himage, hfirst, hanchor⟩ := h.image.reopen maxSegmentSize
    refine ⟨segs, ?_⟩
    rw [Twin.step, hfile]
    exact h.commit himage hfirst h.entries h.epochs (hanchor.trans h.anchor)

theorem open_empty (codec : WalCodec) (path : String) (maxSegmentSize : ℕ) :
    ∃ s, FileLogStore.openWithMaxSegmentSize codec (Directory.empty path) maxSegmentSize = .ok s ∧
      Image codec s [] ∧ s.firstValidIndex = 0 ∧ s.snapshotAnchor = none := by
  have hside : Sidecars (Directory.empty path) 0 none none := by
    refine ⟨.inl ⟨rfl, rfl⟩, Nat.zero_le _, rfl, ?_, rfl, ?_, .inl rfl⟩
    · rintro a ⟨⟩
    · rintro target ⟨⟩
  have hholds : Holds codec (Directory.empty path) [] :=
    ⟨fun g hg => absurd hg List.not_mem_nil, rfl⟩
  have hordered : Ordered [] := by
    refine ⟨fun g hg => absurd hg List.not_mem_nil, List.Pairwise.nil, fun e he => ?_⟩
    exact absurd he List.not_mem_nil
  exact ⟨_, open_whole hside hholds maxSegmentSize,
    (opened_layout hholds hside hordered.arranged maxSegmentSize).image hordered, rfl, rfl⟩

theorem start_mirrors (codec : WalCodec) (path : String) (maxSegmentSize : ℕ) :
    ∃ t, Twin.start codec path maxSegmentSize = .ok t ∧ t.memory = .new ∧ t.purgePoints = [] ∧
      Mirrors codec t [] := by
  obtain ⟨s, hopen, himage, hfirst, hanchor⟩ := open_empty codec path maxSegmentSize
  refine ⟨⟨s, .new, [], false⟩, by rw [Twin.start, hopen]; rfl, rfl, rfl, himage, rfl, rfl, hanchor,
    fun p hp => absurd hp List.not_mem_nil, .inl hfirst, rfl⟩

/-- The file store opens on an empty directory, no call on either store fails, and after every run
of calls and reopenings the two answer every reader alike. -/
theorem file_log_refines_memory_log (codec : WalCodec) (path : String) (maxSegmentSize : ℕ) :
    ∃ start, Twin.start codec path maxSegmentSize = .ok start ∧
      ∀ t, Execution (Twin.step codec) (Twin.Admits codec) start t →
        t.failed = false ∧ Agree t.file t.memory := by
  obtain ⟨start, hstart, -, -, hmirrors⟩ := start_mirrors codec path maxSegmentSize
  refine ⟨start, hstart, fun t hrun => ?_⟩
  have hstep (u : Twin) (op : LogOp) (hu : ∃ segs, Mirrors codec u segs) (hop : u.Admits codec op) :
      ∃ segs, Mirrors codec (u.step codec op) segs := by
    obtain ⟨segs, hsegs⟩ := hu
    exact hsegs.step hop
  obtain ⟨segs, hsegs⟩ := hrun.invariant hstep ⟨[], hmirrors⟩
  exact ⟨hsegs.sound, hsegs.agree⟩

/-- A log that is written, cut, written again and reopened. -/
theorem file_log_refines_memory_log_reopened : ∃ start t,
    Twin.start sampleCodec "log" 64 = .ok start ∧
    Execution (Twin.step sampleCodec) (Twin.Admits sampleCodec) start t ∧
    t.memory.entries = [⟨1, 1, .noOp⟩, ⟨2, 2, .command [7]⟩] ∧
    t.failed = false ∧ Agree t.file t.memory := by
  obtain ⟨start, hstart, hruns⟩ := file_log_refines_memory_log sampleCodec "log" 64
  obtain ⟨start', hstart', hmemory, hpurged, -⟩ := start_mirrors sampleCodec "log" 64
  obtain rfl : start = start' := Except.ok.inj (hstart.symm.trans hstart')
  have hrun : Execution (Twin.step sampleCodec) (Twin.Admits sampleCodec) start
      (replay (Twin.step sampleCodec) start
        [.append [⟨1, 1, .noOp⟩, ⟨2, 1, .noOp⟩], .truncateFrom 2, .append [⟨2, 2, .command [7]⟩],
          .reopen 64]) := by
    obtain ⟨file, memory, purgePoints, failed⟩ := start
    cases hmemory
    cases hpurged
    have hcut : 2 ≤ u64Max := by decide
    refine replay_execution ⟨⟨fun e he => ?_, by decide⟩, hcut, ⟨fun e he => ?_, by decide⟩,
      trivial, trivial⟩
    · have hstorable : Storable sampleCodec e := by
        rcases List.mem_pair.mp he with rfl | rfl
        · exact ⟨by decide, by decide, 0, [], rfl, by decide⟩
        · exact ⟨by decide, by decide, 0, [], rfl, by decide⟩
      have hpos : 0 < e.index := by
        rcases List.mem_pair.mp he with rfl | rfl <;> decide
      exact ⟨hstorable, hpos, fun p hp => absurd hp List.not_mem_nil⟩
    · rw [List.mem_singleton.mp he]
      have hlast : 1 < 2 := by decide
      exact ⟨⟨by decide, by decide, 1, [7], rfl, by decide⟩, hlast,
        fun p hp => absurd hp List.not_mem_nil⟩
  refine ⟨start, _, hstart, hrun, ?_, hruns _ hrun⟩
  obtain ⟨file, memory, purgePoints, failed⟩ := start
  cases hmemory
  rfl

end FileLogRefinement
