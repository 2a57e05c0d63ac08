import Xraft.FileLogRefinement

/-! # Crashes of the file log

Entries are appended, a crash leaves a prefix of the bytes of the segment files, and the store is
opened again. What it holds then are the entries whose frames were written whole. The segment that
was cut keeps its name even when nothing of it remains, so later segments need not follow it in the
order of names: from the crash on the frames are known only up to their order.
-/
namespace CrashRecovery

open ProtocolTypes DurableStores ByteFrames WriteAheadLog WalFrames SegmentReplay FileLogRefinement
open GuardedExecution
open SampleCodecs (sampleCodec)

variable {codec : WalCodec} {s : FileLogStore} {segs : List Segment} {es : List Entry}

/-! ## Crashes -/

def CutFiles (files files' : List (FileName × Bytes)) : Prop :=
  files' = [] ∨ ∃ front name content back kept, files = front ++ (name, content) :: back ∧
    files' = front ++ [(name, List.take kept content)]

/-- The directory that a crash leaves of another one. The checkpoint is any that may have been
saved, or none; files beside the segments and the sidecars, such as temporary ones, are
arbitrary. -/
structure Crashed (before after : Directory) : Prop where
  segments : CutFiles before.walFiles after.walFiles
  sidecars : ∀ name ∈ [purgeMarkerFile, snapshotAnchorFile, truncateMarkerFile],
    after.read name = before.read name
  checkpoint : after.read epochCheckpointFile = none ∨ ∃ starts, Checkpointed starts ∧
    after.read epochCheckpointFile =
      some (FileLogStore.asBytes (FileLogStore.checkpointText starts))

def storedBytes (dir : Directory) : Bytes := dir.walFiles.flatMap Prod.snd

def writtenInFull (codec : WalCodec) (dir : Directory) (entries : List Entry) : List Entry :=
  whole (frame codec) (storedBytes dir).length entries

def keyed (entries : List Entry) : List (ℕ × Entry) := entries.map (fun e => (e.index, e))

def written (codec : WalCodec) (path : String) (maxSegmentSize : ℕ) (batches : List (List Entry)) :
    Except XRaftError FileLogStore :=
  (FileLogStore.openWithMaxSegmentSize codec (Directory.empty path) maxSegmentSize).bind fun s =>
    batches.foldlM (FileLogStore.append codec) s

/-! ## Frames in any order -/

/-- The files hold the frames of `es`, in whatever order, and the store has them all. -/
structure Gathers (codec : WalCodec) (s : FileLogStore) (segs : List Segment) (es : List Entry) :
    Prop where
  holds : Holds codec s.dir segs
  side : Sidecars s.dir 0 none none
  floor : s.firstValidIndex = 0
  frames : (framesOf segs).Perm es
  ascending : es.Pairwise (fun a b => a.index < b.index)
  positive : ∀ e ∈ es, 0 < e.index
  writer : s.activeWriter = none ∨ ∃ g ∈ segs, s.activeWriter = some (nameOf g)
  entries : s.entries = keyed es
  epochs : s.epochStarts = recordEpochs [] es

theorem Gathers.storable (h : Gathers codec s segs es) : ∀ e ∈ es, Storable codec e :=
  fun _ he => storable_of_holds h.holds (h.frames.mem_iff.mpr he)

theorem opened_gathers {dir : Directory} (hholds : Holds codec dir segs)
    (hside : Sidecars dir 0 none none) (hframes : (framesOf segs).Perm es)
    (hascending : es.Pairwise (fun a b => a.index < b.index)) (hpos : ∀ e ∈ es, 0 < e.index)
    (maxSegmentSize : ℕ) : Gathers codec (opened codec dir maxSegmentSize 0 none segs) segs es := by
  have hall : liveItems 0 (framesOf segs) = keyed (framesOf segs) := by
    rw [liveItems, List.filter_eq_self.mpr]
    · rfl
    · exact fun e he => decide_eq_true (hpos e (hframes.mem_iff.mp he))
  have hentries : OrderedMaps.insertAll [] (liveItems 0 (framesOf segs)) = keyed es := by
    rw [hall]
    exact OrderedMaps.insertAll_eq (List.pairwise_map.mpr hascending) (hframes.map _)
  have hstarts : recordEpochs [] ((OrderedMaps.insertAll [] (liveItems 0 (framesOf segs))).map
      Prod.snd) = recordEpochs [] es := by
    rw [hentries, keyed, List.map_map]
    exact congrArg (recordEpochs []) (List.map_id _)
  have hstorable : ∀ e ∈ es, Storable codec e := fun e he =>
    storable_of_holds hholds (hframes.mem_iff.mpr he)
  refine ⟨⟨hholds.1, ?_⟩, ?_, rfl, hframes, hascending, hpos, ?_, hentries, hstarts⟩
  · show (dir.persist epochCheckpointFile _).walFiles = _
    rw [walFiles_persist (by decide) (by decide), hholds.2]
  · refine hside.persistCheckpoint ?_
    show Checkpointed (recordEpochs [] ((OrderedMaps.insertAll [] (liveItems 0
      (framesOf segs))).map Prod.snd))
    rw [hstarts]
    exact checkpointed_of_ascending hstorable hascending hpos
  · show segs.getLast?.map nameOf = none ∨ ∃ g ∈ segs, segs.getLast?.map nameOf = some (nameOf g)
    cases hlast : segs.getLast? with
    | none => exact .inl rfl
    | some g => exact .inr ⟨g, List.mem_of_getLast? hlast, rfl⟩

theorem Gathers.reopen (h : Gathers codec s segs es) (maxSegmentSize : ℕ) :
    ∃ s', FileLogStore.openWithMaxSegmentSize codec s.dir maxSegmentSize = .ok s' ∧
      Gathers codec s' segs es :=
  ⟨_, open_whole h.side h.holds maxSegmentSize,
    opened_gathers h.holds h.side h.frames h.ascending h.positive maxSegmentSize⟩

/-! ### Writing behind a crash -/

theorem framesOf_middle (left right : List Segment) (base : ℕ) (frames more : List Entry) :
    (framesOf (left ++ (base, frames ++ more) :: right)).Perm
      (framesOf (left ++ (base, frames) :: right) ++ more) := by
  rw [framesOf_append, framesOf_append]
  simp only [framesOf, List.flatMap_cons, List.append_assoc]
  exact ((List.perm_append_comm).append_left _).append_left _

theorem holds_touch {dir : Directory} (h : Holds codec dir segs) {base : ℕ}
    (hbase : base ≤ u64Max) : ∃ segs', Holds codec (dir.touch (segmentFilename base)) segs' ∧
    framesOf segs' = framesOf segs ∧
      ∃ g ∈ segs', segmentFilename base = nameOf g := by
  cases hread : dir.read (segmentFilename base) with
  | some old =>
    have hmem := mem_walFiles_of_read (isSegment_segmentFilename base) hread
    rw [h.2] at hmem
    obtain ⟨g, hg, heq⟩ := List.mem_map.mp hmem
    rw [fileOf] at heq
    rw [Directory.touch, hread]
    exact ⟨segs, h, rfl, g, hg, (Prod.mk.inj heq).1.symm⟩
  | none =>
    obtain ⟨front, back, hsplit, htouch⟩ := walFiles_touch (isSegment_segmentFilename base) hread
    rw [h.2] at hsplit
    obtain ⟨segsL, segsR, rfl, rfl, rfl⟩ := List.map_eq_append_iff.mp hsplit
    refine ⟨segsL ++ (base, []) :: segsR, ⟨fun g hg => ?_, ?_⟩, by simp [framesOf],
      (base, []), by simp, rfl⟩
    · rcases List.mem_append.mp hg with hg | hg
      · exact h.1 g (List.mem_append_left _ hg)
      · rcases List.mem_cons.mp hg with rfl | hg
        · exact ⟨hbase, fun e he => absurd he List.not_mem_nil⟩
        · exact h.1 g (List.mem_append_right _ hg)
    · rw [htouch, List.map_append, List.map_cons]
      rfl

theorem holds_appendTo {dir : Directory} (h : Holds codec dir segs) {g : Segment} (hg : g ∈ segs)
    {e : Entry} (he : Storable codec e) :
    ∃ segs', Holds codec (dir.appendTo (nameOf g) (frame codec e)) segs' ∧
      (framesOf segs').Perm (framesOf segs ++ [e]) ∧ ∃ g' ∈ segs', nameOf g = nameOf g' := by
  have hread := h.read hg
  obtain ⟨left, right, rfl⟩ := List.append_of_mem hg
  refine ⟨left ++ (g.1, g.2 ++ [e]) :: right, ⟨fun g' hg' => ?_, ?_⟩,
    framesOf_middle left right g.1 g.2 [e], (g.1, g.2 ++ [e]), by simp, rfl⟩
  · rcases List.mem_append.mp hg' with hg' | hg'
    · exact h.1 g' (List.mem_append_left _ hg')
    · rcases List.mem_cons.mp hg' with rfl | hg'
      · refine ⟨(h.1 g hg).base, fun x hx => ?_⟩
        rcases List.mem_append.mp hx with hx | hx
        · exact (h.1 g hg).storable x hx
        · rw [List.mem_singleton.mp hx]
          exact he
      · exact h.1 g' (List.mem_append_right _ (List.mem_cons_of_mem _ hg'))
  · have hfiles := h.2
    rw [List.map_append, List.map_cons, fileOf] at hfiles
    rw [Directory.appendTo, hread]
    dsimp only
    rw [walFiles_overwrite hfiles (isSegment_nameOf g), List.map_append, List.map_cons]
    simp [fileOf, nameOf]

theorem Sidecars.touch {dir : Directory} (h : Sidecars dir 0 none none) (base : ℕ) :
    Sidecars (dir.touch (segmentFilename base)) 0 none none := by
  rw [Directory.touch]
  split
  · exact h
  · exact h.write (isSegment_segmentFilename base) _

theorem Gathers.prepare (h : Gathers codec s segs es) {index : ℕ} (hindex : index ≤ u64Max)
    (frameLen : ℕ) :
    ∃ segs', Gathers codec (s.prepareSegment index frameLen) segs' es ∧
      ∃ g ∈ segs', (s.prepareSegment index frameLen).activeWriter = some (nameOf g) := by
  rcases prepareSegment_cases s index frameLen with ⟨hsame, path, hpath⟩ | ⟨hcreate, -⟩
  · rw [hsame]
    rcases h.writer with hnone | ⟨g, hg, hwriter⟩
    · rw [hnone] at hpath
      cases hpath
    · exact ⟨segs, h, g, hg, hwriter⟩
  · obtain ⟨segs', hholds, hframes, g, hg, hname⟩ := holds_touch h.holds hindex
    have hwriter : (s.createSegment index).activeWriter = some (nameOf g) := by rw [← hname]; rfl
    rw [hcreate]
    exact ⟨segs', ⟨hholds, Sidecars.touch h.side index, h.floor, hframes ▸ h.frames, h.ascending,
      h.positive, .inr ⟨g, hg, hwriter⟩, h.entries, h.epochs⟩, g, hg, hwriter⟩

theorem Gathers.persistEpochCheckpoint (h : Gathers codec s segs es) :
    Gathers codec s.persistEpochCheckpoint segs es := by
  refine ⟨⟨h.holds.1, ?_⟩, ?_, h.floor, h.frames, h.ascending, h.positive, h.writer, h.entries,
    h.epochs⟩
  · show (s.dir.persist epochCheckpointFile _).walFiles = _
    rw [walFiles_persist (by decide) (by decide), h.holds.2]
  · refine h.side.persistCheckpoint ?_
    rw [h.epochs]
    exact checkpointed_of_ascending h.storable h.ascending h.positive

theorem Sidecars.appendTo {dir : Directory} (h : Sidecars dir 0 none none) (g : Segment)
    (bytes : Bytes) : Sidecars (dir.appendTo (nameOf g) bytes) 0 none none := by
  rw [Directory.appendTo]
  split
  · exact h.write (isSegment_nameOf g) _
  · exact h

theorem Gathers.writeFrame (h : Gathers codec s segs es) {g : Segment} (hg : g ∈ segs)
    (hwriter : s.activeWriter = some (nameOf g)) {e : Entry} (he : Storable codec e)
    (hnew : ∀ x ∈ es, x.index < e.index) (hpos : 0 < e.index) :
    ∃ segs', Gathers codec (s.writeFrame (nameOf g) (frame codec e) e) segs' (es ++ [e]) := by
  obtain ⟨segs', hholds, hframes, g', hg', hname⟩ := holds_appendTo h.holds hg he
  have hascending : (es ++ [e]).Pairwise (fun a b => a.index < b.index) := by
    refine List.pairwise_append.mpr ⟨h.ascending, List.pairwise_singleton _ _, fun x hx y hy => ?_⟩
    rw [List.mem_singleton.mp hy]
    exact hnew x hx
  have hpositive : ∀ x ∈ es ++ [e], 0 < x.index := by
    intro x hx
    rcases List.mem_append.mp hx with hx | hx
    · exact h.positive x hx
    · rw [List.mem_singleton.mp hx]
      exact hpos
  have hentries : OrderedMaps.insert e.index e s.entries = keyed (es ++ [e]) := by
    rw [h.entries, OrderedMaps.insert_above, keyed, keyed, List.map_append]
    · rfl
    · intro p hp
      obtain ⟨x, hx, rfl⟩ := List.mem_map.mp hp
      exact hnew x hx
  have hepochs : orInsert e.term e.index s.epochStarts = recordEpochs [] (es ++ [e]) := by
    rw [h.epochs, recordEpochs, recordEpochs, List.foldl_append]
    rfl
  have hwritten : Gathers codec { s with
      dir := s.dir.appendTo (nameOf g) (frame codec e)
      activeSegmentSize := s.activeSegmentSize + (frame codec e).length
      entries := OrderedMaps.insert e.index e s.entries
      offsets := OrderedMaps.insert e.index (s.segments.length - 1, s.activeSegmentSize) s.offsets
      epochStarts := orInsert e.term e.index s.epochStarts } segs' (es ++ [e]) :=
    ⟨hholds, Sidecars.appendTo h.side g _, h.floor, hframes.trans (h.frames.append_right [e]),
      hascending, hpositive, .inr ⟨g', hg', hwriter.trans (congrArg some hname)⟩, hentries, hepochs⟩
  rw [FileLogStore.writeFrame]
  split_ifs
  · exact ⟨segs', hwritten.persistEpochCheckpoint⟩
  · exact ⟨segs', hwritten⟩

theorem Gathers.appendEntry (h : Gathers codec s segs es) {e : Entry} (he : Storable codec e)
    (hnew : ∀ x ∈ es, x.index < e.index) (hpos : 0 < e.index) :
    ∃ s' segs', FileLogStore.appendEntry codec s e = .ok s' ∧
    Gathers codec s' segs' (es ++ [e]) := by
  obtain ⟨segs₁, hready, g, hg, hwriter⟩ := h.prepare he.index (frame codec e).length
  obtain ⟨segs', hwritten⟩ := hready.writeFrame hg hwriter he hnew hpos
  refine ⟨_, segs', ?_, hwritten⟩
  rw [FileLogStore.appendEntry, he.encodeFrame]
  dsimp only
  rw [hwriter]

theorem Gathers.append (h : Gathers codec s segs es) {entries : List Entry}
    (hstorable : ∀ e ∈ entries, Storable codec e)
    (hascending : (es ++ entries).Pairwise (fun a b => a.index < b.index))
    (hpos : ∀ e ∈ entries, 0 < e.index) :
    ∃ s' segs', s.append codec entries = .ok s' ∧ Gathers codec s' segs' (es ++ entries) := by
  induction entries generalizing s segs es with
  | nil => exact ⟨s, segs, rfl, by rwa [List.append_nil]⟩
  | cons e rest ih =>
    obtain ⟨he, hrest⟩ := List.forall_mem_cons.mp hstorable
    obtain ⟨hpe, hprest⟩ := List.forall_mem_cons.mp hpos
    have hnew : ∀ x ∈ es, x.index < e.index := fun x hx =>
      (List.pairwise_append.mp hascending).2.2 x hx e List.mem_cons_self
    have hassoc : es ++ e :: rest = (es ++ [e]) ++ rest := (List.append_cons es e rest)
    obtain ⟨s₁, segs₁, happend, hone⟩ := h.appendEntry he hnew hpe
    rw [hassoc] at hascending ⊢
    obtain ⟨s₂, segs₂, hok, hall⟩ := ih hone hrest hascending hprest
    refine ⟨s₂, segs₂, ?_, hall⟩
    rw [FileLogStore.append, List.foldlM_cons, happend]
    exact hok

/-! ## Opening behind a crash -/

theorem whole_zero (h : ∀ e ∈ es, Storable codec e) : whole (frame codec) 0 es = [] := by
  cases es with
  | nil => rfl
  | cons e rest =>
    have hpos := (h e List.mem_cons_self).frame_pos
    rw [whole, if_neg (by omega)]

theorem whole_all {n : ℕ} (h : (stream (frame codec) es).length ≤ n) : whole (frame codec) n es =
    es := by
  have hall := whole_append_of_le (frame codec) [] h
  rwa [List.append_nil, whole, List.append_nil] at hall

theorem whole_cut {front back : List Entry} {mid : List Entry}
    (hback : ∀ e ∈ back, Storable codec e) (kept : ℕ) :
    whole (frame codec) ((stream (frame codec) front).length +
      ((stream (frame codec) mid).take kept).length) (front ++ (mid ++ back)) =
      front ++ whole (frame codec) kept mid := by
  rw [whole_append_of_le _ _ (Nat.le_add_right _ _), Nat.add_sub_cancel_left, List.length_take]
  by_cases hcut : kept < (stream (frame codec) mid).length
  · rw [min_eq_left hcut.le, whole_append_of_lt _ _ hcut]
  · have hle := not_lt.mp hcut
    rw [min_eq_right hle, whole_append_of_le _ _ le_rfl, Nat.sub_self, whole_zero hback,
      List.append_nil, whole_all hle]

theorem stream_files (segs : List Segment) :
    (segs.map (fileOf codec)).flatMap Prod.snd = stream (frame codec) (framesOf segs) := by
  induction segs with
  | nil => rfl
  | cons g rest ih =>
    rw [List.map_cons, List.flatMap_cons, ih, framesOf, framesOf, List.flatMap_cons, stream_append]
    rfl

theorem whole_subset {n : ℕ} {e : Entry} (h : e ∈ whole (frame codec) n es) : e ∈ es := by
  have hfront := whole_prefix (frame codec) n es
  exact hfront.subset h

theorem Crashed.sidecars_kept {before after : Directory} {floor : ℕ} {anchor : Option (ℕ × ℕ)}
    {pending : Option ℕ} (hcrash : Crashed before after)
    (h : Sidecars before floor anchor pending) :
    Sidecars after floor anchor pending := by
  have hpurge := hcrash.sidecars purgeMarkerFile (by simp)
  have hanchor := hcrash.sidecars snapshotAnchorFile (by simp)
  have hmarker := hcrash.sidecars truncateMarkerFile (by simp)
  refine ⟨?_, h.floor_fits, hanchor.trans h.anchored, h.anchor_fits, hmarker.trans h.marker,
    h.pending_fits, hcrash.checkpoint⟩
  rw [hpurge]
  exact h.purge

theorem sound_whole {front : List Segment} {g : Segment}
    (hsound : ∀ g' ∈ front ++ [g], Sound codec g') (kept : ℕ) :
    ∀ g' ∈ front ++ [(g.1, whole (frame codec) kept g.2)], Sound codec g' := by
  have hg := hsound g (by simp)
  intro g' hg'
  rcases List.mem_append.mp hg' with hg' | hg'
  · exact hsound g' (List.mem_append_left _ hg')
  · rw [List.mem_singleton.mp hg']
    exact ⟨hg.base, fun e he => hg.storable e (whole_subset he)⟩

/-- A crash leaves nothing, or the first segments and the beginning of the next one. -/
theorem Crashed.segments_cut {before after : Directory} (hcrash : Crashed before after)
    (h : Holds codec before segs) : after.walFiles = [] ∨ ∃ front g back kept,
      segs = front ++ g :: back ∧ (∀ g' ∈ front ++ [g], Sound codec g') ∧
        after.walFiles = front.map (fileOf codec) ++
          [(nameOf g, (stream (frame codec) g.2).take kept)] := by
  rcases hcrash.segments with hnone | ⟨front, name, content, back, kept, hfiles, hcut⟩
  · exact .inl hnone
  rw [h.2] at hfiles
  obtain ⟨segsL, rest, rfl, rfl, hrest⟩ := List.map_eq_append_iff.mp hfiles
  obtain ⟨g, segsR, rfl, hg, rfl⟩ := List.map_eq_cons_iff.mp hrest
  rw [fileOf] at hg
  obtain ⟨rfl, rfl⟩ := Prod.mk.inj hg
  refine .inr ⟨segsL, g, segsR, kept, rfl, fun g' hg' => h.1 g' ?_, hcut⟩
  rcases List.mem_append.mp hg' with hg' | hg'
  · exact List.mem_append_left _ hg'
  · rw [List.mem_singleton.mp hg']
    simp

theorem open_cut {dir : Directory} {front : List Segment} {g : Segment} {kept : ℕ}
    (hsound : ∀ g' ∈ front ++ [g], Sound codec g') (hside : Sidecars dir 0 none none)
    (hfiles : dir.walFiles = front.map (fileOf codec) ++
      [(nameOf g, (stream (frame codec) g.2).take kept)])
    (maxSegmentSize : ℕ) :
    ∃ dir', FileLogStore.openWithMaxSegmentSize codec dir maxSegmentSize =
        .ok (opened codec dir' maxSegmentSize 0 none
          (front ++ [(g.1, whole (frame codec) kept g.2)])) ∧
      Holds codec dir' (front ++ [(g.1, whole (frame codec) kept g.2)]) ∧
      Sidecars dir' 0 none none := by
  obtain ⟨tail, htail, htorn⟩ := take_stream (frame codec) kept g.2
  rw [htail] at hfiles
  have hg := hsound g (by simp)
  have hsound' := sound_whole hsound kept
  by_cases hempty : tail = []
  · have hholds : Holds codec dir (front ++ [(g.1, whole (frame codec) kept g.2)]) := by
      refine ⟨hsound', ?_⟩
      rw [hfiles, hempty, List.append_nil, List.map_append]
      rfl
    exact ⟨dir, open_whole hside hholds maxSegmentSize, hholds, hside⟩
  · have htorn' := htorn.resolve_left hempty
    refine ⟨dir.write (nameOf g) (stream (frame codec) (whole (frame codec) kept g.2)),
      open_torn (g := (g.1, whole (frame codec) kept g.2)) hside hsound' hfiles hempty
        hg.storable htorn' maxSegmentSize, ⟨hsound', ?_⟩, hside.write (isSegment_nameOf g) _⟩
    rw [walFiles_overwrite hfiles (isSegment_nameOf g), List.map_append]
    rfl

/-- What a crash leaves of a store opens, and holds the frames that are whole. -/
theorem crash_opens {dir : Directory} (h : Image codec s segs) (hfloor : s.firstValidIndex = 0)
    (hanchor : s.snapshotAnchor = none) (hcrash : Crashed s.dir dir) (maxSegmentSize : ℕ) :
    ∃ s' segs', FileLogStore.openWithMaxSegmentSize codec dir maxSegmentSize = .ok s' ∧
      Gathers codec s' segs' (writtenInFull codec dir (framesOf segs)) := by
  have hside : Sidecars dir 0 none none := by
    have hkept := hcrash.sidecars_kept h.side
    rwa [hfloor, hanchor] at hkept
  have hfront : writtenInFull codec dir (framesOf segs) <+: framesOf segs :=
    whole_prefix (frame codec) (storedBytes dir).length (framesOf segs)
  have hascending := h.ordered.ascending.sublist hfront.sublist
  have hpositive : ∀ e ∈ writtenInFull codec dir (framesOf segs), 0 < e.index :=
    fun e he => h.ordered.positive e (hfront.subset he)
  rcases hcrash.segments_cut h.holds with hnone | ⟨segsL, g, segsR, kept, rfl, hsound, hcut⟩
  · have hholds : Holds codec dir [] := ⟨fun g hg => absurd hg List.not_mem_nil, hnone⟩
    have hframes : writtenInFull codec dir (framesOf segs) = [] := by
      rw [writtenInFull, storedBytes, hnone]
      exact whole_zero fun e he => storable_of_holds h.holds he
    have hperm : (framesOf []).Perm (writtenInFull codec dir (framesOf segs)) := by
      rw [hframes]
      rfl
    exact ⟨_, [], open_whole hside hholds maxSegmentSize,
      opened_gathers hholds hside hperm hascending hpositive maxSegmentSize⟩
  · obtain ⟨dir', hopen, hholds, hside'⟩ := open_cut hsound hside hcut maxSegmentSize
    have hback : ∀ e ∈ framesOf segsR, Storable codec e := fun e he =>
      storable_of_holds h.holds (by simp [framesOf] at he ⊢; tauto)
    have hframes : framesOf (segsL ++ [(g.1, whole (frame codec) kept g.2)]) =
        writtenInFull codec dir (framesOf (segsL ++ g :: segsR)) := by
      have hbytes : (storedBytes dir).length = (stream (frame codec) (framesOf segsL)).length +
          ((stream (frame codec) g.2).take kept).length := by
        rw [storedBytes, hcut, List.flatMap_append, stream_files, List.length_append,
          List.flatMap_singleton]
      have hall : framesOf (segsL ++ g :: segsR) = framesOf segsL ++ (g.2 ++ framesOf segsR) := by
        rw [framesOf_append]
        rfl
      rw [writtenInFull, hbytes, hall, whole_cut hback, framesOf_append, framesOf_singleton]
    rw [← hframes] at hascending hpositive ⊢
    exact ⟨_, _, hopen, opened_gathers hholds hside' (List.Perm.refl _) hascending hpositive
      maxSegmentSize⟩

/-! ## The life of a recovered log -/

inductive LifeOp where
  | append (entries : List Entry)
  | reopen (maxSegmentSize : ℕ)

structure Life where
  store : FileLogStore
  appended : List Entry
  failed : Bool

def Life.commit (l : Life) (result : Except XRaftError FileLogStore) (entries : List Entry) :
    Life where
  store := result.toOption.getD l.store
  appended := l.appended ++ entries
  failed := l.failed || !result.isOk

def Life.step (codec : WalCodec) (l : Life) : LifeOp → Life
  | .append entries => l.commit (l.store.append codec entries) entries
  | .reopen maxSegmentSize =>
    l.commit (FileLogStore.openWithMaxSegmentSize codec l.store.dir maxSegmentSize) []

def Life.Admits (codec : WalCodec) (l : Life) : LifeOp → Prop
  | .append entries =>
    (∀ e ∈ entries, Storable codec e ∧ l.store.lastIndex < e.index) ∧
      entries.Pairwise (fun a b => a.index < b.index)
  | .reopen _ => True

structure Recovered (codec : WalCodec) (base : List Entry) (l : Life) : Prop where
  gathers : ∃ segs, Gathers codec l.store segs (base ++ l.appended)
  sound : l.failed = false

theorem Gathers.le_lastIndex (h : Gathers codec s segs es) {e : Entry} (he : e ∈ es) :
    e.index ≤ s.lastIndex := by
  have hlast : s.lastIndex = (MemoryLogStore.mk es [] none).lastIndex := by
    rw [FileLogStore.lastIndex, h.entries, keyed, List.getLast?_map, Option.map_map]
    rfl
  rw [hlast]
  exact FileLogRefinement.le_lastIndex (m := ⟨es, [], none⟩) h.ascending he

theorem Recovered.step {base : List Entry} {l : Life} (h : Recovered codec base l) {op : LifeOp}
    (hop : l.Admits codec op) : Recovered codec base (l.step codec op) := by
  obtain ⟨segs, hgathers⟩ := h.gathers
  cases op with
  | append entries =>
    obtain ⟨hentries, hascending⟩ := hop
    have hall : (base ++ l.appended ++ entries).Pairwise (fun a b => a.index < b.index) := by
      refine List.pairwise_append.mpr ⟨hgathers.ascending, hascending, fun x hx e he => ?_⟩
      exact (hgathers.le_lastIndex hx).trans_lt (hentries e he).2
    obtain ⟨s', segs', hok, hgathers'⟩ := hgathers.append (fun e he => (hentries e he).1) hall
      (fun e he => Nat.zero_lt_of_lt (hentries e he).2)
    rw [Life.step, hok]
    refine ⟨⟨segs', ?_⟩, ?_⟩
    · show Gathers codec s' segs' (base ++ (l.appended ++ entries))
      rwa [← List.append_assoc]
    · simp [Life.commit, h.sound, Except.isOk, Except.toBool]
  | reopen maxSegmentSize =>
    obtain ⟨s', hok, hgathers'⟩ := hgathers.reopen maxSegmentSize
    rw [Life.step, hok]
    refine ⟨⟨segs, ?_⟩, ?_⟩
    · show Gathers codec s' segs (base ++ (l.appended ++ []))
      rwa [List.append_nil]
    · simp [Life.commit, h.sound, Except.isOk, Except.toBool]

theorem append_flatten (codec : WalCodec) (s : FileLogStore) (batches : List (List Entry)) :
    batches.foldlM (FileLogStore.append codec) s = s.append codec batches.flatten := by
  induction batches generalizing s with
  | nil => rfl
  | cons batch rest ih =>
    rw [List.foldlM_cons, List.flatten_cons, FileLogStore.append, FileLogStore.append,
      List.foldlM_append]
    exact congrArg (_ >>= ·) (funext fun s' => ih s')

theorem written_image (codec : WalCodec) (path : String) (maxSegmentSize : ℕ)
    {batches : List (List Entry)} (hstorable : ∀ e ∈ batches.flatten, Storable codec e)
    (hascending : batches.flatten.Pairwise (fun a b => a.index < b.index))
    (hpos : ∀ e ∈ batches.flatten, 0 < e.index) :
    ∃ s segs, written codec path maxSegmentSize batches = .ok s ∧ Image codec s segs ∧
      framesOf segs = batches.flatten ∧ s.firstValidIndex = 0 ∧ s.snapshotAnchor = none := by
  obtain ⟨start, hopen, himage, hfirst, hanchor⟩ := open_empty codec path maxSegmentSize
  obtain ⟨s, segs, happend, himage', hframes, hfirst', hanchor'⟩ :=
    himage.append hstorable hascending (fun e he => hfirst ▸ hpos e he)
  refine ⟨s, segs, ?_, himage', hframes, hfirst'.trans hfirst, hanchor'.trans hanchor⟩
  rw [written, hopen]
  show batches.foldlM (FileLogStore.append codec) start = _
  rw [append_flatten, happend]

def filesOf (result : Except XRaftError FileLogStore) :
    Option (List (FileName × Bytes) × List (Option Bytes)) :=
  result.toOption.map fun s => (s.dir.walFiles,
    [purgeMarkerFile, snapshotAnchorFile, truncateMarkerFile, epochCheckpointFile].map s.dir.read)

theorem exists_of_filesOf {result : Except XRaftError FileLogStore} {g : Segment}
    {starts : EpochStarts} (h : filesOf result = some ([fileOf codec g], [none, none, none,
      some (FileLogStore.asBytes (FileLogStore.checkpointText starts))]))
    (hg : Sound codec g) (hstarts : Checkpointed starts) :
    ∃ s, result = .ok s ∧ Holds codec s.dir [g] ∧ Sidecars s.dir 0 none none := by
  cases result with
  | error e => cases h
  | ok s =>
    obtain ⟨hfiles, hreads⟩ := Prod.mk.inj (Option.some.inj h)
    obtain ⟨hpurge, hreads⟩ := List.cons.inj hreads
    obtain ⟨hanchor, hreads⟩ := List.cons.inj hreads
    obtain ⟨hmarker, hreads⟩ := List.cons.inj hreads
    obtain ⟨hcheckpoint, -⟩ := List.cons.inj hreads
    refine ⟨s, rfl, ⟨fun g' hg' => ?_, hfiles⟩, .inl ⟨hpurge, rfl⟩, Nat.zero_le _, hanchor, ?_,
      hmarker, ?_, .inr ⟨starts, hstarts, hcheckpoint⟩⟩
    · rw [List.mem_singleton.mp hg']
      exact hg
    · rintro a ⟨⟩
    · rintro target ⟨⟩

theorem crashed_write {dir : Directory} {g : Segment} (hholds : Holds codec dir [g])
    (hside : Sidecars dir 0 none none) (kept : ℕ) :
    Crashed dir (dir.write (nameOf g) ((stream (frame codec) g.2).take kept)) ∧
      storedBytes (dir.write (nameOf g) ((stream (frame codec) g.2).take kept)) =
        (stream (frame codec) g.2).take kept := by
  have hfiles : dir.walFiles = [] ++ (nameOf g, stream (frame codec) g.2) :: [] := hholds.2
  have hcut := walFiles_overwrite hfiles (isSegment_nameOf g) ((stream (frame codec) g.2).take kept)
  have hread (name : FileName)
    (hname : name ∈ [purgeMarkerFile, snapshotAnchorFile, truncateMarkerFile,
      epochCheckpointFile]) :
        (dir.write (nameOf g) ((stream (frame codec) g.2).take kept)).read name =
          dir.read name := by
    rw [Directory.read_write, if_neg (ne_sidecar (isSegment_nameOf g) name hname)]
  refine ⟨⟨.inr ⟨[], _, _, [], kept, hfiles, hcut⟩, fun name hname => hread name ?_, ?_⟩, ?_⟩
  · simp only [List.mem_cons, List.not_mem_nil, or_false] at hname ⊢
    tauto
  · rw [hread _ (by simp)]
    exact hside.checkpoint
  · rw [storedBytes, hcut]
    simp

/-- Of entries with positive, increasing indices a crash leaves exactly those whose frames were
written in full: the log opens and holds them, and whatever is appended from then on joins them in
every later reopening. -/
theorem crash_recovery_exact (codec : WalCodec) (path : String) (maxSegmentSize : ℕ)
    (batches : List (List Entry)) (hstorable : ∀ e ∈ batches.flatten, Storable codec e)
    (hascending : batches.flatten.Pairwise (fun a b => a.index < b.index))
    (hpos : ∀ e ∈ batches.flatten, 0 < e.index) :
    ∃ s, written codec path maxSegmentSize batches = .ok s ∧
      ∀ dir, Crashed s.dir dir → ∀ reopenSize,
        ∃ s', FileLogStore.openWithMaxSegmentSize codec dir reopenSize = .ok s' ∧
          s'.entries = keyed (writtenInFull codec dir batches.flatten) ∧
          ∀ l, Execution (Life.step codec) (Life.Admits codec) ⟨s', [], false⟩ l →
            l.failed = false ∧
            ∀ laterSize, ∃ s'',
              FileLogStore.openWithMaxSegmentSize codec l.store.dir laterSize = .ok s'' ∧
              s''.entries = keyed (writtenInFull codec dir batches.flatten ++ l.appended) := by
  obtain ⟨s, segs, hwritten, himage, hframes, hfirst, hanchor⟩ :=
    written_image codec path maxSegmentSize hstorable hascending hpos
  refine ⟨s, hwritten, fun dir hcrash reopenSize => ?_⟩
  obtain ⟨s', segs', hopen, hgathers⟩ := crash_opens himage hfirst hanchor hcrash reopenSize
  rw [hframes] at hgathers
  refine ⟨s', hopen, hgathers.entries, fun l hrun => ?_⟩
  have hstep (u : Life) (op : LifeOp)
      (hu : Recovered codec (writtenInFull codec dir batches.flatten) u) (hop : u.Admits codec op) :
      Recovered codec (writtenInFull codec dir batches.flatten) (u.step codec op) := hu.step hop
  have hstart : Recovered codec (writtenInFull codec dir batches.flatten) ⟨s', [], false⟩ :=
    ⟨⟨segs', by rwa [List.append_nil]⟩, rfl⟩
  have hlife := hrun.invariant hstep hstart
  obtain ⟨segs'', hlater⟩ := hlife.gathers
  refine ⟨hlife.sound, fun laterSize => ?_⟩
  obtain ⟨s'', hreopen, hgathers''⟩ := hlater.reopen laterSize
  exact ⟨s'', hreopen, hgathers''.entries⟩

/-- The second of two frames is cut, and another entry takes its place. -/
theorem crash_recovery_exact_torn_second : ∃ s dir s' l s'',
    written sampleCodec "log" 64 [[⟨1, 1, .noOp⟩], [⟨2, 1, .command [7]⟩]] = .ok s ∧
    Crashed s.dir dir ∧ FileLogStore.openWithMaxSegmentSize sampleCodec dir 64 = .ok s' ∧
    s'.entries = [(1, ⟨1, 1, .noOp⟩)] ∧
    Execution (Life.step sampleCodec) (Life.Admits sampleCodec) ⟨s', [], false⟩ l ∧
    FileLogStore.openWithMaxSegmentSize sampleCodec l.store.dir 64 = .ok s'' ∧
    s''.entries = [(1, ⟨1, 1, .noOp⟩), (2, ⟨2, 2, .noOp⟩)] := by
  have hfirst : Storable sampleCodec ⟨1, 1, .noOp⟩ := ⟨by decide, by decide, 0, [], rfl, by decide⟩
  have hsecond : Storable sampleCodec ⟨2, 1, .command [7]⟩ :=
    ⟨by decide, by decide, 1, [7], rfl, by decide⟩
  have hstorable : ∀ e ∈ [[(⟨1, 1, .noOp⟩ : Entry)], [⟨2, 1, .command [7]⟩]].flatten,
      Storable sampleCodec e := by
    intro e he
    rcases List.mem_pair.mp he with rfl | rfl
    · exact hfirst
    · exact hsecond
  obtain ⟨s, hwritten, hcrashes⟩ := crash_recovery_exact sampleCodec "log" 64
    [[⟨1, 1, .noOp⟩], [⟨2, 1, .command [7]⟩]] hstorable (by decide) (by decide)
  obtain ⟨s₀, hs₀, hholds, hside⟩ := @exists_of_filesOf sampleCodec
    (written sampleCodec "log" 64 [[⟨1, 1, .noOp⟩], [⟨2, 1, .command [7]⟩]])
    (1, [⟨1, 1, .noOp⟩, ⟨2, 1, .command [7]⟩]) [(1, 1)] (by decide +kernel)
    ⟨by decide, hstorable⟩ ⟨by decide, by decide, by decide⟩
  obtain rfl : s = s₀ := Except.ok.inj (hwritten.symm.trans hs₀)
  obtain ⟨hcrash, hbytes⟩ := crashed_write hholds hside 40
  obtain ⟨s', hopen, hentries, hlives⟩ := hcrashes _ hcrash 64
  have hwhole : whole (frame sampleCodec) ((stream (frame sampleCodec)
      [⟨1, 1, .noOp⟩, ⟨2, 1, .command [7]⟩]).take 40).length
      [[(⟨1, 1, .noOp⟩ : Entry)], [⟨2, 1, .command [7]⟩]].flatten = [⟨1, 1, .noOp⟩] := by
    decide +kernel
  rw [writtenInFull, hbytes, hwhole] at hentries hlives
  have hrun : Execution (Life.step sampleCodec) (Life.Admits sampleCodec) ⟨s', [], false⟩
      (Life.step sampleCodec ⟨s', [], false⟩ (.append [⟨2, 2, .noOp⟩])) := by
    refine Execution.single ⟨fun e he => ?_, List.pairwise_singleton _ _⟩
    rw [List.mem_singleton.mp he]
    refine ⟨⟨by decide, by decide, 0, [], rfl, by decide⟩, ?_⟩
    show s'.lastIndex < 2
    rw [FileLogStore.lastIndex, hentries]
    decide
  obtain ⟨-, hlater⟩ := hlives _ hrun
  obtain ⟨s'', hreopen, hfinal⟩ := hlater 64
  exact ⟨s, _, s', _, s'', hwritten, hcrash, hopen, hentries, hrun, hreopen, hfinal⟩

/-- Of two entries with one index, both written in full, only the second is there after
reopening. -/
theorem repeated_index_is_lost : ∃ s s',
    written sampleCodec "log" 64 [[⟨1, 1, .command [7]⟩, ⟨1, 1, .noOp⟩]] = .ok s ∧
    Crashed s.dir s.dir ∧
    writtenInFull sampleCodec s.dir [⟨1, 1, .command [7]⟩, ⟨1, 1, .noOp⟩] =
      [⟨1, 1, .command [7]⟩, ⟨1, 1, .noOp⟩] ∧
    FileLogStore.openWithMaxSegmentSize sampleCodec s.dir 64 = .ok s' ∧
    s'.entries = [(1, ⟨1, 1, .noOp⟩)] := by
  have hstorable : ∀ e ∈ [(⟨1, 1, .command [7]⟩ : Entry), ⟨1, 1, .noOp⟩],
      Storable sampleCodec e := by
    intro e he
    rcases List.mem_pair.mp he with rfl | rfl
    · exact ⟨by decide, by decide, 1, [7], rfl, by decide⟩
    · exact ⟨by decide, by decide, 0, [], rfl, by decide⟩
  obtain ⟨s, hs, hholds, hside⟩ := @exists_of_filesOf sampleCodec
    (written sampleCodec "log" 64 [[⟨1, 1, .command [7]⟩, ⟨1, 1, .noOp⟩]])
    (1, [⟨1, 1, .command [7]⟩, ⟨1, 1, .noOp⟩]) [(1, 1)] (by decide +kernel)
    ⟨by decide, hstorable⟩ ⟨by decide, by decide, by decide⟩
  have hbytes : (storedBytes s.dir).length = 59 := by
    rw [storedBytes, hholds.2]
    decide +kernel
  have hwhole : CutFiles s.dir.walFiles s.dir.walFiles := by
    refine .inr ⟨[], _, _, [], 59, hholds.2, ?_⟩
    rw [hholds.2]
    decide +kernel
  refine ⟨s, _, hs, ⟨hwhole, fun _ _ => rfl, hside.checkpoint⟩, ?_, open_whole hside hholds 64, rfl⟩
  rw [writtenInFull, hbytes]
  decide +kernel

end CrashRecovery
