import Xraft.CrashRecovery

/-! # Interrupted truncations and purges

`truncate_from`, `purge_prefix` and the replay of a truncation on `open` as the durable steps they
take: every rename, removal and `set_len` leaves a directory in which the process may end. In each
of these directories the log is still the one before the operation or already the one after it.
-/
namespace InterruptedOperations

open ProtocolTypes DurableStores ByteFrames WriteAheadLog WalFrames SegmentReplay FileLogRefinement
  CrashRecovery

variable {codec : WalCodec} {s : FileLogStore} {segs : List Segment} {d : Directory} {floor : ℕ}
  {anchor : Option (ℕ × ℕ)} {pending : Option ℕ}

/-! ## Durable steps -/

def persistSteps (d : Directory) (name : FileName) (bytes : Bytes) : List Directory :=
  [d.write (name ++ ".tmp".toList) bytes, d.persist name bytes]

def removeSteps : Directory → List FileName → List Directory
  | _, [] => []
  | d, name :: rest => d.remove name :: removeSteps (d.remove name) rest

def checkpointSteps (s : FileLogStore) : List Directory :=
  persistSteps s.dir epochCheckpointFile
    (FileLogStore.asBytes (FileLogStore.checkpointText s.epochStarts))

/-- The tail segments go, the boundary is cut, and it goes as well when nothing of it is left. -/
def cutSteps (s : FileLogStore) (segIdx byteOffset : ℕ) : List Directory :=
  match s.segments[segIdx]? with
  | none => []
  | some boundary =>
    let tail := (s.segments.drop (segIdx + 1)).map SegmentInfo.path
    removeSteps s.dir tail ++
      match (tail.foldl Directory.remove s.dir).setLen boundary.path byteOffset with
      | .error _ => []
      | .ok dir => dir :: if byteOffset = 0 then [dir.remove boundary.path] else []

/-- The steps of `truncate_from`; the second one puts the marker in place. -/
def truncateSteps (s : FileLogStore) (index : ℕ) : List Directory :=
  match s.offsets.find? (fun p => index ≤ p.1) with
  | none => [s.clearTruncateMarker.dir]
  | some (_, segIdx, byteOffset) =>
    let marked := { s.persistTruncateMarker (index - 1) with activeWriter := none }
    persistSteps s.dir truncateMarkerFile (leBytes 8 (index - 1)) ++
      (cutSteps marked segIdx byteOffset ++
        match marked.cutSegment segIdx byteOffset with
        | .error _ => []
        | .ok cut =>
          let rebuilt := (cut.dropEntries (fun k => index ≤ k)).rebuildEpochStarts
          checkpointSteps rebuilt ++ [rebuilt.persistEpochCheckpoint.clearTruncateMarker.dir])

def purgeSteps (s : FileLogStore) (through : ℕ) : List Directory :=
  if through ≤ s.firstValidIndex then []
  else
    let marked := FileLogStore.persistPurgeMarker { s with firstValidIndex := through }
    let covered := s.segments.take (FileLogStore.coveredSegments through s.segments)
    persistSteps s.dir purgeMarkerFile (leBytes 8 through) ++
      (removeSteps marked.dir (covered.map SegmentInfo.path) ++
        match (marked.dropEntries (fun k => k ≤ through)).reclaimSegments through with
        | .error _ => []
        | .ok kept => checkpointSteps kept.rebuildEpochStarts)

def recovered (codec : WalCodec) (d : Directory) (maxSegmentSize : ℕ) :
    Except XRaftError FileLogStore := do
  let marked ← FileLogStore.loadPurgeMarker { dir := d, maxSegmentSize }
  let anchored ← marked.loadSnapshotAnchor
  anchored.recover codec

/-- The steps of `open`: a torn tail is cut, a pending truncation is replayed, the epochs are
saved. -/
def openSteps (codec : WalCodec) (d : Directory) (maxSegmentSize : ℕ) : List Directory :=
  match FileLogStore.loadTruncateMarker d, FileLogStore.loadEpochCheckpoint d,
    recovered codec d maxSegmentSize with
  | .ok none, .ok _, .ok s => s.dir :: checkpointSteps s.rebuildEpochStarts
  | .ok (some target), .ok _, .ok s =>
    s.dir :: (truncateSteps s (satAdd target 1) ++
      match s.truncateFrom (satAdd target 1) with
      | .error _ => []
      | .ok settled => checkpointSteps settled.rebuildEpochStarts)
  | _, _, _ => []

def after (d : Directory) (steps : List Directory) (n : ℕ) : Directory :=
  ((steps.take n).getLast?).getD d

theorem after_of_mem {d d' : Directory} {steps : List Directory} (h : d' ∈ steps) :
    ∃ n, after d steps n = d' := by
  obtain ⟨front, back, rfl⟩ := List.append_of_mem h
  refine ⟨front.length + 1, ?_⟩
  simp [after, List.take_append]

theorem after_mem (d : Directory) (steps : List Directory) (n : ℕ) :
    after d steps n ∈ d :: steps := by
  rw [after]
  cases hlast : (steps.take n).getLast? with
  | none => exact List.mem_cons_self
  | some d' => exact List.mem_cons_of_mem _ (List.mem_of_mem_take (List.mem_of_getLast? hlast))

theorem after_marked (d tmp marked : Directory) (rest : List Directory) (n : ℕ) :
    n < 2 ∧ after d (tmp :: marked :: rest) n ∈ [d, tmp] ∨
      2 ≤ n ∧ after d (tmp :: marked :: rest) n ∈ marked :: rest := by
  match n with
  | 0 => exact .inl ⟨by decide, List.mem_cons_self⟩
  | 1 => exact .inl ⟨by decide, List.mem_cons_of_mem _ List.mem_cons_self⟩
  | n + 2 =>
    refine .inr ⟨by omega, ?_⟩
    have hmem := after_mem marked rest n
    have hsame : after d (tmp :: marked :: rest) (n + 2) = after marked rest n := by
      rw [after, after, List.take_succ_cons, List.take_succ_cons, List.getLast?_cons_cons,
        List.getLast?_cons]
      rfl
    rwa [hsame]

theorem after_all {d d' : Directory} {steps : List Directory} (h : steps.getLast? = some d') :
    after d steps steps.length = d' := by
  rw [after, List.take_length, h]
  rfl

/-! ### The last step of an operation is its end -/

theorem reopenActiveWriter_dir {s s' : FileLogStore} (h : s.reopenActiveWriter = .ok s') :
    s'.dir = s.dir := by
  rw [FileLogStore.reopenActiveWriter] at h
  split at h
  · rw [FileLogStore.openWriter] at h
    split at h
    · cases h
    · cases h
      rfl
  · cases h
    rfl

theorem truncateSteps_complete {s' : FileLogStore} {index : ℕ} (h : s.truncateFrom index = .ok s') :
    (truncateSteps s index).getLast? = some s'.dir := by
  unfold FileLogStore.truncateFrom at h
  unfold truncateSteps
  cases hfind : s.offsets.find? (fun p => index ≤ p.1) with
  | none =>
    rw [hfind] at h
    cases h
    rfl
  | some found =>
    rw [hfind] at h
    obtain ⟨cut, hcut, h⟩ := bind_eq_ok.mp h
    obtain ⟨reopened, hreopened, h⟩ := bind_eq_ok.mp h
    cases h
    dsimp only at hcut ⊢
    rw [hcut]
    dsimp only
    rw [← List.append_assoc, ← List.append_assoc, List.getLast?_concat]
    exact congrArg (fun d => some (d.remove truncateMarkerFile))
      (reopenActiveWriter_dir hreopened).symm

theorem purgeSteps_complete {s' : FileLogStore} {through : ℕ} (h : s.purgePrefix through = .ok s') :
    after s.dir (purgeSteps s through) (purgeSteps s through).length = s'.dir := by
  rw [FileLogStore.purgePrefix] at h
  rw [purgeSteps]
  by_cases hle : through ≤ s.firstValidIndex
  · rw [if_pos hle] at h ⊢
    cases h
    rfl
  · rw [if_neg hle] at h ⊢
    obtain ⟨kept, hkept, h⟩ := bind_eq_ok.mp h
    cases h
    refine after_all ?_
    dsimp only at hkept ⊢
    rw [hkept, ← List.append_assoc, List.getLast?_append]
    rfl

theorem openSteps_complete {s' : FileLogStore} {maxSegmentSize : ℕ}
    (h : FileLogStore.openWithMaxSegmentSize codec d maxSegmentSize = .ok s') :
    (openSteps codec d maxSegmentSize).getLast? = some s'.dir := by
  obtain ⟨marked, hmarked, h⟩ := bind_eq_ok.mp h
  obtain ⟨anchored, hanchored, h⟩ := bind_eq_ok.mp h
  obtain ⟨pending, hpending, h⟩ := bind_eq_ok.mp h
  obtain ⟨starts, hstarts, h⟩ := bind_eq_ok.mp h
  obtain ⟨s, hs, h⟩ := bind_eq_ok.mp h
  have hrecovered : recovered codec d maxSegmentSize = .ok s := by
    rw [recovered, hmarked]
    exact (congrArg (· >>= _) hanchored).trans hs
  rw [openSteps, hpending, hstarts, hrecovered]
  cases pending with
  | none =>
    cases h
    rfl
  | some target =>
    obtain ⟨settled, hsettled, h⟩ := bind_eq_ok.mp h
    cases h
    dsimp only
    rw [hsettled, ← List.cons_append, List.getLast?_append]
    rfl

/-! ## What a directory holds -/

structure Stored (codec : WalCodec) (d : Directory) (floor : ℕ) (anchor : Option (ℕ × ℕ))
    (pending : Option ℕ) (segs : List Segment) : Prop where
  holds : Holds codec d segs
  side : Sidecars d floor anchor pending
  arranged : Arranged segs
  below_max : ∀ target ∈ pending, target < u64Max

/-- What `recover` makes of a directory, whose last segment may end in a torn frame. -/
structure Recoverable (codec : WalCodec) (d : Directory) (floor : ℕ) (anchor : Option (ℕ × ℕ))
    (pending : Option ℕ) (segs : List Segment) : Prop where
  side : Sidecars d floor anchor pending
  recovers : ∃ d', Stored codec d' floor anchor pending segs ∧ ∀ maxSegmentSize,
    (unread d maxSegmentSize floor anchor).recover codec = .ok (writerAt codec
      { replayed codec (unread d maxSegmentSize floor anchor) segs with dir := d' } segs)

def surviving (floor : ℕ) (pending : Option ℕ) (segs : List Segment) : List Entry :=
  (live floor segs).filter (fun e => pending.all (fun target => e.index ≤ target))

def Preserves (codec : WalCodec) (d : Directory) (floor : ℕ) (anchor : Option (ℕ × ℕ))
    (log : List Entry) : Prop :=
  ∃ pending segs, Recoverable codec d floor anchor pending segs ∧ surviving floor pending segs = log

theorem surviving_none (floor : ℕ) (segs : List Segment) : surviving floor none segs =
    live floor segs :=
  List.filter_eq_self.mpr fun _ _ => rfl

theorem surviving_split {target : ℕ} {kept cut : List Entry} (hframes : framesOf segs = kept ++ cut)
    (hkept : ∀ e ∈ kept, floor < e.index → e.index ≤ target) (hcut : ∀ e ∈ cut, target < e.index) :
    surviving floor (some target) segs = kept.filter (fun e => floor < e.index) := by
  rw [surviving, live, hframes, List.filter_append]
  refine filter_split (fun e he => ?_) (fun e he => ?_)
  · obtain ⟨hmem, hfloor⟩ := List.mem_filter.mp he
    exact decide_eq_true (hkept e hmem (of_decide_eq_true hfloor))
  · exact decide_eq_false (not_le.mpr (hcut e (List.mem_filter.mp he).1))

theorem surviving_replay (floor target : ℕ) (segs : List Segment) :
    surviving floor (some target) segs =
      (live floor segs).filter (fun e => e.index < target + 1) :=
  List.filter_congr fun _ _ => decide_eq_decide.mpr Nat.lt_succ_iff.symm

theorem surviving_raise {through : ℕ} (h : floor ≤ through) (pending : Option ℕ)
    (segs : List Segment) : (surviving floor pending segs).filter (fun e => through < e.index) =
      surviving through pending segs := by
  rw [surviving, surviving, ← live_raise h, List.filter_filter, List.filter_filter]
  exact List.filter_congr fun _ _ => Bool.and_comm ..

theorem Stored.recoverable (h : Stored codec d floor anchor pending segs) :
    Recoverable codec d floor anchor pending segs :=
  ⟨h.side, d, h, fun maxSegmentSize => recover_whole h.holds maxSegmentSize floor anchor⟩

theorem Stored.preserves (h : Stored codec d floor anchor pending segs) :
    Preserves codec d floor anchor (surviving floor pending segs) :=
  ⟨pending, segs, h.recoverable, rfl⟩

theorem Mapped.stored (h : Mapped codec pending s segs)
    (hmax : ∀ target ∈ pending, target < u64Max) :
    Stored codec s.dir s.firstValidIndex s.snapshotAnchor pending segs :=
  ⟨h.holds, h.side, h.arranged, hmax⟩

theorem Recoverable.mapped (h : Recoverable codec d floor anchor pending segs)
    (maxSegmentSize : ℕ) : ∃ s, (unread d maxSegmentSize floor anchor).recover codec = .ok s ∧
    Mapped codec pending s segs ∧
      s.firstValidIndex = floor ∧ s.snapshotAnchor = anchor ∧
      ∀ target ∈ pending, target < u64Max := by
  obtain ⟨d', hstored, hrecover⟩ := h.recovers
  have hentries : OrderedMaps.insertAll [] (liveItems floor (framesOf segs)) =
      liveItems floor (framesOf segs) :=
    OrderedMaps.insertAll_append (m := []) (hstored.arranged.items_ascending floor)
  have hoffsets : OrderedMaps.insertAll [] (offsetsFrom codec floor 0 segs) =
      offsetsFrom codec floor 0 segs :=
    OrderedMaps.insertAll_append (m := []) (hstored.arranged.offsets_ascending floor 0)
  exact ⟨_, hrecover maxSegmentSize, ⟨hstored.holds, hstored.side, hstored.arranged, rfl, rfl, rfl,
    hentries, hoffsets⟩, rfl, rfl, hstored.below_max⟩

/-- Opening settles a pending truncation. -/
theorem Recoverable.opens (h : Recoverable codec d floor anchor pending segs) (maxSegmentSize : ℕ) :
    ∃ s' segs', FileLogStore.openWithMaxSegmentSize codec d maxSegmentSize = .ok s' ∧
      Layout codec none s' segs' ∧ live floor segs' = surviving floor pending segs ∧
      s'.firstValidIndex = floor ∧ s'.snapshotAnchor = anchor := by
  obtain ⟨s, hrecover, hmapped, rfl, rfl, hmax⟩ := h.mapped maxSegmentSize
  have hrebuilt {u : FileLogStore} {segs' : List Segment} (hu : Mapped codec none u segs') :
      Layout codec none u.rebuildEpochStarts.persistEpochCheckpoint segs' := by
    obtain ⟨hholds, hside, hepochs⟩ := rebuild_parts hu.holds hu.side hu.arranged hu.entries
    exact ⟨⟨hholds, hside, hu.arranged, hu.segments, hu.writer, hu.size, hu.entries, hu.offsets⟩,
      hepochs⟩
  rw [open_of_recover h.side maxSegmentSize hrecover]
  cases pending with
  | none => exact ⟨_, segs, rfl, hrebuilt hmapped, (surviving_none _ _).symm, rfl, rfl⟩
  | some target =>
    have hlt := hmax target rfl
    have hadd : satAdd target 1 = target + 1 := by
      rw [satAdd]
      omega
    have hfits : satAdd target 1 ≤ u64Max := by omega
    obtain ⟨s', segs', hok, hmapped', -, -, hlive, hfirst, hanchor⟩ := hmapped.truncateFrom hfits
    dsimp only
    rw [hok]
    refine ⟨_, segs', rfl, hrebuilt hmapped', ?_, hfirst, hanchor⟩
    rw [hlive, hadd, surviving_replay]

/-! ### Steps on sidecars -/

theorem Sidecars.writeOther (h : Sidecars d floor anchor pending) {name : FileName}
    (hname : name ∉ [purgeMarkerFile, snapshotAnchorFile, truncateMarkerFile, epochCheckpointFile])
    (bytes : Bytes) : Sidecars (d.write name bytes) floor anchor pending := by
  refine h.congr fun other hother => ?_
  have hne : other ≠ name := fun heq => hname (by rwa [← heq])
  rw [Directory.read_write, if_neg hne]

theorem Stored.writeOther (h : Stored codec d floor anchor pending segs) {name : FileName}
    (hname : name ∉ [purgeMarkerFile, snapshotAnchorFile, truncateMarkerFile, epochCheckpointFile])
    (hsegment : isSegment name = false) (bytes : Bytes) :
    Stored codec (d.write name bytes) floor anchor pending segs :=
  ⟨⟨h.holds.1, by rw [walFiles_write_other hsegment, h.holds.2]⟩,
    Sidecars.writeOther h.side hname bytes, h.arranged, h.below_max⟩

theorem Stored.clearMarker (h : Stored codec d floor anchor pending segs) :
    Stored codec (d.remove truncateMarkerFile) floor anchor none segs := by
  refine ⟨⟨h.holds.1, ?_⟩, h.side.clearMarker, h.arranged, fun target ht => nomatch ht⟩
  rw [walFiles_remove_other (by decide), h.holds.2]

theorem Stored.persistMarker (h : Stored codec d floor anchor pending segs) {target : ℕ}
    (htarget : target < u64Max) :
    Stored codec (d.persist truncateMarkerFile (leBytes 8 target)) floor anchor
      (some target) segs := by
  refine ⟨⟨h.holds.1, ?_⟩, h.side.persistMarker htarget.le, h.arranged, ?_⟩
  · rw [walFiles_persist (by decide) (by decide), h.holds.2]
  · rintro t ⟨⟩
    exact htarget

theorem Stored.rebuilt (h : Stored codec s.dir s.firstValidIndex s.snapshotAnchor pending segs)
    (hentries : s.entries = liveItems s.firstValidIndex (framesOf segs)) :
    Stored codec s.rebuildEpochStarts.persistEpochCheckpoint.dir s.firstValidIndex s.snapshotAnchor
      pending segs := by
  obtain ⟨hholds, hside, -⟩ := rebuild_parts h.holds h.side h.arranged hentries
  exact ⟨hholds, hside, h.arranged, h.below_max⟩

theorem Stored.checkpointSteps
    (h : Stored codec s.dir s.firstValidIndex s.snapshotAnchor pending segs)
    (hentries : s.entries = liveItems s.firstValidIndex (framesOf segs)) :
    ∀ d ∈ checkpointSteps s.rebuildEpochStarts,
      Stored codec d s.firstValidIndex s.snapshotAnchor pending segs := by
  intro d hd
  rcases List.mem_pair.mp hd with rfl | rfl
  · exact h.writeOther (by decide) (by decide) _
  · exact h.rebuilt hentries

/-! ### Steps on segments -/

theorem Stored.removeSteps {front mid back : List Segment}
    (h : Stored codec d floor anchor pending (front ++ (mid ++ back))) :
    ∀ d' ∈ removeSteps d (mid.map nameOf), ∃ rest, rest <:+ mid ∧
      Stored codec d' floor anchor pending (front ++ (rest ++ back)) := by
  induction mid generalizing d with
  | nil => exact fun d' hd' => absurd hd' List.not_mem_nil
  | cons g mid ih =>
    have hsub : (front ++ (mid ++ back)).Sublist (front ++ (g :: mid ++ back)) :=
      ((List.sublist_cons_self g mid).append_right back).append_left front
    have hremoved : Stored codec (d.remove (nameOf g)) floor anchor pending
        (front ++ (mid ++ back)) :=
      ⟨@Holds.removeAll codec d front [g] (mid ++ back) h.holds, h.side.remove (isSegment_nameOf g),
        h.arranged.sublist hsub, h.below_max⟩
    intro d' hd'
    rcases List.mem_cons.mp hd' with rfl | hd'
    · exact ⟨mid, List.suffix_cons g mid, hremoved⟩
    · obtain ⟨rest, hrest, hstored⟩ := ih hremoved d' hd'
      exact ⟨rest, hrest.trans (List.suffix_cons g mid), hstored⟩

theorem Stored.removeAll {front mid back : List Segment}
    (h : Stored codec d floor anchor pending (front ++ (mid ++ back))) :
    Stored codec ((mid.map nameOf).foldl Directory.remove d) floor anchor pending
      (front ++ back) := by
  have hsub : (front ++ back).Sublist (front ++ (mid ++ back)) :=
    (List.sublist_append_right mid back).append_left front
  exact ⟨h.holds.removeAll, h.side.removeAll mid, h.arranged.sublist hsub, h.below_max⟩

/-- The steps of a cut: each leaves the frames in front of it, and perhaps some behind. -/
theorem Stored.cutSteps {front back : List Segment} {base : ℕ} {before rest : List Entry}
    (h : Stored codec s.dir floor anchor pending (front ++ (base, before ++ rest) :: back))
    (hsegs : s.segments = (front ++ (base, before ++ rest) :: back).map infoOf) :
    ∀ d ∈ cutSteps s front.length (stream (frame codec) before).length, ∃ segs behind,
      Stored codec d floor anchor pending segs ∧
      framesOf segs = (framesOf front ++ before) ++ behind ∧
      ∀ e ∈ behind, e ∈ rest ++ framesOf back := by
  obtain ⟨hget, htail⟩ := boundary_segments hsegs
  have hshape : Stored codec s.dir floor anchor pending
      ((front ++ [(base, before ++ rest)]) ++ (back ++ [])) := by
    rw [List.append_nil, List.append_assoc]
    exact h
  have hremoved := hshape.removeAll
  rw [List.append_nil] at hremoved
  obtain ⟨hset, hcut⟩ := holds_cut hremoved.holds
  have hwritten : Stored codec (((back.map nameOf).foldl Directory.remove s.dir).write
      (nameOf (base, before)) (stream (frame codec) before)) floor anchor pending
      (front ++ [(base, before)]) :=
    ⟨hcut, hremoved.side.write (isSegment_nameOf _) _, h.arranged.kept, h.below_max⟩
  intro d hd
  rw [InterruptedOperations.cutSteps, hget] at hd
  dsimp only at hd
  rw [htail, hset] at hd
  rcases List.mem_append.mp hd with hd | hd
  · obtain ⟨later, hlater, hstored⟩ := hshape.removeSteps d hd
    refine ⟨_, rest ++ framesOf later, hstored, by simp [framesOf], fun e he => ?_⟩
    rcases List.mem_append.mp he with he | he
    · exact List.mem_append_left _ he
    · obtain ⟨g, hg, heg⟩ := List.mem_flatMap.mp he
      exact List.mem_append_right _ (List.mem_flatMap.mpr ⟨g, hlater.subset hg, heg⟩)
  · rcases List.mem_cons.mp hd with rfl | hd
    · exact ⟨_, [], hwritten, by simp [framesOf], fun e he => absurd he List.not_mem_nil⟩
    · split_ifs at hd with hzero
      · have hstorable : ∀ e ∈ before, Storable codec e :=
          (hcut.1 (base, before) (by simp)).storable
        have hempty := (stream_length_zero hstorable).mp hzero
        have hgone : Stored codec _ floor anchor pending (front ++ []) :=
          @Stored.removeAll codec _ _ _ _ front [(base, before)] [] hwritten
        rw [List.mem_singleton.mp hd]
        exact ⟨_, [], hgone, by simp [framesOf, hempty], fun e he => absurd he List.not_mem_nil⟩
      · cases hd

/-! ## Every step keeps the log whole -/

/-- A truncation once its marker is in place. -/
theorem Mapped.cutAfterMarker {front back : List Segment} {base index : ℕ}
    {before behind : List Entry} {x : Entry}
    (h : Mapped codec pending s (front ++ (base, before ++ x :: behind) :: back))
    (hindex : index ≤ u64Max) (hfind : s.offsets.find? (fun p => index ≤ p.1) =
      some (x.index, (front.length, (stream (frame codec) before).length)))
    (hx : index ≤ x.index)
    (hbelow : ∀ y ∈ framesOf front ++ before, s.firstValidIndex < y.index → y.index < index)
    (hmax : ∀ target ∈ pending, target < u64Max) :
    ∃ marked rest, truncateSteps s index =
        s.dir.write (truncateMarkerFile ++ ".tmp".toList) (leBytes 8 (index - 1)) ::
          marked :: rest ∧
      ∀ d ∈ marked :: rest, Preserves codec d s.firstValidIndex s.snapshotAnchor
        ((live s.firstValidIndex (front ++ (base, before ++ x :: behind) :: back)).filter
          (fun e => e.index < index)) := by
  obtain ⟨dir, cut, hcut, hdir, hdrop, hholds, hside, hlive⟩ := h.cutParts hindex hx hbelow
  have hframes := framesOf_split front base before (x :: behind) back
  have habove : ∀ y ∈ x :: behind ++ framesOf back, index - 1 < y.index := by
    intro y hy
    have hpos := h.arranged.positive y (hframes ▸ List.mem_append_right _ hy)
    have hle := h.arranged.above_cut hx y hy
    omega
  have htarget : index - 1 < u64Max := by
    have hone : 0 < u64Max := by decide
    omega
  -- with the marker in place only the frames in front of the cut count
  have hcounts {d : Directory} {segs : List Segment} {later : List Entry}
      (hstored : Stored codec d s.firstValidIndex s.snapshotAnchor (some (index - 1)) segs)
      (hsegs : framesOf segs = (framesOf front ++ before) ++ later)
      (hlater : ∀ e ∈ later, e ∈ x :: behind ++ framesOf back) :
      Preserves codec d s.firstValidIndex s.snapshotAnchor
        ((live s.firstValidIndex (front ++ (base, before ++ x :: behind) :: back)).filter
          (fun e => e.index < index)) := by
    have hkept : surviving s.firstValidIndex (some (index - 1)) segs =
        live s.firstValidIndex (keptSegments front base before) := by
      rw [surviving_split hsegs, live, framesOf_kept]
      · intro e he hfloor
        have hlt := hbelow e he hfloor
        omega
      · exact fun e he => habove e (hlater e he)
    rw [← hlive, ← hkept]
    exact hstored.preserves
  have hmarked := (Mapped.stored h hmax).persistMarker htarget
  have hend : Stored codec dir s.firstValidIndex s.snapshotAnchor (some (index - 1))
      (keptSegments front base before) :=
        ⟨hholds, hside, h.arranged.keptSegments, hmarked.below_max⟩
  have hsteps : truncateSteps s index = persistSteps s.dir truncateMarkerFile
    (leBytes 8 (index - 1)) ++
      (cutSteps { s.persistTruncateMarker (index - 1) with activeWriter := none } front.length
          (stream (frame codec) before).length ++
        (checkpointSteps (cut.dropEntries (fun k => index ≤ k)).rebuildEpochStarts ++
          [(cut.dropEntries
            (fun k => index ≤ k)).rebuildEpochStarts.persistEpochCheckpoint.dir.remove
              truncateMarkerFile])) := by
    unfold truncateSteps
    rw [hfind]
    dsimp only at hcut ⊢
    rw [hcut]
    rfl
  rw [hdrop, persistSteps, List.cons_append, List.cons_append, List.nil_append] at hsteps
  refine ⟨_, _, hsteps, fun d hd => ?_⟩
  rcases List.mem_cons.mp hd with rfl | hd
  · exact hcounts hmarked (by rw [hframes, framesOf_kept]) fun e he => he
  rcases List.mem_append.mp hd with hd | hd
  · obtain ⟨segs, later, hstored, hsegs, hlater⟩ := @Stored.cutSteps codec
      { s.persistTruncateMarker (index - 1) with activeWriter := none } _ _ _ front back base before
      (x :: behind) hmarked h.segments d hd
    exact hcounts hstored hsegs hlater
  rcases List.mem_append.mp hd with hd | hd
  · have hstored := @Stored.checkpointSteps codec { s with
      activeWriter := none, dir, segments := (keptSegments front base before).map infoOf
      entries := liveItems s.firstValidIndex (framesOf (keptSegments front base before))
      offsets := offsetsFrom codec s.firstValidIndex 0 (keptSegments front base before) } _ _ hend
        rfl d hd
    exact hcounts hstored (by rw [framesOf_kept, List.append_nil]) fun e he =>
      absurd he List.not_mem_nil
  · have hstored := (@Stored.rebuilt codec { s with
      activeWriter := none, dir, segments := (keptSegments front base before).map infoOf
      entries := liveItems s.firstValidIndex (framesOf (keptSegments front base before))
      offsets := offsetsFrom codec s.firstValidIndex 0 (keptSegments front base before) } _ _ hend
      rfl).clearMarker
    rw [List.mem_singleton.mp hd, ← hlive, ← surviving_none]
    exact hstored.preserves

/-- A truncation that is interrupted. Until the marker is in place the log is as it was, from then
on it is cut; a truncation that is replayed finds the marker already there. -/
theorem Mapped.truncateSteps (h : Mapped codec pending s segs) {index : ℕ} (hindex : index ≤ u64Max)
    (hmax : ∀ target ∈ pending, target < u64Max) (n : ℕ) :
    ∃ log, Preserves codec (after s.dir (truncateSteps s index) n) s.firstValidIndex
      s.snapshotAnchor
        log ∧
      ((∀ target ∈ pending, index = target + 1) → log =
        if n < 2 then surviving s.firstValidIndex pending segs
          else (live s.firstValidIndex segs).filter (fun e => e.index < index)) := by
  have hstored := Mapped.stored h hmax
  cases hfind : s.offsets.find? (fun p => index ≤ p.1) with
  | none =>
    -- nothing is at or above the index, with or without the marker
    have hall : (live s.firstValidIndex segs).filter (fun e => e.index < index) =
        live s.firstValidIndex segs := by
      rw [h.offsets] at hfind
      exact List.filter_eq_self.mpr fun e he =>
        decide_eq_true (below_of_find_offsets_none hfind e he)
    have hsame (hreplay : ∀ target ∈ pending, index = target + 1) :
        surviving s.firstValidIndex pending segs = live s.firstValidIndex segs := by
      cases pending with
      | none => exact surviving_none _ _
      | some target => rw [surviving_replay, ← hreplay target rfl, hall]
    have hmem := after_mem s.dir (InterruptedOperations.truncateSteps s index) n
    unfold InterruptedOperations.truncateSteps at hmem ⊢
    rw [hfind] at hmem ⊢
    rcases List.mem_pair.mp hmem with heq | heq
    · rw [heq]
      refine ⟨_, hstored.preserves, fun hreplay => ?_⟩
      rw [hall, hsame hreplay, ite_self]
    · have hcleared := Mapped.stored h.clearTruncateMarker fun target ht => nomatch ht
      rw [heq]
      refine ⟨_, hcleared.preserves, fun hreplay => ?_⟩
      rw [hall, hsame hreplay, ite_self]
      exact surviving_none _ _
  | some found =>
    have hfind' := hfind
    rw [h.offsets] at hfind'
    obtain ⟨front, base, before, x, behind, back, rfl, rfl, hx, -, hbelow⟩ :=
      find_offsetsFrom hfind'
    rw [Nat.zero_add] at hfind
    obtain ⟨marked, rest, hsteps, hafter⟩ := Mapped.cutAfterMarker h hindex hfind hx hbelow hmax
    rw [hsteps]
    refine ⟨_, ?_, fun _ => rfl⟩
    rcases after_marked s.dir
      (s.dir.write (truncateMarkerFile ++ ".tmp".toList) (leBytes 8 (index - 1))) marked rest n
        with ⟨hn, hmem⟩ | ⟨hn, hmem⟩
    · rw [if_pos hn]
      rcases List.mem_pair.mp hmem with heq | heq
      · rw [heq]
        exact hstored.preserves
      · rw [heq]
        exact (hstored.writeOther (by decide) (by decide) _).preserves
    · rw [if_neg (not_lt.mpr hn)]
      exact hafter _ hmem

theorem Mapped.purgeSteps (h : Mapped codec pending s segs) {through : ℕ} (hfits : through ≤ u64Max)
    (hmax : ∀ target ∈ pending, target < u64Max) (n : ℕ) :
    ∃ floor, Preserves codec (after s.dir (purgeSteps s through) n) floor s.snapshotAnchor
      (if n < 2 then surviving s.firstValidIndex pending segs
        else (surviving s.firstValidIndex pending segs).filter (fun e => through < e.index)) := by
  have hstored := Mapped.stored h hmax
  rw [InterruptedOperations.purgeSteps]
  by_cases hle : through ≤ s.firstValidIndex
  · have hall : (surviving s.firstValidIndex pending segs).filter (fun e => through < e.index) =
        surviving s.firstValidIndex pending segs :=
      List.filter_eq_self.mpr fun e he =>
        decide_eq_true (hle.trans_lt (live_subset (List.mem_of_mem_filter he)).2)
    rw [if_pos hle, hall, ite_self]
    refine ⟨s.firstValidIndex, ?_⟩
    rw [after, List.take_nil]
    exact hstored.preserves
  · have hraise := not_le.mp hle
    set covered := FileLogStore.coveredSegments through (segs.map infoOf) with hcovered
    obtain ⟨dir, hreclaim, hholds, hside, hlive, -⟩ := h.reclaimParts hfits hraise hcovered
    obtain ⟨hdead, -⟩ := coveredSegments_spec h.arranged through
    rw [← hcovered] at hdead
    have hpaths : (s.segments.take (FileLogStore.coveredSegments through s.segments)).map
        SegmentInfo.path = (segs.take covered).map nameOf := by
      rw [h.segments, ← hcovered, ← List.map_take, List.map_map]
      rfl
    have hmarked : Stored codec (s.dir.persist purgeMarkerFile (leBytes 8 through)) through
        s.snapshotAnchor pending ([] ++ (segs.take covered ++ segs.drop covered)) := by
      rw [List.nil_append, List.take_append_drop]
      refine ⟨⟨h.holds.1, ?_⟩, h.side.persistFloor hfits, h.arranged, hmax⟩
      rw [walFiles_persist (by decide) (by decide), h.holds.2]
    have hend : Stored codec dir through s.snapshotAnchor pending (segs.drop covered) :=
      ⟨hholds, hside, h.arranged.sublist (List.drop_sublist _ _), hmax⟩
    -- segments that are still to be removed hold nothing above the floor
    have hcounts {d : Directory} {rest : List Segment} (hrest : rest <:+ segs.take covered)
        (hd : Stored codec d through s.snapshotAnchor pending ([] ++ (rest ++ segs.drop covered))) :
        Preserves codec d through s.snapshotAnchor
          ((surviving s.firstValidIndex pending segs).filter (fun e => through < e.index)) := by
      have hnone : live through rest = [] := by
        refine List.filter_eq_nil_iff.mpr fun e he => ?_
        obtain ⟨g, hg, heg⟩ := List.mem_flatMap.mp he
        have hle := hdead e (List.mem_flatMap.mpr ⟨g, hrest.subset hg, heg⟩)
        simpa using hle
      have hsame : live through ([] ++ (rest ++ segs.drop covered)) = live through segs := by
        rw [List.nil_append, live, framesOf_append, List.filter_append, ← hlive]
        show live through rest ++ _ = _
        rw [hnone]
        rfl
      rw [surviving_raise hraise.le, surviving, ← hsame]
      exact hd.preserves
    rw [if_neg hle]
    dsimp only
    rw [hreclaim, hpaths, persistSteps, List.cons_append, List.cons_append, List.nil_append]
    rcases after_marked s.dir (s.dir.write (purgeMarkerFile ++ ".tmp".toList) (leBytes 8 through))
      (s.dir.persist purgeMarkerFile (leBytes 8 through)) (removeSteps
        (FileLogStore.persistPurgeMarker { s with firstValidIndex := through }).dir
        ((segs.take covered).map nameOf) ++ _) n with ⟨hn, hmem⟩ | ⟨hn, hmem⟩
    · rw [if_pos hn]
      refine ⟨s.firstValidIndex, ?_⟩
      rcases List.mem_pair.mp hmem with heq | heq
      · rw [heq]
        exact hstored.preserves
      · rw [heq]
        exact (hstored.writeOther (by decide) (by decide) _).preserves
    · rw [if_neg (not_lt.mpr hn)]
      refine ⟨through, ?_⟩
      rcases List.mem_cons.mp hmem with heq | hmem
      · rw [heq]
        exact hcounts (List.suffix_refl _) hmarked
      rcases List.mem_append.mp hmem with hmem | hmem
      · obtain ⟨rest, hrest, hd⟩ := hmarked.removeSteps _ hmem
        exact hcounts hrest hd
      · refine hcounts List.nil_suffix (@Stored.checkpointSteps codec { s with
          dir, segments := (segs.drop covered).map infoOf, firstValidIndex := through
          entries := liveItems through (framesOf (segs.drop covered))
          offsets := offsetsFrom codec through 0 (segs.drop covered) } _ _ hend rfl _ hmem)

/-- An `open` that is interrupted leaves the log as it was. -/
theorem Recoverable.openSteps (h : Recoverable codec d floor anchor pending segs)
    (maxSegmentSize n : ℕ) :
    Preserves codec (after d (openSteps codec d maxSegmentSize) n) floor anchor
      (surviving floor pending segs) := by
  obtain ⟨s, hrecover, hmapped, rfl, rfl, hmax⟩ := h.mapped maxSegmentSize
  obtain ⟨starts, hstarts⟩ := loadEpochCheckpoint_ok h.side
  have hpurge := loadPurgeMarker_eq (s := { dir := d, maxSegmentSize }) h.side rfl
  have hanchor := loadSnapshotAnchor_eq
    (s := { dir := d, maxSegmentSize, firstValidIndex := s.firstValidIndex }) h.side rfl
  have hrecovered : recovered codec d maxSegmentSize = .ok s := by
    rw [recovered, hpurge]
    exact (congrArg (· >>= _) hanchor).trans hrecover
  have hstored := Mapped.stored hmapped hmax
  have hmem := after_mem d (InterruptedOperations.openSteps codec d maxSegmentSize) n
  generalize after d (InterruptedOperations.openSteps codec d maxSegmentSize) n = d' at hmem ⊢
  rcases List.mem_cons.mp hmem with heq | hmem
  · rw [heq]
    exact ⟨pending, segs, h, rfl⟩
  rw [InterruptedOperations.openSteps, loadTruncateMarker_eq h.side, hstarts, hrecovered] at hmem
  cases pending with
  | none =>
    rcases List.mem_cons.mp hmem with heq | hmem
    · rw [heq]
      exact hstored.preserves
    · exact (hstored.checkpointSteps hmapped.entries d' hmem).preserves
  | some target =>
    have hadd : satAdd target 1 = target + 1 := by
      have hlt := hmax target rfl
      rw [satAdd]
      omega
    have hfits : target + 1 ≤ u64Max := hmax target rfl
    obtain ⟨s', segs', hok, hmapped', -, -, hlive, hfirst, hanchor'⟩ := hmapped.truncateFrom hfits
    dsimp only at hmem
    rw [hadd, hok] at hmem
    rcases List.mem_cons.mp hmem with heq | hmem
    · rw [heq]
      exact hstored.preserves
    rcases List.mem_append.mp hmem with hmem | hmem
    · obtain ⟨k, hk⟩ := @after_of_mem s.dir _ _ hmem
      obtain ⟨log, hkept, hlog⟩ := Mapped.truncateSteps hmapped hfits hmax k
      rwa [hk, hlog fun t ht => by cases ht; rfl, ← surviving_replay, ite_self] at hkept
    · have hend := (Mapped.stored hmapped' fun t ht => by cases ht).checkpointSteps
        hmapped'.entries d' hmem
      rw [surviving_replay, ← hlive, ← surviving_none, ← hfirst, ← hanchor']
      exact hend.preserves

end InterruptedOperations
