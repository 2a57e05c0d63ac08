import Xraft.CrashAtomicity

/-! # The representation of the file log

What the fields of `FileLogStore` say about each other and about the files, and what is left of it
when `remove_file` refuses. `truncate_from` and `purge_prefix` are modelled once more over a disk
that may refuse removals; a refusal ends the call between two of its updates.
-/
namespace RepresentationInvariant

open ProtocolTypes DurableStores ByteFrames WriteAheadLog WalFrames SegmentReplay FileLogRefinement
open CrashRecovery InterruptedOperations CrashAtomicity GuardedExecution
open SampleCodecs (sampleCodec)

variable {codec : WalCodec} {s : FileLogStore} {segs : List Segment} {pending : Option ℕ}

/-! ## Well-formed stores -/

def Located (codec : WalCodec) (s : FileLogStore) (index : ℕ) (e : Entry) : Prop :=
  ∃ seg off info bytes next, OrderedMaps.lookup index s.offsets = some (seg, off) ∧
    s.segments[seg]? = some info ∧ s.dir.read info.path = some bytes ∧
    codec.decodeFrame bytes off = .ok (e, next) ∧ e.index = index

structure WellFormed (codec : WalCodec) (s : FileLogStore) : Prop where
  bases : s.segments.Pairwise (fun a b => a.baseIndex < b.baseIndex)
  paths : (s.segments.map SegmentInfo.path).Nodup
  exist : ∀ info ∈ s.segments, ∃ bytes, s.dir.read info.path = some bytes
  located : ∀ p ∈ s.entries, Located codec s p.1 p.2
  keys : s.offsets.map Prod.fst = s.entries.map Prod.fst
  epochs : ∀ term, OrderedMaps.lookup term s.epochStarts =
    (s.entries.find? (fun p => p.2.term = term)).map Prod.fst
  writer : s.activeWriter = s.segments.getLast?.map SegmentInfo.path
  size : s.activeSegmentSize =
    ((s.segments.getLast?.bind fun info => s.dir.read info.path).map List.length).getD 0

/-! ### Layouts are well formed -/

theorem lookup_offsetsFrom {floor : ℕ} (h : Arranged segs) {e : Entry} (he : e ∈ live floor segs) :
    ∃ front base before behind back, segs = front ++ (base, before ++ e :: behind) :: back ∧
      OrderedMaps.lookup e.index (offsetsFrom codec floor 0 segs) =
        some (front.length, (stream (frame codec) before).length) := by
  obtain ⟨hframe, hfloor⟩ := live_subset he
  have hkey : e.index ∈ (offsetsFrom codec floor 0 segs).map Prod.fst := by
    rw [offsetsFrom_keys]
    exact List.mem_map_of_mem he
  obtain ⟨o, ho, hoe⟩ := List.mem_map.mp hkey
  have hfound : ((offsetsFrom codec floor 0 segs).find? (fun p => e.index ≤ p.1)).isSome :=
    List.find?_isSome.mpr ⟨o, ho, decide_eq_true hoe.ge⟩
  obtain ⟨found, hfind⟩ := Option.isSome_iff_exists.mp hfound
  obtain ⟨front, base, before, x, behind, back, rfl, rfl, hx, -, hbelow⟩ := find_offsetsFrom hfind
  have hascending := h.ascending
  have hframes : framesOf (front ++ (base, before ++ x :: behind) :: back) =
      (framesOf front ++ before) ++ x :: (behind ++ framesOf back) := by simp [framesOf]
  rw [hframes] at hascending hframe
  -- nothing in front of the frame that is found reaches the index, and nothing behind it is lower
  have hsame : e = x := by
    rcases List.mem_append.mp hframe with hframe | hframe
    · exact absurd (hbelow e hframe hfloor) (lt_irrefl _)
    · rcases List.mem_cons.mp hframe with heq | hframe
      · exact heq
      · have hlt := (List.pairwise_cons.mp (List.pairwise_append.mp hascending).2.1).1 e hframe
        omega
  refine ⟨front, base, before, behind, back, by rw [hsame], ?_⟩
  have hmem := List.mem_of_find?_eq_some hfind
  rw [Nat.zero_add] at hmem
  rw [hsame]
  exact OrderedMaps.lookup_of_mem (h.offsets_ascending floor 0) hmem

theorem Layout.located (h : Layout codec pending s segs) {p : ℕ × Entry} (hp : p ∈ s.entries) :
    Located codec s p.1 p.2 := by
  rw [h.entries] at hp
  obtain ⟨e, he, rfl⟩ := List.mem_map.mp hp
  obtain ⟨front, base, before, behind, back, rfl, hlookup⟩ :=
    @lookup_offsetsFrom codec _ _ h.arranged e he
  have hread := h.holds.read (g := (base, before ++ e :: behind)) (by simp)
  have hstorable : Storable codec e := storable_of_holds h.holds (live_subset he).1
  rw [stream_append, stream_cons] at hread
  refine ⟨_, _, ⟨base, nameOf (base, before ++ e :: behind)⟩, _, _, h.offsets ▸ hlookup, ?_, hread,
    decodeFrame_frame hstorable _ _, rfl⟩
  rw [h.segments]
  simp [infoOf]

/-- The epochs of a log begin with its first entry of their term. -/
theorem lookup_recordEpochs (es : List Entry) (term : ℕ) :
    OrderedMaps.lookup term (recordEpochs [] es) =
      ((keyed es).find? (fun p => p.2.term = term)).map Prod.fst := by
  have hsorted : PositionedLog.KeysAscending (recordEpochs [] es) :=
    PositionedLog.recordEpochs_ascending List.Pairwise.nil es
  have hkeyed : ((keyed es).find? (fun p => p.2.term = term)).map Prod.fst =
      (es.find? (fun e => e.term = term)).map Entry.index := by
    rw [keyed, List.find?_map, Option.map_map]
    rfl
  rw [hkeyed]
  cases hfind : es.find? (fun e => e.term = term) with
  | none =>
    refine OrderedMaps.lookup_eq_none_of_forall fun p hp heq => ?_
    obtain ⟨e, he, hterm, -⟩ := PositionedLog.start_mem hp
    have hnot := List.find?_eq_none.mp hfind e he
    rw [hterm, heq] at hnot
    simp at hnot
  | some x =>
    have hx : x.term = term := by simpa using List.find?_some hfind
    obtain ⟨i, hi⟩ := PositionedLog.recordEpochs_key (List.mem_of_find?_eq_some hfind) []
    rw [hx] at hi
    rcases PositionedLog.recordEpochs_first List.Pairwise.nil hi with hnil | ⟨-, l, y, r, rfl, hy,
      rfl, hl⟩
    · cases hnil
    · have hfirst : (l ++ y :: r).find? (fun e => e.term = term) = some y := by
        rw [List.find?_append, List.find?_eq_none.mpr fun e he => by simpa using hl e he,
          Option.none_or, List.find?_cons_of_pos (by simpa using hy)]
      rw [hfirst] at hfind
      rw [← Option.some.inj hfind]
      exact OrderedMaps.lookup_of_mem hsorted hi

theorem nameOf_injective {d : Directory} (h : Holds codec d segs) : (segs.map nameOf).Nodup := by
  have hascending := walFiles_ascending d
  rw [h.2] at hascending
  exact List.pairwise_map.mpr ((List.pairwise_map.mp hascending).imp fun hlt => hlt.ne)

theorem Layout.wellFormed (h : Layout codec pending s segs) : WellFormed codec s := by
  have hpaths : s.segments.map SegmentInfo.path = segs.map nameOf := by
    rw [h.segments, List.map_map]
    rfl
  have hlast : s.segments.getLast? = segs.getLast?.map infoOf := by
    rw [h.segments, List.getLast?_map]
  refine ⟨?_, ?_, ?_, fun p hp => Layout.located h hp, h.same_keys, fun term => ?_, ?_, ?_⟩
  · rw [h.segments]
    exact List.pairwise_map.mpr (h.arranged.named.imp fun hlt => hlt.1)
  · rw [hpaths]
    exact nameOf_injective h.holds
  · intro info hinfo
    rw [h.segments] at hinfo
    obtain ⟨g, hg, rfl⟩ := List.mem_map.mp hinfo
    exact ⟨_, h.holds.read hg⟩
  · rw [h.epochs, Layout.entries_eq h]
    exact lookup_recordEpochs _ term
  · rw [h.writer, hlast, Option.map_map]
    rfl
  · rw [h.size, hlast]
    cases hg : segs.getLast? with
    | none => rfl
    | some g =>
      have hread := h.holds.read (List.mem_of_getLast? hg)
      show _ = ((s.dir.read (nameOf g)).map List.length).getD 0
      rw [hread]
      rfl

/-! ## A disk that refuses removals -/

/-- The error text with which `remove_file` fails for a file, or nothing when it removes it. -/
abbrev Refusals := FileName → Option String

structure Abandoned where
  store : FileLogStore
  error : XRaftError

/-- `remove_file` for one file after the other; a missing file counts as removed. -/
def removeAllOn (refused : Refusals) : List FileName → Directory →
    Except (Directory × FileName × String) Directory
  | [], d => .ok d
  | name :: rest, d =>
    match d.read name, refused name with
    | some _, some e => .error (d, name, e)
    | _, _ => removeAllOn refused rest (d.remove name)

def clearTruncateMarkerOn (refused : Refusals) (s : FileLogStore) : Except Abandoned FileLogStore :=
  match removeAllOn refused [truncateMarkerFile] s.dir with
  | .error (_, _, e) => .error ⟨s, .storage e⟩
  | .ok dir => .ok { s with dir }

def deletion (s : FileLogStore) (what call : String) (name : FileName) (e : String) : XRaftError :=
  .storage ("failed to delete " ++ what ++ " \"" ++ s.dir.display name ++ "\" during " ++ call ++
    ": " ++ e)

/-- The tail is removed, the boundary cut, and removed as well when nothing of it remains; the list
of segments follows only what has been removed. -/
def cutSegmentOn (refused : Refusals) (s : FileLogStore) (segIdx byteOffset : ℕ) :
    Except Abandoned FileLogStore :=
  match s.segments[segIdx]? with
  | none => .error ⟨s, .storage "index out of bounds"⟩
  | some boundary =>
    match removeAllOn refused ((s.segments.drop (segIdx + 1)).map SegmentInfo.path) s.dir with
    | .error (dir, name, e) =>
      .error ⟨{ s with dir }, deletion s "tail segment" "truncate_from" name e⟩
    | .ok removed =>
      match removed.setLen boundary.path byteOffset with
      | .error e => .error ⟨{ s with dir := removed }, e⟩
      | .ok dir =>
        let kept := { s with dir, segments := s.segments.take (segIdx + 1) }
        if byteOffset = 0 then
          match removeAllOn refused [boundary.path] dir with
          | .error (_, name, e) =>
            .error ⟨kept, deletion s "now-empty segment" "truncate_from" name e⟩
          | .ok dir => .ok { kept with dir, segments := kept.segments.dropLast }
        else .ok kept

def truncateFromOn (refused : Refusals) (s : FileLogStore) (index : ℕ) :
    Except Abandoned FileLogStore :=
  match s.offsets.find? (fun p => index ≤ p.1) with
  | none => clearTruncateMarkerOn refused s
  | some (_, segIdx, byteOffset) => do
    let marked := { s.persistTruncateMarker (index - 1) with activeWriter := none }
    let cut ← cutSegmentOn refused marked segIdx byteOffset
    let rebuilt := (cut.dropEntries (fun k => index ≤ k)).rebuildEpochStarts.persistEpochCheckpoint
    match rebuilt.reopenActiveWriter with
    | .error e => .error ⟨rebuilt, e⟩
    | .ok reopened => clearTruncateMarkerOn refused reopened

/-- The covered segments leave the list before their files are removed, and the offsets are
renumbered behind the removals. -/
def reclaimSegmentsOn (refused : Refusals) (s : FileLogStore) (through : ℕ) :
    Except Abandoned FileLogStore :=
  let dropCount := FileLogStore.coveredSegments through s.segments
  if dropCount = 0 then .ok s
  else
    let drained := { s with segments := s.segments.drop dropCount }
    match removeAllOn refused ((s.segments.take dropCount).map SegmentInfo.path) s.dir with
    | .error (dir, name, e) =>
      .error ⟨{ drained with dir }, deletion s "segment file" "purge_prefix" name e⟩
    | .ok dir =>
      if s.offsets.all (fun p => dropCount ≤ p.2.1) then
        .ok { drained with
          dir
          offsets := s.offsets.map fun p => (p.1, (p.2.1 - dropCount, p.2.2)) }
      else
        .error ⟨{ drained with dir },
          .storage "offset for surviving entry must reference a kept segment"⟩

def purgePrefixOn (refused : Refusals) (s : FileLogStore) (through : ℕ) :
    Except Abandoned FileLogStore :=
  if through ≤ s.firstValidIndex then .ok s
  else do
    let marked := FileLogStore.persistPurgeMarker { s with firstValidIndex := through }
    let kept ← reclaimSegmentsOn refused (marked.dropEntries (fun k => k ≤ through)) through
    .ok kept.rebuildEpochStarts.persistEpochCheckpoint

def leftBehind : Except Abandoned FileLogStore → FileLogStore
  | .ok s => s
  | .error a => a.store

/-! ### Where no segment file is refused -/

section Sound

variable {refused : Refusals}

theorem removeAllOn_sound {names : List FileName} (h : ∀ name ∈ names, refused name = none)
    (d : Directory) : removeAllOn refused names d = .ok (names.foldl Directory.remove d) := by
  induction names generalizing d with
  | nil => rfl
  | cons name rest ih =>
    obtain ⟨hname, hrest⟩ := List.forall_mem_cons.mp h
    unfold removeAllOn
    rw [hname]
    cases d.read name with
    | none => exact ih hrest _
    | some bytes => exact ih hrest _

theorem clearTruncateMarkerOn_cases (refused : Refusals) (s : FileLogStore) :
    clearTruncateMarkerOn refused s = .ok s.clearTruncateMarker ∨
      (refused truncateMarkerFile).isSome ∧ ∃ e, clearTruncateMarkerOn refused s =
        .error ⟨s, e⟩ := by
  unfold clearTruncateMarkerOn removeAllOn
  cases hrefused : refused truncateMarkerFile with
  | none =>
    left
    cases s.dir.read truncateMarkerFile <;> rfl
  | some e =>
    cases s.dir.read truncateMarkerFile with
    | none => exact .inl rfl
    | some bytes => exact .inr ⟨rfl, _, rfl⟩

theorem cutSegmentOn_sound (h : ∀ info ∈ s.segments, refused info.path = none)
    (segIdx byteOffset : ℕ) :
    (cutSegmentOn refused s segIdx byteOffset).mapError Abandoned.error =
      s.cutSegment segIdx byteOffset := by
  unfold cutSegmentOn FileLogStore.cutSegment
  cases hboundary : s.segments[segIdx]? with
  | none => rfl
  | some boundary =>
    have htail : ∀ name ∈ (s.segments.drop (segIdx + 1)).map SegmentInfo.path,
        refused name = none := by
      rintro name hname
      obtain ⟨info, hinfo, rfl⟩ := List.mem_map.mp hname
      exact h info (List.mem_of_mem_drop hinfo)
    have hlast : ∀ name ∈ [boundary.path], refused name = none :=
      List.forall_mem_singleton.mpr (h boundary (List.mem_of_getElem? hboundary))
    dsimp only
    rw [removeAllOn_sound htail]
    dsimp only
    cases Directory.setLen _ boundary.path byteOffset with
    | error e => rfl
    | ok dir =>
      show Except.mapError _ (if byteOffset = 0 then _ else _) = (if byteOffset = 0 then _ else _)
      by_cases hzero : byteOffset = 0
      · rw [if_pos hzero, if_pos hzero, removeAllOn_sound hlast]
        rfl
      · rw [if_neg hzero, if_neg hzero]
        rfl

theorem truncateFromOn_sound (h : ∀ info ∈ s.segments, refused info.path = none)
    (hmarker : refused truncateMarkerFile = none) (index : ℕ) :
    (truncateFromOn refused s index).mapError Abandoned.error = s.truncateFrom index := by
  have hclear (u : FileLogStore) : clearTruncateMarkerOn refused u = .ok u.clearTruncateMarker := by
    refine (clearTruncateMarkerOn_cases refused u).resolve_right fun hrefused => ?_
    rw [hmarker] at hrefused
    cases hrefused.1
  unfold truncateFromOn FileLogStore.truncateFrom
  cases s.offsets.find? (fun p => index ≤ p.1) with
  | none =>
    dsimp only
    rw [hclear]
    rfl
  | some found =>
    dsimp only
    rw [← cutSegmentOn_sound
      (s := { s.persistTruncateMarker (index - 1) with activeWriter := none }) h]
    cases cutSegmentOn refused _ found.2.1 found.2.2 with
    | error a => rfl
    | ok cut =>
      show Except.mapError _ (match FileLogStore.reopenActiveWriter _ with
        | .error e => _
        | .ok reopened => clearTruncateMarkerOn refused reopened) =
          (FileLogStore.reopenActiveWriter _ >>= fun reopened => .ok reopened.clearTruncateMarker)
      cases FileLogStore.reopenActiveWriter _ with
      | error e => rfl
      | ok reopened =>
        dsimp only
        rw [hclear]
        rfl

theorem purgePrefixOn_sound (h : ∀ info ∈ s.segments, refused info.path = none) (through : ℕ) :
    (purgePrefixOn refused s through).mapError Abandoned.error = s.purgePrefix through := by
  have hreclaim (u : FileLogStore) (hu : ∀ info ∈ u.segments, refused info.path = none) :
      (reclaimSegmentsOn refused u through).mapError Abandoned.error =
        u.reclaimSegments through := by
    have hcovered : ∀ name ∈ (u.segments.take (FileLogStore.coveredSegments through u.segments)).map
        SegmentInfo.path, refused name = none := by
      intro name hname
      obtain ⟨info, hinfo, rfl⟩ := List.mem_map.mp hname
      exact hu info (List.mem_of_mem_take hinfo)
    unfold reclaimSegmentsOn FileLogStore.reclaimSegments
    dsimp only
    rw [removeAllOn_sound hcovered]
    split_ifs <;> rfl
  unfold purgePrefixOn FileLogStore.purgePrefix
  split_ifs with hle
  · rfl
  · dsimp only
    rw [← hreclaim]
    · cases reclaimSegmentsOn refused _ through with
      | error a => rfl
      | ok kept => rfl
    · exact h

theorem eq_ok_of_mapError {α : Type} {result : Except Abandoned α} {a : α}
    (h : result.mapError Abandoned.error = .ok a) : result = .ok a := by
  cases result with
  | error e => cases h
  | ok b =>
    cases h
    rfl

theorem Mapped.segments_allowed (h : Mapped codec pending s segs)
    (hrefused : ∀ name, isSegment name = true → refused name = none) :
    ∀ info ∈ s.segments, refused info.path = none := by
  intro info hinfo
  rw [h.segments] at hinfo
  obtain ⟨g, -, rfl⟩ := List.mem_map.mp hinfo
  exact hrefused _ (isSegment_nameOf g)

theorem Layout.clearOn (h : Layout codec pending s segs)
    (hmax : ∀ target ∈ pending, target < u64Max) (refused : Refusals) :
    ∃ pending segs, Layout codec pending (leftBehind (clearTruncateMarkerOn refused s)) segs ∧
      ∀ target ∈ pending, target < u64Max := by
  rcases clearTruncateMarkerOn_cases refused s with hok | ⟨-, e, herror⟩
  · rw [hok]
    exact ⟨none, segs, h.clearTruncateMarker, fun target ht => nomatch ht⟩
  · rw [herror]
    exact ⟨pending, segs, h, hmax⟩

/-- A truncation leaves a layout, also where its marker is not removed. -/
theorem Layout.truncatesOn (h : Layout codec pending s segs)
    (hmax : ∀ target ∈ pending, target < u64Max)
    (hrefused : ∀ name, isSegment name = true → refused name = none) {index : ℕ}
    (hindex : index ≤ u64Max) :
    ∃ pending segs, Layout codec pending (leftBehind (truncateFromOn refused s index)) segs ∧
      ∀ target ∈ pending, target < u64Max := by
  cases hfind : s.offsets.find? (fun p => index ≤ p.1) with
  | none =>
    have hon : truncateFromOn refused s index = clearTruncateMarkerOn refused s := by
      rw [truncateFromOn, hfind]
    rw [hon]
    exact Layout.clearOn h hmax refused
  | some found =>
    have hfind' := hfind
    rw [h.offsets] at hfind'
    obtain ⟨front, base, before, x, after, back, rfl, rfl, hx, -, hbelow⟩ := find_offsetsFrom hfind'
    rw [Nat.zero_add] at hfind
    obtain ⟨cut, s', hcut, hreopened, hlayout, -⟩ := h.toMapped.cutFrom hindex hx hbelow
    have hcutOn := eq_ok_of_mapError ((cutSegmentOn_sound
      (s := { s.persistTruncateMarker (index - 1) with activeWriter := none })
      (show ∀ info ∈ s.segments, _ from Mapped.segments_allowed h.toMapped hrefused) _ _).trans
        hcut)
    have hon : truncateFromOn refused s index = clearTruncateMarkerOn refused s' := by
      rw [truncateFromOn, hfind]
      dsimp only
      rw [hcutOn]
      show (match FileLogStore.reopenActiveWriter _ with | .error e => _ | .ok reopened => _) = _
      rw [hreopened]
    have htarget : ∀ target ∈ some (index - 1), target < u64Max := by
      have hone : 0 < u64Max := by decide
      rintro target ⟨⟩
      omega
    rw [hon]
    exact Layout.clearOn hlayout htarget refused

end Sound

/-! ## Runs -/

inductive FaultOp where
  | call (op : JournalOp)
  | truncateFrom (index : ℕ) (refused : Refusals)
  | purgePrefix (through : ℕ) (refused : Refusals)

/-- A call on a disk that may refuse keeps the store as it is left, also when it fails. -/
def Journal.endure (j : Journal) (refused : Refusals) (result : Except Abandoned FileLogStore)
    (log : List Entry) : Journal where
  store := leftBehind result
  log := if result.isOk then log else j.log
  -- a marker that cannot be removed is no failure of the store
  failed := j.failed || (!result.isOk && (refused truncateMarkerFile).isNone)

def Journal.faultStep (codec : WalCodec) (j : Journal) : FaultOp → Journal
  | .call op => j.step codec op
  | .truncateFrom index refused => Journal.endure j refused (truncateFromOn refused j.store index)
      (j.log.filter (fun e => e.index < index))
  | .purgePrefix through refused => Journal.endure j refused (purgePrefixOn refused j.store through)
      (j.log.filter (fun e => through < e.index))

def Journal.FaultAdmits (codec : WalCodec) (j : Journal) : FaultOp → Prop
  | .call op => j.Admits codec op
  | .truncateFrom index refused =>
    index ≤ u64Max ∧ ∀ name, isSegment name = true → refused name = none
  | .purgePrefix through refused =>
    through ≤ u64Max ∧ ∀ name, isSegment name = true → refused name = none

/-- The store has a layout, perhaps with the marker of a truncation that is done, and no call has
failed. -/
structure Intact (codec : WalCodec) (j : Journal) : Prop where
  layout : ∃ pending segs, Layout codec pending j.store segs ∧ ∀ target ∈ pending, target < u64Max
  sound : j.failed = false

theorem Intact.commit {j : Journal} (h : Intact codec j) {result : Except XRaftError FileLogStore}
    {log : List Entry} (hresult : ∃ s pending segs, result = .ok s ∧ Layout codec pending s segs ∧
      ∀ target ∈ pending, target < u64Max) : Intact codec (j.commit result log) := by
  obtain ⟨s, pending, segs, rfl, hlayout, hmax⟩ := hresult
  refine ⟨⟨pending, segs, hlayout, hmax⟩, ?_⟩
  simp [Journal.commit, h.sound, Except.isOk, Except.toBool]

theorem Intact.restart {j : Journal} (h : Intact codec j) {d : Directory} {floor : ℕ}
    {anchor : Option (ℕ × ℕ)} {kept log : List Entry}
    (hpreserves : Preserves codec d floor anchor kept) (crashes : List (ℕ × ℕ))
    (maxSegmentSize : ℕ) :
    Intact codec (j.commit (restart codec d crashes maxSegmentSize) log) := by
  obtain ⟨s, segs, hok, hlayout, -⟩ := Preserves.restart hpreserves crashes maxSegmentSize
  exact h.commit ⟨s, none, segs, hok, hlayout, fun target ht => nomatch ht⟩

theorem Intact.step {j : Journal} (h : Intact codec j) {op : JournalOp} (hop : j.Admits codec op) :
    Intact codec (j.step codec op) := by
  obtain ⟨pending, segs, hlayout, hmax⟩ := h.layout
  obtain ⟨hcalls, hroom⟩ := hop
  have hstored := Mapped.stored hlayout.toMapped hmax
  cases op with
  | append entries =>
    obtain ⟨s, segs', hok, hlayout', -⟩ := Layout.appends hlayout hcalls.1 hcalls.2 hroom
    exact h.commit ⟨s, pending, segs', hok, hlayout', hmax⟩
  | truncateFrom index =>
    obtain ⟨s, segs', hok, hlayout', -⟩ := hlayout.truncateFrom hcalls
    exact h.commit ⟨s, none, segs', hok, hlayout', fun target ht => nomatch ht⟩
  | purgePrefix through =>
    obtain ⟨s, segs', hok, hlayout', -⟩ := Layout.purges hlayout hcalls
    exact h.commit ⟨s, pending, segs', hok, hlayout', hmax⟩
  | updateSnapshotAnchor term index =>
    obtain ⟨hlayout', -⟩ := @Layout.updateSnapshotAnchor codec j.store segs pending hlayout
      ⟨[], [], j.store.snapshotAnchor⟩ rfl term index hcalls.1 hcalls.2
    exact h.commit ⟨_, pending, segs, rfl, hlayout', hmax⟩
  | reopen maxSegmentSize => exact h.restart hstored.preserves [] maxSegmentSize
  | crashInTruncate index steps crashes maxSegmentSize =>
    obtain ⟨log, hsteps, -⟩ :=
      InterruptedOperations.Mapped.truncateSteps hlayout.toMapped hcalls hmax steps
    exact h.restart hsteps crashes maxSegmentSize
  | crashInPurge through steps crashes maxSegmentSize =>
    obtain ⟨floor, hsteps⟩ :=
      InterruptedOperations.Mapped.purgeSteps hlayout.toMapped hcalls hmax steps
    exact h.restart hsteps crashes maxSegmentSize
  | crashInAppend dir crashes maxSegmentSize =>
    obtain ⟨kept, -, hrecoverable⟩ := Layout.crashed hlayout hmax hcalls
    exact h.restart ⟨pending, kept, hrecoverable, rfl⟩ crashes maxSegmentSize

theorem Intact.faultStep {j : Journal} (h : Intact codec j) {op : FaultOp}
    (hop : Journal.FaultAdmits codec j op) : Intact codec (Journal.faultStep codec j op) := by
  obtain ⟨pending, segs, hlayout, hmax⟩ := h.layout
  cases op with
  | call op => exact h.step hop
  | truncateFrom index refused =>
    refine ⟨Layout.truncatesOn hlayout hmax hop.2 hop.1, ?_⟩
    show (j.failed || _) = false
    rw [h.sound]
    cases hmarker : refused truncateMarkerFile with
    | some e => simp
    | none =>
      obtain ⟨s, -, hok, -⟩ := hlayout.truncateFrom hop.1
      have hokOn := eq_ok_of_mapError ((truncateFromOn_sound
        (Mapped.segments_allowed hlayout.toMapped hop.2) hmarker index).trans hok)
      rw [hokOn]
      rfl
  | purgePrefix through refused =>
    obtain ⟨s, segs', hok, hlayout', -⟩ := Layout.purges hlayout hop.1
    have hokOn := eq_ok_of_mapError
      ((purgePrefixOn_sound (Mapped.segments_allowed hlayout.toMapped hop.2) through).trans hok)
    refine ⟨⟨pending, segs', ?_, hmax⟩, ?_⟩
    · show Layout codec pending (leftBehind (purgePrefixOn refused j.store through)) segs'
      rw [hokOn]
      exact hlayout'
    · show (j.failed || (!(purgePrefixOn refused j.store through).isOk && _)) = false
      rw [h.sound, hokOn]
      rfl

/-- Every store that is opened and used is well formed, through all crashes and reopenings, as long
as frames find room and no removal of a segment file is refused. A truncation whose marker stays on
the disk returns an error, and the store it leaves is well formed as well. -/
theorem representation_invariant (codec : WalCodec) (path : String) (maxSegmentSize : ℕ) :
    ∃ start, Journal.start codec path maxSegmentSize = .ok start ∧
      ∀ j, Execution (Journal.faultStep codec) (Journal.FaultAdmits codec) start j →
        j.failed = false ∧ WellFormed codec j.store := by
  obtain ⟨start, hstart, -, -, -, hkeeps⟩ := start_keeps codec path maxSegmentSize
  refine ⟨start, hstart, fun j hrun => ?_⟩
  obtain ⟨segs, hlayout, -⟩ := hkeeps.layout
  have hintact : Intact codec start :=
    ⟨⟨none, segs, hlayout, fun target ht => nomatch ht⟩, hkeeps.sound⟩
  have hj : Intact codec j := hrun.invariant (fun u op hu hop => Intact.faultStep hu hop) hintact
  obtain ⟨pending, segs, hlayout, -⟩ := hj.layout
  exact ⟨hj.sound, Layout.wellFormed hlayout⟩

def markerRefused : Refusals :=
  fun name => if isSegment name = true then none else some "Permission denied (os error 13)"

/-- Three frames in three segments, a crash in the middle of a purge of the first, and a truncation
of the last behind it, whose marker stays. -/
theorem representation_invariant_purged : ∃ start j,
    Journal.start sampleCodec "log" 1 = .ok start ∧
    Execution (Journal.faultStep sampleCodec) (Journal.FaultAdmits sampleCodec) start j ∧
    j.store.entries = [(2, ⟨2, 1, .noOp⟩)] ∧ WellFormed sampleCodec j.store := by
  obtain ⟨start, hstart, hruns⟩ := representation_invariant sampleCodec "log" 1
  obtain rfl : start = emptyJournal := Except.ok.inj (hstart.symm.trans rfl)
  have hrun : Execution (Journal.faultStep sampleCodec) (Journal.FaultAdmits sampleCodec)
      emptyJournal (replay (Journal.faultStep sampleCodec) emptyJournal
        [.call (.append [⟨1, 1, .noOp⟩, ⟨2, 1, .noOp⟩, ⟨3, 1, .noOp⟩]),
          .call (.crashInPurge 1 2 [] 1), .truncateFrom 3 markerRefused]) := by
    have hone : 1 ≤ u64Max := by decide
    have hcut : 3 ≤ u64Max := by decide
    refine replay_execution ⟨⟨⟨fun e he => ?_, by decide⟩, by decide +kernel⟩, ⟨hone, trivial⟩,
      ⟨hcut, fun _ hsegment => if_pos hsegment⟩, trivial⟩
    simp only [List.mem_cons, List.not_mem_nil, or_false] at he
    rcases he with rfl | rfl | rfl <;>
      exact ⟨storable_noOp (by decide) (by decide), by decide +kernel⟩
  exact ⟨emptyJournal, _, hstart, hrun, by decide +kernel, (hruns _ hrun).2⟩

def threeSegments : Journal :=
  Journal.faultStep sampleCodec emptyJournal
    (.call (.append [⟨1, 1, .noOp⟩, ⟨2, 1, .noOp⟩, ⟨3, 1, .noOp⟩]))

def halfPurged : Except Abandoned FileLogStore :=
  purgePrefixOn (fun _ => some "Permission denied (os error 13)") threeSegments.store 1

/-- The purge fails with its segment out of the list and the offsets still counting it: the last
entry is nowhere, and a truncation from the second entry on cuts the third one's file, so that the
second is there again after reopening. Without any refusal, a frame that is larger than the segment
size and meets the empty segment of its own name is enough: two segments then have one path. -/
theorem refused_removal_breaks_offsets :
    Journal.start sampleCodec "log" 1 = .ok emptyJournal ∧
    Execution (Journal.faultStep sampleCodec) (Journal.FaultAdmits sampleCodec) emptyJournal
      threeSegments ∧
    halfPurged.isOk = false ∧ ¬WellFormed sampleCodec (leftBehind halfPurged) ∧
    (((leftBehind halfPurged).truncateFrom 2).bind fun s =>
      (FileLogStore.openWithMaxSegmentSize sampleCodec s.dir 1).map FileLogStore.entries).toOption =
        some [(2, ⟨2, 1, .noOp⟩)] ∧
    ¬WellFormed sampleCodec (replay (Journal.step sampleCodec) emptyJournal rewritten).store := by
  refine ⟨rfl, Execution.single ⟨⟨fun e he => ?_, by decide⟩, by decide +kernel⟩, by decide +kernel,
    ?_, by decide +kernel, fun hwell => absurd hwell.paths (by decide +kernel)⟩
  · simp only [List.mem_cons, List.not_mem_nil, or_false] at he
    rcases he with rfl | rfl | rfl <;>
      exact ⟨storable_noOp (by decide) (by decide), by decide +kernel⟩
  · intro hwell
    have hmem : ((3, ⟨3, 1, .noOp⟩) : ℕ × Entry) ∈ (leftBehind halfPurged).entries := by
      decide +kernel
    obtain ⟨seg, off, info, bytes, next, hlookup, hget, -⟩ := hwell.located _ hmem
    have hstale : OrderedMaps.lookup 3 (leftBehind halfPurged).offsets = some (2, 0) := by
      decide +kernel
    have hseg : seg = 2 := (Prod.mk.inj (Option.some.inj (hlookup.symm.trans hstale))).1
    have hnone : (leftBehind halfPurged).segments[2]? = none := by decide +kernel
    rw [hseg, hnone] at hget
    cases hget

end RepresentationInvariant
