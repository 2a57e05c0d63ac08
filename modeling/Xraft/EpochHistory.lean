import Xraft.FileLogRefinement

/-! # Epoch ends from history

A log that grows by consecutive indices and terms that never fall, and is cut from either side. Its
epoch map stays the first retained index of each retained term, so `end_offset_for_epoch` answers
with the last retained index of the epoch.
-/
namespace EpochHistory

open ProtocolTypes DurableStores WriteAheadLog WalFrames FileLogRefinement PositionedLog
  GuardedExecution
open SampleCodecs (sampleCodec)

/-! ## Logs without gaps -/

structure Contiguous (es : List Entry) : Prop where
  positioned : ∃ base, Positioned base es
  sorted : es.Pairwise (fun a b => a.term ≤ b.term)

theorem contiguous_nil : Contiguous [] := ⟨⟨0, fun _ _ h => by simp at h⟩, List.Pairwise.nil⟩

theorem Contiguous.below {es : List Entry} (h : Contiguous es) (index : ℕ) :
    Contiguous (es.filter (fun e => e.index < index)) := by
  obtain ⟨base, hpos⟩ := h.positioned
  refine ⟨?_, h.sorted.filter _⟩
  by_cases hbase : index ≤ base
  · have hnone : es.filter (fun e => e.index < index) = [] := by
      refine List.filter_eq_nil_iff.mpr fun e he => ?_
      have := (hpos.index_of_mem he).1
      simp only [decide_eq_true_eq]
      omega
    rw [hnone]
    exact contiguous_nil.positioned
  · obtain ⟨j, rfl⟩ : ∃ j, index = base + j + 1 := ⟨index - base - 1, by omega⟩
    rw [hpos.filter_lt j]
    exact ⟨base, hpos.shorten (List.take_prefix _ _)⟩

theorem Contiguous.above {es : List Entry} (h : Contiguous es) (through : ℕ) :
    Contiguous (es.filter (fun e => through < e.index)) := by
  obtain ⟨base, hpos⟩ := h.positioned
  refine ⟨?_, h.sorted.filter _⟩
  by_cases hbase : through < base
  · have hall : es.filter (fun e => through < e.index) = es := by
      refine List.filter_eq_self.mpr fun e he => ?_
      have := (hpos.index_of_mem he).1
      simp only [decide_eq_true_eq]
      omega
    rw [hall]
    exact ⟨base, hpos⟩
  · obtain ⟨j, rfl⟩ : ∃ j, through = base + j := ⟨through - base, by omega⟩
    have hdrop : es.filter (fun e => base + j < e.index) = es.drop j := hpos.filter_le j
    rw [hdrop]
    exact ⟨base + j, hpos.drop j⟩

theorem Contiguous.ascending {es : List Entry} (h : Contiguous es) :
    es.Pairwise (fun a b => a.index < b.index) := by
  obtain ⟨base, hpos⟩ := h.positioned
  rw [List.pairwise_iff_getElem]
  intro i j hi hj hij
  have hleft := hpos i es[i] (List.getElem?_eq_getElem hi)
  have hright := hpos j es[j] (List.getElem?_eq_getElem hj)
  omega

/-! ## Answers -/

/-- The answer to a lookup: the last retained index of the epoch, or what the anchor stands for. -/
structure Answers (es : List Entry) (anchor : Option (ℕ × ℕ)) (epoch : ℕ) (answer : Option ℕ) :
    Prop where
  retained : (∃ x ∈ es, x.term = epoch) → ∃ y ∈ es, y.term = epoch ∧ answer = some y.index ∧
    (∀ z ∈ es, z.term = epoch → z.index ≤ y.index) ∧ ∀ z ∈ es, z.index ≤ y.index → z.term ≤ epoch
  compacted : (∀ x ∈ es, x.term ≠ epoch) → ∀ term index, anchor = some (term, index) →
    epoch ≤ term →
    answer = some index
  unknown : (∀ x ∈ es, x.term ≠ epoch) →
    (∀ term index, anchor = some (term, index) → term < epoch) →
    answer = none

theorem Contiguous.answers {es : List Entry} (h : Contiguous es) (anchor : Option (ℕ × ℕ))
    (epoch : ℕ) : Answers es anchor epoch
      (endOffsetLookup (recordEpochs [] es) ((es.getLast?.map Entry.index).getD 0) anchor
        epoch) := by
  obtain ⟨base, hpos⟩ := h.positioned
  refine ⟨?_, fun hnone term index hanchor hle => ?_, fun hnone hold => ?_⟩
  · rintro ⟨x, hx, rfl⟩
    obtain ⟨y, hy, hterm, hlast, hanswer⟩ := epoch_end hpos h.sorted hx anchor
    refine ⟨y, hy, hterm, hanswer, hlast, fun z hz hzy => ?_⟩
    -- of two entries in order the terms are in order
    rcases hzy.lt_or_eq with hlt | heq
    · by_contra hgt
      obtain ⟨i, hi, rfl⟩ := List.getElem_of_mem hz
      obtain ⟨j, hj, rfl⟩ := List.getElem_of_mem hy
      have hiz := hpos i es[i] (List.getElem?_eq_getElem hi)
      have hjy := hpos j es[j] (List.getElem?_eq_getElem hj)
      have hij := List.pairwise_iff_getElem.mp h.sorted i j hi hj (by omega)
      omega
    · rw [hpos.unique hz hy heq, hterm]
  · unfold endOffsetLookup
    rw [no_start hnone, hanchor]
    simp [hle]
  · unfold endOffsetLookup
    rw [no_start hnone]
    cases anchor with
    | none => rfl
    | some a =>
      have hlt := hold a.1 a.2 rfl
      simp [hlt]

/-! ## Histories -/

inductive HistoryOp where
  | append (entries : List Entry)
  | truncateFrom (index : ℕ)
  | purgePrefix (through : ℕ)
  | updateSnapshotAnchor (term index : ℕ)

/-- A batch continues the log: with it the indices are consecutive and the terms do not fall. -/
def Continues (es : List Entry) : HistoryOp → Prop
  | .append entries => Contiguous (es ++ entries)
  | _ => True

def memoryStep (s : MemoryLogStore) : HistoryOp → MemoryLogStore
  | .append entries => (s.append entries).toOption.getD s
  | .truncateFrom index => s.truncateFrom index
  | .purgePrefix through => s.purgePrefix through
  | .updateSnapshotAnchor term index => s.updateSnapshotAnchor term index

structure MemoryHistory (s : MemoryLogStore) : Prop where
  contiguous : Contiguous s.entries
  epochs : s.epochStarts = recordEpochs [] s.entries

theorem MemoryHistory.step {s : MemoryLogStore} (h : MemoryHistory s) {op : HistoryOp}
    (hop : Continues s.entries op) : MemoryHistory (memoryStep s op) := by
  cases op with
  | append entries =>
    rw [memoryStep, MemoryLogStore.append]
    split_ifs
    · exact h
    · refine ⟨hop, ?_⟩
      show recordEpochs s.epochStarts entries = recordEpochs [] (s.entries ++ entries)
      rw [h.epochs, recordEpochs, recordEpochs, recordEpochs, List.foldl_append]
  | truncateFrom index => exact ⟨h.contiguous.below index, rfl⟩
  | purgePrefix through => exact ⟨h.contiguous.above through, rfl⟩
  | updateSnapshotAnchor term index =>
    rw [memoryStep, MemoryLogStore.updateSnapshotAnchor]
    split
    · split_ifs
      · exact h
      · exact ⟨h.contiguous, h.epochs⟩
    · exact ⟨h.contiguous, h.epochs⟩

theorem MemoryHistory.answers {s : MemoryLogStore} (h : MemoryHistory s) (epoch : ℕ) :
    Answers s.entries s.snapshotAnchor epoch (s.endOffsetForEpoch epoch) := by
  rw [MemoryLogStore.endOffsetForEpoch, h.epochs]
  exact h.contiguous.answers s.snapshotAnchor epoch

/-! ### The file store -/

variable {codec : WalCodec} {s s' : FileLogStore} {es : List Entry}

def fileStep (codec : WalCodec) (s : FileLogStore) : HistoryOp → Except XRaftError FileLogStore
  | .append entries => s.append codec entries
  | .truncateFrom index => s.truncateFrom index
  | .purgePrefix through => s.purgePrefix through
  | .updateSnapshotAnchor term index => .ok (s.updateSnapshotAnchor term index)

def retained (s : FileLogStore) : List Entry := s.entries.map Prod.snd

structure FileHistory (s : FileLogStore) (es : List Entry) : Prop where
  contiguous : Contiguous es
  entries : s.entries = es.map (fun e => (e.index, e))
  keys : s.offsets.map Prod.fst = s.entries.map Prod.fst
  epochs : s.epochStarts = recordEpochs [] es

theorem FileHistory.retained (h : FileHistory s es) : retained s = es := by
  rw [EpochHistory.retained, h.entries, List.map_map]
  exact List.map_id _

theorem FileHistory.answers (h : FileHistory s es) (epoch : ℕ) :
    Answers (EpochHistory.retained s) s.snapshotAnchor epoch (s.endOffsetForEpoch epoch) := by
  have hlast : s.lastIndex = (es.getLast?.map Entry.index).getD 0 := by
    rw [FileLogStore.lastIndex, h.entries, List.getLast?_map, Option.map_map]
    rfl
  rw [h.retained, FileLogStore.endOffsetForEpoch, h.epochs, hlast]
  exact h.contiguous.answers s.snapshotAnchor epoch

theorem keys_insert {V W : Type} {m : List (ℕ × V)} {m' : List (ℕ × W)} {key : ℕ} {v : V} {w : W}
    (h : m'.map Prod.fst = m.map Prod.fst) (hnew : ∀ p ∈ m, p.1 < key) :
    (OrderedMaps.insert key w m').map Prod.fst = (OrderedMaps.insert key v m).map Prod.fst := by
  have hnew' : ∀ p ∈ m', p.1 < key := by
    intro p hp
    have hkey : p.1 ∈ m.map Prod.fst := h ▸ List.mem_map_of_mem hp
    obtain ⟨q, hq, hqp⟩ := List.mem_map.mp hkey
    exact hqp ▸ hnew q hq
  rw [OrderedMaps.insert_above hnew, OrderedMaps.insert_above hnew', List.map_append,
    List.map_append, h]
  rfl

theorem FileHistory.appendEntry {e : Entry} (h : FileHistory s es) (hnext : Contiguous (es ++ [e]))
    (hok : FileLogStore.appendEntry codec s e = .ok s') : FileHistory s' (es ++ [e]) := by
  have hnew : ∀ x ∈ es, x.index < e.index := fun x hx =>
    (List.pairwise_append.mp hnext.ascending).2.2 x hx e List.mem_cons_self
  have hbelow : ∀ p ∈ s.entries, p.1 < e.index := by
    intro p hp
    rw [h.entries] at hp
    obtain ⟨x, hx, rfl⟩ := List.mem_map.mp hp
    exact hnew x hx
  have hready (len : ℕ) : (s.prepareSegment e.index len).entries = s.entries ∧
      (s.prepareSegment e.index len).offsets = s.offsets ∧
      (s.prepareSegment e.index len).epochStarts = s.epochStarts := by
    rcases prepareSegment_cases s e.index len with ⟨hsame, -⟩ | ⟨hcreate, -⟩
    · rw [hsame]
      exact ⟨rfl, rfl, rfl⟩
    · rw [hcreate]
      exact ⟨rfl, rfl, rfl⟩
  have hwritten (path : FileName) (bytes : Bytes) :
      FileHistory ((s.prepareSegment e.index bytes.length).writeFrame path bytes e)
      (es ++ [e]) := by
    obtain ⟨hentries, hoffsets, hepochs⟩ := hready bytes.length
    have hmap : OrderedMaps.insert e.index e s.entries =
        (es ++ [e]).map (fun e => (e.index, e)) := by
      rw [OrderedMaps.insert_above hbelow, h.entries, List.map_append]
      rfl
    have hstarts : orInsert e.term e.index s.epochStarts = recordEpochs [] (es ++ [e]) := by
      rw [h.epochs, recordEpochs, recordEpochs, List.foldl_append]
      rfl
    rw [FileLogStore.writeFrame, hentries, hoffsets, hepochs]
    split_ifs <;> exact ⟨hnext, hmap, keys_insert h.keys hbelow, hstarts⟩
  unfold FileLogStore.appendEntry at hok
  split at hok
  · cases hok
  · dsimp only at hok
    split at hok
    · cases hok
    · cases hok
      exact hwritten _ _

theorem FileHistory.append {entries : List Entry} (h : FileHistory s es)
    (hnext : Contiguous (es ++ entries)) (hok : s.append codec entries = .ok s') :
    FileHistory s' (es ++ entries) := by
  induction entries generalizing s es with
  | nil =>
    cases hok
    rwa [List.append_nil]
  | cons e rest ih =>
    have hassoc : es ++ e :: rest = (es ++ [e]) ++ rest := List.append_cons es e rest
    rw [hassoc] at hnext ⊢
    rw [FileLogStore.append, List.foldlM_cons] at hok
    obtain ⟨s₁, hfirst, hrest⟩ := bind_eq_ok.mp hok
    have hone : Contiguous (es ++ [e]) := by
      obtain ⟨base, hpos⟩ := hnext.positioned
      exact ⟨⟨base, hpos.shorten (List.prefix_append _ _)⟩,
        (List.pairwise_append.mp hnext.sorted).1⟩
    exact ih (h.appendEntry hone hfirst) hnext hrest

theorem FileHistory.filtered (h : FileHistory s es) (p : ℕ → Bool)
    (hcontiguous : Contiguous (es.filter (fun e => !p e.index)))
    (hentries : s'.entries = s.entries.filter (fun e => !p e.1))
    (hoffsets : s'.offsets.map Prod.fst = (s.offsets.filter (fun o => !p o.1)).map Prod.fst)
    (hepochs : s'.epochStarts = recordEpochs [] (s'.entries.map Prod.snd)) :
    FileHistory s' (es.filter (fun e => !p e.index)) := by
  have hmap : s'.entries = (es.filter (fun e => !p e.index)).map (fun e => (e.index, e)) := by
    rw [hentries, h.entries, List.filter_map]
    rfl
  have hkeys (m : List (ℕ × Entry)) (o : List (ℕ × (ℕ × ℕ)))
    (hk : o.map Prod.fst = m.map Prod.fst) :
      (o.filter (fun o => !p o.1)).map Prod.fst = (m.filter (fun e => !p e.1)).map Prod.fst := by
    have hleft := List.filter_map (f := Prod.fst) (p := fun k => !p k) (l := o)
    have hright := List.filter_map (f := Prod.fst) (p := fun k => !p k) (l := m)
    rw [hk, hright] at hleft
    exact hleft.symm
  refine ⟨hcontiguous, hmap, ?_, ?_⟩
  · rw [hoffsets, hentries]
    exact hkeys _ _ h.keys
  · rw [hepochs, hmap, List.map_map]
    exact congrArg (recordEpochs []) (List.map_id _)

theorem cutSegment_maps {segIdx byteOffset : ℕ} (hok : s.cutSegment segIdx byteOffset = .ok s') :
    s'.entries = s.entries ∧ s'.offsets = s.offsets := by
  unfold FileLogStore.cutSegment at hok
  split at hok
  · cases hok
  · obtain ⟨dir, -, hok⟩ := bind_eq_ok.mp hok
    dsimp only at hok
    split_ifs at hok <;> cases hok <;> exact ⟨rfl, rfl⟩

theorem openWriter_maps {path : FileName} (hok : s.openWriter path = .ok s') :
    s'.entries = s.entries ∧ s'.offsets = s.offsets ∧ s'.epochStarts = s.epochStarts := by
  unfold FileLogStore.openWriter at hok
  split at hok
  · cases hok
  · cases hok
    exact ⟨rfl, rfl, rfl⟩

theorem reopenActiveWriter_maps (hok : s.reopenActiveWriter = .ok s') :
    s'.entries = s.entries ∧ s'.offsets = s.offsets ∧ s'.epochStarts = s.epochStarts := by
  unfold FileLogStore.reopenActiveWriter at hok
  split at hok
  · exact openWriter_maps hok
  · cases hok
    exact ⟨rfl, rfl, rfl⟩

theorem reclaimSegments_maps {through : ℕ} (hok : s.reclaimSegments through = .ok s') :
    s'.entries = s.entries ∧ s'.offsets.map Prod.fst = s.offsets.map Prod.fst := by
  unfold FileLogStore.reclaimSegments at hok
  dsimp only at hok
  split_ifs at hok
  · cases hok
    exact ⟨rfl, rfl⟩
  · cases hok
    refine ⟨rfl, ?_⟩
    rw [List.map_map]
    rfl

theorem FileHistory.truncateFrom {index : ℕ} (h : FileHistory s es)
    (hok : s.truncateFrom index = .ok s') :
    FileHistory s' (es.filter (fun e => !decide (index ≤ e.index))) := by
  have hbelow : es.filter (fun e => !decide (index ≤ e.index)) =
      es.filter (fun e => e.index < index) :=
    List.filter_congr fun e _ => by rw [← decide_not]; exact decide_eq_decide.mpr not_le
  have hcontiguous : Contiguous (es.filter (fun e => !decide (index ≤ e.index))) := by
    rw [hbelow]
    exact h.contiguous.below index
  unfold FileLogStore.truncateFrom at hok
  split at hok
  · rename_i hnone
    cases hok
    -- no offset, hence no entry, is at or above the index
    have hall : es.filter (fun e => !decide (index ≤ e.index)) = es := by
      refine List.filter_eq_self.mpr fun e he => ?_
      have hkey : e.index ∈ s.offsets.map Prod.fst := by
        rw [h.keys, h.entries]
        exact List.mem_map_of_mem (List.mem_map_of_mem he)
      obtain ⟨o, ho, hoe⟩ := List.mem_map.mp hkey
      have hnot := List.find?_eq_none.mp hnone o ho
      rw [hoe] at hnot
      simpa using hnot
    rw [hall]
    exact ⟨h.contiguous, h.entries, h.keys, h.epochs⟩
  · obtain ⟨cut, hcut, hok⟩ := bind_eq_ok.mp hok
    obtain ⟨reopened, hreopened, hok⟩ := bind_eq_ok.mp hok
    cases hok
    have hcutEntries : cut.entries = s.entries := (cutSegment_maps hcut).1
    have hcutOffsets : cut.offsets = s.offsets := (cutSegment_maps hcut).2
    have hkeys : cut.offsets.map Prod.fst = cut.entries.map Prod.fst := by
      rw [hcutEntries, hcutOffsets, h.keys]
    rw [dropEntries_eq hkeys, hcutEntries, hcutOffsets] at hreopened
    obtain ⟨hentries, hoffsets, hepochs⟩ := reopenActiveWriter_maps hreopened
    refine h.filtered (fun k => index ≤ k) hcontiguous hentries
      (congrArg (List.map Prod.fst) hoffsets) ?_
    show reopened.epochStarts = recordEpochs [] (reopened.entries.map Prod.snd)
    rw [hepochs, hentries]
    rfl

theorem FileHistory.purgePrefix {through : ℕ} (h : FileHistory s es)
    (hok : s.purgePrefix through = .ok s') : ∃ es', FileHistory s' es' := by
  have habove : es.filter (fun e => !decide (e.index ≤ through)) =
      es.filter (fun e => through < e.index) :=
    List.filter_congr fun e _ => by rw [← decide_not]; exact decide_eq_decide.mpr not_le
  have hcontiguous : Contiguous (es.filter (fun e => !decide (e.index ≤ through))) := by
    rw [habove]
    exact h.contiguous.above through
  unfold FileLogStore.purgePrefix at hok
  split_ifs at hok
  · cases hok
    exact ⟨es, h⟩
  · obtain ⟨kept, hkept, hok⟩ := bind_eq_ok.mp hok
    cases hok
    have hdrop :=
      @dropEntries_eq (FileLogStore.persistPurgeMarker { s with firstValidIndex := through }) h.keys
        (fun k => k ≤ through)
    rw [hdrop] at hkept
    obtain ⟨hentries, hoffsets⟩ := reclaimSegments_maps hkept
    refine ⟨_, h.filtered (fun k => k ≤ through) hcontiguous hentries hoffsets ?_⟩
    show recordEpochs [] (kept.entries.map Prod.snd) = _
    rfl

theorem FileHistory.updateSnapshotAnchor (h : FileHistory s es) (term index : ℕ) :
    FileHistory (s.updateSnapshotAnchor term index) es := by
  unfold FileLogStore.updateSnapshotAnchor
  split
  · split_ifs
    · exact h
    · exact ⟨h.contiguous, h.entries, h.keys, h.epochs⟩
  · exact ⟨h.contiguous, h.entries, h.keys, h.epochs⟩

theorem FileHistory.step {op : HistoryOp} (h : FileHistory s es) (hop : Continues es op)
    (hok : fileStep codec s op = .ok s') : ∃ es', FileHistory s' es' := by
  cases op with
  | append entries => exact ⟨_, h.append hop hok⟩
  | truncateFrom index => exact ⟨_, h.truncateFrom hok⟩
  | purgePrefix through => exact h.purgePrefix hok
  | updateSnapshotAnchor term index =>
    cases hok
    exact ⟨es, h.updateSnapshotAnchor term index⟩

def FileCalls (codec : WalCodec) (s : FileLogStore) (op : HistoryOp) : Prop :=
  (fileStep codec s op).isOk = true ∧ Continues (retained s) op

def fileNext (codec : WalCodec) (s : FileLogStore) (op : HistoryOp) : FileLogStore :=
  (fileStep codec s op).toOption.getD s

theorem fileNext_history (h : ∃ es, FileHistory s es) {op : HistoryOp}
    (hop : FileCalls codec s op) : ∃ es, FileHistory (fileNext codec s op) es := by
  obtain ⟨es, hes⟩ := h
  obtain ⟨hok, hcontinues⟩ := hop
  rw [hes.retained] at hcontinues
  rw [fileNext]
  cases hstep : fileStep codec s op with
  | error e =>
    rw [hstep] at hok
    cases hok
  | ok s' => exact hes.step hcontinues hstep

/-! ### Both stores with reopenings -/

def TwinCalls (codec : WalCodec) (t : Twin) (op : LogOp) : Prop :=
  t.Admits codec op ∧ match op with
    | .append entries => Contiguous (t.memory.entries ++ entries)
    | _ => True

theorem twin_history {t : Twin} (h : MemoryHistory t.memory) {op : LogOp}
    (hop : TwinCalls codec t op) : MemoryHistory (t.step codec op).memory := by
  cases op with
  | append entries => exact @MemoryHistory.step _ h (.append entries) hop.2
  | truncateFrom index => exact @MemoryHistory.step _ h (.truncateFrom index) trivial
  | purgePrefix through => exact @MemoryHistory.step _ h (.purgePrefix through) trivial
  | updateSnapshotAnchor term index =>
    exact @MemoryHistory.step _ h (.updateSnapshotAnchor term index) trivial
  | reopen maxSegmentSize => exact h

theorem twin_answers {t : Twin} {segs : List SegmentReplay.Segment} (h : Mirrors codec t segs)
    (hm : MemoryHistory t.memory) (epoch : ℕ) :
    Answers (retained t.file) t.file.snapshotAnchor epoch (t.file.endOffsetForEpoch epoch) := by
  have hretained : retained t.file = t.memory.entries := by
    rw [retained, h.image.entries, liveItems_eq, List.map_map, h.entries]
    exact List.map_id _
  rw [hretained, h.anchor, h.agree.endOffsetForEpoch epoch]
  exact hm.answers epoch

/-! ## The lookup -/

/-- In every history of either store, and of both with the file store reopened, a lookup answers
with the last retained index of the epoch, else with the anchor when it is new enough, else not at
all. -/
theorem epoch_lookup_answers_from_history (codec : WalCodec) (path : String) (maxSegmentSize : ℕ) :
    (∀ s, Execution memoryStep (fun s op => Continues s.entries op) .new s →
      ∀ epoch, Answers s.entries s.snapshotAnchor epoch (s.endOffsetForEpoch epoch)) ∧
    ∃ start,
      FileLogStore.openWithMaxSegmentSize codec (Directory.empty path) maxSegmentSize = .ok start ∧
      (∀ s, Execution (fileNext codec) (FileCalls codec) start s →
        ∀ epoch, Answers (retained s) s.snapshotAnchor epoch (s.endOffsetForEpoch epoch)) ∧
      ∀ t, Execution (Twin.step codec) (TwinCalls codec) ⟨start, .new, [], false⟩ t →
        ∀ epoch, Answers (retained t.file) t.file.snapshotAnchor epoch
          (t.file.endOffsetForEpoch epoch) := by
  have hnew : MemoryHistory .new := ⟨contiguous_nil, rfl⟩
  obtain ⟨start, hopen, himage, hfirst, hanchor⟩ := open_empty codec path maxSegmentSize
  refine ⟨fun s hrun epoch => ?_, start, hopen, fun s hrun epoch => ?_, fun t hrun epoch => ?_⟩
  · have hstep (u : MemoryLogStore) (op : HistoryOp) (hu : MemoryHistory u)
        (hop : Continues u.entries op) : MemoryHistory (memoryStep u op) := hu.step hop
    exact (hrun.invariant hstep hnew).answers epoch
  · have hstart : ∃ es, FileHistory start es := by
      refine ⟨[], contiguous_nil, himage.entries, ?_, himage.epochs⟩
      rw [himage.offsets, himage.entries]
      rfl
    have hstep (u : FileLogStore) (op : HistoryOp) (hu : ∃ es, FileHistory u es)
        (hop : FileCalls codec u op) : ∃ es, FileHistory (fileNext codec u op) es :=
      fileNext_history hu hop
    obtain ⟨es, hes⟩ := hrun.invariant hstep hstart
    exact hes.answers epoch
  · have hstart : Mirrors codec ⟨start, .new, [], false⟩ [] :=
      ⟨himage, rfl, rfl, hanchor, fun p hp => absurd hp List.not_mem_nil, .inl hfirst, rfl⟩
    have hstep (u : Twin) (op : LogOp) (hu : (∃ segs, Mirrors codec u segs) ∧
      MemoryHistory u.memory)
        (hop : TwinCalls codec u op) :
        (∃ segs, Mirrors codec (u.step codec op) segs) ∧
        MemoryHistory (u.step codec op).memory := by
      obtain ⟨⟨segs, hsegs⟩, hm⟩ := hu
      exact ⟨hsegs.step hop.1, twin_history hm hop⟩
    obtain ⟨⟨segs, hsegs⟩, hm⟩ := hrun.invariant hstep ⟨⟨[], hstart⟩, hnew⟩
    exact twin_answers hsegs hm epoch

/-- A log cut at both ends in memory, and a file store that only has its anchor. -/
theorem epoch_lookup_answers_from_history_cut : ∃ s start t,
    Execution memoryStep (fun s op => Continues s.entries op) .new s ∧
    s.entries = [⟨2, 1, .noOp⟩, ⟨3, 2, .noOp⟩] ∧ s.endOffsetForEpoch 1 = some 2 ∧
    Execution (fileNext sampleCodec) (FileCalls sampleCodec) start t ∧
    t.snapshotAnchor = some (2, 5) ∧ t.endOffsetForEpoch 1 = some 5 := by
  obtain ⟨hmemory, start, hopen, hfile, -⟩ :=
    epoch_lookup_answers_from_history sampleCodec "log" 64
  obtain ⟨start', hopen', himage, -, hanchor⟩ := open_empty sampleCodec "log" 64
  obtain rfl : start = start' := Except.ok.inj (hopen.symm.trans hopen')
  have hwhole : Contiguous [⟨1, 1, .noOp⟩, ⟨2, 1, .noOp⟩, ⟨3, 2, .noOp⟩, ⟨4, 2, .noOp⟩] := by
    refine ⟨⟨0, fun i e hi => ?_⟩, by decide⟩
    match i, hi with
    | 0, hi | 1, hi | 2, hi | 3, hi => exact (Option.some.inj hi) ▸ rfl
  have hrun : Execution memoryStep (fun s op => Continues s.entries op) .new
      (replay memoryStep .new [.append [⟨1, 1, .noOp⟩, ⟨2, 1, .noOp⟩, ⟨3, 2, .noOp⟩, ⟨4, 2, .noOp⟩],
        .truncateFrom 4, .updateSnapshotAnchor 1 1, .purgePrefix 1]) :=
    replay_execution ⟨hwhole, trivial, trivial, trivial, trivial⟩
  have hcall : FileCalls sampleCodec start (.updateSnapshotAnchor 2 5) := ⟨rfl, trivial⟩
  have hnext : fileNext sampleCodec start (.updateSnapshotAnchor 2 5) =
      start.updateSnapshotAnchor 2 5 := rfl
  have hset : (start.updateSnapshotAnchor 2 5).snapshotAnchor = some (2, 5) := by
    rw [FileLogStore.updateSnapshotAnchor, hanchor]
    rfl
  have hnone : retained (start.updateSnapshotAnchor 2 5) = [] := by
    rw [FileLogStore.updateSnapshotAnchor, hanchor, retained]
    exact congrArg (List.map Prod.snd) himage.entries
  refine ⟨_, start, _, hrun, rfl, ?_, Execution.single hcall, hset, ?_⟩
  · obtain ⟨y, hy, hterm, hanswer, -⟩ := (hmemory _ hrun 1).retained ⟨⟨2, 1, .noOp⟩, by decide, rfl⟩
    rw [hanswer]
    rcases List.mem_pair.mp hy with rfl | rfl
    · rfl
    · cases hterm
  · have hanswer := hfile _ (Execution.single hcall) 1
    rw [hnext, hnone] at hanswer
    exact hanswer.compacted (fun x hx => absurd hx List.not_mem_nil) 2 5 hset (by decide)

end EpochHistory
