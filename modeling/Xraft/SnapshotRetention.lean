import Xraft.GuardedExecution
import Xraft.RetainedMaps
import Xraft.SnapshotStores

/-! # The file store is a bounded map

Saves, deletes and reopenings of a `FileSnapshotStore` next to the map from indices to snapshots
that it is meant to keep, and next to a `MemorySnapshotStore`.
-/
namespace SnapshotRetention

open ProtocolTypes DurableStores DecimalText WriteAheadLog SnapshotFiles SnapshotStores
open RetainedMaps GuardedExecution
open SampleCodecs (soloVoters)

/-! ## Names -/

theorem splitExtension_plain {name : List Char} (h : '.' ∉ name) : splitExtension name = none := by
  have hdrop : name.reverse.dropWhile (fun c => decide (c ≠ '.')) = [] := by
    rw [List.dropWhile_eq_nil_iff]
    intro c hc
    exact decide_eq_true (fun heq => h (heq ▸ List.mem_reverse.mp hc))
  rw [splitExtension, hdrop]

theorem stripFront_append (front s : List Char) : stripFront front (front ++ s) = some s := by
  induction front with
  | nil => rfl
  | cons c cs ih => simpa [stripFront] using ih

theorem zeroPad_toList (width n : ℕ) : ∃ k, (zeroPad width n).toList =
    List.replicate k '0' ++ (toString n).toList := by
  refine ⟨width - (toString n).length, ?_⟩
  simp [zeroPad]

theorem canonicalId_toList (term index : ℕ) : ∃ k l, (canonicalId term index).toList =
    "snapshot-".toList ++ ((List.replicate k '0' ++ (toString term).toList) ++
      '-' :: (List.replicate l '0' ++ (toString index).toList)) := by
  obtain ⟨k, hk⟩ := zeroPad_toList 10 term
  obtain ⟨l, hl⟩ := zeroPad_toList 20 index
  refine ⟨k, l, ?_⟩
  rw [canonicalId, String.toList_append, String.toList_append, String.toList_append, hk, hl]
  simp

theorem canonicalId_plain {term index : ℕ} {c : Char} (h : c ∈ (canonicalId term index).toList) :
    c ≠ '.' ∧ c ≠ '/' := by
  obtain ⟨k, l, htext⟩ := canonicalId_toList term index
  have hdigit {d : Char} (hd : '0' ≤ d ∧ d ≤ '9') : d ≠ '.' ∧ d ≠ '/' := by
    constructor
    · rintro rfl
      exact absurd hd.1 (by decide)
    · rintro rfl
      exact absurd hd.1 (by decide)
  rw [htext, List.mem_append, List.mem_append, List.mem_cons] at h
  rcases h with h | h | rfl | h
  · have hword : ∀ d ∈ "snapshot-".toList, d ≠ '.' ∧ d ≠ '/' := by simp
    exact hword c h
  · exact hdigit (mem_zeros_toString h)
  · decide
  · exact hdigit (mem_zeros_toString h)

theorem canonicalId_ne_nil (term index : ℕ) : (canonicalId term index).toList ≠ [] := by
  obtain ⟨k, l, htext⟩ := canonicalId_toList term index
  rw [htext]
  exact List.cons_ne_nil _ _

theorem parse_stem {name : FileName} {term index : ℕ} (hterm : term ≤ u64Max)
    (hindex : index ≤ u64Max)
    (hstem : ((splitExtension name).map Prod.fst).getD name = (canonicalId term index).toList) :
    parseSnapshotFilename name = some (term, index) := by
  obtain ⟨k, l, htext⟩ := canonicalId_toList term index
  have hdigits : ∀ c ∈ List.replicate k '0' ++ (toString term).toList, decide (c ≠ '-') = true := by
    intro c hc
    refine decide_eq_true ?_
    rintro rfl
    exact absurd (mem_zeros_toString hc).1 (by decide)
  rw [parseSnapshotFilename, hstem, htext, stripFront_append]
  dsimp only
  rw [List.dropWhile_append_of_pos hdigits, List.takeWhile_append_of_pos hdigits]
  simp only [List.dropWhile_cons, List.takeWhile_cons, ne_eq, not_true_eq_false, decide_false,
    Bool.false_eq_true, if_false, List.append_nil]
  rw [parseUnsigned_zeros_toString _ hterm, parseUnsigned_zeros_toString _ hindex]

theorem splitExtension_filename (term index : ℕ) :
    splitExtension (snapshotFilename term index) =
      some ((canonicalId term index).toList, snapshotExt) := by
  rw [snapshotFilename]
  exact splitExtension_append (canonicalId_ne_nil term index) (by decide)

theorem parse_filename {term index : ℕ} (hterm : term ≤ u64Max) (hindex : index ≤ u64Max) :
    parseSnapshotFilename (snapshotFilename term index) = some (term, index) := by
  refine parse_stem hterm hindex ?_
  rw [splitExtension_filename, Option.map_some, Option.getD_some]

theorem parse_canonicalId {term index : ℕ} (hterm : term ≤ u64Max) (hindex : index ≤ u64Max) :
    parseSnapshotFilename (canonicalId term index).toList = some (term, index) := by
  refine parse_stem hterm hindex ?_
  rw [splitExtension_plain (fun h => (canonicalId_plain h).1 rfl), Option.map_none,
    Option.getD_none]

theorem canonicalId_inj {term index term' index' : ℕ} (hterm : term ≤ u64Max)
    (hindex : index ≤ u64Max) (hterm' : term' ≤ u64Max) (hindex' : index' ≤ u64Max) :
    canonicalId term index = canonicalId term' index' ↔ term = term' ∧ index = index' := by
  constructor
  · intro h
    have hparse := parse_canonicalId hterm hindex
    rw [h, parse_canonicalId hterm' hindex'] at hparse
    simpa [eq_comm] using hparse
  · rintro ⟨rfl, rfl⟩
    rfl

theorem pathFileName_plain {name : List Char} (hslash : '/' ∉ name) (hlen : 2 < name.length) :
    pathFileName name = some name := by
  have hsplit : name.splitOn '/' = [name] := by
    refine List.splitOnP_eq_singleton ?_
    intro c hc
    exact beq_false_of_ne (fun heq => hslash (heq ▸ hc))
  have hne : name ≠ [] ∧ name ≠ ['.'] ∧ name ≠ ['.', '.'] := by
    refine ⟨?_, ?_, ?_⟩ <;> rintro rfl <;> simp at hlen
  rw [pathFileName, hsplit]
  simp [hne]

/-- A canonical id is the path of one component, with an extension or without. -/
theorem parsePath_canonicalId {term index : ℕ} (hterm : term ≤ u64Max) (hindex : index ≤ u64Max) :
    parseSnapshotPath (canonicalId term index).toList = some (term, index) ∧
      parseSnapshotPath ((canonicalId term index).toList ++ ".bin".toList) =
        some (term, index) := by
  have hlen : 2 < (canonicalId term index).toList.length := by
    obtain ⟨k, l, htext⟩ := canonicalId_toList term index
    rw [htext, List.length_append]
    exact Nat.lt_of_lt_of_le (by decide) (Nat.le_add_right _ _)
  have hslash : '/' ∉ (canonicalId term index).toList := fun h => (canonicalId_plain h).2 rfl
  have hname : (canonicalId term index).toList ++ ".bin".toList = snapshotFilename term index := by
    rw [snapshotFilename]
    rfl
  constructor
  · rw [parseSnapshotPath, pathFileName_plain hslash hlen, Option.bind_some,
      parse_canonicalId hterm hindex]
  · rw [hname, parseSnapshotPath, pathFileName_plain, Option.bind_some, parse_filename hterm hindex]
    · rw [← hname, List.mem_append]
      rintro (h | h)
      · exact hslash h
      · exact absurd h (by decide)
    · rw [← hname, List.length_append]
      omega

/-! ## Shelves -/

abbrev Snapshot := StoredMeta × Bytes

def indexOf (p : Snapshot) : ℕ := p.1.lastIncludedIndex

def pathOf (p : Snapshot) : FileName := FileSnapshotStore.snapshotPathFromMeta p.1

variable {codec : SnapshotCodec}

def content (codec : SnapshotCodec) (p : Snapshot) : Bytes := (codec.fields p.1 p.2).flatten

/-- A snapshot as a store keeps it, with canonical id, size and checksum. -/
structure Kept (codec : SnapshotCodec) (p : Snapshot) : Prop where
  writable : codec.Writable p.1 p.2
  normal : codec.normalize p.1 p.2 = p.1

theorem Kept.of_save {metadata : StoredMeta} {data : Bytes} (h : codec.Writable metadata data) :
    Kept codec (codec.normalize metadata data, data) := ⟨⟨h.index, h.term, h.voters, h.size⟩, rfl⟩

theorem Kept.id_eq {p : Snapshot} (h : Kept codec p) :
    p.1.id = canonicalId p.1.lastIncludedTerm p.1.lastIncludedIndex := by
  rw [← h.normal]
  rfl

theorem Kept.fits {p : Snapshot} (h : Kept codec p) : (content codec p).length ≤ u64Max := by
  rw [content, codec.fields_length]
  exact h.writable.size

theorem Kept.spells {p : Snapshot} (h : Kept codec p) : codec.Spells (content codec p) p.1 p.2 := by
  have hspells := SnapshotCodec.fields_spell h.writable
  rw [h.normal] at hspells
  exact hspells

theorem Kept.readMeta {p : Snapshot} (h : Kept codec p) :
    codec.readMetaFromFile (content codec p) = .ok p.1 := by
  have hspells := h.spells
  rw [hspells.data_eq] at hspells
  exact (SnapshotCodec.readMetaFromFile_iff h.fits).mpr hspells

theorem Kept.decode {p : Snapshot} (h : Kept codec p) :
    codec.decodeSnapshot (content codec p) = .ok p :=
  (SnapshotCodec.decodeSnapshot_iff h.fits).mpr h.spells

theorem Kept.id_iff {p : Snapshot} (h : Kept codec p) {term index : ℕ} (hterm : term ≤ u64Max)
    (hindex : index ≤ u64Max) :
    p.1.id = canonicalId term index ↔ indexOf p = index ∧ p.1.lastIncludedTerm = term := by
  rw [h.id_eq, canonicalId_inj h.writable.term h.writable.index hterm hindex, and_comm]
  rfl

theorem Kept.path_parse {p : Snapshot} (h : Kept codec p) :
    parseSnapshotFilename (pathOf p) = some (p.1.lastIncludedTerm, p.1.lastIncludedIndex) :=
  parse_filename h.writable.term h.writable.index

theorem path_key {p q : Snapshot} (hp : Kept codec p) (hq : Kept codec q)
    (h : pathOf p = pathOf q) : FileSnapshotStore.keyOf p.1 = FileSnapshotStore.keyOf q.1 := by
  have hparse := hp.path_parse
  rw [h, hq.path_parse] at hparse
  have heq := Option.some.inj hparse
  exact Prod.ext (congrArg Prod.snd heq).symm (congrArg Prod.fst heq).symm

theorem path_inj {p q : Snapshot} (hp : Kept codec p) (hq : Kept codec q)
    (h : pathOf p = pathOf q) : indexOf p = indexOf q := congrArg Prod.fst (path_key hp hq h)

structure Filed (codec : SnapshotCodec) (d : Directory) (shelf : List Snapshot) : Prop where
  present : ∀ p ∈ shelf, d.read (pathOf p) = some (content codec p)
  absent : ∀ name, (∀ p ∈ shelf, pathOf p ≠ name) → d.read name = none

structure Shelved (codec : SnapshotCodec) (s : FileSnapshotStore) (shelf : List Snapshot) :
    Prop where
  kept : ∀ p ∈ shelf, Kept codec p
  descending : Descending indexOf shelf
  index : s.index = shelf.map Prod.fst
  filed : Filed codec s.dir shelf

theorem Filed.name {d : Directory} {shelf : List Snapshot} (h : Filed codec d shelf)
    {name : FileName} {bytes : Bytes} (hread : d.read name = some bytes) : ∃ p ∈ shelf,
    pathOf p = name := by
  by_contra hnone
  push Not at hnone
  rw [h.absent name hnone] at hread
  cases hread

/-! ## Pruning -/

theorem Filed.remove {d : Directory} {shelf rest : List Snapshot} {p : Snapshot}
    (h : Filed codec d shelf) (hrest : ∀ q, q ∈ rest ↔ q ∈ shelf ∧ pathOf q ≠ pathOf p) :
    Filed codec (d.remove (pathOf p)) rest := by
  constructor
  · intro q hq
    obtain ⟨hmem, hpath⟩ := (hrest q).mp hq
    rw [Directory.read_remove, if_neg hpath]
    exact h.present q hmem
  · intro name hname
    rw [Directory.read_remove]
    split_ifs with heq
    · rfl
    · refine h.absent name fun q hq hpath => ?_
      exact hname q ((hrest q).mpr ⟨hq, fun hsame => heq (hpath.symm.trans hsame)⟩) hpath

theorem Shelved.dropOldest {s : FileSnapshotStore} {front : List Snapshot} {p : Snapshot}
    (h : Shelved codec s (front ++ [p])) :
    Shelved codec { s with
      dir := s.dir.remove (FileSnapshotStore.snapshotPathFromMeta p.1)
      index := s.index.dropLast } front := by
  have hpath : ∀ q ∈ front, pathOf q ≠ pathOf p := by
    intro q hq heq
    have hlt := (List.pairwise_append.mp h.descending).2.2 q hq p List.mem_cons_self
    have hsame := path_inj (h.kept q (List.mem_append_left _ hq))
      (h.kept p (List.mem_append_right _ List.mem_cons_self)) heq
    omega
  have hrest : ∀ q, q ∈ front ↔ q ∈ front ++ [p] ∧ pathOf q ≠ pathOf p := by
    intro q
    rw [List.mem_append, List.mem_singleton]
    constructor
    · intro hq
      exact ⟨.inl hq, hpath q hq⟩
    · rintro ⟨hq | rfl, hne⟩
      · exact hq
      · exact absurd rfl hne
  have hindex : s.index = front.map Prod.fst ++ [p.1] := by rw [h.index, List.map_append]; rfl
  exact ⟨fun q hq => h.kept q (List.mem_append_left _ hq), (List.pairwise_append.mp h.descending).1,
    by rw [hindex, List.dropLast_concat], h.filed.remove hrest⟩

theorem Shelved.last {s : FileSnapshotStore} {front : List Snapshot} {p : Snapshot}
    (h : Shelved codec s (front ++ [p])) : s.index.getLast? = some p.1 := by
  rw [h.index, List.map_append]
  exact List.getLast?_concat

theorem Shelved.pruneLoop {fuel : ℕ} {s : FileSnapshotStore} {shelf : List Snapshot}
    (h : Shelved codec s shelf) (hfuel : shelf.length ≤ fuel) :
    Shelved codec (FileSnapshotStore.pruneLoop fuel s) (shelf.take s.maxRetained) ∧
      (FileSnapshotStore.pruneLoop fuel s).maxRetained = s.maxRetained := by
  induction fuel generalizing s shelf with
  | zero =>
    rw [List.length_eq_zero_iff.mp (Nat.le_zero.mp hfuel)] at h ⊢
    rw [List.take_nil]
    exact ⟨h, rfl⟩
  | succ fuel ih =>
    have hlen : s.index.length = shelf.length := by rw [h.index, List.length_map]
    rw [FileSnapshotStore.pruneLoop, hlen]
    by_cases hmany : s.maxRetained < shelf.length
    · obtain ⟨front, p, rfl⟩ : ∃ front p, shelf = front ++ [p] :=
        (List.eq_nil_or_concat' shelf).resolve_left (List.ne_nil_of_length_pos (by omega))
      rw [if_pos hmany, h.last]
      rw [List.length_append, List.length_singleton] at hmany hfuel
      rw [List.take_append_of_le_length (by omega)]
      exact ih h.dropOldest (by omega)
    · rw [if_neg hmany, List.take_of_length_le (not_lt.mp hmany)]
      exact ⟨h, rfl⟩

def retained (maxRetained : ℕ) (shelf : List Snapshot) : List Snapshot :=
  if maxRetained = 0 then shelf else shelf.take maxRetained

theorem Shelved.prune {s : FileSnapshotStore} {shelf : List Snapshot} (h : Shelved codec s shelf) :
    Shelved codec s.prune (retained s.maxRetained shelf) ∧ s.prune.maxRetained = s.maxRetained := by
  unfold FileSnapshotStore.prune retained
  split_ifs
  · exact ⟨h, rfl⟩
  · exact h.pruneLoop (by rw [h.index, List.length_map])

theorem retained_eq {n : ℕ} {shelf : List Snapshot} (h : Descending indexOf shelf) :
    shelved indexOf (retained n shelf) = (shelved indexOf shelf).retain n := by
  unfold retained
  split_ifs with hn
  · rw [hn, KeyedMap.retain_zero]
  · exact h.take hn

/-! ## Saving -/

theorem hasExtension_path (p : Snapshot) : hasExtension snapshotExt (pathOf p) = true := by
  rw [hasExtension, pathOf, FileSnapshotStore.snapshotPathFromMeta, splitExtension_filename]
  simp

theorem Filed.foreign {d : Directory} {shelf : List Snapshot} (h : Filed codec d shelf)
    {name : FileName} (hname : hasExtension snapshotExt name = false) : d.read name = none := by
  refine h.absent name fun p _ heq => ?_
  rw [← heq, hasExtension_path] at hname
  cases hname

theorem sideFile_extension (stem ext : List Char) (hext : '.' ∉ ext) (hne : ext ≠ snapshotExt) :
    hasExtension snapshotExt (stem ++ ".bin".toList ++ '.' :: ext) = false := by
  rw [hasExtension, splitExtension_append (by simp) hext]
  simpa using hne

theorem atomicWrite_read {d : Directory} {shelf : List Snapshot} (h : Filed codec d shelf)
    (p : Snapshot) (blob : Bytes) (name : FileName) :
    (FileSnapshotStore.atomicWrite d (pathOf p) blob).read name =
      if name = pathOf p then some blob else d.read name := by
  obtain ⟨stem, hstem⟩ : ∃ stem,
    (canonicalId p.1.lastIncludedTerm p.1.lastIncludedIndex).toList = stem :=
    ⟨_, rfl⟩
  have hpath : pathOf p = stem ++ ".bin".toList := by
    rw [pathOf, FileSnapshotStore.snapshotPathFromMeta, snapshotFilename, hstem]
    rfl
  have hsplit : ((splitExtension (pathOf p)).map Prod.fst).getD (pathOf p) = stem := by
    rw [pathOf, FileSnapshotStore.snapshotPathFromMeta, splitExtension_filename, Option.map_some,
      Option.getD_some, hstem]
  have htmp : d.read (stem ++ ".bin.tmp".toList) = none :=
    h.foreign (by simpa using sideFile_extension stem "tmp".toList (by decide) (by decide))
  have hbak : d.read (stem ++ ".bin.bak".toList) = none :=
    h.foreign (by simpa using sideFile_extension stem "bak".toList (by decide) (by decide))
  have htp : stem ++ ".bin.tmp".toList ≠ pathOf p := by
    rw [hpath]
    exact fun heq => absurd (List.append_cancel_left heq) (by decide)
  have hbp : stem ++ ".bin.bak".toList ≠ pathOf p := by
    rw [hpath]
    exact fun heq => absurd (List.append_cancel_left heq) (by decide)
  have htb : stem ++ ".bin.tmp".toList ≠ stem ++ ".bin.bak".toList :=
    fun heq => absurd (List.append_cancel_left heq) (by decide)
  rw [FileSnapshotStore.atomicWrite, hsplit]
  generalize stem ++ ".bin.tmp".toList = tmp at *
  generalize stem ++ ".bin.bak".toList = bak at *
  generalize pathOf p = path at *
  have hkeep : (d.write tmp blob).read path = d.read path := by
    rw [Directory.read_write, if_neg htp.symm]
  rw [hkeep]
  cases hold : d.read path with
  | none =>
    have hnew : (d.write tmp blob).read tmp = some blob := by rw [Directory.read_write, if_pos rfl]
    simp only [Option.isSome_none, Bool.false_eq_true, if_false, Directory.read_remove,
      Directory.read_rename hnew, Directory.read_write]
    grind
  | some old =>
    have hbefore : ((d.write tmp blob).remove bak).read path = some old := by
      rw [Directory.read_remove, if_neg hbp.symm, hkeep, hold]
    have hnew : (((d.write tmp blob).remove bak).rename path bak).read tmp = some blob := by
      rw [Directory.read_rename hbefore, if_neg htb, if_neg htp, Directory.read_remove, if_neg htb,
        Directory.read_write, if_pos rfl]
    simp only [Option.isSome_some, if_true, Directory.read_remove, Directory.read_rename hnew,
      Directory.read_rename hbefore, Directory.read_write]
    grind

theorem removeAll_read (d : Directory) (names : List FileName) (name : FileName) :
    (names.foldl Directory.remove d).read name = if name ∈ names then none else d.read name := by
  induction names generalizing d with
  | nil => simp
  | cons first rest ih =>
    rw [List.foldl_cons, ih, Directory.read_remove]
    by_cases hrest : name ∈ rest <;> by_cases hfirst : name = first <;> simp [hrest, hfirst]

def withNew (p : Snapshot) (shelf : List Snapshot) : List Snapshot :=
  place indexOf p (shelf.filter (fun q => indexOf q ≠ indexOf p))

theorem mem_withNew {p q : Snapshot} {shelf : List Snapshot} :
    q ∈ withNew p shelf ↔ q = p ∨ (q ∈ shelf ∧ indexOf q ≠ indexOf p) := by
  rw [withNew, mem_place, List.mem_filter, decide_eq_true_iff]

theorem withNew_descending {p : Snapshot} {shelf : List Snapshot} (h : Descending indexOf shelf) :
    Descending indexOf (withNew p shelf) := by
  refine Descending.place (List.Pairwise.filter _ h) fun q hq => ?_
  exact of_decide_eq_true (List.mem_filter.mp hq).2

theorem withNew_shelved (p : Snapshot) (shelf : List Snapshot) :
    shelved indexOf (withNew p shelf) = (shelved indexOf shelf).insert (indexOf p) p := by
  have hother : ∀ q ∈ shelf.filter (fun q => indexOf q ≠ indexOf p), indexOf q ≠ indexOf p :=
    fun q hq => of_decide_eq_true (List.mem_filter.mp hq).2
  rw [withNew, shelved_place hother, shelved_filter shelf (fun j => j ≠ indexOf p)]
  exact KeyedMap.insert_erase _ _ _

theorem insertNewest_map (p : Snapshot) (shelf : List Snapshot) :
    FileSnapshotStore.insertNewest p.1 (shelf.map Prod.fst) =
      (place indexOf p shelf).map Prod.fst := by
  induction shelf with
  | nil => rfl
  | cons q rest ih =>
    rw [List.map_cons, FileSnapshotStore.insertNewest, place, ih]
    by_cases h : indexOf q < indexOf p
    · rw [if_pos h, if_pos (show q.1.lastIncludedIndex < p.1.lastIncludedIndex from h)]
      rfl
    · rw [if_neg h, if_neg (show ¬q.1.lastIncludedIndex < p.1.lastIncludedIndex from h)]
      rfl

/-- What a save writes and removes leaves the files of the new shelf. -/
theorem Filed.save {d : Directory} {shelf : List Snapshot} (h : Filed codec d shelf)
    (hkept : ∀ q ∈ shelf, Kept codec q) {p : Snapshot} (hp : Kept codec p) {stale : List FileName}
    (hstale : ∀ name, name ∈ stale ↔
      name ≠ pathOf p ∧ ∃ q ∈ shelf, indexOf q = indexOf p ∧ pathOf q = name) :
    Filed codec (stale.foldl Directory.remove
      (FileSnapshotStore.atomicWrite d (pathOf p) (content codec p))) (withNew p shelf) := by
  constructor
  · intro q hq
    rw [removeAll_read, atomicWrite_read h]
    rcases mem_withNew.mp hq with rfl | ⟨hq, hne⟩
    · rw [if_neg (fun hmem => ((hstale _).mp hmem).1 rfl), if_pos rfl]
    · have hpath : pathOf q ≠ pathOf p := fun heq => hne (path_inj (hkept q hq) hp heq)
      have hfresh : pathOf q ∉ stale := by
        intro hmem
        obtain ⟨r, hr, hri, hrq⟩ := ((hstale _).mp hmem).2
        exact hne ((path_inj (hkept q hq) (hkept r hr) hrq.symm).trans hri)
      rw [if_neg hfresh, if_neg hpath]
      exact h.present q hq
  · intro name hname
    have hnew : name ≠ pathOf p := fun heq => hname p (mem_withNew.mpr (.inl rfl)) heq.symm
    rw [removeAll_read, atomicWrite_read h, if_neg hnew]
    split_ifs with hmem
    · rfl
    · refine h.absent name fun q hq heq => ?_
      by_cases hi : indexOf q = indexOf p
      · exact hmem ((hstale name).mpr ⟨hnew, q, hq, hi, heq⟩)
      · exact hname q (mem_withNew.mpr (.inr ⟨hq, hi⟩)) heq

def saveTo (codec : SnapshotCodec) (maxRetained : ℕ) (m : KeyedMap Snapshot) (metadata : StoredMeta)
    (data : Bytes) : Except XRaftError (KeyedMap Snapshot) :=
  if metadata.voterSet.isNone then .error voterSetRequired
  else
    match (m.lookup metadata.lastIncludedIndex).filter
        (fun p => metadata.lastIncludedTerm < p.1.lastIncludedTerm) with
    | some existing => .error (lowerTerm metadata existing.1)
    | none =>
      .ok ((m.insert metadata.lastIncludedIndex (codec.normalize metadata data, data)).retain
        maxRetained)

/-- Two answers are alike: the same error, or results that are related. -/
def Alike {ε α β : Type*} (r : α → β → Prop) : Except ε α → Except ε β → Prop
  | .ok a, .ok b => r a b
  | .error e, .error e' => e = e'
  | _, _ => False

/-- The store is a map: its shelf, no longer than retention allows, represents the map. -/
def Represents (codec : SnapshotCodec) (maxRetained : ℕ) (s : FileSnapshotStore)
    (m : KeyedMap Snapshot) : Prop :=
  ∃ shelf, Shelved codec s shelf ∧ s.maxRetained = maxRetained ∧
  retained maxRetained shelf = shelf ∧
    shelved indexOf shelf = m

theorem Shelved.write {s : FileSnapshotStore} {shelf : List Snapshot} (h : Shelved codec s shelf)
    {p : Snapshot} (hp : Kept codec p) :
    Shelved codec { s with
      dir := (((s.index.filter (fun m => m.lastIncludedIndex = p.1.lastIncludedIndex)).map
          FileSnapshotStore.snapshotPathFromMeta).filter (fun old => old ≠ pathOf p)).foldl
        Directory.remove (FileSnapshotStore.atomicWrite s.dir (pathOf p) (content codec p))
      index := FileSnapshotStore.insertNewest p.1
        (s.index.filter (fun m => m.lastIncludedIndex ≠ p.1.lastIncludedIndex)) }
      (withNew p shelf) := by
  refine ⟨?_, withNew_descending h.descending, ?_, h.filed.save h.kept hp ?_⟩
  · intro q hq
    rcases mem_withNew.mp hq with rfl | ⟨hq, _⟩
    · exact hp
    · exact h.kept q hq
  · dsimp only
    rw [h.index, List.filter_map, insertNewest_map]
    rfl
  · intro name
    rw [h.index]
    simp only [List.mem_filter, List.mem_map, decide_eq_true_eq]
    constructor
    · rintro ⟨⟨_, ⟨⟨q, hq, rfl⟩, hi⟩, rfl⟩, hne⟩
      exact ⟨hne, q, hq, hi, rfl⟩
    · rintro ⟨hne, q, hq, hi, rfl⟩
      exact ⟨⟨q.1, ⟨⟨q, hq, rfl⟩, hi⟩, rfl⟩, hne⟩

theorem retained_eq_self {n : ℕ} {shelf : List Snapshot} :
    retained n shelf = shelf ↔ n = 0 ∨ shelf.length ≤ n := by
  unfold retained
  split_ifs with h
  · simp [h]
  · simp [h]

theorem retained_idem (n : ℕ) (shelf : List Snapshot) :
    retained n (retained n shelf) = retained n shelf := by
  unfold retained
  split_ifs
  · rfl
  · rw [List.take_take, Nat.min_self]

theorem Represents.save {n : ℕ} {s : FileSnapshotStore} {m : KeyedMap Snapshot}
    (h : Represents codec n s m) {metadata : StoredMeta} {data : Bytes}
    (hw : codec.Writable metadata data) :
    Alike (Represents codec n) (s.saveSnapshot codec metadata data)
      (saveTo codec n m metadata data) := by
  obtain ⟨shelf, hs, rfl, _, rfl⟩ := h
  have hfind : s.index.find? (fun q => q.lastIncludedIndex = metadata.lastIncludedIndex) =
      ((shelved indexOf shelf).lookup metadata.lastIncludedIndex).map Prod.fst := by
    rw [hs.index, List.find?_map]
    rfl
  unfold FileSnapshotStore.saveSnapshot saveTo
  by_cases hvoters : metadata.voterSet.isNone = true
  · rw [if_pos hvoters, if_pos hvoters]
    rfl
  · rw [if_neg hvoters, if_neg hvoters, hfind]
    have hp : Kept codec (codec.normalize metadata data, data) := Kept.of_save hw
    have hsaved := (hs.write hp).prune
    have hencode : codec.encodeSnapshot (codec.normalize metadata data) data =
        .ok (content codec (codec.normalize metadata data, data)) :=
      SnapshotCodec.encodeSnapshot_eq hp.writable
    have hmap := retained_eq (n := s.maxRetained)
      (withNew_descending (p := (codec.normalize metadata data, data)) hs.descending)
    rw [withNew_shelved] at hmap
    cases hold : (shelved indexOf shelf).lookup metadata.lastIncludedIndex with
    | none =>
      simp only [Option.map_none, Option.filter_none, hencode]
      exact ⟨_, hsaved.1, hsaved.2, retained_idem _ _, hmap⟩
    | some q =>
      by_cases hlower : metadata.lastIncludedTerm < q.1.lastIncludedTerm
      · simp [Option.filter, hlower, Alike]
      · simp only [Option.map_some, Option.filter, hlower, decide_false, Bool.false_eq_true,
          if_false, hencode]
        exact ⟨_, hsaved.1, hsaved.2, retained_idem _ _, hmap⟩

/-! ## Deleting -/

theorem eraseIdx_findIdx {α : Type*} {l : List α} {p : α → Bool}
    (hone : l.Pairwise (fun a b => ¬(p a = true ∧ p b = true))) {pos : ℕ}
    (h : l.findIdx? p = some pos) : l.eraseIdx pos = l.filter (fun a => !p a) := by
  induction l generalizing pos with
  | nil => cases h
  | cons a rest ih =>
    obtain ⟨ha, hrest⟩ := List.pairwise_cons.mp hone
    rw [List.findIdx?_cons] at h
    by_cases hp : p a = true
    · rw [if_pos hp] at h
      cases h
      have hall : rest.filter (fun b => !p b) = rest := by
        rw [List.filter_eq_self]
        intro b hb
        simpa [hp] using ha b hb
      simp [hp, hall]
    · rw [if_neg hp] at h
      obtain ⟨k, hk, rfl⟩ := Option.map_eq_some_iff.mp h
      simp [hp, ih hrest hk]

def deleteFrom (m : KeyedMap Snapshot) (term index : ℕ) : Except XRaftError (KeyedMap Snapshot) :=
  match (m.lookup index).filter (fun p => p.1.lastIncludedTerm = term) with
  | some _ => .ok (m.erase index)
  | none => .error (snapshotMissing (canonicalId term index))

structure Distinct (codec : SnapshotCodec) (shelf : List Snapshot) : Prop where
  kept : ∀ p ∈ shelf, Kept codec p
  nodup : (shelf.map indexOf).Nodup

theorem Shelved.distinct {s : FileSnapshotStore} {shelf : List Snapshot}
    (h : Shelved codec s shelf) :
    Distinct codec shelf := ⟨h.kept, h.descending.nodup⟩

theorem Distinct.eq_of_index {shelf : List Snapshot} (h : Distinct codec shelf) {p q : Snapshot}
    (hp : p ∈ shelf) (hq : q ∈ shelf) (hi : indexOf p = indexOf q) : p = q :=
  List.inj_on_of_nodup_map h.nodup hp hq hi

theorem Distinct.eq_of_id {shelf : List Snapshot} (h : Distinct codec shelf) {p q : Snapshot}
    (hp : p ∈ shelf) (hq : q ∈ shelf) (hid : p.1.id = q.1.id) : p = q := by
  have hqk := h.kept q hq
  rw [hqk.id_eq] at hid
  exact h.eq_of_index hp hq
    (((h.kept p hp).id_iff hqk.writable.term hqk.writable.index).mp hid).1

theorem Distinct.find_id {shelf : List Snapshot} (h : Distinct codec shelf) {id : String}
    {p : Snapshot} :
    shelf.find? (fun q => q.1.id = id) = some p ↔ p ∈ shelf ∧ p.1.id = id := by
  constructor
  · intro hp
    exact ⟨List.mem_of_find?_eq_some hp, by simpa using List.find?_some hp⟩
  · rintro ⟨hp, rfl⟩
    cases hq : shelf.find? (fun q => q.1.id = p.1.id) with
    | none => exact absurd (List.find?_eq_none.mp hq p hp) (by simp)
    | some q =>
      have hid : q.1.id = p.1.id := by simpa using List.find?_some hq
      rw [h.eq_of_id (List.mem_of_find?_eq_some hq) hp hid]

/-- A canonical id finds the snapshot of its index when the term is right. -/
theorem Distinct.find_canonical {shelf : List Snapshot} (h : Distinct codec shelf) {term index : ℕ}
    (hterm : term ≤ u64Max) (hindex : index ≤ u64Max) :
    shelf.find? (fun q => q.1.id = canonicalId term index) =
      ((shelved indexOf shelf).lookup index).filter (fun p => p.1.lastIncludedTerm = term) := by
  refine Option.ext fun p => ?_
  rw [h.find_id, Option.filter_eq_some_iff, shelved_lookup_iff h.nodup, decide_eq_true_iff]
  constructor
  · rintro ⟨hp, hid⟩
    obtain ⟨hi, ht⟩ := ((h.kept p hp).id_iff hterm hindex).mp hid
    exact ⟨⟨hp, hi⟩, ht⟩
  · rintro ⟨⟨hp, hi⟩, ht⟩
    exact ⟨hp, ((h.kept p hp).id_iff hterm hindex).mpr ⟨hi, ht⟩⟩

theorem Distinct.filter_canonical {shelf : List Snapshot} (h : Distinct codec shelf)
    {term index : ℕ} (hterm : term ≤ u64Max) (hindex : index ≤ u64Max) {p : Snapshot}
    (hp : p ∈ shelf) (hid : p.1.id = canonicalId term index) :
    shelf.filter (fun q => !decide (q.1.id = canonicalId term index)) =
      shelf.filter (fun q => indexOf q ≠ index) := by
  have hpi := (((h.kept p hp).id_iff hterm hindex).mp hid).1
  refine List.filter_congr fun q hq => ?_
  have hiff : q.1.id = canonicalId term index ↔ indexOf q = index := by
    constructor
    · intro hq'
      exact (((h.kept q hq).id_iff hterm hindex).mp hq').1
    · intro hq'
      rw [h.eq_of_index hq hp (hq'.trans hpi.symm)]
      exact hid
  simp [hiff]

theorem deletePosition_canonical (s : FileSnapshotStore) {term index : ℕ} (hterm : term ≤ u64Max)
    (hindex : index ≤ u64Max) :
    s.deletePosition (canonicalId term index) = s.indexOf (canonicalId term index) := by
  obtain ⟨hplain, hext⟩ := parsePath_canonicalId hterm hindex
  unfold FileSnapshotStore.deletePosition
  dsimp only
  rw [hplain, hext, Option.bind_some]
  cases s.indexOf (canonicalId term index) <;> rfl

theorem Represents.delete {n : ℕ} {s : FileSnapshotStore} {m : KeyedMap Snapshot}
    (h : Represents codec n s m) {term index : ℕ} (hterm : term ≤ u64Max)
    (hindex : index ≤ u64Max) : Alike (Represents codec n)
    (s.deleteSnapshot (canonicalId term index))
      (deleteFrom m term index) := by
  obtain ⟨shelf, hs, rfl, hretained, rfl⟩ := h
  have hd := hs.distinct
  have hpos : s.indexOf (canonicalId term index) =
      shelf.findIdx? (fun q => q.1.id = canonicalId term index) := by
    rw [FileSnapshotStore.indexOf, hs.index, List.findIdx?_map]
    rfl
  rw [FileSnapshotStore.deleteSnapshot, deletePosition_canonical s hterm hindex, hpos, deleteFrom,
    ← hd.find_canonical hterm hindex]
  cases hfind : shelf.findIdx? (fun q => q.1.id = canonicalId term index) with
  | none =>
    have hnone : shelf.find? (fun q => q.1.id = canonicalId term index) = none := by
      rw [List.find?_eq_none]
      exact fun q hq => by simpa using List.findIdx?_eq_none_iff.mp hfind q hq
    rw [hnone]
    rfl
  | some pos =>
    obtain ⟨hlt, hid, _⟩ := List.findIdx?_eq_some_iff_getElem.mp hfind
    obtain ⟨p, hp⟩ : ∃ p, shelf[pos] = p := ⟨_, rfl⟩
    have hmem : p ∈ shelf := hp ▸ List.getElem_mem hlt
    have hpid : p.1.id = canonicalId term index := by simpa [hp] using hid
    have hindexOf := (((hd.kept p hmem).id_iff hterm hindex).mp hpid).1
    have hat : s.index[pos]? = some p.1 := by
      rw [hs.index, List.getElem?_map, List.getElem?_eq_getElem hlt, hp]
      rfl
    have hone : shelf.Pairwise (fun a b => ¬(decide (a.1.id = canonicalId term index) = true ∧
        decide (b.1.id = canonicalId term index) = true)) := by
      refine List.Pairwise.imp_of_mem ?_ hs.descending
      rintro a b ha hb hlt ⟨hia, hib⟩
      rw [hd.eq_of_id ha hb ((of_decide_eq_true hia).trans (of_decide_eq_true hib).symm)] at hlt
      exact lt_irrefl _ hlt
    have hrest : shelf.eraseIdx pos = shelf.filter (fun q => indexOf q ≠ index) :=
      (eraseIdx_findIdx hone hfind).trans (hd.filter_canonical hterm hindex hmem hpid)
    rw [hd.find_id.mpr ⟨hmem, hpid⟩]
    dsimp only
    rw [hat]
    refine ⟨shelf.filter (fun q => indexOf q ≠ index), ⟨?_, ?_, ?_, ?_⟩, rfl, ?_, ?_⟩
    · exact fun q hq => hs.kept q (List.mem_of_mem_filter hq)
    · exact List.Pairwise.filter _ hs.descending
    · dsimp only
      rw [← hrest, hs.index, List.eraseIdx_map]
    · refine hs.filed.remove fun q => ?_
      rw [List.mem_filter, decide_eq_true_iff]
      refine and_congr_right fun hq => not_congr ⟨fun h => ?_, fun h => ?_⟩
      · rw [hd.eq_of_index hq hmem (h.trans hindexOf.symm)]
      · exact (path_inj (hd.kept q hq) (hd.kept p hmem) h).trans hindexOf
    · refine retained_eq_self.mpr ((retained_eq_self.mp hretained).imp_right fun hlen => ?_)
      exact (List.length_filter_le _ _).trans hlen
    · exact shelved_filter shelf (fun j => j ≠ index)

/-! ## Reopening -/

theorem not_backup_bin (stem : List Char) :
    ¬FileSnapshotStore.backupExt.reverse <+: (stem ++ '.' :: snapshotExt).reverse := by
  rintro ⟨rest, hrest⟩
  have hback : FileSnapshotStore.backupExt.reverse = 'k' :: "ab.nib.".toList := by decide
  have hname : ('.' :: snapshotExt).reverse = 'n' :: "ib.".toList := by decide
  rw [List.reverse_append, hback, hname, List.cons_append, List.cons_append,
    List.cons.injEq] at hrest
  exact absurd hrest.1 (by decide)

theorem settleBackup_bin (d : Directory) (stem : List Char) :
    FileSnapshotStore.settleBackup d (stem ++ '.' :: snapshotExt) = d := by
  rw [FileSnapshotStore.settleBackup, if_neg (not_backup_bin stem)]

theorem hasTmp_path (p : Snapshot) : hasExtension "tmp".toList (pathOf p) = false := by
  have hne : snapshotExt ≠ "tmp".toList := by decide
  rw [hasExtension, pathOf, FileSnapshotStore.snapshotPathFromMeta, splitExtension_filename,
    Option.any_some]
  exact decide_eq_false hne

theorem recover_snapshots {d : Directory} (shelf : List Snapshot) {listed : List FileName}
    (h : ∀ name ∈ listed, ∃ p ∈ shelf, pathOf p = name) :
    FileSnapshotStore.recoverIncompleteWrites d listed = d := by
  have htmp : listed.filter (hasExtension "tmp".toList) = [] := by
    rw [List.filter_eq_nil_iff]
    intro name hname
    obtain ⟨p, _, rfl⟩ := h name hname
    rw [hasTmp_path]
    exact Bool.false_ne_true
  rw [FileSnapshotStore.recoverIncompleteWrites, htmp, List.foldl_nil]
  clear htmp
  induction listed with
  | nil => rfl
  | cons name rest ih =>
    obtain ⟨p, _, rfl⟩ := h name List.mem_cons_self
    have hstay : FileSnapshotStore.settleBackup d (pathOf p) = d := by
      rw [pathOf, FileSnapshotStore.snapshotPathFromMeta, snapshotFilename]
      exact settleBackup_bin d _
    rw [List.foldl_cons, hstay]
    exact ih fun name hname => h name (List.mem_cons_of_mem _ hname)

theorem mem_names {d : Directory} {name : FileName} : name ∈ d.names ↔ (d.read name).isSome := by
  rw [Directory.names, Directory.read, OrderedMaps.lookup, Option.isSome_map, List.find?_isSome]
  simp

theorem names_nodup (d : Directory) : d.names.Nodup := d.sorted.nodup

theorem Filed.names_perm {d : Directory} {shelf : List Snapshot} (h : Filed codec d shelf)
    (hpaths : (shelf.map pathOf).Nodup) : d.names.Perm (shelf.map pathOf) := by
  refine (List.perm_ext_iff_of_nodup (names_nodup d) hpaths).mpr fun name => ?_
  rw [mem_names, List.mem_map]
  constructor
  · intro hsome
    obtain ⟨bytes, hbytes⟩ := Option.isSome_iff_exists.mp hsome
    exact h.name hbytes
  · rintro ⟨p, hp, rfl⟩
    rw [h.present p hp]
    rfl

theorem perm_map {α β : Type*} {f : α → β} {l : List α} {l' : List β} (h : l'.Perm (l.map f)) :
    ∃ k : List α, k.Perm l ∧ k.map f = l' := by
  induction l generalizing l' with
  | nil => exact ⟨[], .nil, (List.perm_nil.mp h).symm⟩
  | cons a rest ih =>
    obtain ⟨front, back, rfl⟩ := List.append_of_mem (h.symm.subset List.mem_cons_self)
    have hrest : (front ++ back).Perm (rest.map f) :=
      (List.perm_cons (f a)).mp (List.perm_middle.symm.trans h)
    obtain ⟨k, hk, hmap⟩ := ih hrest
    obtain ⟨k₁, k₂, rfl, rfl, rfl⟩ := List.map_eq_append_iff.mp hmap
    exact ⟨k₁ ++ a :: k₂, List.perm_middle.trans (hk.cons a), by simp⟩

theorem visit_snapshot {d : Directory} {shelf : List Snapshot} (h : Filed codec d shelf)
    {p : Snapshot} (hp : p ∈ shelf) (hk : Kept codec p) {scan : FileSnapshotStore.Scan}
    (hdir : scan.dir = d) :
    ∃ highest, scan.visit codec (pathOf p) =
      { scan with highestFname := highest, index := scan.index ++ [p.1] } := by
  have hread : FileSnapshotStore.readMeta codec scan.dir (pathOf p) = .ok p.1 := by
    rw [FileSnapshotStore.readMeta, hdir, h.present p hp]
    exact hk.readMeta
  rw [FileSnapshotStore.Scan.visit, hk.path_parse]
  dsimp only
  rw [hread]
  dsimp only
  rw [if_neg (by simp), if_pos (show pathOf p = snapshotFilename _ _ from rfl)]
  exact ⟨_, rfl⟩

theorem visit_snapshots {d : Directory} {shelf : List Snapshot} (h : Filed codec d shelf)
    (hkept : ∀ p ∈ shelf, Kept codec p) {part : List Snapshot} (hpart : ∀ p ∈ part, p ∈ shelf)
    (scan : FileSnapshotStore.Scan) (hdir : scan.dir = d) :
    ∃ highest, (part.map pathOf).foldl (FileSnapshotStore.Scan.visit codec) scan =
      { scan with highestFname := highest, index := scan.index ++ part.map Prod.fst } := by
  induction part generalizing scan with
  | nil => exact ⟨scan.highestFname, by simp⟩
  | cons p rest ih =>
    have hp := hpart p List.mem_cons_self
    obtain ⟨first, hfirst⟩ := visit_snapshot h hp (hkept p hp) hdir
    obtain ⟨last, hlast⟩ := ih (fun q hq => hpart q (List.mem_cons_of_mem _ hq))
      { scan with highestFname := first, index := scan.index ++ [p.1] } hdir
    refine ⟨last, ?_⟩
    rw [List.map_cons, List.foldl_cons, hfirst, hlast]
    simp

theorem dedupe_distinct {metas : List StoredMeta} {seen : List ℕ} (d : Directory)
    (hseen : ∀ m ∈ metas, m.lastIncludedIndex ∉ seen)
    (hnodup : (metas.map (fun m => m.lastIncludedIndex)).Nodup) :
    FileSnapshotStore.dedupe metas seen d = (metas, d) := by
  induction metas generalizing seen with
  | nil => rfl
  | cons m rest ih =>
    obtain ⟨hm, hrest⟩ := List.nodup_cons.mp hnodup
    rw [FileSnapshotStore.dedupe, if_neg (hseen m List.mem_cons_self), ih ?_ hrest]
    intro m' hm' hmem
    rcases List.mem_cons.mp hmem with heq | hmem
    · exact hm (List.mem_map.mpr ⟨m', hm', heq⟩)
    · exact hseen m' (List.mem_cons_of_mem _ hm') hmem

theorem newestFirst_iff {a b : StoredMeta} : FileSnapshotStore.newestFirst a b = true ↔
    b.lastIncludedIndex < a.lastIncludedIndex ∨
      (b.lastIncludedIndex = a.lastIncludedIndex ∧ b.lastIncludedTerm ≤ a.lastIncludedTerm) := by
  rw [FileSnapshotStore.newestFirst, Bool.not_eq_true', FileSnapshotStore.keyLt,
    decide_eq_false_iff_not]
  simp only [FileSnapshotStore.keyOf]
  omega

/-- Sorting by descending index restores the order of a shelf, whatever breaks ties. -/
theorem sort_by_index {shelf part : List Snapshot} (h : Descending indexOf shelf)
    (hpart : part.Perm shelf) {le : StoredMeta → StoredMeta → Bool}
    (htrans : ∀ a b c, le a b = true → le b c = true → le a c = true)
    (htotal : ∀ a b, (le a b || le b a) = true)
    (hle : ∀ a b, le a b = true → b.lastIncludedIndex ≤ a.lastIncludedIndex)
    (hlt : ∀ a b, b.lastIncludedIndex < a.lastIncludedIndex → le a b = true) :
    (part.map Prod.fst).mergeSort le = shelf.map Prod.fst := by
  have hsame : ((part.map Prod.fst).mergeSort le).Perm (shelf.map Prod.fst) :=
    (List.mergeSort_perm _ _).trans (hpart.map Prod.fst)
  refine List.Perm.eq_of_pairwise ?_ (List.pairwise_mergeSort htrans htotal _) ?_ hsame
  · intro a b ha hb hab hba
    obtain ⟨p, hp, rfl⟩ := List.mem_map.mp (hsame.subset ha)
    obtain ⟨q, hq, rfl⟩ := List.mem_map.mp hb
    rw [List.inj_on_of_nodup_map h.nodup hp hq (le_antisymm (hle _ _ hba) (hle _ _ hab))]
  · exact List.pairwise_map.mpr (h.imp fun {a b} hab => hlt a.1 b.1 hab)

theorem newestFirst_sorted (l : List StoredMeta) :
    (l.mergeSort FileSnapshotStore.newestFirst).Pairwise
      (fun a b => FileSnapshotStore.newestFirst a b = true) := by
  refine List.pairwise_mergeSort ?_ ?_ l
  · intro a b c
    simp only [newestFirst_iff]
    omega
  · intro a b
    simp only [Bool.or_eq_true, newestFirst_iff]
    omega

/-- Snapshots as a directory may hold them, from the newest key to the oldest: several terms of one
index are possible. -/
structure Pile (codec : SnapshotCodec) (pile : List Snapshot) : Prop where
  kept : ∀ p ∈ pile, Kept codec p
  sorted : pile.Pairwise (fun p q => FileSnapshotStore.keyLt (FileSnapshotStore.keyOf q.1)
    (FileSnapshotStore.keyOf p.1) = true)

theorem Pile.of_descending {shelf : List Snapshot} (hkept : ∀ p ∈ shelf, Kept codec p)
    (h : Descending indexOf shelf) : Pile codec shelf := by
  refine ⟨hkept, h.imp fun {p q} hlt => ?_⟩
  rw [FileSnapshotStore.keyLt, decide_eq_true_iff]
  exact .inl hlt

theorem Pile.paths_nodup {pile : List Snapshot} (h : Pile codec pile) :
    (pile.map pathOf).Nodup := by
  refine List.pairwise_map.mpr (h.sorted.imp_of_mem fun {p q} hp hq hlt heq => ?_)
  rw [path_key (h.kept p hp) (h.kept q hq) heq, FileSnapshotStore.keyLt, decide_eq_true_iff] at hlt
  omega

theorem Pile.sort {pile part : List Snapshot} (h : Pile codec pile) (hpart : part.Perm pile) :
    (part.map Prod.fst).mergeSort FileSnapshotStore.newestFirst = pile.map Prod.fst := by
  have hsame : ((part.map Prod.fst).mergeSort FileSnapshotStore.newestFirst).Perm
      (pile.map Prod.fst) := (List.mergeSort_perm _ _).trans (hpart.map Prod.fst)
  refine List.Perm.eq_of_pairwise ?_ (newestFirst_sorted _) ?_ hsame
  · intro a b ha hb hab hba
    obtain ⟨p, hp, rfl⟩ := List.mem_map.mp (hsame.subset ha)
    obtain ⟨q, hq, rfl⟩ := List.mem_map.mp hb
    have hpath : pathOf p = pathOf q := by
      rw [newestFirst_iff] at hab hba
      rw [pathOf, pathOf, FileSnapshotStore.snapshotPathFromMeta,
        FileSnapshotStore.snapshotPathFromMeta,
        show p.1.lastIncludedIndex = q.1.lastIncludedIndex by omega,
        show p.1.lastIncludedTerm = q.1.lastIncludedTerm by omega]
    rw [List.inj_on_of_nodup_map h.paths_nodup hp hq hpath]
  · refine List.pairwise_map.mpr (h.sorted.imp fun {p q} hlt => ?_)
    rw [FileSnapshotStore.keyLt, decide_eq_true_iff] at hlt
    rw [newestFirst_iff]
    simp only [FileSnapshotStore.keyOf] at hlt
    omega

/-- The index of a directory is built from the files in it, whatever the order of the listing. -/
theorem Pile.rebuild {d : Directory} {pile : List Snapshot} (h : Pile codec pile)
    (hfiled : Filed codec d pile) (n : ℕ) {relisted : List FileName}
    (hrelisted : relisted.Perm d.names) :
    FileSnapshotStore.rebuildIndex codec ⟨d, [], n⟩ relisted =
      .ok ⟨(FileSnapshotStore.dedupe (pile.map Prod.fst) [] d).2,
        (FileSnapshotStore.dedupe (pile.map Prod.fst) [] d).1, n⟩ := by
  obtain ⟨part, hpart, rfl⟩ := perm_map (hrelisted.trans (hfiled.names_perm h.paths_nodup))
  have hall : (part.map pathOf).filter (fun name =>
      hasExtension snapshotExt name && (parseSnapshotFilename name).isSome) = part.map pathOf := by
    rw [List.filter_eq_self]
    intro name hname
    obtain ⟨p, hp, rfl⟩ := List.mem_map.mp hname
    rw [hasExtension_path, (h.kept p (hpart.subset hp)).path_parse]
    rfl
  obtain ⟨highest, hscan⟩ := visit_snapshots hfiled h.kept (fun p hp => hpart.subset hp)
    ⟨d, [], none, [], []⟩ rfl
  rw [FileSnapshotStore.rebuildIndex, hall, hscan]
  simp only [List.nil_append, h.sort hpart, List.not_mem_nil, decide_false, Bool.false_and,
    List.foldl_nil]
  cases highest <;> rfl

/-- A directory that holds the files of a shelf opens to the shelf, as far as it is retained. -/
theorem open_shelf {d : Directory} {shelf : List Snapshot} (hkept : ∀ p ∈ shelf, Kept codec p)
    (h : Descending indexOf shelf) {listed relisted : List FileName} {n : ℕ}
    (hfiled : Filed codec (FileSnapshotStore.recoverIncompleteWrites d listed) shelf)
    (hrelisted : relisted.Perm (FileSnapshotStore.recoverIncompleteWrites d listed).names) :
    ∃ s', FileSnapshotStore.openWithRetention codec d n listed relisted = .ok s' ∧
      Shelved codec s' (retained n shelf) ∧ s'.maxRetained = n := by
  have hpile := Pile.of_descending hkept h
  have hnodup : ((shelf.map Prod.fst).map (fun m => m.lastIncludedIndex)).Nodup := by
    rw [List.map_map]
    exact h.nodup
  have hbuilt := hpile.rebuild hfiled n hrelisted
  rw [dedupe_distinct _ (fun _ _ => List.not_mem_nil) hnodup] at hbuilt
  have hopened : Shelved codec
      ⟨FileSnapshotStore.recoverIncompleteWrites d listed, shelf.map Prod.fst, n⟩ shelf :=
    ⟨hkept, h, rfl, hfiled⟩
  refine ⟨_, ?_, hopened.prune⟩
  rw [FileSnapshotStore.openWithRetention, hbuilt]
  rfl

theorem Represents.reopen {n : ℕ} {s : FileSnapshotStore} {m : KeyedMap Snapshot}
    (h : Represents codec n s m) {listed relisted : List FileName}
    (hlisted : listed.Perm s.dir.names) (hrelisted : relisted.Perm
      (FileSnapshotStore.recoverIncompleteWrites s.dir listed).names) :
    ∃ s', FileSnapshotStore.openWithRetention codec s.dir n listed relisted = .ok s' ∧
      Represents codec n s' m := by
  obtain ⟨shelf, hs, rfl, hretained, rfl⟩ := h
  have hperm := hs.filed.names_perm (Pile.of_descending hs.kept hs.descending).paths_nodup
  have hrecover : FileSnapshotStore.recoverIncompleteWrites s.dir listed = s.dir := by
    refine recover_snapshots shelf fun name hname => ?_
    exact List.mem_map.mp (hperm.subset (hlisted.subset hname))
  obtain ⟨s', hopen, hshelved, hmax⟩ := open_shelf (n := s.maxRetained) hs.kept hs.descending
    (by rw [hrecover]; exact hs.filed) hrelisted
  rw [hretained] at hshelved
  exact ⟨s', hopen, shelf, hshelved, hmax, hretained, rfl⟩

/-! ## Reading -/

def contents (codec : SnapshotCodec) (s : FileSnapshotStore) : ℕ → Option Snapshot := fun index =>
  (s.index.find? (fun m => m.lastIncludedIndex = index)).bind fun m =>
    (FileSnapshotStore.readSnapshotFile codec s.dir
      (FileSnapshotStore.snapshotPathFromMeta m)).toOption

theorem Shelved.readFile {s : FileSnapshotStore} {shelf : List Snapshot} (h : Shelved codec s shelf)
    {p : Snapshot} (hp : p ∈ shelf) :
    FileSnapshotStore.readSnapshotFile codec s.dir (FileSnapshotStore.snapshotPathFromMeta p.1) =
      .ok p := by
  have hread : s.dir.read (FileSnapshotStore.snapshotPathFromMeta p.1) = some (content codec p) :=
    h.filed.present p hp
  rw [FileSnapshotStore.readSnapshotFile, hread]
  exact (h.kept p hp).decode

theorem Shelved.contents {s : FileSnapshotStore} {shelf : List Snapshot}
    (h : Shelved codec s shelf) : contents codec s = (shelved indexOf shelf).lookup := by
  funext index
  have hfind : s.index.find? (fun q => q.lastIncludedIndex = index) =
      ((shelved indexOf shelf).lookup index).map Prod.fst := by
    rw [h.index, List.find?_map]
    rfl
  rw [SnapshotRetention.contents, hfind]
  cases hp : (shelved indexOf shelf).lookup index with
  | none => rfl
  | some p =>
    rw [Option.map_some, Option.bind_some, h.readFile (List.mem_of_find?_eq_some hp)]
    rfl

theorem Represents.contents {n : ℕ} {s : FileSnapshotStore} {m : KeyedMap Snapshot}
    (h : Represents codec n s m) : contents codec s = m.lookup := by
  obtain ⟨shelf, hs, rfl, _, rfl⟩ := h
  exact hs.contents

theorem Represents.latest {n : ℕ} {s : FileSnapshotStore} {m : KeyedMap Snapshot}
    (h : Represents codec n s m) : s.loadLatestSnapshot codec = .ok m.latest := by
  obtain ⟨shelf, hs, rfl, _, rfl⟩ := h
  rw [hs.descending.latest, FileSnapshotStore.loadLatestSnapshot, hs.index]
  cases shelf with
  | nil => rfl
  | cons p rest =>
    simp only [List.map_cons, hs.readFile List.mem_cons_self]
    rfl

theorem Represents.load {n : ℕ} {s : FileSnapshotStore} {m : KeyedMap Snapshot}
    (h : Represents codec n s m) {index term : ℕ} (hindex : index ≤ u64Max)
    (hterm : term ≤ u64Max) : s.loadSnapshot codec index term =
      .ok ((m.lookup index).filter (fun p => p.1.lastIncludedTerm = term)) := by
  obtain ⟨shelf, hs, rfl, _, rfl⟩ := h
  have hfind : s.index.find? (fun q => q.id = canonicalId term index) =
      (shelf.find? (fun q => q.1.id = canonicalId term index)).map Prod.fst := by
    rw [hs.index, List.find?_map]
    rfl
  rw [FileSnapshotStore.loadSnapshot, hfind, ← hs.distinct.find_canonical hterm hindex]
  cases hp : shelf.find? (fun q => q.1.id = canonicalId term index) with
  | none => rfl
  | some p =>
    rw [Option.map_some]
    dsimp only
    rw [hs.readFile (List.mem_of_find?_eq_some hp)]
    rfl

def Named (m : KeyedMap Snapshot) (id : String) (metadata : StoredMeta) : Prop :=
  metadata.id = id ∧ ∃ data, m.lookup metadata.lastIncludedIndex = some (metadata, data)

theorem Distinct.find_named {shelf : List Snapshot} (h : Distinct codec shelf) {id : String}
    {metadata : StoredMeta} :
    (shelf.find? (fun q => q.1.id = id)).map Prod.fst = some metadata ↔
      Named (shelved indexOf shelf) id metadata := by
  rw [Option.map_eq_some_iff]
  constructor
  · rintro ⟨p, hp, rfl⟩
    obtain ⟨hmem, hid⟩ := h.find_id.mp hp
    exact ⟨hid, p.2, (shelved_lookup_iff h.nodup).mpr ⟨hmem, rfl⟩⟩
  · rintro ⟨hid, data, hdata⟩
    exact ⟨(metadata, data), h.find_id.mpr ⟨((shelved_lookup_iff h.nodup).mp hdata).1, hid⟩, rfl⟩

theorem Represents.find {n : ℕ} {s : FileSnapshotStore} {m : KeyedMap Snapshot}
    (h : Represents codec n s m) {id : String} {metadata : StoredMeta} :
    s.findById id = some metadata ↔ Named m id metadata := by
  obtain ⟨shelf, hs, rfl, _, rfl⟩ := h
  rw [FileSnapshotStore.findById, hs.index, List.find?_map]
  exact hs.distinct.find_named

theorem Represents.list {n : ℕ} {s : FileSnapshotStore} {m : KeyedMap Snapshot}
    (h : Represents codec n s m) :
    s.listSnapshots.Pairwise (fun a b => b.lastIncludedIndex < a.lastIncludedIndex) ∧
      ∀ metadata, metadata ∈ s.listSnapshots ↔
        ∃ data, m.lookup metadata.lastIncludedIndex = some (metadata, data) := by
  obtain ⟨shelf, hs, rfl, _, rfl⟩ := h
  rw [FileSnapshotStore.listSnapshots, hs.index]
  refine ⟨List.pairwise_map.mpr hs.descending, fun metadata => ?_⟩
  simp only [shelved_lookup_iff hs.distinct.nodup, List.mem_map]
  constructor
  · rintro ⟨p, hp, rfl⟩
    exact ⟨p.2, hp, rfl⟩
  · rintro ⟨data, hp, _⟩
    exact ⟨_, hp, rfl⟩

/-! ## The memory store -/

/-- The memory store is a map: it holds one snapshot for each index, in any order. -/
def Remembers (codec : SnapshotCodec) (s : MemoryStore) (m : KeyedMap Snapshot) : Prop :=
  Distinct codec s.snapshots ∧ shelved indexOf s.snapshots = m

theorem Remembers.save {s : MemoryStore} {m : KeyedMap Snapshot} (h : Remembers codec s m)
    {metadata : StoredMeta} {data : Bytes} (hw : codec.Writable metadata data) :
    Alike (Remembers codec) (s.saveSnapshot codec metadata data)
      (saveTo codec 0 m metadata data) := by
  obtain ⟨hd, rfl⟩ := h
  obtain ⟨p, hp⟩ : ∃ p : Snapshot, (codec.normalize metadata data, data) = p := ⟨_, rfl⟩
  have hpk : Kept codec p := hp ▸ Kept.of_save hw
  have hpi : indexOf p = metadata.lastIncludedIndex := hp ▸ rfl
  have hsaved : Remembers codec
      ⟨s.snapshots.filter (fun q => q.1.lastIncludedIndex ≠ metadata.lastIncludedIndex) ++ [p]⟩
      (((shelved indexOf s.snapshots).insert metadata.lastIncludedIndex p).retain 0) := by
    have hperm :
      (s.snapshots.filter (fun q => q.1.lastIncludedIndex ≠ metadata.lastIncludedIndex) ++
        [p]).Perm (withNew p s.snapshots) := by
      rw [withNew, hpi]
      exact (List.perm_append_singleton p _).trans (place_perm p _).symm
    have hnodup : ((withNew p s.snapshots).map indexOf).Nodup := by
      refine ((place_perm p _).map indexOf).nodup_iff.mpr (List.nodup_cons.mpr ⟨?_, ?_⟩)
      · intro hmem
        obtain ⟨q, hq, heq⟩ := List.mem_map.mp hmem
        exact of_decide_eq_true (List.mem_filter.mp hq).2 heq
      · exact hd.nodup.sublist (List.filter_sublist.map indexOf)
    refine ⟨⟨fun q hq => ?_, (hperm.map indexOf).nodup_iff.mpr hnodup⟩, ?_⟩
    · rcases mem_withNew.mp (hperm.subset hq) with rfl | ⟨hq, _⟩
      · exact hpk
      · exact hd.kept q hq
    · rw [shelved_perm hperm ((hperm.map indexOf).nodup_iff.mpr hnodup), withNew_shelved,
        KeyedMap.retain_zero, hpi]
  unfold MemoryStore.saveSnapshot saveTo
  rw [hp]
  by_cases hvoters : metadata.voterSet.isNone = true
  · rw [if_pos hvoters, if_pos hvoters]
    rfl
  · rw [if_neg hvoters, if_neg hvoters]
    have hlookup : s.snapshots.find? (fun q => q.1.lastIncludedIndex = metadata.lastIncludedIndex) =
        (shelved indexOf s.snapshots).lookup metadata.lastIncludedIndex := rfl
    dsimp only
    rw [hlookup]
    cases ((shelved indexOf s.snapshots).lookup metadata.lastIncludedIndex).filter
        (fun q => metadata.lastIncludedTerm < q.1.lastIncludedTerm) with
    | some q => rfl
    | none => exact hsaved

theorem Remembers.delete {s : MemoryStore} {m : KeyedMap Snapshot} (h : Remembers codec s m)
    {term index : ℕ} (hterm : term ≤ u64Max) (hindex : index ≤ u64Max) :
    Alike (Remembers codec) (s.deleteSnapshot (canonicalId term index))
      (deleteFrom m term index) := by
  obtain ⟨hd, rfl⟩ := h
  obtain ⟨_, hext⟩ := parsePath_canonicalId hterm hindex
  rw [MemoryStore.deleteSnapshot, hext, deleteFrom, ← hd.find_canonical hterm hindex]
  cases hfind : s.snapshots.find? (fun q => q.1.id = canonicalId term index) with
  | none =>
    have hsame : s.without (canonicalId term index) = s := by
      have hall : s.snapshots.filter (fun q => q.1.id ≠ canonicalId term index) = s.snapshots := by
        rw [List.filter_eq_self]
        intro q hq
        simpa using List.find?_eq_none.mp hfind q hq
      rw [MemoryStore.without, hall]
    simp [hsame, Alike]
  | some p =>
    obtain ⟨hmem, hid⟩ := hd.find_id.mp hfind
    have hrest : s.without (canonicalId term index) =
        ⟨s.snapshots.filter (fun q => indexOf q ≠ index)⟩ := by
      rw [← hd.filter_canonical hterm hindex hmem hid, MemoryStore.without]
      simp
    have hfewer : (s.without (canonicalId term index)).snapshots.length ≠ s.snapshots.length := by
      refine Nat.ne_of_lt (List.length_filter_lt_length_iff_exists.mpr ⟨p, hmem, ?_⟩)
      simp [hid]
    rw [if_neg hfewer, hrest]
    refine ⟨⟨fun q hq => hd.kept q (List.mem_of_mem_filter hq), ?_⟩, ?_⟩
    · exact hd.nodup.sublist (List.filter_sublist.map indexOf)
    · exact shelved_filter s.snapshots (fun j => j ≠ index)

theorem perm_of_map {shelf shelf' : List Snapshot} (h : Distinct codec shelf)
    (h' : Distinct codec shelf') (hmap : shelved indexOf shelf = shelved indexOf shelf') :
    shelf.Perm shelf' := by
  refine (List.perm_ext_iff_of_nodup (List.Nodup.of_map indexOf h.nodup)
    (List.Nodup.of_map indexOf h'.nodup)).mpr fun p => ?_
  have hiff := shelved_lookup_iff h.nodup (i := indexOf p) (v := p)
  rw [hmap, shelved_lookup_iff h'.nodup] at hiff
  simpa using hiff.symm

theorem Remembers.list {n : ℕ} {s : MemoryStore} {f : FileSnapshotStore} {m : KeyedMap Snapshot}
    (h : Remembers codec s m) (hf : Represents codec n f m) :
    s.listSnapshots = f.listSnapshots := by
  obtain ⟨hd, rfl⟩ := h
  obtain ⟨shelf, hs, rfl, _, hmap⟩ := hf
  have hperm := perm_of_map hd hs.distinct hmap.symm
  rw [FileSnapshotStore.listSnapshots, hs.index, MemoryStore.listSnapshots]
  refine sort_by_index hs.descending hperm ?_ ?_ ?_ ?_
  · intro a b c
    simp only [decide_eq_true_eq]
    omega
  · intro a b
    simp only [Bool.or_eq_true, decide_eq_true_eq]
    omega
  · intro a b hab
    exact of_decide_eq_true hab
  · intro a b hab
    exact decide_eq_true hab.le

theorem laterStored_spec (p q : Snapshot) :
    (laterStored p q = p ∨ laterStored p q = q) ∧
      indexOf p ≤ indexOf (laterStored p q) ∧ indexOf q ≤ indexOf (laterStored p q) := by
  unfold laterStored
  split_ifs with h
  · exact ⟨.inr rfl, h, le_rfl⟩
  · exact ⟨.inl rfl, le_rfl, le_of_lt (not_le.mp h)⟩

theorem foldl_laterStored (p : Snapshot) (rest : List Snapshot) :
    rest.foldl laterStored p ∈ p :: rest ∧
      ∀ q ∈ p :: rest, indexOf q ≤ indexOf (rest.foldl laterStored p) := by
  induction rest generalizing p with
  | nil => simp
  | cons q rest ih =>
    obtain ⟨hmem, hmax⟩ := ih (laterStored p q)
    obtain ⟨hchoice, hp, hq⟩ := laterStored_spec p q
    have hfirst := hmax _ List.mem_cons_self
    rw [List.foldl_cons]
    constructor
    · rcases List.mem_cons.mp hmem with heq | hrest
      · rw [heq]
        rcases hchoice with h | h <;> simp [h]
      · exact List.mem_cons_of_mem _ (List.mem_cons_of_mem _ hrest)
    · intro u hu
      rcases List.mem_cons.mp hu with rfl | hu
      · exact hp.trans hfirst
      · rcases List.mem_cons.mp hu with rfl | hu
        · exact hq.trans hfirst
        · exact hmax u (List.mem_cons_of_mem _ hu)

theorem Remembers.latest {s : MemoryStore} {m : KeyedMap Snapshot} (h : Remembers codec s m) :
    s.loadLatestSnapshot = m.latest := by
  obtain ⟨hd, rfl⟩ := h
  rw [MemoryStore.loadLatestSnapshot]
  cases hsnaps : s.snapshots with
  | nil => exact latest_nil.symm
  | cons p rest =>
    rw [hsnaps] at hd
    obtain ⟨hmem, hmax⟩ := foldl_laterStored p rest
    exact (latest_eq_of_max hd.nodup hmem hmax).symm

theorem Remembers.load {s : MemoryStore} {m : KeyedMap Snapshot} (h : Remembers codec s m)
    {index term : ℕ} (hindex : index ≤ u64Max) (hterm : term ≤ u64Max) :
    s.loadSnapshot index term = (m.lookup index).filter (fun p => p.1.lastIncludedTerm = term) := by
  obtain ⟨hd, rfl⟩ := h
  exact hd.find_canonical hterm hindex

theorem Remembers.find {s : MemoryStore} {m : KeyedMap Snapshot} (h : Remembers codec s m)
    {id : String} {metadata : StoredMeta} : s.findById id = some metadata ↔
    Named m id metadata := by
  obtain ⟨hd, rfl⟩ := h
  exact hd.find_named

/-! ## Runs -/

inductive StoreOp
  | save (metadata : StoredMeta) (data : Bytes)
  | delete (term index : ℕ)
  /-- The store is dropped and opened again; the directory is listed in these orders. -/
  | reopen (listed relisted : List FileName)

structure Trio where
  file : FileSnapshotStore
  model : KeyedMap Snapshot
  memory : MemoryStore
  fileAnswers : List (Except XRaftError Unit)
  modelAnswers : List (Except XRaftError Unit)
  memoryAnswers : List (Except XRaftError Unit)

def after {α : Type} (old : α) : Except XRaftError α → α
  | .ok new => new
  | .error _ => old

def answer {α : Type} : Except XRaftError α → Except XRaftError Unit
  | .ok _ => .ok ()
  | .error e => .error e

def Trio.respond (t : Trio) (file : Except XRaftError FileSnapshotStore)
    (model : Except XRaftError (KeyedMap Snapshot)) (memory : Except XRaftError MemoryStore) :
    Trio :=
  ⟨after t.file file, after t.model model, after t.memory memory, t.fileAnswers ++ [answer file],
    t.modelAnswers ++ [answer model], t.memoryAnswers ++ [answer memory]⟩

/-- Reopening is no operation of the map, and the memory store is not dropped. -/
def Trio.step (codec : SnapshotCodec) (t : Trio) : StoreOp → Trio
  | .save metadata data =>
    t.respond (t.file.saveSnapshot codec metadata data)
      (saveTo codec t.file.maxRetained t.model metadata data)
      (t.memory.saveSnapshot codec metadata data)
  | .delete term index =>
    t.respond (t.file.deleteSnapshot (canonicalId term index)) (deleteFrom t.model term index)
      (t.memory.deleteSnapshot (canonicalId term index))
  | .reopen listed relisted =>
    t.respond
      (FileSnapshotStore.openWithRetention codec t.file.dir t.file.maxRetained listed relisted)
      (.ok t.model) (.ok t.memory)

/-- Metadata and data fit their types and the limit on voter sets, and listings of the directory are
complete. -/
def Valid (codec : SnapshotCodec) (t : Trio) : StoreOp → Prop
  | .save metadata data => codec.Writable metadata data
  | .delete term index => term ≤ u64Max ∧ index ≤ u64Max
  | .reopen listed relisted =>
    listed.Perm t.file.dir.names ∧
      relisted.Perm (FileSnapshotStore.recoverIncompleteWrites t.file.dir listed).names

def Trio.start (path : String) (maxRetained : ℕ) : Trio :=
  ⟨⟨Directory.empty path, [], maxRetained⟩, KeyedMap.empty, ⟨[]⟩, [], [], []⟩

theorem open_empty (codec : SnapshotCodec) (path : String) (maxRetained : ℕ) :
    FileSnapshotStore.openWithRetention codec (Directory.empty path) maxRetained [] [] =
      .ok (Trio.start path maxRetained).file := by
  have hbuilt : FileSnapshotStore.rebuildIndex codec ⟨Directory.empty path, [], maxRetained⟩ [] =
      .ok ⟨Directory.empty path, [], maxRetained⟩ := by
    simp [FileSnapshotStore.rebuildIndex, FileSnapshotStore.dedupe]
  have hclean : FileSnapshotStore.recoverIncompleteWrites (Directory.empty path) [] =
      Directory.empty path := rfl
  rw [FileSnapshotStore.openWithRetention, hclean, hbuilt]
  cases maxRetained <;> rfl

structure InStep (codec : SnapshotCodec) (maxRetained : ℕ) (t : Trio) : Prop where
  represents : Represents codec maxRetained t.file t.model
  answers : t.fileAnswers = t.modelAnswers
  remembers : maxRetained = 0 → Remembers codec t.memory t.model
  memoryAnswers : maxRetained = 0 → t.memoryAnswers = t.modelAnswers

theorem Alike.after {α β : Type} {r : α → β → Prop} {x : Except XRaftError α}
    {y : Except XRaftError β} (h : Alike r x y) {a : α} {b : β} (hab : r a b) :
    r (after a x) (after b y) ∧ answer x = answer y := by
  cases x with
  | ok a' =>
    cases y with
    | ok b' => exact ⟨h, rfl⟩
    | error e => cases h
  | error e =>
    cases y with
    | ok b' => cases h
    | error e' =>
      cases (show e = e' from h)
      exact ⟨hab, rfl⟩

theorem InStep.respond {n : ℕ} {t : Trio} (h : InStep codec n t)
    {file : Except XRaftError FileSnapshotStore} {model : Except XRaftError (KeyedMap Snapshot)}
    {memory : Except XRaftError MemoryStore} (hfile : Alike (Represents codec n) file model)
    (hmemory : n = 0 → Alike (Remembers codec) memory model) :
    InStep codec n (t.respond file model memory) := by
  obtain ⟨hrep, hanswer⟩ := hfile.after h.represents
  refine ⟨hrep, ?_, fun hn => ?_, fun hn => ?_⟩
  · simp only [Trio.respond, h.answers, hanswer]
  · exact ((hmemory hn).after (h.remembers hn)).1
  · simp only [Trio.respond, h.memoryAnswers hn, ((hmemory hn).after (h.remembers hn)).2]

theorem InStep.step {n : ℕ} {t : Trio} (h : InStep codec n t) {op : StoreOp}
    (hop : Valid codec t op) : InStep codec n (t.step codec op) := by
  have hmax : t.file.maxRetained = n := by
    obtain ⟨_, _, hmax, _⟩ := h.represents
    exact hmax
  cases op with
  | save metadata data =>
    rw [Trio.step, hmax]
    refine h.respond (h.represents.save hop) fun hn => ?_
    subst hn
    exact (h.remembers rfl).save hop
  | delete term index =>
    exact h.respond (h.represents.delete hop.1 hop.2) fun hn => (h.remembers hn).delete hop.1 hop.2
  | reopen listed relisted =>
    rw [Trio.step, hmax]
    obtain ⟨s', hopen, hrep⟩ := h.represents.reopen hop.1 hop.2
    rw [hopen]
    exact h.respond hrep fun hn => h.remembers hn

theorem InStep.start (path : String) (n : ℕ) : InStep codec n (Trio.start path n) := by
  have hempty : Distinct codec [] := ⟨fun p hp => absurd hp List.not_mem_nil, List.nodup_nil⟩
  refine ⟨⟨[], ⟨hempty.kept, List.Pairwise.nil, rfl, ?_⟩, rfl, ?_, rfl⟩, rfl,
    fun _ => ⟨hempty, rfl⟩, fun _ => rfl⟩
  · exact ⟨fun p hp => absurd hp List.not_mem_nil, fun _ _ => rfl⟩
  · exact retained_eq_self.mpr (.inr (Nat.zero_le _))

structure KeepsMap (codec : SnapshotCodec) (maxRetained : ℕ) (t : Trio) : Prop where
  descending : t.file.listSnapshots.Pairwise (fun a b => b.lastIncludedIndex < a.lastIncludedIndex)
  lists : ∀ metadata, metadata ∈ t.file.listSnapshots ↔
    ∃ data, t.model.lookup metadata.lastIncludedIndex = some (metadata, data)
  contents_eq : contents codec t.file = t.model.lookup
  normal : ∀ index p, t.model.lookup index = some p →
    indexOf p = index ∧ codec.normalize p.1 p.2 = p.1
  answers : t.fileAnswers = t.modelAnswers
  latest : t.file.loadLatestSnapshot codec = .ok t.model.latest
  loads : ∀ index term, index ≤ u64Max → term ≤ u64Max → t.file.loadSnapshot codec index term =
    .ok ((t.model.lookup index).filter (fun p => p.1.lastIncludedTerm = term))
  finds : ∀ id metadata, t.file.findById id = some metadata ↔ Named t.model id metadata
  memory : maxRetained = 0 →
    t.memoryAnswers = t.fileAnswers ∧ t.memory.listSnapshots = t.file.listSnapshots ∧
    t.file.loadLatestSnapshot codec = .ok t.memory.loadLatestSnapshot ∧
    (∀ index term, index ≤ u64Max → term ≤ u64Max →
      t.file.loadSnapshot codec index term = .ok (t.memory.loadSnapshot index term)) ∧
    (∀ id, t.file.findById id = t.memory.findById id) ∧
    ∀ index term, t.file.snapshotExists index term = t.memory.snapshotExists index term

theorem snapshotExists_eq {n : ℕ} {s : MemoryStore} {f : FileSnapshotStore} {m : KeyedMap Snapshot}
    (h : Remembers codec s m) (hf : Represents codec n f m) (index term : ℕ) :
    f.snapshotExists index term = s.snapshotExists index term := by
  obtain ⟨hd, rfl⟩ := h
  obtain ⟨shelf, hs, rfl, _, hmap⟩ := hf
  have hperm := perm_of_map hs.distinct hd hmap
  rw [FileSnapshotStore.snapshotExists, MemoryStore.snapshotExists, hs.index, List.any_map,
    Bool.eq_iff_iff, List.any_eq_true, List.any_eq_true]
  simp only [hperm.mem_iff, Function.comp_apply]

/-- In every run of saves, deletes by canonical id and reopenings, for every retention, the file
store lists its snapshots in strictly descending order and equals the bounded map; without retention
it answers as the memory store does. -/
theorem file_store_is_bounded_map (codec : SnapshotCodec) (path : String) (maxRetained : ℕ)
    {t : Trio} (h : Execution (Trio.step codec) (Valid codec) (Trio.start path maxRetained) t) :
    KeepsMap codec maxRetained t := by
  have hin : InStep codec maxRetained t :=
    h.invariant (fun _ _ hs hop => hs.step hop) (InStep.start path maxRetained)
  have hrep := hin.represents
  refine ⟨hrep.list.1, hrep.list.2, hrep.contents, ?_, hin.answers, hrep.latest,
    fun index term hi ht => hrep.load hi ht, fun id metadata => hrep.find, fun hn => ?_⟩
  · intro index p hp
    obtain ⟨shelf, hs, _, _, hmap⟩ := hrep
    rw [← hmap] at hp
    obtain ⟨hmem, hi⟩ := (shelved_lookup_iff hs.distinct.nodup).mp hp
    exact ⟨hi, (hs.kept p hmem).normal⟩
  · have hmem := hin.remembers hn
    refine ⟨(hin.memoryAnswers hn).trans hin.answers.symm, hmem.list hrep, ?_, ?_, ?_,
      snapshotExists_eq hmem hrep⟩
    · rw [hrep.latest, hmem.latest]
    · intro index term hi ht
      rw [hrep.load hi ht, hmem.load hi ht]
    · intro id
      refine Option.ext fun metadata => ?_
      rw [hrep.find, hmem.find]

def fourBytes : StoredMeta := ⟨⟨9, 2, "mine", some soloVoters, none⟩, none⟩

/-- One snapshot is retained of two, and found again after a reopening. -/
theorem file_store_is_bounded_map_second_save :
    let saved := replay (Trio.step sampleSnapshotCodec) (Trio.start "data" 1)
      [.save threeBytes [1, 2, 3], .save fourBytes [4, 5, 6, 7]]
    let listed := saved.file.dir.names
    KeepsMap sampleSnapshotCodec 1 (saved.step sampleSnapshotCodec (.reopen listed
      (FileSnapshotStore.recoverIncompleteWrites saved.file.dir listed).names)) := by
  intro saved listed
  have hsaved : Execution (Trio.step sampleSnapshotCodec) (Valid sampleSnapshotCodec)
      (Trio.start "data" 1) saved :=
    replay_execution ⟨threeBytes_writable,
      ⟨by decide, by decide, by decide +kernel, by decide +kernel⟩, trivial⟩
  exact file_store_is_bounded_map sampleSnapshotCodec "data" 1
    (hsaved.tail ⟨List.Perm.refl _, List.Perm.refl _⟩)

end SnapshotRetention
