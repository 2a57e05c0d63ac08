import Xraft.SnapshotRetention

/-! # Crashes during a save

The directories between the file operations of `save_snapshot`, and what reopening makes of each.
The recovery settles the temporary file and the backup, the rebuild of the index settles two terms
of one index, and pruning is taken up again.
-/
namespace SnapshotCrashes

open ProtocolTypes DurableStores WriteAheadLog SnapshotFiles SnapshotStores SnapshotRetention
open RetainedMaps GuardedExecution
open FileSnapshotStore hiding indexOf

/-! ## The file operations of a save -/

def stemOf (path : FileName) : FileName := ((splitExtension path).map Prod.fst).getD path

def tmpPath (path : FileName) : FileName := stemOf path ++ ".bin.tmp".toList

def bakPath (path : FileName) : FileName := stemOf path ++ ".bin.bak".toList

/-- The directory before, between and behind the operations of `atomic_write`. The temporary file
may be there in part. -/
def atomicWriteSteps (d : Directory) (path : FileName) (blob : Bytes) : List Directory :=
  let written := d.write (tmpPath path) blob
  let cleared := written.remove (bakPath path)
  let setAside := if (written.read path).isSome then cleared.rename path (bakPath path) else written
  let placed := setAside.rename (tmpPath path) path
  [d] ++ blob.inits.map (d.write (tmpPath path)) ++
    (if (written.read path).isSome then [cleared, setAside] else []) ++
    [placed, placed.remove (bakPath path)]

def pruneLoopSteps : ℕ → FileSnapshotStore → List Directory
  | 0, s => [s.dir]
  | fuel + 1, s =>
    s.dir :: if s.maxRetained < s.index.length then
      match s.index.getLast? with
      | some old =>
        pruneLoopSteps fuel
          { s with dir := s.dir.remove (snapshotPathFromMeta old), index := s.index.dropLast }
      | none => []
    else []

def pruneSteps (s : FileSnapshotStore) : List Directory :=
  if s.maxRetained = 0 then [s.dir] else pruneLoopSteps s.index.length s

def saveSteps (codec : SnapshotCodec) (s : FileSnapshotStore) (metadata : StoredMeta)
    (data : Bytes) : List Directory :=
  let saved := codec.normalize metadata data
  let path := snapshotPathFromMeta saved
  match codec.encodeSnapshot saved data with
  | .error _ => [s.dir]
  | .ok blob =>
    let written := atomicWrite s.dir path blob
    let stale := s.index.filter (fun m => m.lastIncludedIndex = metadata.lastIncludedIndex)
    let stalePaths := (stale.map snapshotPathFromMeta).filter (fun old => old ≠ path)
    let others := s.index.filter (fun m => m.lastIncludedIndex ≠ metadata.lastIncludedIndex)
    atomicWriteSteps s.dir path blob ++ stalePaths.scanl Directory.remove written ++
      pruneSteps { s with
        dir := stalePaths.foldl Directory.remove written
        index := insertNewest saved others }

theorem pruneLoopSteps_last (fuel : ℕ) (s : FileSnapshotStore) :
    (pruneLoopSteps fuel s).getLast? = some (pruneLoop fuel s).dir := by
  induction fuel generalizing s with
  | zero => rfl
  | succ fuel ih =>
    rw [pruneLoopSteps, pruneLoop]
    split_ifs with hmany
    · cases hlast : s.index.getLast? with
      | none => rfl
      | some old =>
        dsimp only
        rw [List.getLast?_cons, ih]
        rfl
    · rfl

theorem saveSteps_last {codec : SnapshotCodec} {s s' : FileSnapshotStore} {metadata : StoredMeta}
    {data : Bytes} (h : s.saveSnapshot codec metadata data = .ok s') :
    (saveSteps codec s metadata data).getLast? = some s'.dir := by
  unfold saveSnapshot at h
  unfold saveSteps
  dsimp only at h ⊢
  split_ifs at h
  split at h
  · cases h
  · cases hblob : codec.encodeSnapshot (codec.normalize metadata data) data with
    | error e =>
      rw [hblob] at h
      cases h
    | ok blob =>
      rw [hblob] at h
      cases h
      dsimp only
      rw [List.getLast?_append]
      unfold pruneSteps prune
      split_ifs
      · rfl
      · rw [pruneLoopSteps_last]
        rfl

/-! ## Recovery -/

variable {codec : SnapshotCodec}

structure Sides (path tmp bak : FileName) : Prop where
  tmp_ne : tmp ≠ path
  bak_ne : bak ≠ path
  tmp_bak : tmp ≠ bak
  tmp_foreign : hasExtension snapshotExt tmp = false
  bak_foreign : hasExtension snapshotExt bak = false
  tmp_cleaned : hasExtension "tmp".toList tmp = true
  bak_stays : hasExtension "tmp".toList bak = false
  tmp_settled : ∀ d, settleBackup d tmp = d
  bak_settled : ∀ d, settleBackup d bak =
    if (d.read path).isSome then d.remove bak else d.rename bak path

theorem stemOf_path (p : Snapshot) : pathOf p = stemOf (pathOf p) ++ ".bin".toList := by
  have hext : '.' :: snapshotExt = ".bin".toList := by decide
  rw [stemOf, pathOf, snapshotPathFromMeta, splitExtension_filename, Option.map_some,
    Option.getD_some, snapshotFilename, hext]

theorem sides_path (p : Snapshot) : Sides (pathOf p) (tmpPath (pathOf p)) (bakPath (pathOf p)) := by
  have hpath := stemOf_path p
  rw [tmpPath, bakPath]
  generalize pathOf p = path at hpath ⊢
  generalize stemOf path = stem at hpath ⊢
  have hne {a b : List Char} (h : a ≠ b) : stem ++ a ≠ stem ++ b :=
    fun heq => h (List.append_cancel_left heq)
  have hsplit {ext : List Char} (hext : '.' ∉ ext) :
      splitExtension (stem ++ (".bin".toList ++ '.' :: ext)) =
        some (stem ++ ".bin".toList, ext) := by
    rw [← List.append_assoc]
    exact splitExtension_append (by simp) hext
  have htmp : splitExtension (stem ++ ".bin.tmp".toList) =
      some (stem ++ ".bin".toList, "tmp".toList) :=
    hsplit (by decide)
  have hbak : splitExtension (stem ++ ".bin.bak".toList) =
      some (stem ++ ".bin".toList, "bak".toList) :=
    hsplit (by decide)
  have hext {name stem' ext other : List Char} (h : splitExtension name = some (stem', ext)) :
      hasExtension other name = decide (ext = other) := by rw [hasExtension, h, Option.any_some]
  refine ⟨?_, ?_, hne (by decide), ?_, ?_, ?_, ?_, fun d => ?_, fun d => ?_⟩
  · rw [hpath]
    exact hne (by decide)
  · rw [hpath]
    exact hne (by decide)
  · rw [hext htmp]
    decide
  · rw [hext hbak]
    decide
  · rw [hext htmp]
    decide
  · rw [hext hbak]
    decide
  · have hnot : ¬backupExt.reverse <+: (stem ++ ".bin.tmp".toList).reverse := by
      rintro ⟨rest, hrest⟩
      have hback : backupExt.reverse = 'k' :: "ab.nib.".toList := by decide
      have hname : ".bin.tmp".toList.reverse = 'p' :: "mt.nib.".toList := by decide
      rw [List.reverse_append, hback, hname, List.cons_append, List.cons_append, List.cons.injEq]
        at hrest
      exact absurd hrest.1 (by decide)
    rw [settleBackup, if_neg hnot]
  · have his : backupExt.reverse <+: (stem ++ ".bin.bak".toList).reverse := by
      rw [List.reverse_append]
      exact List.prefix_append _ _
    have horiginal : (stem ++ ".bin.bak".toList).take
        ((stem ++ ".bin.bak".toList).length - ".bak".length) = path := by
      have hlen : (stem ++ ".bin.bak".toList).length - ".bak".length =
          (stem ++ ".bin".toList).length := by
        rw [List.length_append, List.length_append]
        have hback : ".bin.bak".toList.length = 8 := by decide
        have hbin : ".bin".toList.length = 4 := by decide
        have hfour : ".bak".length = 4 := by decide
        omega
      have hcat : stem ++ ".bin.bak".toList = (stem ++ ".bin".toList) ++ ".bak".toList := by
        rw [List.append_assoc]
        rfl
      rw [hlen, hcat, List.take_left, hpath]
    rw [settleBackup, if_pos his]
    dsimp only
    rw [horiginal]

theorem settleBackup_path (d : Directory) (p : Snapshot) : settleBackup d (pathOf p) = d := by
  rw [pathOf, snapshotPathFromMeta, snapshotFilename]
  exact settleBackup_bin d _

theorem foldl_settleBackup {bak : FileName} {names : List FileName} (hnodup : names.Nodup)
    (hother : ∀ name ∈ names, name ≠ bak → ∀ d, settleBackup d name = d) (d : Directory) :
    names.foldl settleBackup d = if bak ∈ names then settleBackup d bak else d := by
  induction names generalizing d with
  | nil => rfl
  | cons name rest ih =>
    obtain ⟨hout, hrest⟩ := List.nodup_cons.mp hnodup
    have hnext := ih hrest fun n hn => hother n (List.mem_cons_of_mem _ hn)
    rw [List.foldl_cons, hnext]
    by_cases heq : name = bak
    · rw [heq, if_neg (heq ▸ hout), if_pos List.mem_cons_self]
    · rw [hother name List.mem_cons_self heq]
      simp [Ne.symm heq]

/-- Snapshot files, and perhaps the temporary file and the backup of one of them. -/
def Unsettled (d : Directory) (p : Snapshot) : Prop :=
  ∀ name, (d.read name).isSome →
    (∃ q, pathOf q = name) ∨ name = tmpPath (pathOf p) ∨ name = bakPath (pathOf p)

theorem settled_read {d cleaned : Directory} {path tmp bak : FileName} (htp : tmp ≠ path)
    (hbp : bak ≠ path) (htb : tmp ≠ bak)
    (hcleaned : ∀ n, cleaned.read n = if n = tmp then none else d.read n) (name : FileName) :
    (if (d.read bak).isSome then
      if (cleaned.read path).isSome then cleaned.remove bak else cleaned.rename bak path
      else cleaned).read name =
      if name = tmp ∨ name = bak then none
      else if name = path then (d.read name).or (d.read bak) else d.read name := by
  have hpath : cleaned.read path = d.read path := by rw [hcleaned, if_neg htp.symm]
  have hbak : cleaned.read bak = d.read bak := by rw [hcleaned, if_neg htb.symm]
  rw [hpath]
  cases hold : d.read bak with
  | none =>
    simp only [Option.isSome_none, Bool.false_eq_true, if_false, hcleaned, Option.or_none]
    grind
  | some old =>
    cases hread : d.read path with
    | some new =>
      simp only [Option.isSome_some, if_true, Directory.read_remove, hcleaned]
      grind
    | none =>
      simp only [Option.isSome_some, Option.isSome_none, Bool.false_eq_true, if_false, if_true,
        Directory.read_rename (hbak.trans hold), hcleaned]
      grind

/-- The temporary file goes; the backup takes the place of a missing original, or goes too. -/
theorem recover_read {d : Directory} {p : Snapshot} (h : Unsettled d p) {listed : List FileName}
    (hlisted : listed.Perm d.names) (name : FileName) :
    (recoverIncompleteWrites d listed).read name =
      if name = tmpPath (pathOf p) ∨ name = bakPath (pathOf p) then none
      else if name = pathOf p then (d.read name).or (d.read (bakPath (pathOf p)))
      else d.read name := by
  obtain ⟨htp, hbp, htb, _, _, hclean, hstay, hsettle, hback⟩ := sides_path p
  have hknown (n : FileName) (hn : n ∈ listed) := h n (mem_names.mp (hlisted.subset hn))
  clear h
  generalize tmpPath (pathOf p) = tmp at *
  generalize bakPath (pathOf p) = bak at *
  -- only the temporary file has the extension that is cleaned up
  have hcleaned (n : FileName) :
      ((listed.filter (hasExtension "tmp".toList)).foldl Directory.remove d).read n =
        if n = tmp then none else d.read n := by
    rw [removeAll_read]
    by_cases heq : n = tmp
    · rw [heq, if_pos rfl]
      split_ifs with hmem
      · rfl
      · by_contra hread
        refine hmem (List.mem_filter.mpr ⟨hlisted.symm.subset (mem_names.mpr ?_), hclean⟩)
        exact Option.isSome_iff_ne_none.mpr hread
    · rw [if_neg heq, if_neg]
      intro hmem
      obtain ⟨hin, hext⟩ := List.mem_filter.mp hmem
      rcases hknown n hin with ⟨q, hq⟩ | hn | hn
      · rw [← hq, hasTmp_path] at hext
        cases hext
      · exact heq hn
      · rw [hn, hstay] at hext
        cases hext
  have hback' : bak ∈ listed ↔ (d.read bak).isSome := hlisted.mem_iff.trans mem_names
  rw [recoverIncompleteWrites, foldl_settleBackup (hlisted.nodup_iff.mpr (names_nodup d)) ?_, hback]
  · simp only [hback']
    exact settled_read htp hbp htb hcleaned name
  · intro n hn hne d'
    rcases hknown n hn with ⟨q, hq⟩ | hq | hq
    · rw [← hq]
      exact settleBackup_path d' q
    · rw [hq]
      exact hsettle d'
    · exact absurd hq hne

/-! ## The directories of a save -/

theorem Filed.congr {d d' : Directory} {shelf : List Snapshot} (h : Filed codec d shelf)
    (hread : ∀ name, d'.read name = d.read name) : Filed codec d' shelf :=
  ⟨fun p hp => (hread _).trans (h.present p hp),
    fun name hname => (hread name).trans (h.absent name hname)⟩

def HasOld (d d' : Directory) (p : Snapshot) : Prop :=
  (∀ name, name ≠ tmpPath (pathOf p) → d'.read name = d.read name) ∨
  (d'.read (pathOf p) = none ∧ d'.read (bakPath (pathOf p)) = d.read (pathOf p) ∧
    ∀ name, name ≠ tmpPath (pathOf p) → name ≠ bakPath (pathOf p) → name ≠ pathOf p →
      d'.read name = d.read name)

def HasNew (d d' : Directory) (p : Snapshot) (blob : Bytes) : Prop :=
  d'.read (pathOf p) = some blob ∧
    ∀ name, name ≠ tmpPath (pathOf p) → name ≠ bakPath (pathOf p) → name ≠ pathOf p →
      d'.read name = d.read name

theorem atomicWriteSteps_cases {d d' : Directory} {shelf : List Snapshot} (h : Filed codec d shelf)
    {p : Snapshot} {blob : Bytes} (hd' : d' ∈ atomicWriteSteps d (pathOf p) blob) :
    HasOld d d' p ∨ HasNew d d' p blob := by
  obtain ⟨htp, hbp, htb, _, hforeign, _, _, _, _⟩ := sides_path p
  have hbak : d.read (bakPath (pathOf p)) = none := h.foreign hforeign
  unfold HasOld HasNew
  rw [atomicWriteSteps] at hd'
  generalize tmpPath (pathOf p) = tmp at *
  generalize bakPath (pathOf p) = bak at *
  generalize pathOf p = path at *
  have hkeep : (d.write tmp blob).read path = d.read path := by
    rw [Directory.read_write, if_neg htp.symm]
  have hnew : (d.write tmp blob).read tmp = some blob := by rw [Directory.read_write, if_pos rfl]
  rw [hkeep] at hd'
  simp only [List.mem_append, List.mem_map, List.mem_cons, List.not_mem_nil, or_false] at hd'
  rcases hd' with ((rfl | ⟨part, _, rfl⟩) | hd') | hd'
  · exact .inl (.inl fun _ _ => rfl)
  · exact .inl (.inl fun name hname => by rw [Directory.read_write, if_neg hname])
  · cases hold : d.read path with
    | none => simp [hold] at hd'
    | some old =>
      simp only [hold, Option.isSome_some, if_true, List.mem_cons, List.not_mem_nil,
        or_false] at hd'
      have hbefore : ((d.write tmp blob).remove bak).read path = some old := by
        rw [Directory.read_remove, if_neg hbp.symm, hkeep, hold]
      rcases hd' with rfl | rfl
      · refine .inl (.inl fun name hname => ?_)
        rw [Directory.read_remove, Directory.read_write, if_neg hname]
        split_ifs with heq
        · rw [heq, hbak]
        · rfl
      · refine .inl (.inr ⟨?_, ?_, fun name hnt hnb hnp => ?_⟩)
        · rw [Directory.read_rename hbefore, if_neg hbp.symm, if_pos rfl]
        · rw [Directory.read_rename hbefore, if_pos rfl]
        · rw [Directory.read_rename hbefore, if_neg hnb, if_neg hnp, Directory.read_remove,
            if_neg hnb, Directory.read_write, if_neg hnt]
  · -- the temporary file has taken the place, with or without a backup beside it
    obtain ⟨aside, haside, htmp, hother⟩ : ∃ aside : Directory,
        (if (d.read path).isSome = true then ((d.write tmp blob).remove bak).rename path bak
          else d.write tmp blob) = aside ∧ aside.read tmp = some blob ∧
        ∀ name, name ≠ tmp → name ≠ bak → name ≠ path → aside.read name = d.read name := by
      refine ⟨_, rfl, ?_⟩
      cases hold : d.read path with
      | none =>
        rw [if_neg (by simp)]
        exact ⟨hnew, fun name hnt _ _ => by rw [Directory.read_write, if_neg hnt]⟩
      | some old =>
        have hbefore : ((d.write tmp blob).remove bak).read path = some old := by
          rw [Directory.read_remove, if_neg hbp.symm, hkeep, hold]
        rw [if_pos (show (some old).isSome = true from rfl)]
        refine ⟨?_, fun name hnt hnb hnp => ?_⟩
        · rw [Directory.read_rename hbefore, if_neg htb, if_neg htp, Directory.read_remove,
            if_neg htb, hnew]
        · rw [Directory.read_rename hbefore, if_neg hnb, if_neg hnp, Directory.read_remove,
            if_neg hnb, Directory.read_write, if_neg hnt]
    rw [haside] at hd'
    rcases hd' with rfl | rfl
    · refine .inr ⟨?_, fun name hnt hnb hnp => ?_⟩
      · rw [Directory.read_rename htmp, if_pos rfl]
      · rw [Directory.read_rename htmp, if_neg hnp, if_neg hnt, hother name hnt hnb hnp]
    · refine .inr ⟨?_, fun name hnt hnb hnp => ?_⟩
      · rw [Directory.read_remove, if_neg hbp.symm, Directory.read_rename htmp, if_pos rfl]
      · rw [Directory.read_remove, if_neg hnb, Directory.read_rename htmp, if_neg hnp, if_neg hnt,
          hother name hnt hnb hnp]

theorem unsettled_of_new {d d' : Directory} {shelf : List Snapshot} (h : Filed codec d shelf)
    {p : Snapshot} (hother : ∀ name, name ≠ tmpPath (pathOf p) → name ≠ bakPath (pathOf p) →
      name ≠ pathOf p → d'.read name = d.read name) : Unsettled d' p := by
  intro name hname
  by_cases hnt : name = tmpPath (pathOf p)
  · exact .inr (.inl hnt)
  by_cases hnb : name = bakPath (pathOf p)
  · exact .inr (.inr hnb)
  by_cases hnp : name = pathOf p
  · exact .inl ⟨p, hnp.symm⟩
  rw [hother name hnt hnb hnp] at hname
  obtain ⟨bytes, hbytes⟩ := Option.isSome_iff_exists.mp hname
  obtain ⟨q, _, hq⟩ := h.name hbytes
  exact .inl ⟨q, hq⟩

/-- As long as the old content is there, recovery finds the files from before the save. -/
theorem HasOld.recover {d d' : Directory} {shelf : List Snapshot} (h : Filed codec d shelf)
    {p : Snapshot} (hold : HasOld d d' p) {listed : List FileName}
    (hlisted : listed.Perm d'.names) : Filed codec (recoverIncompleteWrites d' listed) shelf := by
  obtain ⟨htp, hbp, htb, htf, hbf, _, _, _, _⟩ := sides_path p
  have htmp : d.read (tmpPath (pathOf p)) = none := h.foreign htf
  have hbak : d.read (bakPath (pathOf p)) = none := h.foreign hbf
  have hunsettled : Unsettled d' p := by
    refine unsettled_of_new h fun name hnt hnb hnp => ?_
    rcases hold with hsame | ⟨_, _, hsame⟩
    · exact hsame name hnt
    · exact hsame name hnt hnb hnp
  refine Filed.congr h fun name => ?_
  rw [recover_read hunsettled hlisted]
  unfold HasOld at hold
  generalize tmpPath (pathOf p) = tmp at *
  generalize bakPath (pathOf p) = bak at *
  generalize pathOf p = path at *
  by_cases hnt : name = tmp
  · rw [if_pos (.inl hnt), hnt, htmp]
  by_cases hnb : name = bak
  · rw [if_pos (.inr hnb), hnb, hbak]
  rw [if_neg (not_or.mpr ⟨hnt, hnb⟩)]
  rcases hold with hsame | ⟨hnone, haside, hsame⟩
  · rw [hsame name hnt, hsame bak htb.symm, hbak, Option.or_none, ite_self]
  · by_cases hnp : name = path
    · rw [if_pos hnp, hnp, hnone, haside, Option.none_or]
    · rw [if_neg hnp, hsame name hnt hnb hnp]

/-- Once the new content is in place, recovery finds the files of the completed write. -/
theorem HasNew.recover {d d' : Directory} {shelf : List Snapshot} (h : Filed codec d shelf)
    {p : Snapshot} {blob : Bytes} (hnew : HasNew d d' p blob) {listed : List FileName}
    (hlisted : listed.Perm d'.names) (name : FileName) :
    (recoverIncompleteWrites d' listed).read name = (atomicWrite d (pathOf p) blob).read name := by
  obtain ⟨htp, hbp, _, htf, hbf, _, _, _, _⟩ := sides_path p
  have htmp : d.read (tmpPath (pathOf p)) = none := h.foreign htf
  have hbak : d.read (bakPath (pathOf p)) = none := h.foreign hbf
  obtain ⟨hread, hsame⟩ := hnew
  rw [recover_read (unsettled_of_new h hsame) hlisted, atomicWrite_read h]
  generalize tmpPath (pathOf p) = tmp at *
  generalize bakPath (pathOf p) = bak at *
  generalize pathOf p = path at *
  by_cases hnt : name = tmp
  · rw [if_pos (.inl hnt), hnt, if_neg htp, htmp]
  by_cases hnb : name = bak
  · rw [if_pos (.inr hnb), hnb, if_neg hbp, hbak]
  rw [if_neg (not_or.mpr ⟨hnt, hnb⟩)]
  by_cases hnp : name = path
  · rw [if_pos hnp, if_pos hnp, hnp, hread, Option.some_or]
  · rw [if_neg hnp, if_neg hnp, hsame name hnt hnb hnp]

/-! ## Two terms of one index -/

theorem place_between {p : Snapshot} {front back : List Snapshot}
    (hfront : ∀ q ∈ front, indexOf p < indexOf q) (hback : ∀ q ∈ back, indexOf q < indexOf p) :
    place indexOf p (front ++ back) = front ++ p :: back := by
  induction front with
  | nil =>
    cases back with
    | nil => rfl
    | cons q rest =>
      rw [List.nil_append, place, if_pos (hback q List.mem_cons_self)]
      rfl
  | cons r rest ih =>
    have hr : ¬indexOf r < indexOf p := not_lt.mpr (hfront r List.mem_cons_self).le
    rw [List.cons_append, place, if_neg hr, ih fun q hq => hfront q (List.mem_cons_of_mem _ hq)]
    rfl

theorem withNew_replace {p q : Snapshot} {front back : List Snapshot}
    (h : Descending indexOf (front ++ q :: back)) (hq : indexOf q = indexOf p) :
    withNew p (front ++ q :: back) = front ++ p :: back := by
  obtain ⟨_, hqback, hcross⟩ := List.pairwise_append.mp h
  have hfront : ∀ r ∈ front, indexOf p < indexOf r :=
    fun r hr => hq ▸ hcross r hr q List.mem_cons_self
  have hback : ∀ r ∈ back, indexOf r < indexOf p :=
    fun r hr => hq ▸ (List.pairwise_cons.mp hqback).1 r hr
  have hrest : (front ++ q :: back).filter (fun r => indexOf r ≠ indexOf p) = front ++ back := by
    rw [List.filter_append, List.filter_cons_of_neg (by simp [hq]), List.filter_eq_self.mpr,
      List.filter_eq_self.mpr]
    · exact fun r hr => decide_eq_true (hback r hr).ne
    · exact fun r hr => decide_eq_true (hfront r hr).ne'
  rw [withNew, hrest, place_between hfront hback]

theorem dedupe_doubled {front back : List Snapshot} {p q : Snapshot} {seen : List ℕ} (d : Directory)
    (hnodup : ((front ++ p :: back).map indexOf).Nodup) (hq : indexOf q = indexOf p)
    (hseen : ∀ r ∈ front ++ p :: back, indexOf r ∉ seen) :
    dedupe ((front ++ p :: q :: back).map Prod.fst) seen d =
      ((front ++ p :: back).map Prod.fst, d.remove (pathOf q)) := by
  induction front generalizing seen with
  | nil =>
    obtain ⟨hp, hback⟩ := List.nodup_cons.mp hnodup
    have hpseen : p.1.lastIncludedIndex ∉ seen := hseen p List.mem_cons_self
    have hqseen : q.1.lastIncludedIndex ∈ p.1.lastIncludedIndex :: seen :=
      List.mem_cons.mpr (.inl hq)
    have hrest : dedupe (back.map Prod.fst) (p.1.lastIncludedIndex :: seen) (d.remove (pathOf q)) =
        (back.map Prod.fst, d.remove (pathOf q)) := by
      refine dedupe_distinct _ ?_ ?_
      · intro m hm hmem
        obtain ⟨r, hr, rfl⟩ := List.mem_map.mp hm
        rcases List.mem_cons.mp hmem with heq | hmem
        · exact hp (List.mem_map.mpr ⟨r, hr, heq⟩)
        · exact hseen r (List.mem_cons_of_mem _ hr) hmem
      · rw [List.map_map]
        exact hback
    simp only [List.nil_append, List.map_cons, dedupe, if_neg hpseen, if_pos hqseen]
    rw [show snapshotPathFromMeta q.1 = pathOf q from rfl, hrest]
  | cons r rest ih =>
    obtain ⟨hr, hrest⟩ := List.nodup_cons.mp hnodup
    have hrseen : r.1.lastIncludedIndex ∉ seen := hseen r List.mem_cons_self
    have hnew : ∀ u ∈ rest ++ p :: back, indexOf u ∉ r.1.lastIncludedIndex :: seen := by
      intro u hu hmem
      rcases List.mem_cons.mp hmem with heq | hmem
      · exact hr (List.mem_map.mpr ⟨u, hu, heq⟩)
      · exact hseen u (List.mem_cons_of_mem _ hu) hmem
    simp only [List.cons_append, List.map_cons, dedupe, if_neg hrseen]
    rw [ih hrest hnew]

theorem doubled_pile {p q : Snapshot} {front back : List Snapshot} (hp : Kept codec p)
    (hkept : ∀ r ∈ front ++ q :: back, Kept codec r) (h : Descending indexOf (front ++ q :: back))
    (hq : indexOf q = indexOf p) (hterm : q.1.lastIncludedTerm < p.1.lastIncludedTerm) :
    Pile codec (front ++ p :: q :: back) := by
  obtain ⟨hfront, hqback, hcross⟩ := List.pairwise_append.mp h
  have hqb := (List.pairwise_cons.mp hqback).1
  have hlt {a b : Snapshot} (hab : indexOf b < indexOf a) : keyLt (keyOf b.1) (keyOf a.1) =
      true := by
    rw [keyLt, decide_eq_true_iff]
    exact .inl hab
  constructor
  · intro r hr
    rcases List.mem_append.mp hr with hr | hr
    · exact hkept r (List.mem_append_left _ hr)
    · rcases List.mem_cons.mp hr with rfl | hr
      · exact hp
      · exact hkept r (List.mem_append_right _ hr)
  · refine List.pairwise_append.mpr ⟨hfront.imp hlt, List.pairwise_cons.mpr ⟨?_, hqback.imp hlt⟩,
      ?_⟩
    · intro r hr
      rcases List.mem_cons.mp hr with rfl | hr
      · rw [keyLt, decide_eq_true_iff]
        exact .inr ⟨hq, hterm⟩
      · exact hlt (hq ▸ hqb r hr)
    · intro r hr u hu
      rcases List.mem_cons.mp hu with rfl | hu
      · exact hlt (hq ▸ hcross r hr q List.mem_cons_self)
      · exact hlt (hcross r hr u hu)

/-- What a completed write can leave: one snapshot for each index, or the new one beside an older
term of its index. -/
theorem written_files {d d' : Directory} {shelf : List Snapshot} (h : Filed codec d shelf)
    (hkept : ∀ q ∈ shelf, Kept codec q) (hdesc : Descending indexOf shelf) {p : Snapshot}
    (hp : Kept codec p)
    (hterms : ∀ q ∈ shelf, indexOf q = indexOf p → q.1.lastIncludedTerm ≤ p.1.lastIncludedTerm)
    (hread : ∀ name, d'.read name = (atomicWrite d (pathOf p) (content codec p)).read name) :
    Filed codec d' (withNew p shelf) ∨
      ∃ front q back, shelf = front ++ q :: back ∧ indexOf q = indexOf p ∧
        q.1.lastIncludedTerm < p.1.lastIncludedTerm ∧ Filed codec d' (front ++ p :: q :: back) := by
  by_cases hstale : ∃ q ∈ shelf, indexOf q = indexOf p ∧ pathOf q ≠ pathOf p
  · obtain ⟨q, hq, hi, hpath⟩ := hstale
    obtain ⟨front, back, rfl⟩ := List.append_of_mem hq
    have hterm : q.1.lastIncludedTerm ≠ p.1.lastIncludedTerm := by
      intro heq
      refine hpath ?_
      rw [pathOf, pathOf, snapshotPathFromMeta, snapshotPathFromMeta, heq,
        show q.1.lastIncludedIndex = p.1.lastIncludedIndex from hi]
    refine .inr ⟨front, q, back, rfl, hi, lt_of_le_of_ne (hterms q hq hi) hterm, ?_⟩
    have hmem (r : Snapshot) : r ∈ front ++ p :: q :: back ↔ r = p ∨ r ∈ front ++ q :: back := by
      rw [List.mem_append, List.mem_cons, List.mem_append]
      exact or_left_comm
    -- no other snapshot has the name of the new one
    have hfree : ∀ r ∈ front ++ q :: back, pathOf r ≠ pathOf p := by
      intro r hr heq
      have hri := path_inj (hkept r hr) hp heq
      have hrq := List.inj_on_of_nodup_map hdesc.nodup hr hq (hri.trans hi.symm)
      rw [hrq] at heq
      exact hpath heq
    constructor
    · intro r hr
      rw [hread, atomicWrite_read h]
      rcases (hmem r).mp hr with rfl | hr
      · rw [if_pos rfl]
      · rw [if_neg (hfree r hr), h.present r hr]
    · intro name hname
      have hnew : name ≠ pathOf p := fun heq => hname p ((hmem p).mpr (.inl rfl)) heq.symm
      rw [hread, atomicWrite_read h, if_neg hnew]
      exact h.absent name fun r hr => hname r ((hmem r).mpr (.inr hr))
  · left
    push Not at hstale
    have hnone : ∀ name, name ∈ ([] : List FileName) ↔
        name ≠ pathOf p ∧ ∃ q ∈ shelf, indexOf q = indexOf p ∧ pathOf q = name := by
      intro name
      simp only [List.not_mem_nil, false_iff, not_and]
      rintro hne ⟨q, hq, hi, hname⟩
      rw [← hname] at hne
      exact hne (hstale q hq hi)
    exact Filed.congr (h.save hkept hp hnone) hread

/-! ## Reopening -/

theorem open_doubled {d : Directory} {p q : Snapshot} {front back : List Snapshot}
    (hp : Kept codec p) (hkept : ∀ r ∈ front ++ q :: back, Kept codec r)
    (h : Descending indexOf (front ++ q :: back)) (hq : indexOf q = indexOf p)
    (hterm : q.1.lastIncludedTerm < p.1.lastIncludedTerm) {listed relisted : List FileName} {n : ℕ}
    (hfiled : Filed codec (recoverIncompleteWrites d listed) (front ++ p :: q :: back))
    (hrelisted : relisted.Perm (recoverIncompleteWrites d listed).names) :
    ∃ r, openWithRetention codec d n listed relisted = .ok r ∧
      Shelved codec r (retained n (front ++ p :: back)) := by
  have hpile := doubled_pile hp hkept h hq hterm
  have hdesc : Descending indexOf (front ++ p :: back) := by
    rw [← withNew_replace h hq]
    exact withNew_descending h
  have hbuilt := hpile.rebuild hfiled n hrelisted
  rw [dedupe_doubled _ hdesc.nodup hq fun _ _ => List.not_mem_nil] at hbuilt
  have hrest : ∀ r, r ∈ front ++ p :: back ↔
      r ∈ front ++ p :: q :: back ∧ pathOf r ≠ pathOf q := by
    have hpaths := hpile.paths_nodup
    intro r
    constructor
    · intro hr
      have hmem : r ∈ front ++ p :: q :: back := by
        rcases List.mem_append.mp hr with hr | hr
        · exact List.mem_append_left _ hr
        · refine List.mem_append_right _ ?_
          rcases List.mem_cons.mp hr with rfl | hr
          · exact List.mem_cons_self
          · exact List.mem_cons_of_mem _ (List.mem_cons_of_mem _ hr)
      refine ⟨hmem, fun heq => ?_⟩
      have hqmem : q ∈ front ++ p :: q :: back :=
        List.mem_append_right _ (List.mem_cons_of_mem _ List.mem_cons_self)
      have hrq : r = q := List.inj_on_of_nodup_map hpaths hmem hqmem heq
      have hpmem : p ∈ front ++ p :: back := List.mem_append_right _ List.mem_cons_self
      have hrp : r = p := List.inj_on_of_nodup_map hdesc.nodup hr hpmem (hrq ▸ hq)
      rw [← hrp, hrq] at hterm
      exact lt_irrefl _ hterm
    · rintro ⟨hr, hne⟩
      rcases List.mem_append.mp hr with hr | hr
      · exact List.mem_append_left _ hr
      · refine List.mem_append_right _ ?_
        rcases List.mem_cons.mp hr with rfl | hr
        · exact List.mem_cons_self
        · rcases List.mem_cons.mp hr with heq | hr
          · rw [heq] at hne
            exact absurd rfl hne
          · exact List.mem_cons_of_mem _ hr
  have hopened : Shelved codec ⟨(recoverIncompleteWrites d listed).remove (pathOf q),
      (front ++ p :: back).map Prod.fst, n⟩ (front ++ p :: back) := by
    refine ⟨fun r hr => hpile.kept r ((hrest r).mp hr).1, hdesc, rfl, hfiled.remove hrest⟩
  refine ⟨_, ?_, hopened.prune.1⟩
  rw [openWithRetention, hbuilt]
  rfl

theorem mem_scanl {α β : Type*} {f : β → α → β} {b x : β} {l : List α} (h : x ∈ l.scanl f b) :
    ∃ done, done <+: l ∧ x = done.foldl f b := by
  induction l generalizing b with
  | nil => exact ⟨[], List.nil_prefix, List.mem_singleton.mp h⟩
  | cons a rest ih =>
    rw [List.scanl_cons, List.mem_cons] at h
    rcases h with rfl | h
    · exact ⟨[], List.nil_prefix, rfl⟩
    · obtain ⟨done, hdone, hx⟩ := ih h
      exact ⟨a :: done, List.cons_prefix_cons.mpr ⟨rfl, hdone⟩, hx⟩

theorem scanl_remove {names : List FileName} (hsame : ∀ a ∈ names, ∀ b ∈ names, a = b)
    {d d' : Directory} (h : d' ∈ names.scanl Directory.remove d) :
    d' = d ∨ ∀ name, d'.read name = (names.foldl Directory.remove d).read name := by
  obtain ⟨done, hdone, rfl⟩ := mem_scanl h
  cases done with
  | nil => exact .inl rfl
  | cons first rest =>
    right
    intro name
    have hiff : name ∈ first :: rest ↔ name ∈ names := by
      refine ⟨fun hmem => hdone.subset hmem, fun hmem => ?_⟩
      exact hsame name hmem first (hdone.subset List.mem_cons_self) ▸ List.mem_cons_self
    rw [removeAll_read, removeAll_read]
    simp only [hiff]

theorem pruneLoopSteps_filed {fuel : ℕ} {s : FileSnapshotStore} {shelf : List Snapshot}
    (h : Shelved codec s shelf) {d : Directory} (hd : d ∈ pruneLoopSteps fuel s) :
    ∃ left, left <+: shelf ∧ left.take s.maxRetained = shelf.take s.maxRetained ∧
      Filed codec d left := by
  induction fuel generalizing s shelf with
  | zero =>
    cases List.mem_singleton.mp hd
    exact ⟨shelf, List.prefix_rfl, rfl, h.filed⟩
  | succ fuel ih =>
    rw [pruneLoopSteps, List.mem_cons] at hd
    rcases hd with rfl | hd
    · exact ⟨shelf, List.prefix_rfl, rfl, h.filed⟩
    · have hlen : s.index.length = shelf.length := by rw [h.index, List.length_map]
      rw [hlen] at hd
      split_ifs at hd with hmany
      · obtain ⟨front, p, rfl⟩ : ∃ front p, shelf = front ++ [p] :=
          (List.eq_nil_or_concat' shelf).resolve_left (List.ne_nil_of_length_pos (by omega))
        rw [h.last] at hd
        obtain ⟨left, hleft, htake, hfiled⟩ := ih h.dropOldest hd
        rw [List.length_append, List.length_singleton] at hmany
        refine ⟨left, hleft.trans (List.prefix_append _ _), ?_, hfiled⟩
        rw [List.take_append_of_le_length (by omega)]
        exact htake
      · exact absurd hd List.not_mem_nil

theorem pruneSteps_filed {s : FileSnapshotStore} {shelf : List Snapshot} (h : Shelved codec s shelf)
    {d : Directory} (hd : d ∈ pruneSteps s) :
    ∃ left, left <+: shelf ∧ retained s.maxRetained left = retained s.maxRetained shelf ∧
      Filed codec d left := by
  unfold pruneSteps at hd
  unfold retained
  split_ifs at hd ⊢ with hmax
  · cases List.mem_singleton.mp hd
    exact ⟨shelf, List.prefix_rfl, rfl, h.filed⟩
  · exact pruneLoopSteps_filed h hd

theorem Filed.recover {d : Directory} {shelf : List Snapshot} (h : Filed codec d shelf)
    {listed : List FileName} (hlisted : listed.Perm d.names) :
    recoverIncompleteWrites d listed = d := by
  refine recover_snapshots shelf fun name hname => ?_
  obtain ⟨bytes, hbytes⟩ := Option.isSome_iff_exists.mp (mem_names.mp (hlisted.subset hname))
  exact h.name hbytes

theorem saveSnapshot_accepted {s s' : FileSnapshotStore} {shelf : List Snapshot}
    (h : Shelved codec s shelf) {metadata : StoredMeta} {data : Bytes}
    (hw : codec.Writable metadata data) (hsave : s.saveSnapshot codec metadata data = .ok s') :
    let p : Snapshot := (codec.normalize metadata data, data)
    let written := atomicWrite s.dir (pathOf p) (content codec p)
    let stalePaths := ((s.index.filter (fun m => m.lastIncludedIndex = p.1.lastIncludedIndex)).map
      snapshotPathFromMeta).filter (fun old => old ≠ pathOf p)
    let saved : FileSnapshotStore := { s with
      dir := stalePaths.foldl Directory.remove written
      index := insertNewest p.1
        (s.index.filter (fun m => m.lastIncludedIndex ≠ p.1.lastIncludedIndex)) }
    (∀ q ∈ shelf, indexOf q = indexOf p → q.1.lastIncludedTerm ≤ p.1.lastIncludedTerm) ∧
      s' = saved.prune ∧
      saveSteps codec s metadata data = atomicWriteSteps s.dir (pathOf p) (content codec p) ++
        stalePaths.scanl Directory.remove written ++ pruneSteps saved := by
  have hencode : codec.encodeSnapshot (codec.normalize metadata data) data =
      .ok (content codec (codec.normalize metadata data, data)) :=
    SnapshotCodec.encodeSnapshot_eq (Kept.of_save hw).writable
  intro p written stalePaths saved
  unfold saveSnapshot at hsave
  unfold saveSteps
  dsimp only at hsave ⊢
  rw [hencode]
  simp only [hencode] at hsave
  split_ifs at hsave
  split at hsave
  · cases hsave
  · rename_i hlower
    refine ⟨fun q hq hi => ?_, (Except.ok.inj hsave).symm, rfl⟩
    by_contra hlt
    have hfind : s.index.find? (fun m => m.lastIncludedIndex = metadata.lastIncludedIndex) =
        some q.1 := by
      have hfound : shelf.find? (fun r => indexOf r = indexOf q) = some q :=
        find?_eq_some_of_nodup h.distinct.nodup hq
      rw [hi] at hfound
      rw [h.index, List.find?_map]
      exact congrArg (Option.map Prod.fst) hfound
    rw [hfind] at hlower
    simp [Option.filter, show metadata.lastIncludedTerm < q.1.lastIncludedTerm from not_le.mp hlt]
      at hlower

theorem stale_same {s : FileSnapshotStore} {shelf : List Snapshot} (h : Shelved codec s shelf)
    {index : ℕ} {path : FileName} :
    ∀ a ∈ ((s.index.filter (fun m => m.lastIncludedIndex = index)).map snapshotPathFromMeta).filter
        (fun old => old ≠ path),
      ∀ b ∈ ((s.index.filter (fun m =>
        m.lastIncludedIndex = index)).map snapshotPathFromMeta).filter
        (fun old => old ≠ path), a = b := by
  have hstale {a : FileName} (ha : a ∈ ((s.index.filter
      (fun m => m.lastIncludedIndex = index)).map snapshotPathFromMeta).filter
        (fun old => old ≠ path)) : ∃ q ∈ shelf, indexOf q = index ∧ pathOf q = a := by
    obtain ⟨m, hm, hpath⟩ := List.mem_map.mp (List.mem_filter.mp ha).1
    obtain ⟨hmem, hi⟩ := List.mem_filter.mp hm
    rw [h.index] at hmem
    obtain ⟨q, hq, rfl⟩ := List.mem_map.mp hmem
    exact ⟨q, hq, of_decide_eq_true hi, hpath⟩
  intro a ha b hb
  obtain ⟨q, hq, hqi, hqa⟩ := hstale ha
  obtain ⟨r, hr, hri, hrb⟩ := hstale hb
  rw [← hqa, ← hrb, List.inj_on_of_nodup_map h.descending.nodup hq hr (hqi.trans hri.symm)]

/-- Whatever directory a crash leaves, reopening finds the shelf from before the save or the one
behind it. -/
theorem reopen_after_crash {s s' : FileSnapshotStore} {shelf : List Snapshot}
    (h : Shelved codec s shelf) (hretained : retained s.maxRetained shelf = shelf)
    {metadata : StoredMeta} {data : Bytes} (hw : codec.Writable metadata data)
    (hsave : s.saveSnapshot codec metadata data = .ok s') {d : Directory}
    (hd : d ∈ saveSteps codec s metadata data) {listed relisted : List FileName}
    (hlisted : listed.Perm d.names)
    (hrelisted : relisted.Perm (recoverIncompleteWrites d listed).names) :
    ∃ r, openWithRetention codec d s.maxRetained listed relisted = .ok r ∧
      (Shelved codec r shelf ∨ Shelved codec r
        (retained s.maxRetained (withNew (codec.normalize metadata data, data) shelf))) := by
  obtain ⟨hterms, _, hsteps⟩ := saveSnapshot_accepted h hw hsave
  have hp : Kept codec (codec.normalize metadata data, data) := Kept.of_save hw
  have hwrite := h.write hp
  generalize ((codec.normalize metadata data, data) : Snapshot) = p at *
  have hnewkept : ∀ q ∈ withNew p shelf, Kept codec q := hwrite.kept
  have hnewdesc := withNew_descending (p := p) h.descending
  -- the files of some of the new shelf, with enough left for the retention
  have hafter {left : List Snapshot} (hleft : left <+: withNew p shelf)
      (heq : retained s.maxRetained left = retained s.maxRetained (withNew p shelf))
      (hfiled : Filed codec (recoverIncompleteWrites d listed) left) :
      ∃ r, openWithRetention codec d s.maxRetained listed relisted = .ok r ∧
        (Shelved codec r shelf ∨ Shelved codec r (retained s.maxRetained (withNew p shelf))) := by
    obtain ⟨r, hopen, hr, _⟩ := open_shelf (n := s.maxRetained)
      (fun q hq => hnewkept q (hleft.subset hq)) (List.Pairwise.sublist hleft.sublist hnewdesc)
      hfiled hrelisted
    exact ⟨r, hopen, .inr (heq ▸ hr)⟩
  -- the write is complete, whether or not an older term is still there
  have hwritten (hread : ∀ name, (recoverIncompleteWrites d listed).read name =
      (atomicWrite s.dir (pathOf p) (content codec p)).read name) :
      ∃ r, openWithRetention codec d s.maxRetained listed relisted = .ok r ∧
        (Shelved codec r shelf ∨ Shelved codec r (retained s.maxRetained (withNew p shelf))) := by
    rcases written_files h.filed h.kept h.descending hp hterms hread with hfiled |
      ⟨front, q, back, rfl, hq, hterm, hfiled⟩
    · exact hafter List.prefix_rfl rfl hfiled
    · obtain ⟨r, hopen, hr⟩ := open_doubled (n := s.maxRetained) hp h.kept h.descending hq hterm
        hfiled hrelisted
      exact ⟨r, hopen, .inr (by rw [withNew_replace h.descending hq]; exact hr)⟩
  rw [hsteps, List.mem_append, List.mem_append] at hd
  rcases hd with (hd | hd) | hd
  · rcases atomicWriteSteps_cases h.filed hd with hold | hnew
    · obtain ⟨r, hopen, hr, _⟩ := open_shelf (n := s.maxRetained) h.kept h.descending
        (hold.recover h.filed hlisted) hrelisted
      exact ⟨r, hopen, .inl (hretained ▸ hr)⟩
    · exact hwritten (hnew.recover h.filed hlisted)
  · rcases scanl_remove (stale_same h) hd with rfl | hread
    · have hrecover : recoverIncompleteWrites (atomicWrite s.dir (pathOf p) (content codec p))
        listed =
          atomicWrite s.dir (pathOf p) (content codec p) := by
        rcases written_files h.filed h.kept h.descending hp hterms (fun _ => rfl) with hfiled |
          ⟨_, _, _, _, _, _, hfiled⟩
        · exact Filed.recover hfiled hlisted
        · exact Filed.recover hfiled hlisted
      exact hwritten fun name => by rw [hrecover]
    · have hfiled : Filed codec d (withNew p shelf) := Filed.congr hwrite.filed hread
      refine hafter List.prefix_rfl rfl ?_
      rw [Filed.recover hfiled hlisted]
      exact hfiled
  · obtain ⟨left, hleft, heq, hfiled⟩ := pruneSteps_filed hwrite hd
    refine hafter hleft heq ?_
    rw [Filed.recover hfiled hlisted]
    exact hfiled

/-! ## The theorem -/

def Same (codec : SnapshotCodec) (a b : FileSnapshotStore) : Prop :=
  a.listSnapshots = b.listSnapshots ∧ contents codec a = contents codec b

theorem Shelved.same {a b : FileSnapshotStore} {shelf : List Snapshot} (ha : Shelved codec a shelf)
    (hb : Shelved codec b shelf) : Same codec a b :=
  ⟨ha.index.trans hb.index.symm, ha.contents.trans hb.contents.symm⟩

theorem head_retained (p : Snapshot) (rest : List Snapshot) (n : ℕ) :
    p ∈ retained n (p :: rest) := by
  unfold retained
  split_ifs with hzero
  · exact List.mem_cons_self
  · obtain ⟨k, rfl⟩ := Nat.exists_eq_succ_of_ne_zero hzero
    simp

/-- The newest snapshot of a shelf is retained beside a new one, unless the new one has its index or
only one snapshot is retained and the new one is newer. -/
theorem retained_newest {p newest : Snapshot} {rest : List Snapshot} {n : ℕ} :
    newest ∈ retained n (withNew p (newest :: rest)) ∨ indexOf newest = indexOf p ∨
      (n = 1 ∧ indexOf newest < indexOf p) := by
  rcases lt_trichotomy (indexOf newest) (indexOf p) with hlt | heq | hgt
  · by_cases hone : n = 1
    · exact .inr (.inr ⟨hone, hlt⟩)
    · left
      have hshelf : withNew p (newest :: rest) = p :: (newest :: rest).filter
          (fun q => indexOf q ≠ indexOf p) := by
        rw [withNew, List.filter_cons_of_pos (by simpa using hlt.ne), place, if_pos hlt]
      rw [hshelf, List.filter_cons_of_pos (by simpa using hlt.ne)]
      unfold retained
      split_ifs with hzero
      · simp
      · obtain ⟨k, rfl⟩ : ∃ k, n = k + 2 := ⟨n - 2, by omega⟩
        simp
  · exact .inr (.inl heq)
  · left
    have hshelf : withNew p (newest :: rest) = newest :: place indexOf p
        (rest.filter (fun q => indexOf q ≠ indexOf p)) := by
      rw [withNew, List.filter_cons_of_pos (by simpa using hgt.ne'), place,
        if_neg (not_lt.mpr hgt.le)]
    rw [hshelf]
    exact head_retained _ _ n

theorem retained_new {p newest : Snapshot} {rest : List Snapshot} {n : ℕ}
    (h : Descending indexOf (newest :: rest)) (hle : indexOf newest ≤ indexOf p) :
    p ∈ retained n (withNew p (newest :: rest)) := by
  have hall : ∀ q ∈ (newest :: rest).filter (fun q => indexOf q ≠ indexOf p),
      indexOf q < indexOf p := by
    intro q hq
    obtain ⟨hmem, hne⟩ := List.mem_filter.mp hq
    refine lt_of_le_of_ne ?_ (of_decide_eq_true hne)
    rcases List.mem_cons.mp hmem with rfl | hmem
    · exact hle
    · exact ((List.pairwise_cons.mp h).1 q hmem).le.trans hle
  have hshelf : withNew p (newest :: rest) =
      p :: (newest :: rest).filter (fun q => indexOf q ≠ indexOf p) :=
    @place_between p [] _ (fun q hq => absurd hq List.not_mem_nil) hall
  rw [hshelf]
  exact head_retained _ _ n

/-- For every store reached by completed operations and every accepted save, whatever directory a
crash between two file operations leaves: reopening succeeds, and listing and payloads are those
from before the save or those behind it. The newest earlier snapshot is still there, unless the new
one has taken its index, or one snapshot is retained and the new one, which is there, is newer. -/
theorem save_survives_crash (codec : SnapshotCodec) (path : String) (maxRetained : ℕ) {t : Trio}
    (h : Execution (Trio.step codec) (Valid codec) (Trio.start path maxRetained) t)
    {metadata : StoredMeta} {data : Bytes} (hw : codec.Writable metadata data)
    {s' : FileSnapshotStore} (hsave : t.file.saveSnapshot codec metadata data = .ok s') :
    (saveSteps codec t.file metadata data).getLast? = some s'.dir ∧
    ∀ d ∈ saveSteps codec t.file metadata data, ∀ listed relisted : List FileName,
      listed.Perm d.names → relisted.Perm (recoverIncompleteWrites d listed).names →
      ∃ r, openWithRetention codec d maxRetained listed relisted = .ok r ∧
        (Same codec r t.file ∨ Same codec r s') ∧
        ∀ newest, t.file.loadLatestSnapshot codec = .ok (some newest) →
          contents codec r (indexOf newest) = some newest ∨
          (contents codec r metadata.lastIncludedIndex =
            some (codec.normalize metadata data, data) ∧
              (indexOf newest = metadata.lastIncludedIndex ∨
                (maxRetained = 1 ∧ indexOf newest < metadata.lastIncludedIndex))) := by
  have hin : InStep codec maxRetained t :=
    h.invariant (fun _ _ hs hop => hs.step hop) (InStep.start path maxRetained)
  obtain ⟨shelf, hs, rfl, hretained, hmap⟩ := hin.represents
  have hlatest := hin.represents.latest
  rw [← hmap, hs.descending.latest] at hlatest
  refine ⟨saveSteps_last hsave, fun d hd listed relisted hlisted hrelisted => ?_⟩
  obtain ⟨r, hopen, hshelved⟩ := reopen_after_crash hs hretained hw hsave hd hlisted hrelisted
  obtain ⟨_, rfl, _⟩ := saveSnapshot_accepted hs hw hsave
  have hsaved := (hs.write (Kept.of_save hw)).prune.1
  refine ⟨r, hopen, hshelved.imp (fun hr => Shelved.same hr hs) fun hr => Shelved.same hr hsaved,
    ?_⟩
  intro newest hnewest
  rw [hlatest] at hnewest
  have hhead : shelf.head? = some newest := Except.ok.inj hnewest
  obtain ⟨rest, rfl⟩ : ∃ rest, shelf = newest :: rest :=
    ⟨shelf.tail, (List.cons_head?_tail hhead).symm⟩
  have hfound {kept : List Snapshot} {q : Snapshot} (hr : Shelved codec r kept) (hq : q ∈ kept) :
      contents codec r (indexOf q) = some q := by
    rw [hr.contents]
    exact (shelved_lookup_iff hr.descending.nodup).mpr ⟨hq, rfl⟩
  rcases hshelved with hr | hr
  · exact .inl (hfound hr List.mem_cons_self)
  · rcases retained_newest (n := t.file.maxRetained) with hmem | heq | ⟨hone, hlt⟩
    · exact .inl (hfound hr hmem)
    · exact .inr ⟨hfound hr (retained_new hs.descending heq.le), .inl heq⟩
    · exact .inr ⟨hfound hr (retained_new hs.descending hlt.le), .inr ⟨hone, hlt⟩⟩

def holdsSeventh : Trio :=
  replay (Trio.step sampleSnapshotCodec) (Trio.start "data" 1) [.save threeBytes [1, 2, 3]]

theorem holdsSeventh_reached : Execution (Trio.step sampleSnapshotCodec) (Valid sampleSnapshotCodec)
    (Trio.start "data" 1) holdsSeventh := replay_execution ⟨threeBytes_writable, trivial⟩

theorem save_survives_crash_second :
    ∃ s', holdsSeventh.file.saveSnapshot sampleSnapshotCodec fourBytes [4, 5, 6, 7] = .ok s' ∧
      ∀ d ∈ saveSteps sampleSnapshotCodec holdsSeventh.file fourBytes [4, 5, 6, 7],
        ∃ r, openWithRetention sampleSnapshotCodec d 1 d.names
            (recoverIncompleteWrites d d.names).names = .ok r ∧
          (Same sampleSnapshotCodec r holdsSeventh.file ∨ Same sampleSnapshotCodec r s') := by
  have hok : (holdsSeventh.file.saveSnapshot sampleSnapshotCodec fourBytes
      [4, 5, 6, 7]).toOption.isSome = true := by decide +kernel
  cases hsave : holdsSeventh.file.saveSnapshot sampleSnapshotCodec fourBytes [4, 5, 6, 7] with
  | error e =>
    rw [hsave] at hok
    cases hok
  | ok s' =>
    refine ⟨s', rfl, fun d hd => ?_⟩
    obtain ⟨r, hopen, hsame, _⟩ := (save_survives_crash sampleSnapshotCodec "data" 1
      holdsSeventh_reached ⟨by decide, by decide, by decide, by decide⟩ hsave).2 d hd d.names _
      (List.Perm.refl _) (List.Perm.refl _)
    exact ⟨r, hopen, hsame⟩

/-- The newest snapshot before a save is gone after it, though the new one has another index: one
snapshot is retained. -/
theorem retention_drops_newest :
    (holdsSeventh.file.loadLatestSnapshot sampleSnapshotCodec).toOption.map
        (Option.map indexOf) = some (some 7) ∧
    ∃ d ∈ saveSteps sampleSnapshotCodec holdsSeventh.file fourBytes [4, 5, 6, 7],
      ∃ r, openWithRetention sampleSnapshotCodec d 1 d.names
          (recoverIncompleteWrites d d.names).names = .ok r ∧
        fourBytes.lastIncludedIndex = 9 ∧ contents sampleSnapshotCodec r 7 = none := by
  refine ⟨by decide +kernel, ?_⟩
  have hgone : (holdsSeventh.file.saveSnapshot sampleSnapshotCodec fourBytes
      [4, 5, 6, 7]).toOption.map (fun s => contents sampleSnapshotCodec s 7) = some none := by
    decide +kernel
  have hin : InStep sampleSnapshotCodec 1 holdsSeventh :=
    holdsSeventh_reached.invariant (fun _ _ hs hop => hs.step hop) (InStep.start "data" 1)
  have hwritable : sampleSnapshotCodec.Writable fourBytes [4, 5, 6, 7] :=
    ⟨by decide, by decide, by decide, by decide⟩
  have halike := hin.represents.save hwritable
  cases hsave : holdsSeventh.file.saveSnapshot sampleSnapshotCodec fourBytes [4, 5, 6, 7] with
  | error e =>
    rw [hsave] at hgone
    cases hgone
  | ok s' =>
    rw [hsave] at halike hgone
    cases hmap : saveTo sampleSnapshotCodec 1 holdsSeventh.model fourBytes [4, 5, 6, 7] with
    | error e =>
      rw [hmap] at halike
      cases halike
    | ok m =>
      rw [hmap] at halike
      have hrep : Represents sampleSnapshotCodec 1 s' m := halike
      obtain ⟨r, hopen, hr⟩ := hrep.reopen (List.Perm.refl _) (List.Perm.refl _)
      refine ⟨s'.dir, List.mem_of_getLast? (saveSteps_last hsave), r, hopen, rfl, ?_⟩
      rw [hr.contents, ← hrep.contents]
      exact Option.some.inj hgone

end SnapshotCrashes
