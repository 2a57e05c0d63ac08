import Xraft.SampleCodecs

/-! # The quorum-state file

`FileHardStateStore`: hard state and voter set share one JSON file, which a temporary file replaces.
The JSON form of the record comes from outside the sources and is a parameter. Locks cannot be
poisoned here, and encoding cannot fail.
-/
namespace QuorumStateFile

open ProtocolTypes WriteAheadLog SampleCodecs
open WriteAheadLog.FileLogStore (asBytes readToString readToString_asBytes)

structure OnDiskQuorumState where
  currentTerm : ℕ
  votedFor : Option NodeId
  voterSet : Option VoterSet
  commitIndex : ℕ
  deriving DecidableEq

structure CachedQuorumState where
  hardState : Option HardState := none
  voterSet : Option VoterSet := none
  hardStatePersisted : Bool := false
  deriving DecidableEq

def OnDiskQuorumState.fromCached (cached : CachedQuorumState) : OnDiskQuorumState where
  currentTerm := (cached.hardState.map HardState.currentTerm).getD 0
  votedFor := cached.hardState.bind HardState.votedFor
  voterSet := cached.voterSet
  commitIndex := (cached.hardState.map HardState.commitIndex).getD 0

/-- Default numbers are taken for a hard state that was never persisted. -/
def CachedQuorumState.ofDisk (d : OnDiskQuorumState) : CachedQuorumState :=
  let persisted := d.votedFor.isSome || decide (0 < d.currentTerm) || decide (0 < d.commitIndex)
  { hardState := if persisted then some ⟨d.currentTerm, d.votedFor, d.commitIndex⟩ else none
    voterSet := d.voterSet
    hardStatePersisted := persisted }

structure QuorumJson where
  encode : OnDiskQuorumState → List Char
  decode : List Char → Except String OnDiskQuorumState
  roundTrip : ∀ d, decode (encode d) = .ok d

/-! The text that `serde_json::to_string_pretty` gives, line by line. -/

abbrev Lines := List (List Char)

def jsonItems : List Lines → Lines
  | [] => []
  | [item] => item
  | item :: rest => item.dropLast ++ [item.getLastD [] ++ [',']] ++ jsonItems rest

def jsonBlock (opening closing : Char) (items : List Lines) : Lines :=
  if items = [] then [[opening, closing]]
  else [opening] :: (jsonItems items).map ([' ', ' '] ++ ·) ++ [[closing]]

def jsonText (text : List Char) : List Char := '\x22' :: text ++ ['\x22']

def jsonObject (fields : List (List Char × Lines)) : Lines :=
  jsonBlock '\x7b' '\x7d' (fields.map (fun f =>
    (jsonText f.1 ++ [':', ' '] ++ f.2.headD []) :: f.2.tail))

def jsonNumber (n : ℕ) : Lines := [Nat.toDigits 10 n]

def jsonOption {α : Type} (value : α → Lines) : Option α → Lines
  | none => ["null".toList]
  | some a => value a

def jsonRecord (v : VoterRecord) : Lines :=
  jsonObject [("node_id".toList, jsonNumber v.nodeId),
    ("directory_id".toList, [jsonText (HyphenatedUuid.hyphenated v.directoryId)]),
    ("endpoints".toList, jsonBlock '[' ']' (v.endpoints.map (fun e => jsonObject
      [("host".toList, [jsonText e.host.toList]), ("port".toList, jsonNumber e.port)])))]

def jsonQuorumState (d : OnDiskQuorumState) : List Char :=
  ['\n'].intercalate (jsonObject [("current_term".toList, jsonNumber d.currentTerm),
    ("voted_for".toList, jsonOption jsonNumber d.votedFor),
    ("voter_set".toList, jsonOption (fun vs => jsonObject
      [("voters".toList, jsonBlock '[' ']' (vs.voters.map jsonRecord))]) d.voterSet),
    ("commit_index".toList, jsonNumber d.commitIndex)])

instance : Encodable OnDiskQuorumState :=
  Encodable.ofLeftInverse
    (fun d => (d.currentTerm, d.votedFor, d.voterSet, d.commitIndex))
    (fun (t, v, vs, c) => ⟨t, v, vs, c⟩) (fun _ => rfl)

def sampleStates : List OnDiskQuorumState :=
  [⟨1, some 2, none, 0⟩, ⟨1, some 2, some soloVoters, 0⟩, ⟨2, some 3, none, 0⟩,
    ⟨0, none, some soloVoters, 0⟩]

def sampleJson : QuorumJson where
  encode := encodeSample jsonQuorumState sampleStates '1'
  decode text :=
    match decodeSample jsonQuorumState sampleStates text with
    | some d => .ok d
    | none => .error "expected value at line 1 column 1"
  roundTrip d := by
    rw [decode_encodeSample]
    · decide +kernel
    · decide +kernel

def stateFile : FileName := "quorum-state".toList

def tmpFile : FileName := "quorum-state.tmp".toList

structure FileHardStateStore where
  dir : Directory
  cached : CachedQuorumState

/-- `FileHardStateStore::open`. A temporary file left behind is removed first, also when the state
file turns out to be unreadable. -/
def FileHardStateStore.openAt (json : QuorumJson) (dir : Directory) :
    Except XRaftError FileHardStateStore :=
  let cleaned := dir.remove tmpFile
  match cleaned.read stateFile with
  | none => .ok ⟨cleaned, {}⟩
  | some raw =>
    match readToString raw with
    | none => .error (.storage ("read hard-state file '" ++ dir.display stateFile ++
        "': stream did not contain valid UTF-8"))
    | some text =>
      match json.decode text with
      | .error e =>
        .error (.storage ("deserialise hard-state '" ++ dir.display stateFile ++ "': " ++ e))
      | .ok d => .ok ⟨cleaned, .ofDisk d⟩

/-- The call of `atomic_write` that fails, or at which the process dies. -/
inductive WriteStage
  | openTmp
  | writeTmp (written : ℕ)
  | syncTmp
  | rename
  | openDir
  | syncDir
  deriving DecidableEq

def WriteStage.message (dir : Directory) : WriteStage → String
  | .openTmp => "open tmp hard-state '" ++ dir.display tmpFile ++ "': "
  | .writeTmp _ => "write tmp hard-state '" ++ dir.display tmpFile ++ "': "
  | .syncTmp => "fsync tmp hard-state '" ++ dir.display tmpFile ++ "': "
  | .rename => "rename '" ++ dir.display tmpFile ++ "' -> '" ++ dir.display stateFile ++ "': "
  | .openDir => "open dir for fsync '" ++ dir.path ++ "': "
  | .syncDir => "fsync dir '" ++ dir.path ++ "': "

def WriteStage.leaves (dir : Directory) (bytes : Bytes) : WriteStage → Directory
  | .openTmp => dir
  | .writeTmp written => dir.write tmpFile (bytes.take written)
  | .syncTmp | .rename => dir.write tmpFile bytes
  | .openDir | .syncDir => (dir.write tmpFile bytes).rename tmpFile stateFile

def WriteStage.replaced : WriteStage → Bool
  | .openDir | .syncDir => true
  | _ => false

def encodeCached (json : QuorumJson) (cached : CachedQuorumState) : Bytes :=
  asBytes (json.encode (.fromCached cached))

def atomicWrite (json : QuorumJson) (dir : Directory) (cached : CachedQuorumState)
    (fault : Option (WriteStage × String)) : Directory × Except XRaftError Unit :=
  let bytes := encodeCached json cached
  match fault with
  | none => ((dir.write tmpFile bytes).rename tmpFile stateFile, .ok ())
  | some (stage, e) => (stage.leaves dir bytes, .error (.storage (stage.message dir ++ e)))

def FileHardStateStore.replace (json : QuorumJson) (s : FileHardStateStore)
    (next : CachedQuorumState) (fault : Option (WriteStage × String)) :
    FileHardStateStore × Except XRaftError Unit :=
  match atomicWrite json s.dir next fault with
  | (dir, .ok ()) => (⟨dir, next⟩, .ok ())
  | (dir, .error e) => (⟨dir, s.cached⟩, .error e)

def FileHardStateStore.persist (json : QuorumJson) (s : FileHardStateStore) (state : HardState)
    (fault : Option (WriteStage × String)) : FileHardStateStore × Except XRaftError Unit :=
  s.replace json { s.cached with hardState := some state, hardStatePersisted := true } fault

def FileHardStateStore.load (s : FileHardStateStore) : Option HardState :=
  if s.cached.hardStatePersisted then s.cached.hardState else none

def FileHardStateStore.persistVoterSet (json : QuorumJson) (s : FileHardStateStore)
    (voterSet : VoterSet) (fault : Option (WriteStage × String)) :
    FileHardStateStore × Except XRaftError Unit :=
  s.replace json { s.cached with voterSet := some voterSet } fault

def FileHardStateStore.loadVoterSet (s : FileHardStateStore) : Option VoterSet := s.cached.voterSet

/-! ## What stands on disk -/

def recorded (json : QuorumJson) (dir : Directory) : Option OnDiskQuorumState :=
  (dir.read stateFile).bind
    (fun raw => (readToString raw).bind (fun text => (json.decode text).toOption))

def voterSetOnDisk (json : QuorumJson) (dir : Directory) : Option VoterSet :=
  (recorded json dir).bind OnDiskQuorumState.voterSet

variable {json : QuorumJson}

theorem recorded_congr {dir dir' : Directory} (h : dir'.read stateFile = dir.read stateFile) :
    recorded json dir' = recorded json dir := by
  rw [recorded, h, recorded]

theorem voterSetOnDisk_congr {dir dir' : Directory} (h : dir'.read stateFile = dir.read stateFile) :
    voterSetOnDisk json dir' = voterSetOnDisk json dir := by
  rw [voterSetOnDisk, recorded_congr h, voterSetOnDisk]

theorem stateFile_ne_tmpFile : stateFile ≠ tmpFile := by decide

theorem read_write_tmp (dir : Directory) (bytes : Bytes) :
    (dir.write tmpFile bytes).read stateFile = dir.read stateFile := by
  rw [Directory.read_write, if_neg stateFile_ne_tmpFile]

theorem read_remove_tmp (dir : Directory) :
    (dir.remove tmpFile).read stateFile = dir.read stateFile := by
  rw [Directory.read_remove, if_neg stateFile_ne_tmpFile]

theorem read_renamed (dir : Directory) (bytes : Bytes) :
    ((dir.write tmpFile bytes).rename tmpFile stateFile).read stateFile = some bytes := by
  have htmp : (dir.write tmpFile bytes).read tmpFile = some bytes := by
    rw [Directory.read_write, if_pos rfl]
  rw [Directory.read_rename htmp, if_pos rfl]

/-- A write that stops leaves the old content of the state file or the new one. -/
theorem read_leaves (dir : Directory) (bytes : Bytes) (stage : WriteStage) :
    (stage.leaves dir bytes).read stateFile =
      if stage.replaced then some bytes else dir.read stateFile := by
  cases stage with
  | openTmp => rfl
  | writeTmp written => exact read_write_tmp dir (bytes.take written)
  | syncTmp => exact read_write_tmp dir bytes
  | rename => exact read_write_tmp dir bytes
  | openDir => exact read_renamed dir bytes
  | syncDir => exact read_renamed dir bytes

theorem recorded_of_encoded {dir : Directory} {cached : CachedQuorumState}
    (h : dir.read stateFile = some (encodeCached json cached)) :
    recorded json dir = some (.fromCached cached) := by
  rw [recorded, h, Option.bind_some, encodeCached, readToString_asBytes, Option.bind_some,
    json.roundTrip]
  rfl

theorem replace_read (s : FileHardStateStore) (next : CachedQuorumState)
    (fault : Option (WriteStage × String)) :
    (s.replace json next fault).1.dir.read stateFile = s.dir.read stateFile ∨
      (s.replace json next fault).1.dir.read stateFile = some (encodeCached json next) := by
  cases fault with
  | none => exact .inr (read_renamed s.dir _)
  | some f =>
    have h := read_leaves s.dir (encodeCached json next) f.1
    cases hf : f.1.replaced with
    | false => exact .inl (h.trans (by rw [hf]; rfl))
    | true => exact .inr (h.trans (by rw [hf]; rfl))

def Mirrored (json : QuorumJson) (s : FileHardStateStore) : Prop :=
  voterSetOnDisk json s.dir = s.cached.voterSet

theorem mirrored_of_encoded {s : FileHardStateStore} {cached : CachedQuorumState}
    (h : s.dir.read stateFile = some (encodeCached json cached))
    (hv : cached.voterSet = s.cached.voterSet) : Mirrored json s := by
  rw [Mirrored, voterSetOnDisk, recorded_of_encoded h, ← hv]
  rfl

theorem openAt_ok {dir : Directory} {s : FileHardStateStore}
    (h : FileHardStateStore.openAt json dir = .ok s) :
    s.dir = dir.remove tmpFile ∧ Mirrored json s := by
  unfold FileHardStateStore.openAt at h
  dsimp only at h
  split at h
  · rename_i hread
    cases h
    refine ⟨rfl, ?_⟩
    rw [Mirrored, voterSetOnDisk, recorded, hread]
    rfl
  · rename_i raw hread
    split at h
    · cases h
    · rename_i text htext
      split at h
      · cases h
      · rename_i d hd
        cases h
        refine ⟨rfl, ?_⟩
        rw [Mirrored, voterSetOnDisk, recorded, hread, Option.bind_some, htext,
          Option.bind_some, hd]
        rfl

/-- Persisting a hard state never touches the voter set. -/
theorem persist_mirrored {s : FileHardStateStore} (h : Mirrored json s) (state : HardState)
    (fault : Option (WriteStage × String)) :
    Mirrored json (s.persist json state fault).1 ∧
      (s.persist json state fault).1.cached.voterSet = s.cached.voterSet := by
  have hcached : (s.persist json state fault).1.cached.voterSet = s.cached.voterSet := by
    cases fault with
    | none => rfl
    | some f => rfl
  refine ⟨?_, hcached⟩
  rcases replace_read s { s.cached with hardState := some state, hardStatePersisted := true }
    fault with
    hread | hread
  · rw [Mirrored, hcached, ← h]
    exact voterSetOnDisk_congr hread
  · exact mirrored_of_encoded hread hcached.symm

theorem persistVoterSet_ok {s s' : FileHardStateStore} {voterSet : VoterSet}
    {fault : Option (WriteStage × String)}
    (h : s.persistVoterSet json voterSet fault = (s', .ok ())) :
    Mirrored json s' ∧ s'.cached.voterSet = some voterSet := by
  cases fault with
  | none =>
    cases h
    exact ⟨mirrored_of_encoded (read_renamed s.dir _) rfl, rfl⟩
  | some f => cases h

end QuorumStateFile
