import Xraft.HyphenatedUuid
import Xraft.ProtocolTypes

/-! # Configuration checks

The voter, membership and timing checks of `ClusterConfig::validate`, in source order, and the voter
set built from the records. `Uuid::parse_str` and `VoterSet::try_new` come from outside the shipped
sources and are parameters.
-/
namespace ClusterConfiguration

open ProtocolTypes

def isWhitespace (c : Char) : Bool :=
  let n := c.toNat
  (9 ≤ n && n ≤ 13) || n = 32 || n = 0x85 || n = 0xA0 || n = 0x1680 ||
    (0x2000 ≤ n && n ≤ 0x200A) || n = 0x2028 || n = 0x2029 || n = 0x202F || n = 0x205F || n = 0x3000

def trim (s : String) : String :=
  String.ofList (((s.toList.dropWhile isWhitespace).reverse.dropWhile isWhitespace).reverse)

def debugList (xs : List ℕ) : String := "[" ++ String.intercalate ", " (xs.map toString) ++ "]"

/-- `Uuid::parse_str` and `VoterSet::try_new`. A voter set has the records it was made of. -/
structure VoterParsing where
  parseUuid : String → Option ℕ
  tryNew : List VoterRecord → Except String VoterSet
  tryNew_law : ∀ records vs, tryNew records = .ok vs → vs.voters = records

variable (p : VoterParsing)

def validateVoter (earlier : List VoterConfig) (i : ℕ) (voter : VoterConfig) :
    Except XRaftError Unit :=
  let endpointKey (v : VoterConfig) := trim v.host ++ ":" ++ toString v.port
  if trim voter.host = "" then
    .error (.config s!"voter[{i}] has an empty host")
  else if voter.port = 0 then
    .error (.config s!"voter[{i}] port must not be zero")
  else
    match p.parseUuid voter.directoryId with
    | none => .error (.config
        s!"voter[{i}] directory_id '{voter.directoryId}' is not a valid UUID")
    | some uuid =>
      if uuid = 0 then
        .error (.config s!"voter[{i}] directory_id must not be the nil UUID")
      else if earlier.any (fun v => v.nodeId = voter.nodeId ∧
        v.directoryId = voter.directoryId) then
        .error (.config (s!"duplicate voter: node_id={voter.nodeId}, " ++
          s!"directory_id={voter.directoryId}"))
      else if earlier.any (fun v => endpointKey v = endpointKey voter) then
        .error (.config s!"duplicate voter endpoint: '{endpointKey voter}'")
      else .ok ()

def validateVoters (earlier : List VoterConfig) : List VoterConfig → Except XRaftError Unit
  | [] => .ok ()
  | voter :: rest => do
    validateVoter p earlier earlier.length voter
    validateVoters (earlier ++ [voter]) rest

/-- A configured voter list places the local node in exactly one of voters and observers. -/
def validateMembership (c : ClusterConfig) : Except XRaftError Unit :=
  let inVoters := c.voters.any (fun v => v.nodeId = c.nodeId)
  let inObservers := decide (c.nodeId ∈ c.observers)
  if !inVoters && !inObservers then
    .error (.config (s!"node_id {c.nodeId} is not present in the voters list or observers list " ++
      s!"(voters = {debugList (c.voters.map VoterConfig.nodeId)}, " ++
      s!"observers = {debugList c.observers}); each node MUST be a member of exactly one set"))
  else if inVoters && inObservers then
    .error (.config (s!"node_id {c.nodeId} appears in BOTH the voters and observers lists; " ++
      "each node MUST be a member of exactly one set"))
  else .ok ()

def validateTimings (c : ClusterConfig) : Except XRaftError Unit :=
  if c.electionTimeoutMinMs = 0 then .error (.config "election_timeout_min_ms must be > 0")
  else if c.electionTimeoutMaxMs ≤ c.electionTimeoutMinMs then
    .error (.config (s!"election_timeout_max_ms ({c.electionTimeoutMaxMs}) must be > " ++
      s!"election_timeout_min_ms ({c.electionTimeoutMinMs})"))
  else if c.fetchIntervalMs = 0 then .error (.config "fetch_interval_ms must be > 0")
  else if c.tickIntervalMs = 0 then .error (.config "tick_interval_ms must be > 0")
  else if c.maxLogEntriesBeforeCompaction = 0 then
    .error (.config "max_log_entries_before_compaction must be > 0")
  else if c.checkQuorumIntervalMs = some 0 then
    .error (.config ("check_quorum_interval_ms must be > 0 when set; omit the field to use the " ++
      "default (2 * election_timeout_max_ms)"))
  else .ok ()

def validate (c : ClusterConfig) : Except XRaftError Unit := do
  if c.clusterId = "" then .error (.config "cluster_id must not be empty")
  if c.voters ≠ [] then
    validateVoters p [] c.voters
    validateMembership c
  validateTimings c

def effectiveCheckQuorumIntervalMs (c : ClusterConfig) : ℕ :=
  c.checkQuorumIntervalMs.getD (satMul c.electionTimeoutMaxMs 2)

def buildRecord (v : VoterConfig) : Except XRaftError VoterRecord :=
  match p.parseUuid v.directoryId with
  | none => .error (.config s!"voter directory_id '{v.directoryId}' is not a valid UUID")
  | some uuid => .ok ⟨v.nodeId, uuid, [⟨v.host, v.port⟩]⟩

def buildVoterSet (c : ClusterConfig) : Except XRaftError (Option VoterSet) :=
  if c.voters = [] then .ok none
  else do
    let records ← c.voters.mapM (buildRecord p)
    match p.tryNew records with
    | .error e => .error (.config s!"invalid voter set: {e}")
    | .ok vs => pure (some vs)

theorem buildVoterSet_ok {p : VoterParsing} {c : ClusterConfig} {vs : VoterSet}
    (h : buildVoterSet p c = .ok (some vs)) : c.voters.mapM (buildRecord p) = .ok vs.voters := by
  rw [buildVoterSet] at h
  split_ifs at h
  · cases h
  obtain ⟨records, hrecords, htry⟩ := bind_eq_ok.mp h
  cases hvs : p.tryNew records with
  | error e =>
    rw [hvs] at htry
    cases htry
  | ok vs' =>
    rw [hvs] at htry
    cases htry
    rw [hrecords, p.tryNew_law records vs hvs]

theorem buildVoterSet_isSome {p : VoterParsing} {c : ClusterConfig} {voterSet : Option VoterSet}
    (hne : c.voters ≠ []) (h : buildVoterSet p c = .ok voterSet) : ∃ vs, voterSet = some vs := by
  rw [buildVoterSet, if_neg hne] at h
  obtain ⟨records, -, htry⟩ := bind_eq_ok.mp h
  cases hvs : p.tryNew records with
  | error e =>
    rw [hvs] at htry
    cases htry
  | ok vs =>
    rw [hvs] at htry
    cases htry
    exact ⟨vs, rfl⟩

/-! ## Concrete clusters -/

def sampleParsing : VoterParsing where
  parseUuid := HyphenatedUuid.parse
  tryNew records := .ok (.ofRecords records)
  tryNew_law records vs h := by
    cases h
    rfl

def sampleVoters : List VoterConfig :=
  [⟨1, "00000000-0000-4000-8000-000000000001", "h1", 1⟩,
    ⟨2, "00000000-0000-4000-8000-000000000002", "h2", 1⟩,
    ⟨3, "00000000-0000-4000-8000-000000000003", "h3", 1⟩]

def sampleRecords : List VoterRecord :=
  [⟨1, 0x40008000000000000001, [⟨"h1", 1⟩]⟩, ⟨2, 0x40008000000000000002, [⟨"h2", 1⟩]⟩,
    ⟨3, 0x40008000000000000003, [⟨"h3", 1⟩]⟩]

end ClusterConfiguration
