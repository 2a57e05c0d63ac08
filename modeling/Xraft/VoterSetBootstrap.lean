import Xraft.CommitQuorum
import Xraft.DurableBeforeVisible
import Xraft.QuorumStateFile

/-! # The voter set from boot to boot

`start_with_state_machine` over one data directory: three sources of the voter set are reconciled,
the engine is built, and only then the voter set is written. Between starts a process runs and
leaves its stores behind, in order or by a crash. Transport and listeners come after all of this;
they fail as the environment decides.
-/
namespace VoterSetBootstrap

open ProtocolTypes ClusterConfiguration ConsensusEngine DurableStores NodeDriver ServerRecovery
open WriteAheadLog SampleCodecs QuorumStateFile GuardedExecution EngineTransitions
open EngineConstruction
open DriverJournal DriverTurns DurableBeforeVisible

structure UuidText extends VoterParsing where
  format : ℕ → String
  roundTrip : ∀ u < 2 ^ 128, parseUuid (format u) = some u

/-! ## Reconciliation -/

/-- The pairwise checks of the configured, the persisted and the restored voter set. -/
def checkDrift (dataDir : String) (snapshotMeta : Option SnapshotMeta)
    (configured persisted restored : Option VoterSet) : Except XRaftError Unit :=
  let size (vs : Option VoterSet) : String := toString ((vs.map (·.voters.length)).getD 0)
  let differs (a b : Option VoterSet) : Bool := a.isSome && b.isSome && decide (a ≠ b)
  if differs configured persisted then
    .error (.config ("voter set on disk (in `" ++ dataDir ++ "/state/quorum-state`) differs " ++
      "from the voter set in this config — dynamic membership is out of scope for v1 (deferred " ++
      "to a future story entirely; see tech-spec.md §2.7). Either restore the prior " ++
      "configuration so the on-disk voter set matches, or wipe the data dir to re-bootstrap " ++
      "from scratch. " ++
      "Persisted size: " ++ size persisted ++ ", configured size: " ++ size configured ++ "."))
  else if differs persisted restored then
    .error (.config ("voter set on disk (in `" ++ dataDir ++ "/state/quorum-state`) differs " ++
      "from the voter set embedded in the restored snapshot — dynamic membership is out of " ++
      "scope for v1. The snapshot was produced under a different cluster membership; restore " ++
      "the prior configuration or wipe the data dir. Persisted size: " ++ size persisted ++
      ", snapshot size: " ++ size restored ++ "."))
  else if differs configured restored then
    .error (.config ("voter set in restored snapshot (snapshot id `" ++
      (snapshotMeta.map SnapshotMeta.id).getD "" ++ "`, last_included_index = " ++
      toString ((snapshotMeta.map SnapshotMeta.lastIncludedIndex).getD 0) ++
      ") differs from this config's voter set — dynamic membership is out of scope for v1 " ++
      "(deferred to a future story entirely; see tech-spec.md §2.7). The snapshot was produced " ++
      "under a different cluster membership; restore the prior configuration or wipe the data " ++
      "dir. Snapshot size: " ++ size restored ++ ", configured size: " ++ size configured ++ "."))
  else .ok ()

def pickVoterSet (dataDir : String) (nodeId : NodeId)
    (configured persisted restored : Option VoterSet) : Except XRaftError VoterSet :=
  match (configured.or persisted).or restored with
  | some vs => .ok vs
  | none =>
    .error (.config (s!"cannot bootstrap node_id = {nodeId}: ClusterConfig.voters is empty AND " ++
      "no persisted voter set in `" ++ dataDir ++ "/state/quorum-state` AND no snapshot voter " ++
      "set metadata was found. Populate ClusterConfig.voters with at least one structured " ++
      "VoterConfig entry (a single-node cluster still needs one row pointing at this node)."))

def checkMembership (config : ClusterConfig) (effective : VoterSet) : Except XRaftError Unit :=
  let inVoters := effective.contains config.nodeId
  let inObservers := decide (config.nodeId ∈ config.observers)
  if !inVoters && !inObservers then
    .error (.config
      (s!"node_id {config.nodeId} is not present in the effective voter set (size = " ++
        toString effective.voters.length ++ ") or observers list (size = " ++
      toString config.observers.length ++ "); each node MUST be a member of exactly one set"))
  else if inVoters && inObservers then
    .error (.config (s!"node_id {config.nodeId} appears in BOTH the effective voter set and " ++
      "observers list; each node MUST be a member of exactly one set"))
  else .ok ()

def synthesizeVoter (uuid : UuidText) (v : VoterRecord) : Except XRaftError VoterConfig :=
  match v.endpoints with
  | [] => .error (.config (s!"voter {v.nodeId} in restored voter set has no endpoints; cannot " ++
      "synthesize VoterConfig for RaftNode::new"))
  | endpoint :: _ => .ok ⟨v.nodeId, uuid.format v.directoryId, endpoint.host, endpoint.port⟩

def synthesizeVoters (uuid : UuidText) (config : ClusterConfig) (effective : VoterSet) :
    Except XRaftError ClusterConfig :=
  if config.voters = [] then do
    let voters ← effective.voters.mapM (synthesizeVoter uuid)
    .ok { config with voters := voters }
  else .ok config

structure Admitted where
  effective : VoterSet
  config : ClusterConfig
  node : RaftNode

/-- Every check in front of the first durable write, the one of `RaftNode::new` included. -/
def reconcile (uuid : UuidText) (dataDir : String) (config : ClusterConfig) (rng : List ℕ)
    (persisted : Option VoterSet) (snapshotMeta : Option SnapshotMeta) :
    Except XRaftError Admitted := do
  let configured ← buildVoterSet uuid.toVoterParsing config
  let restored := snapshotMeta.bind SnapshotMeta.voterSet
  checkDrift dataDir snapshotMeta configured persisted restored
  let effective ← pickVoterSet dataDir config.nodeId configured persisted restored
  checkMembership config effective
  let config ← synthesizeVoters uuid config effective
  let node ← RaftNode.new uuid.toVoterParsing config rng
  .ok ⟨effective, config, node⟩

/-! ## Starts -/

variable {σ : Type} [StateMachine σ]

structure Attempt (σ : Type) where
  config : ClusterConfig
  initial : σ
  rng : List ℕ
  maxFetchBatch : ℕ
  faults : List (Option Fault)
  logFault : Option XRaftError
  snapshotFault : Option XRaftError
  writeFault : Option (WriteStage × String)
  transportFault : Option XRaftError

def restoreStateMachine (snapshots : MemorySnapshotStore) (sm : σ) :
    Except XRaftError (Option SnapshotMeta) :=
  match snapshots.loadLatestSnapshot with
  | none => .ok none
  | some (metadata, data) =>
    match StateMachine.restore sm data with
    | .ok _ => .ok (some metadata)
    | .error e => .error (.storage ("state_machine.restore: " ++ e.display))

/-- A data directory without a process, or with one that runs over it. -/
inductive Site (σ : Type)
  | down (state : Directory) (logStore : MemoryLogStore) (snapshots : MemorySnapshotStore)
  | up (hsStore : FileHardStateStore) (driver : Driver σ)

def Site.state : Site σ → Directory
  | .down state _ _ => state
  | .up hsStore _ => hsStore.dir

def writeJournal (json : QuorumJson) : List Effect → FileHardStateStore → FileHardStateStore
  | [], s => s
  | .persist state :: rest, s => writeJournal json rest (s.persist json state none).1
  | _ :: rest, s => writeJournal json rest s

def bootstrapVoterSet (json : QuorumJson) (s : FileHardStateStore) (effective : VoterSet)
    (fault : Option (WriteStage × String)) : FileHardStateStore × Except XRaftError Unit :=
  if s.loadVoterSet.isNone then s.persistVoterSet json effective fault else (s, .ok ())

def checkStart (uuid : UuidText) (dataDir : String) (a : Attempt σ) (s : FileHardStateStore)
    (snapshots : MemorySnapshotStore) : Except XRaftError Admitted := do
  let snapshotMeta ← restoreStateMachine snapshots a.initial
  reconcile uuid dataDir a.config a.rng s.loadVoterSet snapshotMeta

def launch (uuid : UuidText) (json : QuorumJson) (dataDir : String) (a : Attempt σ)
    (s : FileHardStateStore) (logStore : MemoryLogStore) (snapshots : MemorySnapshotStore) :
    Site σ × Except XRaftError Unit :=
  match checkStart uuid dataDir a s snapshots with
  | .error e => (.down s.dir logStore snapshots, .error e)
  | .ok admitted =>
    match bootstrapVoterSet json s admitted.effective a.writeFault with
    | (s, .error e) => (.down s.dir logStore snapshots, .error e)
    | (s, .ok ()) =>
      match a.transportFault with
      | some e => (.down s.dir logStore snapshots, .error e)
      | none =>
        let driver := start admitted.config admitted.node.voterSet a.rng a.maxFetchBatch a.initial
          a.faults ⟨logStore, s.load, snapshots, []⟩
        (.up (writeJournal json driver.trace s) driver, .ok ())

def startWithStateMachine (uuid : UuidText) (json : QuorumJson) (dataDir : String) (a : Attempt σ)
    (state : Directory) (logStore : MemoryLogStore) (snapshots : MemorySnapshotStore) :
    Site σ × Except XRaftError Unit :=
  if dataDir = "" then
    (.down state logStore snapshots, .error (.config "data_dir must not be empty"))
  else match a.logFault with
    | some e => (.down state logStore snapshots, .error e)
    | none =>
      match FileHardStateStore.openAt json state with
      | .error e => (.down (state.remove tmpFile) logStore snapshots,
          .error (.storage ("open hard-state store at \"" ++ dataDir ++ "/state\": " ++ e.display)))
      | .ok s =>
        match a.snapshotFault with
        | some e => (.down s.dir logStore snapshots, .error e)
        | none => launch uuid json dataDir a s logStore snapshots

/-! ## Histories of a data directory -/

inductive SiteEvent (σ : Type)
  | start (attempt : Attempt σ)
  | live (event : LifeEvent)
  | stop (last : Option HardState)
  | crash (event : LifeEvent) (written : ℕ) (tmp : Option Bytes) (logStore : MemoryLogStore)
      (snapshots : MemorySnapshotStore)

def journalOf (d : Driver σ) (event : LifeEvent) : List Effect :=
  (Driver.live d event).trace.drop d.trace.length

/-- One step. A shutdown may persist a last hard state. A crash cuts an event short: a part of its
journal has reached the quorum-state file, a temporary file may be left, and nothing is said of log
and snapshots. -/
def Site.step (uuid : UuidText) (json : QuorumJson) (dataDir : String) :
    Site σ → SiteEvent σ → Site σ
  | .down state logStore snapshots, .start a =>
    (startWithStateMachine uuid json dataDir a state logStore snapshots).1
  | .up s d, .live event => .up (writeJournal json (journalOf d event) s) (Driver.live d event)
  | .up s d, .stop last =>
    .down (writeJournal json (last.toList.map .persist) s).dir d.logStore d.snapshotStore
  | .up s d, .crash event written tmp logStore snapshots =>
    let left := (writeJournal json ((journalOf d event).take written) s).dir
    .down (match tmp with
      | some bytes => left.write tmpFile bytes
      | none => left) logStore snapshots
  | site, _ => site

/-! ## What the checks ensure -/

/-- What is assumed of a voter set: it is not empty, each voter has one endpoint, and directory ids
have 128 bits. -/
def WellFormed (vs : VoterSet) : Prop :=
  vs.voters ≠ [] ∧ ∀ v ∈ vs.voters, v.endpoints.length = 1 ∧ v.directoryId < 2 ^ 128

def Seated (vs : VoterSet) (n : RaftNode) : Prop :=
  n.voterSet = some vs ∧ Xor (n.id ∈ vs.ids) (n.id ∈ n.config.observers)

structure SameSeat (n m : RaftNode) : Prop where
  id : m.id = n.id
  voterSet : m.voterSet = n.voterSet
  config : m.config = n.config

theorem SameSeat.trans {n m k : RaftNode} (h : SameSeat n m) (h' : SameSeat m k) : SameSeat n k :=
  ⟨h'.id.trans h.id, h'.voterSet.trans h.voterSet, h'.config.trans h.config⟩

theorem Seated.congr {vs : VoterSet} {n m : RaftNode} (h : Seated vs n) (hsame : SameSeat n m) :
    Seated vs m := by
  obtain ⟨hv, hx⟩ := h
  refine ⟨hsame.voterSet.trans hv, ?_⟩
  rw [hsame.id, hsame.config]
  exact hx

/-- A voter survives the way into the configuration and back. -/
theorem buildRecord_synthesizeVoter {uuid : UuidText} {v : VoterRecord} {c : VoterConfig}
    (hone : v.endpoints.length = 1) (hid : v.directoryId < 2 ^ 128)
    (h : synthesizeVoter uuid v = .ok c) : buildRecord uuid.toVoterParsing c = .ok v := by
  obtain ⟨endpoint, hendpoint⟩ := List.length_eq_one_iff.mp hone
  rw [synthesizeVoter, hendpoint] at h
  cases h
  rw [buildRecord, uuid.roundTrip _ hid, ← hendpoint]

theorem mapM_synthesizeVoter {uuid : UuidText} {records : List VoterRecord}
    {voters : List VoterConfig}
    (hone : ∀ v ∈ records, v.endpoints.length = 1 ∧ v.directoryId < 2 ^ 128)
    (h : records.mapM (synthesizeVoter uuid) = .ok voters) :
    voters.mapM (buildRecord uuid.toVoterParsing) = .ok records := by
  induction records generalizing voters with
  | nil =>
    cases h
    rfl
  | cons v rest ih =>
    rw [List.mapM_cons, bind_eq_ok] at h
    obtain ⟨c, hc, htail⟩ := h
    obtain ⟨cs, hcs, hvoters⟩ := bind_eq_ok.mp htail
    cases hvoters
    obtain ⟨hv, hrest⟩ := List.forall_mem_cons.mp hone
    rw [List.mapM_cons, buildRecord_synthesizeVoter hv.1 hv.2 hc, ih hrest hcs]
    rfl

theorem buildVoterSet_synthesized {uuid : UuidText} {config config' : ClusterConfig}
    {effective : VoterSet} {configured voterSet : Option VoterSet} (hwell : WellFormed effective)
    (hconfigured : buildVoterSet uuid.toVoterParsing config = .ok configured)
    (hagree : ∀ vs, configured = some vs → effective = vs)
    (h : synthesizeVoters uuid config effective = .ok config')
    (hbuild : buildVoterSet uuid.toVoterParsing config' = .ok voterSet) :
    voterSet = some effective := by
  rw [synthesizeVoters] at h
  split_ifs at h with hempty
  · obtain ⟨voters, hvoters, hok⟩ := bind_eq_ok.mp h
    cases hok
    have hrecords := mapM_synthesizeVoter hwell.2 hvoters
    have hne : voters ≠ [] := by
      rintro rfl
      exact hwell.1 (Except.ok.inj hrecords).symm
    obtain ⟨vs, rfl⟩ := buildVoterSet_isSome hne hbuild
    have hvs := buildVoterSet_ok hbuild
    rw [hrecords] at hvs
    rw [VoterSet.eq_of_voters (Except.ok.inj hvs)]
  · cases h
    cases hconfigured.symm.trans hbuild
    obtain ⟨vs, rfl⟩ := buildVoterSet_isSome hempty hconfigured
    rw [hagree vs rfl]

theorem synthesizeVoters_frame {uuid : UuidText} {config config' : ClusterConfig}
    {effective : VoterSet} (h : synthesizeVoters uuid config effective = .ok config') :
    config'.nodeId = config.nodeId ∧ config'.observers = config.observers := by
  rw [synthesizeVoters] at h
  split_ifs at h
  · obtain ⟨voters, -, hok⟩ := bind_eq_ok.mp h
    cases hok
    exact ⟨rfl, rfl⟩
  · cases h
    exact ⟨rfl, rfl⟩

theorem checkMembership_ok {config : ClusterConfig} {effective : VoterSet}
    (h : checkMembership config effective = .ok ()) :
    Xor (config.nodeId ∈ effective.ids) (config.nodeId ∈ config.observers) := by
  rw [checkMembership, guard_eq_ok, guard_eq_ok] at h
  obtain ⟨hsome, hboth, -⟩ := h
  simp only [Bool.and_eq_true, Bool.not_eq_true', Bool.eq_false_iff, ne_eq, VoterSet.contains_iff,
    decide_eq_true_eq] at hsome hboth
  by_cases hv : config.nodeId ∈ effective.ids
  · exact .inl ⟨hv, fun ho => hboth ⟨hv, ho⟩⟩
  · exact .inr ⟨by_contra fun ho => hsome ⟨hv, ho⟩, hv⟩

theorem checkDrift_ok {dataDir : String} {snapshotMeta : Option SnapshotMeta}
    {configured persisted restored : Option VoterSet}
    (h : checkDrift dataDir snapshotMeta configured persisted restored = .ok ()) :
    ∀ vs, persisted = some vs → (configured = none ∨ configured = some vs) := by
  rintro vs rfl
  rw [checkDrift] at h
  dsimp only at h
  rw [guard_eq_ok] at h
  obtain ⟨hdrift, -⟩ := h
  cases configured with
  | none => exact .inl rfl
  | some cfg => exact .inr (by simpa using hdrift)

theorem pickVoterSet_ok {dataDir : String} {nodeId : NodeId} {effective : VoterSet}
    {configured persisted restored : Option VoterSet}
    (h : pickVoterSet dataDir nodeId configured persisted restored = .ok effective) :
    (configured.or persisted).or restored = some effective := by
  rw [pickVoterSet] at h
  split at h
  · rename_i vs hvs
    cases h
    exact hvs
  · cases h

/-- A start that passes the checks agrees with the persisted voter set and seats its engine. -/
theorem reconcile_ok {uuid : UuidText} {dataDir : String} {config : ClusterConfig} {rng : List ℕ}
    {persisted : Option VoterSet} {snapshotMeta : Option SnapshotMeta} {a : Admitted}
    (h : reconcile uuid dataDir config rng persisted snapshotMeta = .ok a) :
    (∀ vs, persisted = some vs → a.effective = vs) ∧
      (WellFormed a.effective → a.node.voterSet = some a.effective) ∧
      Xor (a.config.nodeId ∈ a.effective.ids) (a.config.nodeId ∈ a.config.observers) := by
  simp only [reconcile, bind_eq_ok] at h
  obtain ⟨configured, hconfigured, _, hdrift, effective, hpick, _, hmember, config', hconfig', node,
    hnode, hok⟩ := h
  cases hok
  have hpicked := pickVoterSet_ok hpick
  obtain ⟨voterSet, rfl, hbuild⟩ := new_build hnode
  obtain ⟨hid, hobservers⟩ := synthesizeVoters_frame hconfig'
  refine ⟨fun vs hvs => ?_, fun hwell => ?_, ?_⟩
  · rcases checkDrift_ok hdrift vs hvs with hnone | hsome
    · rw [hnone, hvs] at hpicked
      cases hpicked
      rfl
    · rw [hsome] at hpicked
      cases hpicked
      rfl
  · have hagree : ∀ vs, configured = some vs → effective = vs := by
      rintro vs rfl
      cases hpicked
      rfl
    exact buildVoterSet_synthesized hwell hconfigured hagree hconfig' hbuild
  · dsimp only
    rw [hid, hobservers]
    exact checkMembership_ok hmember

/-! ## The engine keeps its seat -/

theorem start_seat (config : ClusterConfig) (voterSet : Option VoterSet) (rng : List ℕ)
    (maxFetchBatch : ℕ) (initial : σ) (faults : List (Option Fault)) (store : Durable) :
    SameSeat (RaftNode.build config voterSet rng)
        (start config voterSet rng maxFetchBatch initial faults store).node ∧
      Settled (start config voterSet rng maxFetchBatch initial faults store) := by
  obtain ⟨sm, snapshotMeta, hran⟩ : ∃ sm snapshotMeta, RanFrom config.nodeId _ _ _ :=
    start_ran config voterSet rng maxFetchBatch initial faults store
  have hstand := hran.ran.standing
  exact ⟨⟨hstand.id, hstand.voterSet, hstand.config⟩, hran.settled⟩

theorem live_seat {d : Driver σ} (hd : Settled d) (event : LifeEvent) :
    SameSeat d.node (Driver.live d event).node ∧ Settled (Driver.live d event) := by
  cases event with
  | turn event =>
    obtain ⟨m, hmove, hran⟩ := turn_handled hd event
    have hident := hmove.identity
    have hstand := hran.ran.standing
    refine ⟨SameSeat.trans ⟨hident.id, hident.voterSet, hident.config⟩ ?_, hran.settled⟩
    exact ⟨hstand.id, hstand.voterSet, hstand.config⟩
  | snapshotWorker =>
    obtain ⟨w, store, jobs, done, fs, hw, h⟩ := runSnapshotWorker_inert d
    show SameSeat d.node d.runSnapshotWorker.node ∧ Settled d.runSnapshotWorker
    rw [h]
    exact ⟨⟨rfl, rfl, rfl⟩, hd⟩

/-! ## Starts, one by one -/

variable {uuid : UuidText} {json : QuorumJson} {dataDir : String}

theorem writeJournal_mirrored (w : List Effect) {s : FileHardStateStore} (h : Mirrored json s) :
    Mirrored json (writeJournal json w s) ∧
      (writeJournal json w s).cached.voterSet = s.cached.voterSet := by
  induction w generalizing s with
  | nil => exact ⟨h, rfl⟩
  | cons e rest ih =>
    cases e with
    | persist state =>
      obtain ⟨hm, hv⟩ := persist_mirrored h state none
      obtain ⟨hrest, hsame⟩ := ih hm
      exact ⟨hrest, hsame.trans hv⟩
    | _ => exact ih h

def Passed (uuid : UuidText) (json : QuorumJson) (dataDir : String) (a : Attempt σ)
    (state : Directory) (snapshots : MemorySnapshotStore) : Prop :=
  ∃ s admitted, FileHardStateStore.openAt json state = .ok s ∧
    checkStart uuid dataDir a s snapshots = .ok admitted

def Governs (json : QuorumJson) (vs : VoterSet) (s : FileHardStateStore) (d : Driver σ) : Prop :=
  Mirrored json s ∧ Settled d ∧ s.cached.voterSet = some vs ∧ (WellFormed vs → Seated vs d.node)

theorem bootstrapVoterSet_ok {s s' : FileHardStateStore} {effective : VoterSet}
    {fault : Option (WriteStage × String)} (hs : Mirrored json s)
    (hagree : ∀ vs, s.cached.voterSet = some vs → effective = vs)
    (h : bootstrapVoterSet json s effective fault = (s', .ok ())) :
    Mirrored json s' ∧ s'.cached.voterSet = some effective := by
  rw [bootstrapVoterSet] at h
  split_ifs at h with hnone
  · exact persistVoterSet_ok h
  · cases h
    obtain ⟨vs, hvs⟩ : ∃ vs, s.cached.voterSet = some vs :=
      Option.ne_none_iff_exists'.mp (by simpa [FileHardStateStore.loadVoterSet] using hnone)
    exact ⟨hs, by rw [hagree vs hvs, hvs]⟩

theorem bootstrapVoterSet_error {s s' : FileHardStateStore} {effective : VoterSet}
    {fault : Option (WriteStage × String)} {e : XRaftError}
    (h : bootstrapVoterSet json s effective fault = (s', .error e)) : s.cached.voterSet = none := by
  rw [bootstrapVoterSet] at h
  split_ifs at h with hnone
  · exact Option.isNone_iff_eq_none.mp hnone
  · cases h

/-- A start fails and leaves the quorum-state file as it was, unless it came to the first write; or
it runs an engine with the voter set on disk. -/
theorem launch_cases (a : Attempt σ) {s : FileHardStateStore} (hs : Mirrored json s)
    (logStore : MemoryLogStore) (snapshots : MemorySnapshotStore) :
    (∃ e dir, launch uuid json dataDir a s logStore snapshots =
      (.down dir logStore snapshots, .error e) ∧ (dir.read stateFile = s.dir.read stateFile ∨
        s.cached.voterSet = none ∧ ∃ admitted, checkStart uuid dataDir a s snapshots =
          .ok admitted)) ∨
    ∃ vs s' d admitted, launch uuid json dataDir a s logStore snapshots = (.up s' d, .ok ()) ∧
      checkStart uuid dataDir a s snapshots = .ok admitted ∧ Governs json vs s' d ∧
      ∀ vs', s.cached.voterSet = some vs' → vs = vs' := by
  rw [launch]
  cases hcheck : checkStart uuid dataDir a s snapshots with
  | error e => exact .inl ⟨e, s.dir, rfl, .inl rfl⟩
  | ok admitted =>
    obtain ⟨snapshotMeta, -, hrec⟩ := bind_eq_ok.mp hcheck
    obtain ⟨hagree, hvoters, hx⟩ := reconcile_ok hrec
    dsimp only
    rcases hboot : bootstrapVoterSet json s admitted.effective a.writeFault with ⟨s', e | _⟩
    · exact .inl ⟨e, s'.dir, rfl, .inr ⟨bootstrapVoterSet_error hboot, admitted, rfl⟩⟩
    · obtain ⟨hs', hvs⟩ := bootstrapVoterSet_ok hs hagree hboot
      dsimp only
      cases a.transportFault with
      | some e =>
        refine .inl ⟨e, s'.dir, rfl, ?_⟩
        cases hcached : s.cached.voterSet with
        | none => exact .inr ⟨rfl, admitted, rfl⟩
        | some vs =>
          rw [bootstrapVoterSet, FileHardStateStore.loadVoterSet, hcached] at hboot
          cases hboot
          exact .inl rfl
      | none =>
        obtain ⟨hseat, hsettled⟩ := start_seat admitted.config admitted.node.voterSet a.rng
          a.maxFetchBatch a.initial a.faults ⟨logStore, s'.load, snapshots, []⟩
        obtain ⟨hm, hsame⟩ := writeJournal_mirrored
          (start admitted.config admitted.node.voterSet a.rng a.maxFetchBatch a.initial a.faults
            ⟨logStore, s'.load, snapshots, []⟩).trace hs'
        refine .inr ⟨admitted.effective, _, _, admitted, rfl, rfl,
          ⟨hm, hsettled, hsame.trans hvs, fun hwell => ?_⟩, hagree⟩
        have hbuilt : Seated admitted.effective
            (RaftNode.build admitted.config admitted.node.voterSet a.rng) := ⟨hvoters hwell, hx⟩
        exact hbuilt.congr hseat

theorem startWithStateMachine_cases (uuid : UuidText) (json : QuorumJson) (dataDir : String)
    (a : Attempt σ) (state : Directory)
    (logStore : MemoryLogStore) (snapshots : MemorySnapshotStore) :
    (∃ e dir, startWithStateMachine uuid json dataDir a state logStore snapshots =
        (.down dir logStore snapshots, .error e) ∧
      (dir.read stateFile = state.read stateFile ∨
        voterSetOnDisk json state = none ∧ Passed uuid json dataDir a state snapshots)) ∨
    ∃ vs s d, startWithStateMachine uuid json dataDir a state logStore snapshots =
      (.up s d, .ok ()) ∧ Passed uuid json dataDir a state snapshots ∧ Governs json vs s d ∧
      ∀ vs', voterSetOnDisk json state = some vs' → vs = vs' := by
  rw [startWithStateMachine]
  split_ifs with hpath
  · exact .inl ⟨_, state, rfl, .inl rfl⟩
  cases a.logFault with
  | some e => exact .inl ⟨e, state, rfl, .inl rfl⟩
  | none =>
    dsimp only
    cases hopen : FileHardStateStore.openAt json state with
    | error e => exact .inl ⟨_, state.remove tmpFile, rfl, .inl (read_remove_tmp state)⟩
    | ok s =>
      obtain ⟨hdir, hs⟩ := openAt_ok hopen
      have hread : s.dir.read stateFile = state.read stateFile := by
        rw [hdir, read_remove_tmp]
      have hdisk : voterSetOnDisk json state = s.cached.voterSet := by
        rw [← hs, voterSetOnDisk_congr hread]
      dsimp only
      cases a.snapshotFault with
      | some e => exact .inl ⟨e, s.dir, rfl, .inl hread⟩
      | none =>
        dsimp only
        rw [hdisk, ← hread]
        rcases launch_cases a hs logStore snapshots with
          ⟨e, dir, hlaunch, hkept⟩ | ⟨vs, s', d, admitted, hlaunch, hcheck, hgoverns, hagree⟩
        · refine .inl ⟨e, dir, hlaunch, hkept.imp_right ?_⟩
          rintro ⟨hnone, admitted, hcheck⟩
          exact ⟨hnone, s, admitted, hopen, hcheck⟩
        · exact .inr ⟨vs, s', d, hlaunch, ⟨s, admitted, hopen, hcheck⟩, hgoverns, hagree⟩

/-! ## Histories -/

def Governed (json : QuorumJson) : Site σ → Prop
  | .down _ _ _ => True
  | .up s d => ∃ vs, Governs json vs s d

omit [StateMachine σ] in
theorem Governs.journal {vs : VoterSet} {s : FileHardStateStore} {d d' : Driver σ}
    (h : Governs json vs s d) (w : List Effect) (hseat : SameSeat d.node d'.node)
    (hd : Settled d') : Governs json vs (writeJournal json w s) d' := by
  obtain ⟨hs, -, hvs, hseated⟩ := h
  obtain ⟨hm, hsame⟩ := writeJournal_mirrored w hs
  exact ⟨hm, hd, hsame.trans hvs, fun hwell => (hseated hwell).congr hseat⟩

omit [StateMachine σ] in
theorem Governs.left {vs : VoterSet} {s : FileHardStateStore} {d : Driver σ}
    (h : Governs json vs s d) (w : List Effect) {dir : Directory}
    (hread : dir.read stateFile = (writeJournal json w s).dir.read stateFile) :
    voterSetOnDisk json dir = some vs := by
  obtain ⟨hs, -, hvs, -⟩ := h
  obtain ⟨hm, hsame⟩ := writeJournal_mirrored w hs
  rw [voterSetOnDisk_congr hread, hm, hsame, hvs]

omit [StateMachine σ] in
theorem Governs.onDisk {vs : VoterSet} {s : FileHardStateStore} {d : Driver σ}
    (h : Governs json vs s d) : voterSetOnDisk json s.dir = some vs :=
  h.1.trans h.2.2.1

theorem Governed.step {site : Site σ} (h : Governed json site) (event : SiteEvent σ) :
    Governed json (site.step uuid json dataDir event) ∧
      ∀ vs, voterSetOnDisk json site.state = some vs →
        voterSetOnDisk json (site.step uuid json dataDir event).state = some vs := by
  cases site with
  | down state logStore snapshots =>
    cases event with
    | start a =>
      rcases startWithStateMachine_cases uuid json dataDir a state logStore snapshots with
        ⟨e, dir, hstart, hkept⟩ | ⟨vs, s, d, hstart, -, hgoverns, hagree⟩
      · simp only [Site.step, hstart]
        refine ⟨trivial, fun vs hvs => ?_⟩
        rcases hkept with hread | ⟨hnone, -⟩
        · exact (voterSetOnDisk_congr hread).trans hvs
        · cases hnone.symm.trans hvs
      · simp only [Site.step, hstart]
        refine ⟨⟨vs, hgoverns⟩, fun vs' hvs' => ?_⟩
        rw [← hagree vs' hvs']
        exact hgoverns.onDisk
    | _ => exact ⟨trivial, fun vs hvs => hvs⟩
  | up s d =>
    obtain ⟨vs, hgoverns⟩ := h
    have heq : ∀ vs', voterSetOnDisk json s.dir = some vs' → vs = vs' := fun vs' hvs' =>
      Option.some.inj (hgoverns.onDisk.symm.trans hvs')
    cases event with
    | start a => exact ⟨⟨vs, hgoverns⟩, fun vs' hvs' => hvs'⟩
    | live event =>
      obtain ⟨hseat, hd⟩ := live_seat hgoverns.2.1 event
      have hnext := hgoverns.journal (journalOf d event) hseat hd
      refine ⟨⟨vs, hnext⟩, fun vs' hvs' => ?_⟩
      rw [← heq vs' hvs']
      exact hnext.onDisk
    | stop last =>
      refine ⟨trivial, fun vs' hvs' => ?_⟩
      rw [← heq vs' hvs']
      exact hgoverns.left (last.toList.map .persist) rfl
    | crash event written tmp logStore snapshots =>
      refine ⟨trivial, fun vs' hvs' => ?_⟩
      rw [← heq vs' hvs']
      refine hgoverns.left ((journalOf d event).take written) ?_
      cases tmp with
      | none => rfl
      | some bytes => exact read_write_tmp _ bytes

/-- A process over the data directory runs an engine with these voters, in which the local node is
in exactly one of voters and observers. -/
def Site.Runs (vs : VoterSet) : Site σ → Prop
  | .down _ _ _ => True
  | .up _ d => Seated vs d.node

omit [StateMachine σ] in
theorem Governed.runs {site : Site σ} (h : Governed json site) {vs : VoterSet}
    (hvs : voterSetOnDisk json site.state = some vs) (hwell : WellFormed vs) : site.Runs vs := by
  cases site with
  | down state logStore snapshots => trivial
  | up s d =>
    obtain ⟨vs', hgoverns⟩ := h
    cases hgoverns.onDisk.symm.trans hvs
    exact hgoverns.2.2.2 hwell

abbrev History (uuid : UuidText) (json : QuorumJson) (dataDir : String) : Site σ → Site σ → Prop :=
  Execution (Site.step uuid json dataDir) (fun _ _ => True)

/-- A start either fails and leaves the quorum-state file as it was, or runs an engine with `vs`. -/
def Confined (uuid : UuidText) (json : QuorumJson) (dataDir : String) (vs : VoterSet)
    (a : Attempt σ) : Site σ → Prop
  | .up _ _ => True
  | .down state logStore snapshots =>
    let r := startWithStateMachine uuid json dataDir a state logStore snapshots
    (∃ e, r.2 = .error e ∧ r.1.state.read stateFile = state.read stateFile) ∨
      (r.2 = .ok () ∧ ∃ s d, r.1 = .up s d ∧ Seated vs d.node)

theorem confined {site : Site σ} {vs : VoterSet} (hvs : voterSetOnDisk json site.state = some vs)
    (hwell : WellFormed vs) (a : Attempt σ) : Confined uuid json dataDir vs a site := by
  cases site with
  | up s d => trivial
  | down state logStore snapshots =>
    rcases startWithStateMachine_cases uuid json dataDir a state logStore snapshots with
      ⟨e, dir, hstart, hkept⟩ | ⟨vs', s, d, hstart, -, hgoverns, hagree⟩
    · refine .inl ⟨e, by rw [hstart], ?_⟩
      rw [hstart]
      rcases hkept with hread | ⟨hnone, -⟩
      · exact hread
      · cases hnone.symm.trans hvs
    · cases hagree vs hvs
      exact .inr ⟨by rw [hstart], s, d, by rw [hstart], hgoverns.2.2.2 hwell⟩

def LeavesNone (uuid : UuidText) (json : QuorumJson) (dataDir : String) (a : Attempt σ) :
    Site σ → Prop
  | .up _ _ => True
  | .down state logStore snapshots =>
    let r := startWithStateMachine uuid json dataDir a state logStore snapshots
    voterSetOnDisk json state = none → ¬Passed uuid json dataDir a state snapshots →
      (∃ e, r.2 = .error e) ∧ voterSetOnDisk json r.1.state = none

theorem leavesNone (site : Site σ) (a : Attempt σ) : LeavesNone uuid json dataDir a site := by
  cases site with
  | up s d => trivial
  | down state logStore snapshots =>
    intro hnone hfails
    rcases startWithStateMachine_cases uuid json dataDir a state logStore snapshots with
      ⟨e, dir, hstart, hread | ⟨-, hpassed⟩⟩ | ⟨vs, s, d, hstart, hpassed, -, -⟩
    · rw [hstart]
      exact ⟨⟨e, rfl⟩, (voterSetOnDisk_congr hread).trans hnone⟩
    · exact absurd hpassed hfails
    · exact absurd hpassed hfails

/-- The voter set is fixed at first boot. In every history of a data directory of any content, once
`vs` stands in the quorum-state file it stays there, every process runs an engine with `vs` and
every further start fails without a trace or runs one; until then, a start that fails a check leaves
no voter set. -/
theorem voter_set_fixed_at_first_boot (uuid : UuidText) (json : QuorumJson) (dataDir : String)
    (state : Directory) (logStore : MemoryLogStore) (snapshots : MemorySnapshotStore)
    {site : Site σ} (h : History uuid json dataDir (.down state logStore snapshots) site) :
    (∀ vs later, voterSetOnDisk json site.state = some vs → WellFormed vs →
      History uuid json dataDir site later →
      voterSetOnDisk json later.state = some vs ∧ later.Runs vs ∧
        ∀ a, Confined uuid json dataDir vs a later) ∧
    ∀ a, LeavesNone uuid json dataDir a site := by
  have hstep (s : Site σ) (e : SiteEvent σ) (hs : Governed json s) (_ : True) :
      Governed json (s.step uuid json dataDir e) := (hs.step e).1
  have hgoverned : Governed json site := h.invariant hstep trivial
  refine ⟨fun vs later hvs hwell hlater => ?_, leavesNone site⟩
  have hkeep (s : Site σ) (e : SiteEvent σ)
      (hs : Governed json s ∧ voterSetOnDisk json s.state = some vs) (_ : True) :
      Governed json (s.step uuid json dataDir e) ∧
        voterSetOnDisk json (s.step uuid json dataDir e).state = some vs :=
    ⟨(hs.1.step e).1, (hs.1.step e).2 vs hs.2⟩
  have hkept := hlater.invariant hkeep ⟨hgoverned, hvs⟩
  exact ⟨hkept.2, hkept.1.runs hkept.2 hwell, confined hkept.2 hwell⟩

def sampleUuid : UuidText where
  toVoterParsing := sampleParsing
  format := HyphenatedUuid.format
  roundTrip u h := by
    rw [show sampleParsing.parseUuid = HyphenatedUuid.parse from rfl]
    exact HyphenatedUuid.parse_format h

def soloConfig : ClusterConfig :=
  { nodeId := 1, clusterId := "c", voters := sampleVoters.take 1 }

def soloAttempt : Attempt NoOpStateMachine where
  config := soloConfig
  initial := .mk
  rng := []
  maxFetchBatch := 1
  faults := []
  logFault := none
  snapshotFault := none
  writeFault := none
  transportFault := none

theorem voter_set_fixed_at_first_boot_solo :
    let first := (Site.down (Directory.empty "data/state") .new .new).step sampleUuid
      sampleJson "data" (.start soloAttempt)
    voterSetOnDisk sampleJson first.state = some soloVoters ∧
      ∀ later, History sampleUuid sampleJson "data" first later →
        voterSetOnDisk sampleJson later.state = some soloVoters ∧ later.Runs soloVoters := by
  intro first
  have hcached : (match first with
      | .up s _ => s.cached.voterSet
      | .down _ _ _ => none) = some soloVoters := by
    rfl
  have hdisk : voterSetOnDisk sampleJson first.state = some soloVoters := by
    have hempty : Governed sampleJson (Site.down (Directory.empty "data/state") .new .new :
        Site NoOpStateMachine) := trivial
    have hgoverned : Governed sampleJson first := (hempty.step _).1
    cases hsite : first with
    | down state logStore snapshots =>
      rw [hsite] at hcached
      cases hcached
    | up s d =>
      rw [hsite] at hcached hgoverned
      obtain ⟨vs, hgoverns⟩ := hgoverned
      exact hgoverns.1.trans hcached
  have hrun : History sampleUuid sampleJson "data"
      (.down (Directory.empty "data/state") .new .new) first := Execution.single trivial
  have hfixed := (voter_set_fixed_at_first_boot sampleUuid sampleJson "data" _ _ _ hrun).1
    soloVoters
  refine ⟨hdisk, fun later hlater => ?_⟩
  obtain ⟨hvs, hruns, -⟩ := hfixed later hdisk ⟨by decide, by decide⟩ hlater
  exact ⟨hvs, hruns⟩

end VoterSetBootstrap
