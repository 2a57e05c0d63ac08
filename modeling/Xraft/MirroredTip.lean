import Xraft.OrderlyDriver

/-! # The mirrored tip

The engine keeps index and term of the end of the log. It moves them before the driver writes, the
driver sets them after a cut and an install, and a completed snapshot purges the log below them.
While the driver runs and nothing below its commit index is cut, the mirror is the tip of the log
and the snapshot.
-/
namespace MirroredTip

open ProtocolTypes ConsensusEngine DurableStores NodeDriver ServerRecovery EngineTransitions
open GuardedExecution ApplyPipeline FaultFreeBatches PositionedLog BatchFootprints ActionOutcomes
open BatchOutcomes EngineOutlines DurableBeforeVisible LeaderAppendOnly TurnOutcomes RunningTurns
open OrderlyDriver DriverTurns

/-! ## The term of the tip in the engine -/

def appendedBy : Action → List Entry
  | .appendEntries entries => entries
  | _ => []

def appended (actions : List Action) : List Entry := actions.flatMap appendedBy

/-- The engine's tip has the term of the last entry its batch appends, or the term it had. -/
def TipTerm (n : RaftNode) (r : RaftNode × List Action) : Prop :=
  r.1.lastLogTerm = ((appended r.2).getLast?.map Entry.term).getD n.lastLogTerm

variable {n m k : RaftNode} {opening more actions : List Action} {entries : List Entry}

theorem appended_append (xs ys : List Action) : appended (xs ++ ys) = appended xs ++ appended ys :=
  List.flatMap_append

theorem appended_nil (h : ∀ a ∈ actions, appendedBy a = []) : appended actions = [] :=
  List.flatMap_eq_nil_iff.mpr h

theorem Prelude.appendedBy {a : Action} (h : Prelude a) : appendedBy a = [] := by
  rcases h with hneutral | rfl
  · cases a <;> first | exact hneutral.elim | rfl
  · rfl

theorem applies_appendedBy {a : Action} (h : Applies a) : appendedBy a = [] := by
  cases a <;> first | exact h.elim | rfl

theorem tipTerm_quiet {r : RaftNode × List Action} (h : ∀ a ∈ r.2, appendedBy a = [])
    (hterm : r.1.lastLogTerm = n.lastLogTerm) : TipTerm n r := by
  rw [TipTerm, appended_nil h]
  exact hterm

theorem tipTerm_opening (h : ∀ a ∈ opening, Prelude a) (hterm : k.lastLogTerm = n.lastLogTerm) :
    TipTerm n (k, opening) :=
  tipTerm_quiet (fun a ha => Prelude.appendedBy (h a ha)) hterm

theorem tipTerm_refl (n : RaftNode) : TipTerm n (n, []) := rfl

theorem TipTerm.trans (h : TipTerm n (m, opening)) (h' : TipTerm m (k, more)) :
    TipTerm n (k, opening ++ more) := by
  unfold TipTerm at h h' ⊢
  dsimp only at h h' ⊢
  rw [h', h, appended_append, List.getLast?_append]
  cases (appended more).getLast? <;> rfl

theorem advanceCommit_tipTerm (n : RaftNode) : TipTerm n n.advanceCommit := by
  obtain ⟨c, a, s, hnode⟩ := advanceCommit_fst n
  have hterm : n.advanceCommit.1.lastLogTerm = n.lastLogTerm := by rw [hnode]
  exact tipTerm_quiet (fun x hx => applies_appendedBy (advanceCommit_applies n x hx)) hterm

theorem becomeFollower_tipTerm (n : RaftNode) (term : ℕ) (leaderId : Option NodeId) :
    TipTerm n (n.becomeFollower term leaderId) :=
  tipTerm_opening (becomeFollower_stretch n term leaderId).opens rfl

theorem becomeLeader_tipTerm (n : RaftNode) : TipTerm n n.becomeLeader := by
  have henter : TipTerm n (n.enterLeader, [.becomeLeader, .appendEntries [n.noOpEntry]]) := rfl
  exact henter.trans (advanceCommit_tipTerm n.enterLeader)

theorem becomeCandidate_tipTerm (n : RaftNode) : TipTerm n n.becomeCandidate := by
  have henter :
      TipTerm n (n.enterCandidate, .persistHardState :: n.enterCandidate.voteRequests) := by
    refine tipTerm_quiet (fun a ha => ?_) rfl
    rcases List.mem_cons.mp ha with rfl | ha
    · rfl
    · obtain ⟨p, -, rfl⟩ := List.mem_map.mp ha
      rfl
  unfold RaftNode.becomeCandidate
  split_ifs
  · exact henter.trans (becomeLeader_tipTerm _)
  · exact henter

theorem becomePreCandidate_tipTerm (n : RaftNode) : TipTerm n n.becomePreCandidate := by
  have henter : TipTerm n (n.enterPreCandidate, n.enterPreCandidate.preVoteRequests) := by
    refine tipTerm_quiet (fun a ha => ?_) rfl
    obtain ⟨p, -, rfl⟩ := List.mem_map.mp ha
    rfl
  unfold RaftNode.becomePreCandidate
  split_ifs
  · exact henter.trans (becomeCandidate_tipTerm _)
  · exact henter

theorem handleTick_tipTerm (n : RaftNode) : TipTerm n n.handleTick := by
  obtain ⟨t, c, ht⟩ := ticked_eq n
  have hticked : TipTerm n (ticked n, n.advanceClock.scheduleFetch.2) := by
    refine tipTerm_quiet (fun a ha => ?_) (by rw [ht])
    obtain ⟨dest, rfl⟩ := PersistOrder.scheduleFetch_sends ha
    rfl
  rw [handleTick_eq]
  split_ifs
  · exact hticked.trans (becomeFollower_tipTerm _ _ _)
  · unfold RaftNode.electionTimeout
    split_ifs
    · exact hticked.trans (becomePreCandidate_tipTerm _)
    · exact hticked

theorem handleVoteRequest_tipTerm (n : RaftNode) (req : VoteRequest) :
    TipTerm n (n.handleVoteRequest req) := by
  rcases handleVoteRequest_cases n req with heq | ⟨-, heq | ⟨-, heq⟩⟩ <;> rw [heq]
  · exact tipTerm_refl n
  · exact tipTerm_quiet (by simp [refusing, appendedBy]) rfl
  · refine tipTerm_quiet (fun a ha => ?_) (answered_progress n req).lastLogTerm
    rcases mem_answering ha with rfl | rfl | rfl <;> rfl

theorem handleVoteResponse_tipTerm (n : RaftNode) (sender : NodeId) (resp : VoteResponse) :
    TipTerm n (n.handleVoteResponse sender resp) := by
  rcases handleVoteResponse_cases n sender resp with heq | heq | ⟨-, heq | ⟨-, heq⟩⟩ <;> rw [heq]
  · exact tipTerm_refl n
  · exact becomeFollower_tipTerm _ _ _
  · rfl
  · exact becomeLeader_tipTerm (withVote n sender)

theorem handlePreVoteResponse_tipTerm (n : RaftNode) (sender : NodeId) (resp : PreVoteResponse) :
    TipTerm n (n.handlePreVoteResponse sender resp) := by
  rcases handlePreVoteResponse_cases n sender resp with heq | heq | ⟨-, heq | ⟨-, heq⟩⟩ <;> rw [heq]
  · exact tipTerm_refl n
  · exact becomeFollower_tipTerm _ _ _
  · rfl
  · exact becomeCandidate_tipTerm (withPreVote n sender)

theorem handleFetchRequest_tipTerm (n : RaftNode) (req : FetchRequest) :
    TipTerm n (n.handleFetchRequest req) := by
  rcases handleFetchRequest_cases n req with heq | heq | ⟨-, ⟨_, heq⟩ | heq⟩ <;> rw [heq]
  · exact tipTerm_refl n
  · exact becomeFollower_tipTerm _ _ _
  · rfl
  · rfl

theorem takeEntries_tipTerm (h : n.takeEntries entries = some (m, actions)) :
    TipTerm n (m, actions) := by
  rcases takeEntries_spec h with ⟨rfl, rfl, rfl⟩ | ⟨first, last, -, hlast, -, -, rfl, rfl⟩
  · exact tipTerm_refl _
  · simp [TipTerm, appended, appendedBy, hlast, RaftNode.setLastLog]

theorem observeHighWatermark_tipTerm (n : RaftNode) (highWatermark : ℕ) :
    TipTerm n (n.observeHighWatermark highWatermark) := by
  obtain ⟨c, a, s, hnode⟩ := observeHighWatermark_fst n highWatermark
  have hterm : (n.observeHighWatermark highWatermark).1.lastLogTerm = n.lastLogTerm := by rw [hnode]
  refine tipTerm_quiet (fun x hx => ?_) hterm
  unfold RaftNode.observeHighWatermark at hx
  dsimp only at hx
  split_ifs at hx
  · exact applies_appendedBy (drainApplyPipeline_applies _ x hx)
  · cases hx

theorem handleFetchResponse_tipTerm (n : RaftNode) (resp : FetchResponse) :
    TipTerm n (n.handleFetchResponse resp) := by
  rcases handleFetchResponse_cases n resp with heq | ⟨m, opening, haccept, hacc, heq⟩ <;> rw [heq]
  · exact tipTerm_refl n
  · have haccepted : TipTerm n (m, opening) :=
      tipTerm_opening (acceptLeader_stretch haccept).opens hacc.progress.lastLogTerm
    refine haccepted.trans ?_
    rcases payload_cases m resp with
      ⟨_, hp⟩ | ⟨_, -, -, hp⟩ | hp | ⟨taken, appends, htake, hp⟩ <;> rw [hp]
    · rfl
    · rfl
    · exact tipTerm_refl m
    · exact (takeEntries_tipTerm htake).trans (observeHighWatermark_tipTerm _ _)

theorem handleClientPropose_tipTerm (n : RaftNode) (command : Bytes) :
    TipTerm n (n.handleClientPropose command) := by
  unfold RaftNode.handleClientPropose
  split_ifs
  · exact tipTerm_refl n
  · have hset : TipTerm n (n.setLastLog (satAdd n.lastLogIndex 1) n.currentTerm,
        [.appendEntries [⟨satAdd n.lastLogIndex 1, n.currentTerm, .command command⟩]]) := rfl
    exact hset.trans (advanceCommit_tipTerm _)

theorem step_tipTerm {event : DriverEvent} {input : Input} (h : inputOf event = some input)
    (n : RaftNode) : TipTerm n (n.step input) := by
  cases event <;> simp only [inputOf, Option.some.injEq, reduceCtorEq] at h <;> subst h
  case tick => exact handleTick_tipTerm n
  case inboundVote req => exact handleVoteRequest_tipTerm n req
  case inboundPreVote req =>
    refine tipTerm_quiet (fun a ha => ?_) rfl
    obtain ⟨-, _, rfl⟩ := mem_handlePreVoteRequest ha
    rfl
  case inboundFetch req => exact handleFetchRequest_tipTerm n req
  case voteResult peer response => exact handleVoteResponse_tipTerm n peer response
  case preVoteResult peer response => exact handlePreVoteResponse_tipTerm n peer response
  case fetchResult response => exact handleFetchResponse_tipTerm n response
  case client request command => exact handleClientPropose_tipTerm n command

theorem issued_tipTerm {r : RaftNode × List Action} (h : Issued n r) : TipTerm n r := by
  cases h with
  | step hinput => exact step_tipTerm hinput n
  | deposed term => exact becomeFollower_tipTerm n term none

variable {σ : Type} {d d' d'' : Driver σ}

/-! ## Growing logs -/

def HandsOff : Action → Prop
  | .truncateLog _ | .installSnapshot .. => False
  | _ => True

structure Grew (d : Driver σ) (entries : List Entry) (d' : Driver σ) : Prop where
  entries : d'.logStore.entries = d.logStore.entries ++ entries
  term : d'.node.lastLogTerm = d.node.lastLogTerm
  snapshot : d'.node.lastSnapshotMeta = d.node.lastSnapshotMeta

theorem handleFetchRequestAcked_tip (n : RaftNode) (replica : NodeId) (confirmed : ℕ) :
    (n.handleFetchRequestAcked replica confirmed).1.lastLogTerm = n.lastLogTerm ∧
      (n.handleFetchRequestAcked replica confirmed).1.lastSnapshotMeta = n.lastSnapshotMeta := by
  unfold RaftNode.handleFetchRequestAcked
  split_ifs
  · exact ⟨rfl, rfl⟩
  · exact ⟨rfl, rfl⟩
  · obtain ⟨c, a, s, hnode⟩ := advanceCommit_fst (n.updatePeer replica (n.creditPeer confirmed))
    rw [hnode]
    exact ⟨rfl, rfl⟩

theorem term_of_core (h : core m = core n) : m.lastLogTerm = n.lastLogTerm := by
  have ht : (core m).lastLogTerm = (core n).lastLogTerm := congrArg RaftNode.lastLogTerm h
  exact ht

theorem snapshot_of_core (h : core m = core n) : m.lastSnapshotMeta = n.lastSnapshotMeta :=
  (marks_of_core h).lastSnapshotMeta

theorem Kept.grew (h : Kept d d') : Grew d [] d' :=
  ⟨by rw [h.logStore, List.append_nil], term_of_core h.node, snapshot_of_core h.node⟩

theorem Grew.trans {xs ys : List Entry} (h : Grew d xs d') (h' : Grew d' ys d'') :
    Grew d (xs ++ ys) d'' :=
  ⟨by rw [h'.entries, h.entries, List.append_assoc], h'.term.trans h.term,
    h'.snapshot.trans h.snapshot⟩

theorem Pumped.grew (h : Pumped d d') : Grew d [] d' :=
  ⟨by rw [h.logStore, List.append_nil], term_of_core h.node, snapshot_of_core h.node⟩

/-! ## Tips -/

def tipTerm (snap : Option SnapshotMeta) (s : MemoryLogStore) : ℕ :=
  match snap with
  | some x => if s.lastIndex < x.lastIncludedIndex then x.lastIncludedTerm else s.lastTerm
  | none => s.lastTerm

theorem effectiveLogTip_snd (d : Driver σ) :
    d.effectiveLogTip.2 = tipTerm d.node.lastSnapshotMeta d.logStore := by
  unfold Driver.effectiveLogTip tipTerm
  cases d.node.lastSnapshotMeta with
  | none => rfl
  | some snap =>
    dsimp only
    split_ifs
    · rfl
    · rfl

theorem tipTerm_congr {s s' : MemoryLogStore} (snap : Option SnapshotMeta)
    (h : s'.entries = s.entries) : tipTerm snap s' = tipTerm snap s := by
  unfold tipTerm MemoryLogStore.lastIndex MemoryLogStore.lastTerm
  rw [h]

/-- A log that reaches to the snapshot or beyond it, and is not empty, ends in the tip. -/
theorem tipTerm_of_log {base tip : ℕ} {snap : Option SnapshotMeta} {s : MemoryLogStore}
    (h : Spans base tip s.entries) (htip : snapIndex snap ≤ tip) (hne : s.entries ≠ []) :
    tipTerm snap s = s.lastTerm := by
  have hlast := h.lastIndex hne
  cases snap with
  | none => rfl
  | some x =>
    rw [snapIndex, Option.map_some, Option.getD_some] at htip
    exact if_neg (by omega)

theorem lastTerm_of_termAt {base tip term : ℕ} {s : MemoryLogStore} (h : Spans base tip s.entries)
    (ht : s.termAt tip = some term) : s.entries ≠ [] ∧ s.lastTerm = term := by
  obtain ⟨e, hfind, rfl⟩ := Option.map_eq_some_iff.mp ht
  have hmem := List.mem_of_find?_eq_some hfind
  have hindex : e.index = tip := by simpa using List.find?_some hfind
  have hne : s.entries ≠ [] := List.ne_nil_of_mem hmem
  refine ⟨hne, ?_⟩
  obtain ⟨l, x, hl⟩ := (List.eq_nil_or_concat' s.entries).resolve_left hne
  have hx : x ∈ s.entries := by simp [hl]
  have hlast := h.lastIndex hne
  have hxi : x.index = tip := by
    rw [← hlast, MemoryLogStore.lastIndex, hl]
    simp
  have hsame : x = e := h.positioned.unique hx hmem (hxi.trans hindex.symm)
  rw [MemoryLogStore.lastTerm, hl, ← hsame]
  simp

/-- Purging the log up to a newer snapshot that has the log's own term leaves the tip. -/
theorem tipTerm_purged {base tip : ℕ} {snap : Option SnapshotMeta} {s : MemoryLogStore}
    {x : SnapshotMeta} (h : Spans base tip s.entries) (hbase : base ≤ snapIndex snap)
    (hsnap : snapIndex snap ≤ tip) (hx : x.lastIncludedIndex ≤ tip)
    (hnew : snap = none ∨ snapIndex snap < x.lastIncludedIndex)
    (hlabel : x.lastIncludedIndex ≤ snapIndex snap ∨
      s.termAt x.lastIncludedIndex = some x.lastIncludedTerm) :
    tipTerm (some x) (s.purgePrefix x.lastIncludedIndex) = tipTerm snap s := by
  have hle : base ≤ x.lastIncludedIndex := by
    rcases hnew with hnone | hlt
    · rw [hnone] at hbase
      exact hbase.trans (Nat.zero_le _)
    · omega
  have hleft : Spans x.lastIncludedIndex tip (s.purgePrefix x.lastIncludedIndex).entries :=
    h.above hle hx
  by_cases hempty : (s.purgePrefix x.lastIncludedIndex).entries = []
  · have hend : x.lastIncludedIndex = tip := by
      have := hleft.length
      rw [hempty, List.length_nil] at this
      exact this
    have hzero : (s.purgePrefix x.lastIncludedIndex).lastIndex = 0 := by
      rw [MemoryLogStore.lastIndex, hempty]
      rfl
    rcases Nat.eq_zero_or_pos x.lastIncludedIndex with hx0 | hpos
    · -- a snapshot of nothing
      have hlast : (s.purgePrefix x.lastIncludedIndex).lastTerm = s.lastTerm := by
        have hnil : s.entries = [] := by
          have := h.length
          exact List.length_eq_zero_iff.mp (by omega)
        rw [MemoryLogStore.lastTerm, MemoryLogStore.lastTerm, hempty, hnil]
      have hnone : snap = none := hnew.resolve_right (by omega)
      rw [hnone, tipTerm, if_neg (by omega), hlast]
      rfl
    · have hterm : s.termAt tip = some x.lastIncludedTerm := by
        rw [← hend]
        refine hlabel.resolve_left (fun hold => ?_)
        rcases hnew with hnone | hlt
        · rw [hnone] at hold
          exact absurd hold (Nat.not_le.mpr hpos)
        · omega
      obtain ⟨hne, hlast⟩ := lastTerm_of_termAt h hterm
      rw [tipTerm_of_log h hsnap hne, hlast, tipTerm, if_pos (by omega)]
  · have hne : s.entries ≠ [] := by
      intro hnil
      apply hempty
      show s.entries.filter _ = []
      rw [hnil]
      rfl
    have hlast : (s.purgePrefix x.lastIncludedIndex).lastTerm = s.lastTerm := by
      obtain ⟨l, y, hl⟩ := (List.eq_nil_or_concat' s.entries).resolve_left hne
      have hy : y.index = tip := by
        rw [← h.lastIndex hne, MemoryLogStore.lastIndex, hl]
        simp
      have hmore := List.length_pos_iff.mpr hempty
      have hlen := hleft.length
      have hkeep : x.lastIncludedIndex < y.index := by omega
      show ((s.entries.filter (fun e => decide (x.lastIncludedIndex < e.index))).getLast?.map
        Entry.term).getD 0 = _
      rw [MemoryLogStore.lastTerm, hl, List.filter_append, List.filter_singleton]
      simp [hkeep]
    have hreach : snapIndex (some x) ≤ tip := hx
    rw [tipTerm_of_log hleft hreach hempty, tipTerm_of_log h hsnap hne, hlast]

theorem termAt_extend {s : MemoryLogStore} {index term : ℕ} (h : s.termAt index = some term)
    (entries : List Entry) : (PositionedLog.extend s entries).termAt index = some term := by
  obtain ⟨e, hfind, rfl⟩ := Option.map_eq_some_iff.mp h
  rw [MemoryLogStore.termAt, extend_entries, List.find?_append, hfind]
  rfl

theorem termAt_retain {s : MemoryLogStore} {index : ℕ} {keep : Entry → Bool}
    (h : ∀ e : Entry, e.index = index → keep e = true) : (s.retain keep).termAt index =
      s.termAt index := by
  have hfilter : (s.retain keep).entries = s.entries.filter keep := rfl
  rw [MemoryLogStore.termAt, hfilter, List.find?_filter, MemoryLogStore.termAt]
  congr 2
  funext e
  by_cases he : e.index = index
  · simp [he, h e he]
  · simp [he]

/-! ## Mirrors -/

/-- A snapshot under way is labelled with the term of the log, unless it is already superseded. -/
def Rooted (d : Driver σ) (index term : ℕ) : Prop :=
  index ≤ snapIndex d.node.lastSnapshotMeta ∨ d.logStore.termAt index = some term

structure Mirrors (d : Driver σ) : Prop where
  term : d.node.lastLogTerm = tipTerm d.node.lastSnapshotMeta d.logStore
  jobs : ∀ job ∈ d.snapshotJobs, Rooted d job.throughIndex job.throughTerm
  done : ∀ c ∈ d.snapshotDone, Rooted d c.throughIndex c.throughTerm

theorem Rooted.congr {index term : ℕ} (h : Rooted d index term)
    (hsnap : d'.node.lastSnapshotMeta = d.node.lastSnapshotMeta)
    (hentries : d'.logStore.entries = d.logStore.entries) : Rooted d' index term := by
  unfold Rooted MemoryLogStore.termAt at h ⊢
  rw [hsnap, hentries]
  exact h

theorem Mirrors.kept (h : Mirrors d) (hk : Kept d d') : Mirrors d' := by
  have hsnap := snapshot_of_core hk.node
  have hentries : d'.logStore.entries = d.logStore.entries := by rw [hk.logStore]
  refine ⟨?_, fun job hjob => ?_, fun c hc => ?_⟩
  · rw [term_of_core hk.node, hsnap, tipTerm_congr _ hentries]
    exact h.term
  · rw [hk.jobs] at hjob
    exact (h.jobs job hjob).congr hsnap hentries
  · rw [hk.done] at hc
    exact (h.done c hc).congr hsnap hentries

theorem Mirrors.cut (h : Mirrors d) (ho : Orderly d) (hroom : d.node.lastLogIndex < u64Max)
    {endOffset : ℕ} (hc : Cut d endOffset d') : Mirrors d' := by
  obtain ⟨m, pending, hm, -, hkept⟩ := hc.after
  have hwithin := ho.within
  have hbound : d.node.commitIndex < satAdd endOffset 1 := by
    have := hc.keeps
    unfold satAdd
    omega
  have hroot (index term : ℕ) (hle : index ≤ d.node.commitIndex) (hr : Rooted d index term) :
      Rooted (Driver.mirrorLogTip { d with
        node := m
        pending := pending
        logStore := d.logStore.truncateFrom (satAdd endOffset 1) }) index term := by
    rcases hr with hold | hterm
    · left
      show index ≤ snapIndex m.lastSnapshotMeta
      rwa [hm.lastSnapshotMeta]
    · right
      show (d.logStore.truncateFrom (satAdd endOffset 1)).termAt index = some term
      rw [MemoryLogStore.truncateFrom, termAt_retain (fun e he => by simp; omega)]
      exact hterm
  refine Mirrors.kept ⟨effectiveLogTip_snd _, fun job hjob => ?_, fun c hdone => ?_⟩ hkept
  · exact hroot _ _ (ho.jobs job hjob) (h.jobs job hjob)
  · exact hroot _ _ (ho.done c hdone).1 (h.done c hdone)

theorem Mirrors.worked (h : Mirrors d) {job : SnapshotJob} {rest : List SnapshotJob}
    {c : SnapshotCompletion} (hw : Worked d job rest c d') : Mirrors d' := by
  obtain ⟨w, store, faults, trace, -, -, -, rfl⟩ := hw.driver
  have hjobs := hw.jobs
  refine ⟨h.term, fun x hx => ?_, fun x hx => ?_⟩
  · refine h.jobs x ?_
    rw [hjobs]
    exact List.mem_cons_of_mem _ hx
  · rcases List.mem_append.mp hx with hx | hx
    · exact h.done x hx
    · rw [List.mem_singleton.mp hx, hw.finishes.index, hw.finishes.term]
      refine h.jobs job ?_
      rw [hjobs]
      exact List.mem_cons_self

theorem Mirrors.completed (h : Mirrors d) (ho : Orderly d) {c : SnapshotCompletion}
    {rest : List SnapshotCompletion} (hc : Completed d c rest d') : Mirrors d' := by
  obtain ⟨base, hbase, hspans⟩ := ho.log
  have hin : c ∈ d.snapshotDone := by
    rw [hc.done]
    exact List.mem_cons_self
  have hrest : ∀ x ∈ rest, x ∈ d.snapshotDone := by
    intro x hx
    rw [hc.done]
    exact List.mem_cons_of_mem _ hx
  obtain ⟨hthrough, hindex, hterm⟩ := ho.done c hin
  have hwithin := ho.within
  have hkept := hc.after
  have hanchored := DriverJournal.updateSnapshotAnchor_entries d.logStore c.throughTerm
    c.throughIndex
  unfold compacted RaftNode.handleSnapshotComplete at hkept
  by_cases hnew : isSnapshotMetaNewer d.node.lastSnapshotMeta c.metadata
  · rw [if_pos hnew, if_pos hnew] at hkept
    refine Mirrors.kept ?_ hkept
    have hroot (index term : ℕ) (hr : Rooted d index term) : index ≤ c.metadata.lastIncludedIndex ∨
        ((d.logStore.updateSnapshotAnchor c.throughTerm c.throughIndex).purgePrefix
          c.metadata.lastIncludedIndex).termAt index = some term := by
      by_cases hle : index ≤ c.metadata.lastIncludedIndex
      · exact .inl hle
      · right
        rcases hr with hold | hlabel
        · rcases isSnapshotMetaNewer_iff.mp hnew with hnone | hlt
          · rw [hnone] at hold
            exact absurd (hold.trans (Nat.zero_le _)) hle
          · omega
        · rw [MemoryLogStore.purgePrefix, termAt_retain (fun e he => by simp; omega),
            MemoryLogStore.termAt, hanchored]
          exact hlabel
    refine ⟨?_, fun job hjob => hroot _ _ (h.jobs job hjob),
      fun x hx => hroot _ _ (h.done x (hrest x hx))⟩
    have hentries : Spans base d.node.lastLogIndex
        (d.logStore.updateSnapshotAnchor c.throughTerm c.throughIndex).entries := hanchored ▸ hspans
    have hpurged := tipTerm_purged hentries hbase (ho.covered.trans hwithin) (by omega)
      (isSnapshotMetaNewer_iff.mp hnew)
      (by
        rw [hindex, hterm, MemoryLogStore.termAt, hanchored]
        exact h.done c hin)
    exact h.term.trans ((tipTerm_congr _ hanchored).symm.trans hpurged.symm)
  · rw [if_neg hnew, if_neg hnew] at hkept
    refine Mirrors.kept ?_ hkept
    refine ⟨?_, fun job hjob => (h.jobs job hjob).congr rfl hanchored,
      fun x hx => (h.done x (hrest x hx)).congr rfl hanchored⟩
    exact h.term.trans (tipTerm_congr d.node.lastSnapshotMeta hanchored).symm

/-! ## The engine and the log -/

/-- The engine mirrors the effective tip, the log has no gaps, and it has everything between the
snapshot and the tip. -/
structure MatchesLog (d : Driver σ) : Prop where
  tip : (d.node.lastLogIndex, d.node.lastLogTerm) = d.effectiveLogTip
  contiguous : ∃ base, Positioned base d.logStore.entries
  present : ∀ index, snapIndex d.node.lastSnapshotMeta < index → index ≤ d.node.lastLogIndex →
    ∃ e ∈ d.logStore.entries, e.index = index

theorem Mirrors.matchesLog (h : Mirrors d) (ho : Orderly d) : MatchesLog d := by
  obtain ⟨base, hbase, hspans⟩ := ho.log
  refine ⟨?_, ⟨base, hspans.positioned⟩, fun index hlow hhigh => ?_⟩
  · have hindex := effectiveLogTip_eq hspans hbase (ho.covered.trans ho.within)
    rw [h.term, ← effectiveLogTip_snd, ← hindex]
  · have hlen := hspans.length
    obtain ⟨e, he⟩ : ∃ e, d.logStore.entries[index - base - 1]? = some e :=
      ⟨_, List.getElem?_eq_getElem (by omega)⟩
    refine ⟨e, List.mem_of_getElem? he, ?_⟩
    have := hspans.positioned _ _ he
    omega

/-! ## Batches in the driver -/

section Turns

variable [StateMachine σ]

theorem did_grew {a : Action} (h : Did d a d') (ha : HandsOff a) : Grew d (appendedBy a) d' := by
  cases h with
  | neutral neutral kept =>
    rw [Prelude.appendedBy (.inl neutral)]
    exact Kept.grew kept
  | stepDown kept =>
    exact ⟨(Kept.grew kept).entries, (Kept.grew kept).term, (Kept.grew kept).snapshot⟩
  | append stored kept =>
    refine ⟨?_, (Kept.grew kept).term, (Kept.grew kept).snapshot⟩
    rw [kept.logStore]
    rfl
  | cut kept => exact ha.elim
  | purge kept => exact ha.elim
  | pipe did =>
    have hnone : appendedBy a = [] := by cases did <;> rfl
    rw [hnone]
    exact Pumped.grew did.pumped
  | covered old kept => exact ha.elim
  | install installed => exact ha.elim
  | answered kept => exact Kept.grew kept
  | acked kept node ran =>
    have hpumped := Pumped.grew (pumped_of_sequence ran)
    refine ⟨?_, hpumped.term.trans ?_, hpumped.snapshot.trans ?_⟩
    · rw [hpumped.entries, kept.logStore]
      rfl
    · rw [node]
      exact (handleFetchRequestAcked_tip _ _ _).1
    · rw [node]
      exact (handleFetchRequestAcked_tip _ _ _).2

theorem sequence_grew (h : Sequence Did d actions d') (ha : ∀ a ∈ actions, HandsOff a) :
    Grew d (appended actions) d' := by
  induction h with
  | nil s => exact Kept.grew (.refl s)
  | @cons s u v a rest first others ih =>
    have hfirst := did_grew first (ha a List.mem_cons_self)
    exact hfirst.trans (ih (fun b hb => ha b (List.mem_cons_of_mem _ hb)))

theorem prelude_handsOff {a : Action} (h : Prelude a) : HandsOff a := by
  rcases h with hneutral | rfl
  · cases a <;> first | exact hneutral.elim | trivial
  · trivial

theorem applies_handsOff {a : Action} (h : Applies a) : HandsOff a := by
  cases a <;> first | exact h.elim | trivial

theorem appends_handsOff {a : Action} (h : a ∈ appends entries) : HandsOff a := by
  unfold appends at h
  split_ifs at h
  · cases h
  · rw [List.mem_singleton.mp h]
    trivial

theorem outline_grew {r : RaftNode × List Action} {registered : List (ℕ × RequestId)}
    (hout : Outline d.node r) (happlied : d.node.lastApplied = d.node.commitIndex)
    (hb : d.node.role = .leader → Bounded d.node)
    (hreg : registered ≠ [] → d.node.role = .leader)
    (hrun : Sequence Did { d with node := r.1, pending := d.pending ++ registered } r.2 d') :
    (Advanced d registered (appended r.2) d' ∧ d'.node.lastLogTerm = r.1.lastLogTerm) ∨
      ∃ endOffset, Cut d endOffset d' := by
  have hgrown (hoff : ∀ a ∈ r.2, HandsOff a) (es : List Entry)
    (hadv : Advanced d registered es d') :
      Advanced d registered (appended r.2) d' ∧ d'.node.lastLogTerm = r.1.lastLogTerm := by
    have hgrew := sequence_grew hrun hoff
    have hentries : d'.logStore.entries = d.logStore.entries ++ es := by
      rw [hadv.logStore]
      rfl
    have hsame : es = appended r.2 :=
      List.append_cancel_left (hentries.symm.trans hgrew.entries)
    exact ⟨hsame ▸ hadv, hgrew.term⟩
  rcases outline_ran hout happlied hb hreg hrun with ⟨es, hadv⟩ | hcut
  · cases hout with
    | grow stretch =>
      refine .inl (hgrown (fun a ha => ?_) es hadv)
      rcases List.mem_append.mp ha with ha | ha
      · exact prelude_handsOff (stretch.opens a ha)
      · exact appends_handsOff ha
    | drain stretch above within room =>
      refine .inl (hgrown (fun a ha => ?_) es hadv)
      rcases List.mem_append.mp ha with ha | ha
      · rcases List.mem_append.mp ha with ha | ha
        · exact prelude_handsOff (stretch.opens a ha)
        · exact appends_handsOff ha
      · exact applies_handsOff (drainApplyPipeline_applies _ a ha)
    | cut stretch keeps deposed neutral =>
      exact .inr ⟨_, cut_ran stretch keeps deposed neutral hreg hrun⟩
    | serve req leader =>
      refine .inl (hgrown (fun a ha => ?_) es hadv)
      rw [List.mem_singleton.mp ha]
      trivial
  · exact .inr hcut

/-! ## Turns keep the mirror -/

theorem Mirrors.advanced (h : Mirrors d) (ho' : Orderly d') {registered : List (ℕ × RequestId)}
    (ha : Advanced d registered entries d')
    (hterm : d'.node.lastLogTerm = (entries.getLast?.map Entry.term).getD d.node.lastLogTerm) :
    Mirrors d' := by
  have hroot (index term : ℕ) (hr : Rooted d index term) : Rooted d' index term := by
    rcases hr with hold | hlabel
    · left
      rwa [ha.snapshotMeta]
    · right
      rw [ha.logStore]
      exact termAt_extend hlabel entries
  refine ⟨?_, fun job hjob => ?_, fun c hc => ?_⟩
  · by_cases hnil : entries = []
    · subst hnil
      have hsame : d'.logStore.entries = d.logStore.entries := by
        rw [ha.logStore, extend_entries, List.append_nil]
      rw [ha.snapshotMeta, tipTerm_congr _ hsame, ← h.term]
      exact hterm
    · obtain ⟨base, -, hspans⟩ := ho'.log
      have hentries : d'.logStore.entries = d.logStore.entries ++ entries := by
        rw [ha.logStore, extend_entries]
      have hne : d'.logStore.entries ≠ [] := by
        rw [hentries]
        exact List.append_ne_nil_of_right_ne_nil _ hnil
      rw [tipTerm_of_log hspans (ho'.covered.trans ho'.within) hne, hterm,
        MemoryLogStore.lastTerm, hentries, List.getLast?_append]
      rw [List.getLast?_eq_getLast_of_ne_nil hnil]
      rfl
  · obtain ⟨wants, hqueued, -, -⟩ := ha.queued
    rcases hqueued with ⟨-, -, hjobs⟩ | ⟨-, -, -, term, voterSet, serializer, hlabel, -, hjobs⟩
    · rw [hjobs] at hjob
      exact hroot _ _ (h.jobs job hjob)
    · rw [hjobs, List.mem_append, List.mem_singleton] at hjob
      rcases hjob with hjob | rfl
      · exact hroot _ _ (h.jobs job hjob)
      · exact .inr hlabel
  · rw [ha.done] at hc
    exact hroot _ _ (h.done c hc)

theorem mirrors_installed (ho : Orderly d) {metadata : SnapshotMeta} {data : Bytes}
    (hi : Installed d metadata data d') : Mirrors d' := by
  obtain ⟨store, sm, -, -, hkept⟩ := hi.after
  have hnew := hi.newer
  have happlied := ho.applied
  have hcovered := ho.covered
  have hnewer : isSnapshotMetaNewer d.node.lastSnapshotMeta (renamed metadata) = true :=
    isSnapshotMetaNewer_iff.mpr (.inr (by
      show _ < metadata.lastIncludedIndex
      omega))
  have hmeta : (d.node.handleSnapshotInstalled (renamed metadata)).lastSnapshotMeta =
      some (renamed metadata) := if_pos hnewer
  -- the installed snapshot supersedes everything that was under way
  have hroot (index term : ℕ) (hle : index ≤ d.node.commitIndex) :
      Rooted (Driver.mirrorLogTip { d with
        node := d.node.handleSnapshotInstalled (renamed metadata)
        logStore := behindSnapshot d.logStore metadata
        snapshotStore := store
        stateMachine := sm }) index term := by
    left
    show index ≤ snapIndex (d.node.handleSnapshotInstalled (renamed metadata)).lastSnapshotMeta
    rw [hmeta]
    show index ≤ metadata.lastIncludedIndex
    omega
  refine Mirrors.kept ⟨effectiveLogTip_snd _, fun job hjob => ?_, fun c hc => ?_⟩ hkept
  · exact hroot _ _ (ho.jobs job hjob)
  · exact hroot _ _ (ho.done c hc).1

theorem Mirrors.triggered (h : Mirrors d) {reply : Option RequestId}
    (hc : Captured { d with node := { d.node with snapshotInFlight := true } }
      d.node.commitIndex reply d') : Mirrors d' := by
  obtain ⟨term, serializer, hlabel, -, hkept⟩ := hc.job
  refine Mirrors.kept ?_ hkept
  refine ⟨h.term, fun job hjob => ?_, h.done⟩
  rcases List.mem_append.mp hjob with hjob | hjob
  · exact h.jobs job hjob
  · rw [List.mem_singleton.mp hjob]
    exact .inr hlabel

theorem Mirrors.shape (h : Mirrors d) (ho : Orderly d) (ho' : Orderly d') {event : DriverEvent}
    (hroom : d.node.lastLogIndex < u64Max) (hb : d.node.role = .leader → Bounded d.node)
    (hhalt : d.haltReason = none) (hrunning : d'.haltReason = none) (hs : Shape d event d') :
    Mirrors d' := by
  cases hs with
  | idle _ kept => exact h.kept kept
  | @batch _ r registered origin _ _ issued outline registers kept =>
    have hbatch := processActions_settles
      { d with node := r.1, pending := d.pending ++ registered } r.2 origin hhalt
    rcases hbatch with ⟨hseq, -⟩ | ⟨_, _, _, _, _, _, hbroken⟩
    · rcases outline_grew outline ho.applied hb registers.leads hseq with
        ⟨hadv, hterm⟩ | ⟨_, hcut⟩
      · refine h.advanced ho' (hadv.kept kept) ?_
        rw [term_of_core kept.node, hterm]
        exact issued_tipTerm issued
      · exact (h.cut ho hroom hcut).kept kept
    · exact absurd (kept.halt.symm.trans hrunning) hbroken.halt
  | @install _ snap data _ installing kept =>
    rcases processActions_settles d [.installSnapshot snap data] none hhalt with
      ⟨hseq, -⟩ | ⟨_, _, _, _, _, _, hbroken⟩
    · refine Mirrors.kept ?_ kept
      have hnewer := installs_newer installing
      cases hseq.single with
      | neutral ha _ => exact ha.elim
      | pipe did => cases did
      | covered old _ => omega
      | install installed => exact mirrors_installed ho installed
    · exact absurd (kept.halt.symm.trans hrunning) hbroken.halt
  | trigger leader engine worker =>
    rcases handleTriggerSnapshot_outcome leader engine worker with hcap | hfail
    · exact h.triggered hcap
    · exact absurd hrunning hfail.halt
  | complete done =>
    rcases handleSnapshotCompleted_outcome done with hcomp | hfail
    · exact h.completed ho hcomp
    · exact absurd hrunning hfail.halt

theorem live_mirrors {e : LifeEvent} (h : Managed d) (hm : d.haltReason = none → Mirrors d)
    (hfit : FitLife d e) (hrunning : (Driver.live d e).haltReason = none) :
    Mirrors (Driver.live d e) := by
  cases e with
  | turn event =>
    have hfit : Fit d event := hfit
    obtain ⟨hhalt, hhandled, hkept⟩ := turn_running hrunning
    have ho := h.orderly hhalt
    have hshape := handleDriverEvent_shape hfit h.bounded
    have hpassed := shape_passed hshape hhalt ho.applied h.bounded hhandled
    exact ((hm hhalt).shape ho (ho.passed hfit.tip hpassed) hfit.tip h.bounded hhalt hhandled
      hshape).kept hkept
  | snapshotWorker =>
    show Mirrors d.runSnapshotWorker
    have hrunning : d.runSnapshotWorker.haltReason = none := hrunning
    rcases runSnapshotWorker_outcome d with ⟨-, hsame⟩ | ⟨job, rest, c, hworked⟩
    · rw [hsame] at hrunning ⊢
      exact hm hrunning
    · have hhalt : d.haltReason = none := by
        obtain ⟨_, _, _, _, -, -, -, heq⟩ := hworked.driver
        rw [heq] at hrunning
        exact hrunning
      exact (hm hhalt).worked hworked

theorem start_mirrors (config : ClusterConfig) (voterSet : Option VoterSet) (rng : List ℕ)
    (maxFetchBatch : ℕ) (initial : σ) (faults : List (Option Fault)) :
    Mirrors (start config voterSet rng maxFetchBatch initial faults Durable.fresh) := by
  rw [start_fresh]
  exact ⟨rfl, fun _ h => absurd h List.not_mem_nil, fun _ h => absurd h List.not_mem_nil⟩

/-! ## Whole lives -/

theorem mirror_matches_log (config : ClusterConfig) (voterSet : Option VoterSet) (rng : List ℕ)
    (maxFetchBatch : ℕ) (initial : σ) (faults : List (Option Fault)) {d : Driver σ}
    (hrun : Execution Driver.live FitLife
      (start config voterSet rng maxFetchBatch initial faults Durable.fresh) d)
    (hrunning : d.haltReason = none) : MatchesLog d := by
  have hstore : Recoverable Durable.fresh := ⟨0, le_refl _, positioned_nil 0, le_refl _⟩
  have hstep (s : Driver σ) (e : LifeEvent) (hs : Managed s ∧ (s.haltReason = none → Mirrors s))
      (hok : FitLife s e) : Managed (Driver.live s e) ∧
        ((Driver.live s e).haltReason = none → Mirrors (Driver.live s e)) :=
    ⟨live_managed hs.1 hok, fun h => live_mirrors hs.1 hs.2 hok h⟩
  obtain ⟨hmanaged, hmirrors⟩ := hrun.invariant hstep
    ⟨start_managed config voterSet rng maxFetchBatch initial faults Durable.fresh hstore,
      fun _ => start_mirrors config voterSet rng maxFetchBatch initial faults⟩
  exact (hmirrors hrunning).matchesLog (hmanaged.orderly hrunning)

end Turns

def compactingVoter : Driver NoOpStateMachine :=
  start { threeVoterConfig false 1 with maxLogEntriesBeforeCompaction := 1 }
  (some threeVoterSet) [] 64
    ⟨⟩ [] Durable.fresh

theorem mirror_matches_log_compacted :
    let d := replay Driver.live compactingVoter
      [.turn (.fetchResult ⟨"c", 1, 2, 2, [⟨1, 1, .noOp⟩, ⟨2, 1, .command [7]⟩], none, none, true⟩),
        .snapshotWorker, .turn .snapshotCompleted]
    MatchesLog d ∧ d.logStore.entries = [] ∧ d.effectiveLogTip = (2, 1) := by
  intro d
  have hrun : Execution Driver.live FitLife compactingVoter d :=
    replay_execution (by decide +kernel)
  have hrunning : d.haltReason = none := by decide +kernel
  refine ⟨mirror_matches_log _ _ _ _ _ _ hrun hrunning, ?_, ?_⟩
  · decide +kernel
  · decide +kernel

/-- The leader asks for a cut below the commit index while a snapshot of what is cut is under way.
Once that is complete, the log ends in the snapshot and the engine believes it to be empty. -/
theorem cut_under_snapshot_loses_tip :
    let d := replay Driver.live compactingVoter
      [.turn (.fetchResult ⟨"c", 1, 2, 2, [⟨1, 1, .noOp⟩, ⟨2, 1, .command [7]⟩], none, none, true⟩),
        .turn (.fetchResult ⟨"c", 1, 2, 2, [], some ⟨0, 0⟩, none, true⟩), .snapshotWorker,
        .turn .snapshotCompleted]
    Execution Driver.live Permitted compactingVoter d ∧ d.haltReason = none ∧
      d.node.lastLogIndex = 0 ∧ d.effectiveLogTip = (2, 1) := by
  intro d
  refine ⟨replay_execution (by decide +kernel), ?_, ?_, ?_⟩
  · decide +kernel
  · decide +kernel
  · decide +kernel

end MirroredTip
