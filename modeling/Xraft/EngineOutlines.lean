import Xraft.BatchOutcomes
import Xraft.LeaderAppendOnly
import Xraft.ApplyTiling

/-! # Outlines of engine steps

Every batch of the engine opens with elections and messages, then appends entries or cuts the log or
serves a fetch, and ends in the apply pipeline. The outline of a step says which of these it is and
how the marks that tie the engine to its stores move.
-/
namespace EngineOutlines

open ProtocolTypes ConsensusEngine DurableStores NodeDriver EngineTransitions PersistOrder
open ApplyPipeline PositionedLog LeaderStamps BatchFootprints ActionOutcomes BatchOutcomes
open LeaderAppendOnly

def Prelude (a : Action) : Prop := Neutral a ∨ a = .stepDown

structure SameMarks (n m : RaftNode) : Prop where
  commitIndex : m.commitIndex = n.commitIndex
  lastApplied : m.lastApplied = n.lastApplied
  lastSnapshotMeta : m.lastSnapshotMeta = n.lastSnapshotMeta
  snapshotInFlight : m.snapshotInFlight = n.snapshotInFlight

structure Extends (n : RaftNode) (entries : List Entry) (k : RaftNode) : Prop where
  positioned : Positioned n.lastLogIndex entries
  tip : k.lastLogIndex = n.lastLogIndex + entries.length

def appends (entries : List Entry) : List Action :=
  if entries = [] then [] else [.appendEntries entries]

/-- A leader goes on in its term, or gives its waiters up before anything else happens. -/
def Yields (n : RaftNode) (opening : List Action) (k : RaftNode) : Prop :=
  n.role = .leader →
    (k.role = .leader ∧ k.currentTerm = n.currentTerm) ∨ Action.stepDown ∈ opening

structure Stretch (n : RaftNode) (opening : List Action) (entries : List Entry) (k : RaftNode) :
    Prop where
  opens : ∀ a ∈ opening, Prelude a
  marks : SameMarks n k
  extend : Extends n entries k
  yields : Yields n opening k

inductive Outline (n : RaftNode) : RaftNode × List Action → Prop
  | grow {opening : List Action} {entries : List Entry} {k : RaftNode}
      (stretch : Stretch n opening entries k) : Outline n (k, opening ++ appends entries)
  | drain {opening : List Action} {entries : List Entry} {k : RaftNode} {c : ℕ}
      (stretch : Stretch n opening entries k) (above : k.commitIndex < c)
      (within : c ≤ k.lastLogIndex) (room : c < u64Max) :
      Outline n ((RaftNode.drainApplyPipeline { k with commitIndex := c }).1,
        opening ++ appends entries ++ (RaftNode.drainApplyPipeline { k with commitIndex := c }).2)
  | cut {opening closing : List Action} {k : RaftNode} {endOffset : ℕ}
      (stretch : Stretch n opening [] k) (keeps : n.commitIndex ≤ endOffset)
      (deposed : n.role = .leader → Action.stepDown ∈ opening)
      (neutral : ∀ a ∈ closing, Neutral a) : Outline n
        (k, opening ++ .truncateLog (.suffixFromInclusive (satAdd endOffset 1)) :: closing)
  | serve (req : FetchRequest) (leader : n.role = .leader) : Outline n (serving n req)

variable {n m k : RaftNode} {opening more : List Action} {entries : List Entry}

theorem SameMarks.refl (n : RaftNode) : SameMarks n n := ⟨rfl, rfl, rfl, rfl⟩

theorem SameMarks.trans (h : SameMarks n m) (h' : SameMarks m k) : SameMarks n k :=
  ⟨h'.commitIndex.trans h.commitIndex, h'.lastApplied.trans h.lastApplied,
    h'.lastSnapshotMeta.trans h.lastSnapshotMeta, h'.snapshotInFlight.trans h.snapshotInFlight⟩

theorem positioned_nil (i : ℕ) : Positioned i [] := fun _ _ h => by simp at h

theorem extends_nil (h : k.lastLogIndex = n.lastLogIndex) : Extends n [] k :=
  ⟨positioned_nil _, h⟩

theorem positioned_single {i : ℕ} {e : Entry} (h : e.index = i + 1) : Positioned i [e] := by
  intro j x hx
  cases j with
  | zero =>
    obtain rfl := Option.some.inj hx
    exact h
  | succ j => simp at hx

theorem prelude_sends {α : Type} {peers : List α} {f : α → Action} (hf : ∀ p, Neutral (f p)) :
    ∀ a ∈ peers.map f, Prelude a := by
  intro a ha
  obtain ⟨p, _, rfl⟩ := List.mem_map.mp ha
  exact .inl (hf p)

theorem stretch_idle (hopening : ∀ a ∈ opening, Prelude a) (marks : SameMarks n k)
    (tip : k.lastLogIndex = n.lastLogIndex) (hy : Yields n opening k) : Stretch n opening [] k :=
  ⟨hopening, marks, extends_nil tip, hy⟩

theorem Stretch.trans (h : Stretch n opening [] m) (h' : Stretch m more entries k) :
    Stretch n (opening ++ more) entries k := by
  have htip : m.lastLogIndex = n.lastLogIndex := h.extend.tip
  refine ⟨fun a ha => ?_, h.marks.trans h'.marks, ⟨?_, ?_⟩, fun hl => ?_⟩
  · exact (List.mem_append.mp ha).elim (h.opens a) (h'.opens a)
  · rw [← htip]
    exact h'.extend.positioned
  · rw [h'.extend.tip, htip]
  · rcases h.yields hl with ⟨hrole, hterm⟩ | hdown
    · rcases h'.yields hrole with ⟨hrole', hterm'⟩ | hdown
      · exact .inl ⟨hrole', hterm'.trans hterm⟩
      · exact .inr (List.mem_append_right _ hdown)
    · exact .inr (List.mem_append_left _ hdown)

theorem Outline.of_idle (h : Stretch n opening [] k) : Outline n (k, opening) := by
  have hgrow := Outline.grow h
  rwa [appends, if_pos rfl, List.append_nil] at hgrow

theorem outline_refl (n : RaftNode) : Outline n (n, []) :=
  .of_idle (stretch_idle (by simp) (.refl n) rfl (fun hl => .inl ⟨hl, rfl⟩))

theorem SameProgress.marks (h : SameProgress n m) : SameMarks n m :=
  ⟨h.commitIndex, h.lastApplied, h.lastSnapshotMeta, h.snapshotInFlight⟩

/-! ## Commit index -/

def Bounded (n : RaftNode) : Prop := ∀ p ∈ peerOffsets n, p.2 ≤ n.lastLogIndex

/-- A leader commits nothing beyond its log. -/
theorem tryAdvanceCommitIndex_within (h : Bounded n) {c : ℕ}
    (hc : n.tryAdvanceCommitIndex = some c) : n.commitIndex < c ∧ c ≤ n.lastLogIndex := by
  obtain ⟨hlt, rfl | ⟨p, hp, rfl⟩⟩ := tryAdvanceCommitIndex_cases hc
  · exact ⟨hlt, le_rfl⟩
  · exact ⟨hlt, h _ (List.mem_map_of_mem hp)⟩

theorem Stretch.advance (h : Stretch n opening entries k) (hb : Bounded k)
    (hroom : k.lastLogIndex < u64Max) :
    Outline n (k.advanceCommit.1, opening ++ appends entries ++ k.advanceCommit.2) := by
  unfold RaftNode.advanceCommit
  split
  · rename_i c hc
    obtain ⟨habove, hwithin⟩ := tryAdvanceCommitIndex_within hb hc
    exact .drain h habove hwithin (by omega)
  · rw [List.append_nil]
    exact .grow h

/-! ## Elections -/

theorem becomeFollower_stretch (n : RaftNode) (term : ℕ) (leaderId : Option NodeId) :
    Stretch n (n.becomeFollower term leaderId).2 [] (n.becomeFollower term leaderId).1 := by
  refine stretch_idle (fun a ha => ?_)
    (SameProgress.marks (becomeFollower_sameProgress n term leaderId)) rfl (fun hl => .inr ?_)
  · rcases List.mem_append.mp ha with ha | ha
    · split_ifs at ha
      · exact .inl (List.mem_singleton.mp ha ▸ trivial)
      · cases ha
    · split_ifs at ha
      · exact .inr (List.mem_singleton.mp ha)
      · cases ha
  · apply List.mem_append_right
    rw [if_pos (.inl hl)]
    exact List.mem_singleton_self _

theorem Stretch.becomeLeader (h : Stretch n opening [] k) (hroom : k.lastLogIndex + 1 < u64Max) :
    Outline n (k.becomeLeader.1, opening ++ k.becomeLeader.2) := by
  have hindex : k.noOpEntry.index = k.lastLogIndex + 1 := satAdd_eq (by omega)
  have hlead : Stretch k [.becomeLeader] [k.noOpEntry] k.enterLeader :=
    ⟨by simp [Prelude, Neutral], ⟨rfl, rfl, rfl, rfl⟩, ⟨positioned_single hindex, hindex⟩,
      fun _ => .inl ⟨rfl, rfl⟩⟩
  have hbounded : Bounded k.enterLeader := by
    intro p hp
    obtain ⟨q, hq, rfl⟩ := List.mem_map.mp hp
    obtain ⟨q', _, rfl⟩ := List.mem_map.mp hq
    exact Nat.zero_le _
  have htip : k.enterLeader.lastLogIndex = k.lastLogIndex + 1 := hindex
  have hout := (h.trans hlead).advance hbounded (by omega)
  have hactions : opening ++ [Action.becomeLeader] ++ appends [k.noOpEntry] ++
      k.enterLeader.advanceCommit.2 = opening ++ k.becomeLeader.2 := by
    simp [appends, RaftNode.becomeLeader]
  rwa [hactions] at hout

theorem Stretch.becomeCandidate (h : Stretch n opening [] k) (hroom : k.lastLogIndex + 1 < u64Max)
    (hrole : k.role ≠ .leader) :
    Outline n (k.becomeCandidate.1, opening ++ k.becomeCandidate.2) := by
  have henter :
      Stretch k (.persistHardState :: k.enterCandidate.voteRequests) [] k.enterCandidate := by
    refine stretch_idle (fun a ha => ?_) ⟨rfl, rfl, rfl, rfl⟩ rfl (fun hl => absurd hl hrole)
    rcases List.mem_cons.mp ha with rfl | ha
    · exact .inl trivial
    · exact prelude_sends (f := fun p => .sendMessage p (.voteRequest k.enterCandidate.voteRequest))
        (fun _ => trivial) a ha
  unfold RaftNode.becomeCandidate
  split_ifs
  · have hout := (h.trans henter).becomeLeader hroom
    rwa [List.append_assoc] at hout
  · exact .of_idle (h.trans henter)

theorem Stretch.becomePreCandidate (h : Stretch n opening [] k)
    (hroom : k.lastLogIndex + 1 < u64Max)
    (hrole : k.role ≠ .leader) :
    Outline n (k.becomePreCandidate.1, opening ++ k.becomePreCandidate.2) := by
  have henter : Stretch k k.enterPreCandidate.preVoteRequests [] k.enterPreCandidate :=
    stretch_idle (prelude_sends (fun _ => trivial)) ⟨rfl, rfl, rfl, rfl⟩ rfl
      (fun hl => absurd hl hrole)
  unfold RaftNode.becomePreCandidate
  split_ifs
  · have hout := (h.trans henter).becomeCandidate hroom (by
      simp [RaftNode.enterPreCandidate, RaftNode.resetElectionTimer])
    rwa [List.append_assoc] at hout
  · exact .of_idle (h.trans henter)

theorem handleTick_outline (hroom : n.lastLogIndex + 1 < u64Max) : Outline n n.handleTick := by
  obtain ⟨t, c, ht⟩ := ticked_eq n
  have hticked : Stretch n n.advanceClock.scheduleFetch.2 [] (ticked n) := by
    refine stretch_idle (fun a ha => ?_) (by rw [ht]; exact ⟨rfl, rfl, rfl, rfl⟩) (by rw [ht])
      (fun hl => .inl ⟨by rw [ht]; exact hl, by rw [ht]; rfl⟩)
    obtain ⟨dest, rfl⟩ := scheduleFetch_sends ha
    exact .inl trivial
  have hroom' : (ticked n).lastLogIndex + 1 < u64Max := by
    rw [ht]
    exact hroom
  rw [handleTick_eq]
  split_ifs
  · exact .of_idle (hticked.trans (becomeFollower_stretch _ _ _))
  · unfold RaftNode.electionTimeout
    split_ifs with hdue
    · refine hticked.becomePreCandidate hroom' (fun hl => ?_)
      rw [hl] at hdue
      simp at hdue
    · exact .of_idle hticked

theorem handleVoteRequest_outline (n : RaftNode) (req : VoteRequest) :
    Outline n (n.handleVoteRequest req) := by
  rcases handleVoteRequest_cases n req with heq | ⟨-, heq | ⟨-, heq⟩⟩ <;> rw [heq]
  · exact outline_refl n
  · exact .of_idle (stretch_idle (by simp [Prelude, Neutral]) (.refl n) rfl
      (fun hl => .inl ⟨hl, rfl⟩))
  · have hsame := answered_progress n req
    refine .of_idle (stretch_idle (fun a ha => ?_) (SameProgress.marks hsame)
      hsame.lastLogIndex (fun hl => ?_))
    · rcases mem_answering ha with rfl | rfl | rfl
      · exact .inl trivial
      · exact .inr rfl
      · exact .inl trivial
    · by_cases hnew : n.currentTerm < req.term
      · refine .inr (List.mem_append_left _ (List.mem_append_right _ ?_))
        rw [if_pos ⟨hnew, .inl hl⟩]
        exact List.mem_singleton_self _
      · rcases answered_current hnew with hvote | hvote <;> rw [hvote]
        · exact .inl ⟨hl, rfl⟩
        · exact .inl ⟨hl, rfl⟩

theorem handleVoteResponse_outline (hroom : n.lastLogIndex + 1 < u64Max) (sender : NodeId)
    (resp : VoteResponse) : Outline n (n.handleVoteResponse sender resp) := by
  have hcount : Stretch n [] [] (withVote n sender) :=
    stretch_idle (by simp) ⟨rfl, rfl, rfl, rfl⟩ rfl (fun hl => .inl ⟨hl, rfl⟩)
  rcases handleVoteResponse_cases n sender resp with heq | heq | ⟨-, heq | ⟨-, heq⟩⟩ <;> rw [heq]
  · exact outline_refl n
  · exact .of_idle (becomeFollower_stretch _ _ _)
  · exact .of_idle hcount
  · exact hcount.becomeLeader hroom

theorem handlePreVoteResponse_outline (hroom : n.lastLogIndex + 1 < u64Max) (sender : NodeId)
    (resp : PreVoteResponse) : Outline n (n.handlePreVoteResponse sender resp) := by
  have hcount : Stretch n [] [] (withPreVote n sender) :=
    stretch_idle (by simp) ⟨rfl, rfl, rfl, rfl⟩ rfl (fun hl => .inl ⟨hl, rfl⟩)
  rcases handlePreVoteResponse_cases n sender resp with
    heq | heq | ⟨⟨hrole, -⟩, heq | ⟨-, heq⟩⟩ <;> rw [heq]
  · exact outline_refl n
  · exact .of_idle (becomeFollower_stretch _ _ _)
  · exact .of_idle hcount
  · exact hcount.becomeCandidate hroom (by simp [withPreVote, hrole])

/-! ## Replication -/

theorem handleFetchRequest_outline (n : RaftNode) (req : FetchRequest) :
    Outline n (n.handleFetchRequest req) := by
  rcases handleFetchRequest_cases n req with heq | heq | ⟨hrole, ⟨_, heq⟩ | heq⟩ <;> rw [heq]
  · exact outline_refl n
  · exact .of_idle (becomeFollower_stretch _ _ _)
  · exact .of_idle (stretch_idle (by simp [Prelude, Neutral]) ⟨rfl, rfl, rfl, rfl⟩ rfl
      (fun hl => .inl ⟨hl, rfl⟩))
  · exact .serve req hrole

/-- An acknowledged fetch credits the replica and may move the commit index. -/
theorem handleFetchRequestAcked_cases (hb : Bounded n) (replica : NodeId) (confirmed : ℕ) :
    ∃ k, Stretch n [] [] k ∧ (n.handleFetchRequestAcked replica confirmed = (k, []) ∨
      ∃ c, k.commitIndex < c ∧ c ≤ k.lastLogIndex ∧ n.handleFetchRequestAcked replica confirmed =
        RaftNode.drainApplyPipeline { k with commitIndex := c }) := by
  have hsame : Stretch n [] [] n :=
    stretch_idle (by simp) (.refl n) rfl (fun hl => .inl ⟨hl, rfl⟩)
  unfold RaftNode.handleFetchRequestAcked
  split_ifs
  · exact ⟨n, hsame, .inl rfl⟩
  · exact ⟨n, hsame, .inl rfl⟩
  · have hbounded : Bounded (n.updatePeer replica (n.creditPeer confirmed)) := by
      intro p hp
      obtain ⟨q, hq, rfl⟩ := List.mem_map.mp hp
      obtain ⟨q', hq', rfl⟩ := List.mem_map.mp hq
      have hold := hb _ (List.mem_map.mpr ⟨q', hq', rfl⟩)
      show (if q'.1 = replica then (q'.1, n.creditPeer confirmed q'.2) else q').2.lastFetchOffset ≤
        n.lastLogIndex
      split_ifs
      · simp only [RaftNode.creditPeer]
        omega
      · exact hold
    refine ⟨n.updatePeer replica (n.creditPeer confirmed),
      stretch_idle (by simp) ⟨rfl, rfl, rfl, rfl⟩ rfl (fun hl => .inl ⟨hl, rfl⟩), ?_⟩
    unfold RaftNode.advanceCommit
    split
    · rename_i c hc
      obtain ⟨habove, hwithin⟩ := tryAdvanceCommitIndex_within hbounded hc
      exact .inr ⟨c, habove, hwithin, rfl⟩
    · exact .inl rfl

theorem contiguousBatch_positioned {i : ℕ} {first : Entry} {rest : List Entry}
    (hfirst : first.index = i + 1) (hbatch : contiguousBatch (first :: rest) = true)
    (hroom : i + (first :: rest).length ≤ u64Max) : Positioned i (first :: rest) := by
  induction rest generalizing i first with
  | nil => exact positioned_single hfirst
  | cons second rest ih =>
    simp only [contiguousBatch, Bool.and_eq_true, decide_eq_true_eq] at hbatch
    obtain ⟨⟨hindex, -⟩, hrest⟩ := hbatch
    simp only [List.length_cons] at hroom ih
    have hnext : second.index = i + 1 + 1 := by
      rw [hindex, hfirst]
      exact satAdd_eq (by omega)
    have htail := ih hnext hrest (by omega)
    intro j x hx
    cases j with
    | zero =>
      obtain rfl := Option.some.inj hx
      exact hfirst
    | succ j =>
      have := htail j x hx
      omega

theorem takeEntries_extends {actions : List Action}
    (hroom : n.lastLogIndex + entries.length < u64Max)
    (h : n.takeEntries entries = some (m, actions)) :
    actions = appends entries ∧ Extends n entries m ∧ SameMarks n m ∧ m.role = n.role ∧
      m.currentTerm = n.currentTerm := by
  rcases takeEntries_spec h
    with ⟨rfl, rfl, rfl⟩ | ⟨first, last, hhead, hlast, hindex, hbatch, rfl, rfl⟩
  · exact ⟨rfl, extends_nil rfl, .refl _, rfl, rfl⟩
  · cases entries with
    | nil => cases hhead
    | cons e rest =>
      obtain rfl := Option.some.inj hhead
      simp only [List.length_cons] at hroom
      rw [satAdd_eq (by omega)] at hindex
      have hpos := contiguousBatch_positioned hindex hbatch (by rw [List.length_cons]; omega)
      have hend : last.index = n.lastLogIndex + (e :: rest).length := by
        have hget : (e :: rest)[rest.length]? = some last := by
          rw [List.getLast?_eq_getElem?] at hlast
          simpa using hlast
        have := hpos rest.length last hget
        simp only [List.length_cons]
        omega
      exact ⟨by simp [appends], ⟨hpos, hend⟩, ⟨rfl, rfl, rfl, rfl⟩, rfl, rfl⟩

def cutsTo (n : RaftNode) (resp : FetchResponse) : Option ℕ :=
  if (n.acceptLeader resp).isSome ∧ resp.snapshotRedirect = none then
    resp.divergingEpoch.map DivergingEpoch.endOffset
  else none

theorem acceptLeader_deposes {resp : FetchResponse} (h : n.acceptLeader resp = some (k, opening))
    (hl : n.role = .leader) : Action.stepDown ∈ opening := by
  rw [(acceptLeader_spec h).actions_eq]
  apply List.mem_append_right
  rw [if_pos (.inl hl)]
  exact List.mem_singleton_self _

theorem acceptLeader_stretch {resp : FetchResponse} (h : n.acceptLeader resp = some (k, opening)) :
    Stretch n opening [] k := by
  have ha := acceptLeader_spec h
  refine stretch_idle (fun a hmem => ?_) (SameProgress.marks ha.progress) ha.progress.lastLogIndex
    (fun hl => .inr (acceptLeader_deposes h hl))
  rw [ha.actions_eq, List.mem_append] at hmem
  rcases hmem with hmem | hmem
  · split_ifs at hmem
    · exact .inl (List.mem_singleton.mp hmem ▸ trivial)
    · cases hmem
  · split_ifs at hmem
    · exact .inr (List.mem_singleton.mp hmem)
    · cases hmem

theorem handleFetchResponse_outline {resp : FetchResponse}
    (hroom : n.lastLogIndex + resp.entries.length < u64Max)
    (hcut : ∀ endOffset, cutsTo n resp = some endOffset → n.commitIndex ≤ endOffset) :
    Outline n (n.handleFetchResponse resp) := by
  rcases handleFetchResponse_cases n resp with heq | ⟨m, opening, haccept, -, heq⟩ <;> rw [heq]
  · exact outline_refl n
  have hstretch := acceptLeader_stretch haccept
  have htip : m.lastLogIndex = n.lastLogIndex := hstretch.extend.tip
  rcases payload_cases m resp with
    ⟨redirect, hp⟩ | ⟨de, hredirect, hde, hp⟩ | hp | ⟨taken, appends, htake, hp⟩ <;> rw [hp]
  · have hrequest : Stretch m (m.requestSnapshot resp.leaderId redirect).2 []
        (m.requestSnapshot resp.leaderId redirect).1 :=
      stretch_idle (by simp [RaftNode.requestSnapshot, Prelude, Neutral]) ⟨rfl, rfl, rfl, rfl⟩ rfl
        (fun hl => .inl ⟨hl, rfl⟩)
    exact .of_idle (hstretch.trans hrequest)
  · have hfetch : Stretch m [] [] (m.resolveDivergence resp.leaderId de).1 :=
      stretch_idle (by simp) ⟨rfl, rfl, rfl, rfl⟩ rfl (fun hl => .inl ⟨hl, rfl⟩)
    have hall := hstretch.trans hfetch
    rw [List.append_nil] at hall
    refine .cut hall (hcut de.endOffset ?_) (acceptLeader_deposes haccept) (by simp [Neutral])
    simp [cutsTo, haccept, hredirect, hde]
  · rw [List.append_nil]
    exact .of_idle hstretch
  · obtain ⟨rfl, hext, hmarks, hrole, hterm⟩ := takeEntries_extends (htip ▸ hroom) htake
    have htaken : Stretch m [] resp.entries taken :=
      ⟨by simp, hmarks, hext, fun hl => .inl ⟨hrole.trans hl, hterm⟩⟩
    have hall := hstretch.trans htaken
    rw [List.append_nil] at hall
    rw [← List.append_assoc]
    unfold RaftNode.observeHighWatermark
    dsimp only
    split_ifs with hlt
    · have hend := hall.extend.tip
      have hwithin := Nat.min_le_right resp.highWatermark taken.lastLogIndex
      exact .drain hall hlt hwithin (by omega)
    · rw [List.append_nil]
      exact .grow hall

theorem handleClientPropose_outline (hroom : n.lastLogIndex + 1 < u64Max)
    (hb : n.role = .leader → Bounded n) (command : Bytes) :
    Outline n (n.handleClientPropose command) := by
  unfold RaftNode.handleClientPropose
  split_ifs with hrole
  · exact outline_refl n
  · rw [not_not] at hrole
    have hindex : satAdd n.lastLogIndex 1 = n.lastLogIndex + 1 := satAdd_eq (by omega)
    have hset : Stretch n [] [⟨satAdd n.lastLogIndex 1, n.currentTerm, .command command⟩]
        (n.setLastLog (satAdd n.lastLogIndex 1) n.currentTerm) :=
      ⟨by simp, ⟨rfl, rfl, rfl, rfl⟩, ⟨positioned_single hindex, hindex⟩,
        fun hl => .inl ⟨hl, rfl⟩⟩
    have hbounded : Bounded (n.setLastLog (satAdd n.lastLogIndex 1) n.currentTerm) := by
      intro p hp
      have := hb hrole p hp
      show p.2 ≤ satAdd n.lastLogIndex 1
      omega
    have htip : (n.setLastLog (satAdd n.lastLogIndex 1) n.currentTerm).lastLogIndex =
      n.lastLogIndex + 1 := hindex
    exact hset.advance hbounded (by omega)

def arriving : Input → ℕ
  | .fetchResponse resp => max 1 resp.entries.length
  | _ => 1

/-- Every input of the select loop has an outline, given room in the log and no cut below the commit
index. -/
theorem step_outline {event : DriverEvent} {input : Input}
    (hinput : DriverTurns.inputOf event = some input)
    (hroom : n.lastLogIndex + arriving input < u64Max) (hb : n.role = .leader → Bounded n)
    (hcut : ∀ resp endOffset, input = .fetchResponse resp → cutsTo n resp = some endOffset →
      n.commitIndex ≤ endOffset) : Outline n (n.step input) := by
  have htip : n.lastLogIndex + 1 < u64Max := by
    have hone : 1 ≤ arriving input := by cases input <;> simp [arriving]
    omega
  cases event <;> simp only [DriverTurns.inputOf, Option.some.injEq, reduceCtorEq] at hinput <;>
    subst hinput
  case tick => exact handleTick_outline htip
  case inboundVote req => exact handleVoteRequest_outline n req
  case inboundPreVote req =>
    refine .of_idle (stretch_idle (fun a ha => ?_) (.refl n) rfl (fun hl => .inl ⟨hl, rfl⟩))
    obtain ⟨-, _, rfl⟩ := mem_handlePreVoteRequest ha
    exact .inl trivial
  case inboundFetch req => exact handleFetchRequest_outline n req
  case voteResult peer response => exact handleVoteResponse_outline htip peer response
  case preVoteResult peer response => exact handlePreVoteResponse_outline htip peer response
  case fetchResult response =>
    have hlen : arriving (.fetchResponse response) = max 1 response.entries.length := rfl
    exact handleFetchResponse_outline (by omega) (fun endOffset => hcut response endOffset rfl)
  case client request command => exact handleClientPropose_outline htip hb command

end EngineOutlines
