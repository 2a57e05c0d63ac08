import Xraft.LogWrites
import Xraft.PreVoteRounds

/-! # Where entries come from

An entry enters the cluster once, in the log of the leader of its term, and travels in fetch replies
from then on. Index and term name it, whatever stores fail, whatever is lost or repeated, and
however often logs are cut and nodes restart.
-/
namespace EntryOrigins

open ProtocolTypes ConsensusEngine DurableStores NodeDriver ServerRecovery EngineTransitions
open DriverJournal DriverTurns BatchFootprints DurableBeforeVisible LeaderAppendOnly DriverMoves
  LogWrites
open ElectionSafety ReplicatedCluster GuardedExecution

variable {σ : Type} {d d' : Driver σ} {book : Set Entry}

/-! ## One node -/

/-- The entries that a node wrote as a leader, and how its engine stands to them. -/
structure Kept (n : NodeId) (book : Set Entry) (d : Driver σ) : Prop where
  sourced : Sourced d
  crowned : d.node.role = .leader → Crowned d.node
  own : ∀ x ∈ book, x ∈ logged d.trace
  cast : ∀ x ∈ book, (⟨x.term, some n⟩ : Ballot) ∈ persisted d.trace
  below : d.node.role = .leader → ∀ x ∈ book, x.term < u64Max → x.term = d.node.currentTerm →
    x.index ≤ d.node.lastLogIndex
  fresh : d.node.role = .candidate → ∀ x ∈ book, x.term < u64Max → x.term < d.node.currentTerm
  once : ∀ x ∈ book, ∀ y ∈ book, x.term < u64Max → x.term = y.term → x.index = y.index → x = y

variable {voters : VoterSet} {n : NodeId}

theorem disk_above (h : Record voters n d) {b : Ballot} (hb : b ∈ persisted d.trace)
    (ht : b.term < u64Max) : b.term ≤ (onDisk d).term := by
  rcases h.below b hb with h | ⟨h, _⟩ | ⟨_, h⟩
  · exact h.le
  · exact h.le
  · exact ht.le.trans h

theorem persisted_mono {w w' : List Effect} (h : w <+: w') {b : Ballot} (hb : b ∈ persisted w) :
    b ∈ persisted w' := by
  obtain ⟨rest, rfl⟩ := h
  rw [persisted_append]
  exact List.mem_append_left _ hb

/-- A node comes to lead a term in which it has written nothing yet. -/
theorem Kept.tenure (h : Kept n book d) (hrec : Record voters n d) (hhalt : d.haltReason = none)
    {m : RaftNode} {input : Input} (hmove : ElectionMove d.node input m) {x : Entry} (hx : x ∈ book)
    (ht : x.term < u64Max) :
    (m.role = .leader → x.term = m.currentTerm → x.index ≤ d.node.lastLogIndex) ∧
      (m.role = .candidate → x.term < m.currentTerm) := by
  have hheld : x.term ≤ d.node.currentTerm :=
    (disk_above hrec (h.cast x hx) ht).trans (congrArg Ballot.term (hrec.settled hhalt)).le
  have hraised : ballot m = ⟨satAdd d.node.currentTerm 1, some d.node.id⟩ →
      x.term < m.currentTerm := by
    intro hb
    have hterm : m.currentTerm = satAdd d.node.currentTerm 1 := congrArg Ballot.term hb
    unfold satAdd at hterm
    omega
  have hsame : ballot m = ballot d.node → m.currentTerm = d.node.currentTerm := congrArg Ballot.term
  cases hmove with
  | keep role hb votes =>
    rw [role, hsame hb]
    exact ⟨fun hr => h.below hr x hx ht, fun hr => h.fresh hr x hx ht⟩
  | relinquish candidate leader raised known =>
    exact ⟨fun hr => absurd hr leader, fun hr => absurd hr candidate⟩
  | campaign role hb votes => exact ⟨fun hr => by simp [role] at hr, fun _ => hraised hb⟩
  | count sender resp input_eq granted term prior role hb votes =>
    refine ⟨fun hr => by simp [role] at hr, fun _ => ?_⟩
    rw [hsame hb]
    exact h.fresh prior x hx ht
  | win sender resp input_eq granted term prior role hb quorum =>
    refine ⟨fun _ heq => ?_, fun hr => by simp [role] at hr⟩
    have := h.fresh prior x hx ht
    rw [hsame hb] at heq
    omega
  | coup role hb quorum =>
    refine ⟨fun _ heq => ?_, fun hr => by simp [role] at hr⟩
    have := hraised hb
    omega

theorem Kept.add (h : Kept n book d) {entry : Entry} (own : entry ∈ logged d.trace)
    (lead : d.node.role = .leader) (cast : (⟨entry.term, some n⟩ : Ballot) ∈ persisted d.trace)
    (index : entry.index ≤ d.node.lastLogIndex)
    (above : ∀ x ∈ book, x.term < u64Max → x.term = entry.term → x.index < entry.index) :
    Kept n (insert entry book) d := by
  refine ⟨h.sourced, h.crowned, ?_, ?_, fun hr => ?_, fun hr => by simp [lead] at hr, ?_⟩
  · rintro x (rfl | hx)
    · exact own
    · exact h.own x hx
  · rintro x (rfl | hx)
    · exact cast
    · exact h.cast x hx
  · rintro x (rfl | hx) ht hterm
    · exact index
    · exact h.below hr x hx ht hterm
  · rintro x (rfl | hx) y (rfl | hy) ht hterm hindex
    · rfl
    · have := above y hy (hterm ▸ ht) hterm.symm
      omega
    · have := above x hx ht hterm
      omega
    · exact h.once x hx y hy ht hterm hindex

section Turns

variable [StateMachine σ] {event : DriverEvent}

/-- A turn writes what it copies from an answer, or one new entry in the name of its leader. -/
structure Wrote (n : NodeId) (book more : Set Entry) (d : Driver σ) (event : DriverEvent)
    (w : List Effect) : Prop where
  kept : Kept n more (d.turn event)
  grows : book ⊆ more
  trace : (d.turn event).trace = d.trace ++ w
  new : ∀ x ∈ more, x ∉ book → Leads x.term (d.turn event).node ∧
    ∀ bytes, x.payload = .command bytes → ∃ request, event = .client request bytes
  appended : ∀ es, .append es ∈ w → (∀ x ∈ es, x ∈ more) ∨
    ∃ resp, event = .fetchResult resp ∧ es = resp.entries

/-- A turn keeps the book; what it holds of the term that the turn ends in stood in the log. -/
theorem Kept.turned (h : Kept n book d) (hhalt : d.haltReason = none) (hrec : Record voters n d)
    (hroom : d.node.lastLogIndex < u64Max) (hpeer : ∀ peer clusterId epoch metadata data,
      event ≠ .fetchSnapshotResult peer clusterId epoch metadata data) :
    Kept n book (d.turn event) ∧ ((d.turn event).node.role = .leader → ∀ x ∈ book,
      x.term < u64Max → x.term = (d.turn event).node.currentTerm →
      x.index ≤ d.node.lastLogIndex) := by
  obtain ⟨m, hmove, hran⟩ := turn_handled hrec.settled event
  obtain ⟨input, helect, -⟩ := hmove.election hrec.selfVoted
  obtain ⟨w, hj, -⟩ := hran.ran.journal
  have hgrows : d.trace <+: (d.turn event).trace := ⟨w, hj.trace.symm⟩
  have hstand := hran.ran.standing
  have hnow : (d.turn event).node.currentTerm = m.currentTerm := congrArg Ballot.term hstand.ballot
  have htenure := fun x (hx : x ∈ book) ht => h.tenure hrec hhalt helect hx ht
  have hlead : (d.turn event).node.role = .leader → Reigned _ d event (d.turn event) := fun hl =>
    turn_reigned hroom h.crowned (fun _ _ _ _ _ hev => absurd hev (hpeer _ _ _ _ _)) ⟨hl, rfl⟩
  have hbelow : (d.turn event).node.role = .leader → ∀ x ∈ book, x.term < u64Max →
      x.term = (d.turn event).node.currentTerm → x.index ≤ d.node.lastLogIndex :=
    fun hl x hx ht heq => (htenure x hx ht).1 (hstand.role ▸ hl) (hnow ▸ heq)
  refine ⟨⟨turn_sourced h.sourced event, fun hl => (hlead hl).crowned,
    fun x hx => logged_mono hgrows (h.own x hx), fun x hx => persisted_mono hgrows (h.cast x hx),
    fun hl x hx ht heq => (hbelow hl x hx ht heq).trans (hlead hl).tip, fun hr x hx ht => ?_,
    h.once⟩, hbelow⟩
  rw [hnow]
  exact (htenure x hx ht).2 (hstand.role ▸ hr)

section Author

variable {r : RaftNode × List Action} {w : List Effect} {entry : Entry}

/-- The vote that made the author a leader is on disk before the entry. -/
theorem authored_cast (hwrites : Writes d event r w) (hauthors : Authors d.node r entry)
    (hw : .append [entry] ∈ w) (hhalt : d.haltReason = none) (hrec : Record voters n d)
    (hrec' : Record voters n (d.turn event)) :
    (⟨entry.term, some n⟩ : Ballot) ∈ persisted (d.turn event).trace := by
  obtain ⟨opening, closing, hbatch, hopen, -, hheld⟩ := hauthors.batch
  have hvoted : (⟨entry.term, some n⟩ : Ballot) = ballot (d.turn event).node := by
    have hself := hrec'.selfVoted (.inr (hwrites.standing.role.trans hauthors.role))
    rw [hauthors.term, ← hrec'.node_id]
    exact congrArg₂ Ballot.mk (congrArg Ballot.term hwrites.standing.ballot).symm hself.symm
  rcases hheld with hsame | hpersist
  · -- the ballot was on disk before the turn
    refine persisted_mono ⟨w, hwrites.trace.symm⟩ ?_
    have hdisk : onDisk d = ⟨entry.term, some n⟩ := by
      rw [hrec.settled hhalt, ← hsame, ← hwrites.standing.ballot, hvoted]
    exact hdisk ▸ hrec.persisted_of_vote (congrArg Ballot.vote hdisk)
  · obtain ⟨state, hstate⟩ := hwrites.order _ opening _ hbatch hopen hpersist hw
    obtain ⟨m, -, hran⟩ := turn_handled hrec.settled event
    obtain ⟨w', hj, -, hp⟩ := hran.ran.journal
    obtain rfl : w = w' := List.append_cancel_left (hwrites.trace.symm.trans hj.trace)
    have hin : .persist state ∈ (d.turn event).trace :=
      hwrites.trace ▸ List.mem_append_right _ hstate
    rw [hvoted, hran.ran.standing.ballot, ← hp state hstate]
    exact List.mem_filterMap.mpr ⟨_, hin, rfl⟩

theorem authored_last (hwrites : Writes d event r w) (hauthors : Authors d.node r entry)
    (hw : .append [entry] ∈ w) (hroom : d.node.lastLogIndex < u64Max)
    (hcrown : d.node.role = .leader → Crowned d.node)
    (hpeer : ∀ peer clusterId epoch metadata data,
      event ≠ .fetchSnapshotResult peer clusterId epoch metadata data) :
    entry.index = (d.turn event).node.lastLogIndex := by
  refine (hauthors.tip.symm).trans (hwrites.tip ?_).symm
  rcases drives_reigns hwrites.drives hroom hcrown
    (fun _ _ _ _ _ hev => absurd hev (hpeer _ _ _ _ _)) hauthors.role with hr | ⟨req, -, hserve, -⟩
  · exact fun a ha => royal_not_reshapes (hr.actions a ha)
  · have hmem := hwrites.append _ hw
    rw [hserve] at hmem
    simp [serving] at hmem

end Author

theorem Kept.writes (h : Kept n book d) (hhalt : d.haltReason = none) (hrec : Record voters n d)
    (hrec' : Record voters n (d.turn event)) (hroom : d.node.lastLogIndex < u64Max)
    (hpeer : ∀ peer clusterId epoch metadata data,
      event ≠ .fetchSnapshotResult peer clusterId epoch metadata data) :
    ∃ more w, Wrote n book more d event w := by
  obtain ⟨r, w, hwrites⟩ := turn_writes d event
  obtain ⟨hkept, hbelow⟩ := h.turned hhalt hrec hroom hpeer
  have hidle : (∀ es, .append es ∈ w → ∃ resp, event = .fetchResult resp ∧ es = resp.entries) →
      ∃ more w, Wrote n book more d event w :=
    fun hes => ⟨book, w, hkept, subset_rfl, hwrites.trace, fun x hx hnew => absurd hx hnew,
      fun es h => .inr (hes es h)⟩
  rcases drives_contributes hwrites.drives with
    mute | ⟨entry, authors, asked⟩ | ⟨resp, hevent, hentries⟩
  · exact hidle (fun es hes => absurd (hwrites.append es hes) (mute es))
  swap
  · exact hidle (fun es hes => ⟨resp, hevent, hentries es (hwrites.append es hes)⟩)
  have hone : ∀ es, .append es ∈ w → es = [entry] :=
    fun es hes => authors.once (hwrites.append es hes)
  by_cases hw : .append [entry] ∈ w
  swap
  · exact hidle (fun es hes => absurd (hone es hes ▸ hes) hw)
  have hterm : entry.term = (d.turn event).node.currentTerm :=
    authors.term.trans (congrArg Ballot.term hwrites.standing.ballot).symm
  have hrole : (d.turn event).node.role = .leader := hwrites.standing.role.trans authors.role
  have hown : entry ∈ logged (d.turn event).trace :=
    mem_logged.mpr ⟨_, hwrites.trace ▸ List.mem_append_right _ hw, List.mem_singleton_self _⟩
  refine ⟨insert entry book, w, hkept.add hown hrole
    (authored_cast hwrites authors hw hhalt hrec hrec')
    (authored_last hwrites authors hw hroom h.crowned hpeer).le (fun x hx ht heq => ?_),
    Set.subset_insert _ _, hwrites.trace, fun x hx hnew => ?_, fun es hes => .inl ?_⟩
  · have hold := hbelow hrole x hx ht (heq.trans hterm)
    rw [authors.index, satAdd_eq hroom]
    omega
  · obtain rfl := hx.resolve_right hnew
    exact ⟨⟨hrole, hterm.symm⟩, asked⟩
  · rw [hone es hes]
    exact fun x hx => .inl (List.mem_singleton.mp hx)

end Turns

/-! ## The cluster -/

/-- Every entry anywhere stands in the book of a leader of its term, and commands satisfy
`valid`. -/
structure Chronicle (T : Topology σ) (valid : Bytes → Prop) (c : Cluster σ)
    (books : NodeId → Set Entry) : Prop where
  kept : ∀ n ∈ T.members, Kept n (books n) (c.nodes n)
  author : ∀ n, ∀ x ∈ books n, n ∈ T.members ∧ Elected T.voterSet c n x.term ∧
    ∀ bytes, x.payload = .command bytes → valid bytes
  known : ∀ n, ∀ x ∈ logged (c.nodes n).trace, ∃ m, x ∈ books m

variable {T : Topology σ} {valid : Bytes → Prop} {c : Cluster σ} {books : NodeId → Set Entry}

theorem Chronicle.update (h : Chronicle T valid c books) (hn : n ∈ T.members) {more : Set Entry}
    (grows : (c.nodes n).trace <+: d.trace) (keeps : books n ⊆ more) (kept : Kept n more d)
    (new : ∀ x ∈ more, x ∉ books n → Elected T.voterSet (c.update n d) n x.term ∧
      ∀ bytes, x.payload = .command bytes → valid bytes)
    (known : ∀ x ∈ logged d.trace, x ∈ logged (c.nodes n).trace ∨ x ∈ more ∨ ∃ m, x ∈ books m) :
    Chronicle T valid (c.update n d) (Function.update books n more) := by
  have hold : ∀ {x}, (∃ m, x ∈ books m) → ∃ m, x ∈ Function.update books n more m := by
    rintro x ⟨m, hx⟩
    by_cases hm : m = n
    · exact ⟨n, by rw [Function.update_self]; exact keeps (hm ▸ hx)⟩
    · exact ⟨m, by rwa [Function.update_of_ne hm]⟩
  refine ⟨fun m hm => ?_, fun m x hx => ?_, fun m x hx => ?_⟩
  all_goals by_cases hmn : m = n
  · subst hmn
    rwa [update_self, Function.update_self]
  · rw [update_ne c d hmn, Function.update_of_ne hmn]
    exact h.kept m hm
  · subst hmn
    rw [Function.update_self] at hx
    by_cases hin : x ∈ books m
    · obtain ⟨hm, helected, hvalid⟩ := h.author m x hin
      exact ⟨hm, helected.grows (update_grows grows), hvalid⟩
    · exact ⟨hn, new x hx hin⟩
  · rw [Function.update_of_ne hmn] at hx
    obtain ⟨hm, helected, hvalid⟩ := h.author m x hx
    exact ⟨hm, helected.grows (update_grows grows), hvalid⟩
  · subst hmn
    rw [update_self] at hx
    rcases known x hx with hx | hx | hx
    · exact hold (h.known m x hx)
    · exact ⟨m, by rwa [Function.update_self]⟩
    · exact hold hx
  · rw [update_ne c d hmn] at hx
    exact hold (h.known m x hx)

theorem Chronicle.still (h : Chronicle T valid c books) (hn : n ∈ T.members)
    (kept : Kept n (books n) d) (grows : (c.nodes n).trace <+: d.trace)
    (append : ∀ es, .append es ∈ d.trace → .append es ∈ (c.nodes n).trace) :
    ∃ books, Chronicle T valid (c.update n d) books := by
  refine ⟨_, h.update hn grows subset_rfl kept (fun x hx hnew => absurd hx hnew)
    (fun x hx => .inl ?_)⟩
  obtain ⟨es, hes, hx⟩ := mem_logged.mp hx
  exact mem_logged.mpr ⟨es, append es hes, hx⟩

def proposal : DriverEvent → Option Bytes
  | .client _ bytes => some bytes
  | _ => none

def Roomy (valid : Bytes → Prop) (c : Cluster σ) (e : Event) : Prop :=
  ∀ turn ∈ c.turnOf e, (c.nodes turn.1).node.lastLogIndex < u64Max ∧
    ∀ bytes ∈ proposal turn.2, valid bytes

instance [DecidablePred valid] (c : Cluster σ) (e : Event) : Decidable (Roomy valid c e) :=
  inferInstanceAs (Decidable (∀ turn ∈ c.turnOf e, _ ∧ ∀ bytes ∈ proposal turn.2, _))

section Steps

variable [StateMachine σ]

theorem turn_chronicle (h : Chronicle T valid c books) (hinv : ElectionInvariant T c) {e : Event}
    {event : DriverEvent} (hn : n ∈ T.members) (hturn : c.turnOf e = some (n, event))
    (hok : Roomy valid c e) (hinv' : ElectionInvariant T (c.update n ((c.nodes n).turn event))) :
    ∃ books, Chronicle T valid (c.update n ((c.nodes n).turn event)) books := by
  have hrec' := hinv'.record n hn
  rw [update_self] at hrec'
  by_cases hhalt : (c.nodes n).haltReason = none
  swap
  · rw [turn_halted _ event hhalt] at hrec' ⊢
    exact h.still hn (h.kept n hn) (List.prefix_refl _) (fun _ hx => hx)
  obtain ⟨hroom, hvalid⟩ := hok _ hturn
  obtain ⟨more, w, hwrote⟩ := (h.kept n hn).writes hhalt (hinv.record n hn) hrec' hroom
    (fun _ _ _ _ _ => PreVoteRounds.turnOf_not_transfer hturn _ _ _ _ _)
  refine ⟨_, h.update hn ⟨w, hwrote.trace.symm⟩ hwrote.grows hwrote.kept (fun x hx hnew => ?_)
    (fun x hx => ?_)⟩
  · obtain ⟨hlead, hasked⟩ := hwrote.new x hx hnew
    refine ⟨LeaderAt.elected hinv' ?_, fun bytes hbytes => ?_⟩
    · rw [LeaderAt, update_self]
      exact hlead
    · obtain ⟨request, rfl⟩ := hasked bytes hbytes
      exact hvalid bytes rfl
  · rw [hwrote.trace] at hx
    obtain ⟨es, hes, hx⟩ := mem_logged.mp hx
    rcases List.mem_append.mp hes with hes | hes
    · exact .inl (mem_logged.mpr ⟨es, hes, hx⟩)
    · rcases hwrote.appended es hes with hin | ⟨resp, rfl, rfl⟩
      · exact .inr (.inl (hin x hx))
      · obtain ⟨source, _, req, -, hsent, -⟩ := turnOf_replied hturn
        have hreply := List.mem_of_getElem? hsent
        have hsource : source ∈ T.members := by
          by_contra hout
          rw [(hinv.outside source hout).1] at hreply
          exact absurd hreply List.not_mem_nil
        exact .inr
          (.inr (h.known source x ((h.kept source hsource).sourced x (.inr ⟨_, hreply, hx⟩))))

theorem next_chronicle (h : Chronicle T valid c books) (hinv : ElectionInvariant T c) {e : Event}
    (hok : Roomy valid c e) : ∃ books, Chronicle T valid (T.next c e) books := by
  have hinv' := next_preserves hinv e
  rcases next_cases T c e with heq | ⟨n, d, hn, hacts, heq⟩
  · rw [heq]
    exact ⟨books, h⟩
  rw [heq] at hinv' ⊢
  have hgrows := next_grows hinv e n
  rw [heq, update_self] at hgrows
  have hkept := h.kept n hn
  rcases acts_cases hacts
    with ⟨event, hturn, rfl⟩ | ⟨_, rfl⟩ | ⟨faults, _, rfl⟩ | ⟨rng, faults, _, rfl⟩
  · exact turn_chronicle h hinv hn hturn hok hinv'
  · have hsourced := Path.sourced (runSnapshotWorker_path (c.nodes n)) hkept.sourced
    obtain ⟨w, store, jobs, done, fs, hw, hworker⟩ := runSnapshotWorker_inert (c.nodes n)
    rw [hworker] at hsourced hgrows ⊢
    refine h.still hn ⟨hsourced, hkept.crowned, fun x hx => logged_mono hgrows (hkept.own x hx),
      fun x hx => persisted_mono hgrows (hkept.cast x hx), hkept.below, hkept.fresh,
      hkept.once⟩ hgrows (fun es hes => ?_)
    exact (List.mem_append.mp hes).resolve_right (fun hes => (hw _ hes).1)
  · exact h.still hn ⟨hkept.sourced, hkept.crowned, hkept.own, hkept.cast, hkept.below, hkept.fresh,
      hkept.once⟩ hgrows (fun _ hes => hes)
  · obtain ⟨sm, snap, hpath, w, hw, hlight⟩ := start_path (T.config n) (some T.voterSet) rng
      (T.maxFetchBatch n) T.initial faults (durable (c.nodes n))
    have hleader : (T.launch n rng faults (durable (c.nodes n))).node.role ≠ .leader :=
      PreVoteRounds.launch_ne (by simp) (by simp)
    exact h.still hn ⟨Path.sourced hpath hkept.sourced, fun hl => absurd hl hleader,
      fun x hx => logged_mono hgrows (hkept.own x hx),
      fun x hx => persisted_mono hgrows (hkept.cast x hx),
      fun hl => absurd hl hleader,
      fun hr => absurd hr (PreVoteRounds.launch_ne (by simp) (by simp)), hkept.once⟩ hgrows
        (fun es hes => (List.mem_append.mp (hw ▸ hes)).resolve_right (fun h => hlight _ h))

theorem initial_chronicle (T : Topology σ) (valid : Bytes → Prop) :
    Chronicle T valid T.initialCluster (fun _ => ∅) := by
  have hboot : ∀ n, T.initialCluster.nodes n = boot (T.config n) (some T.voterSet) (T.draws n)
      (T.maxFetchBatch n) [] Durable.fresh T.initial none := fun n => start_fresh _ _ _ _ _ _
  have hleader : ∀ n, (T.initialCluster.nodes n).node.role ≠ .leader :=
    fun n => launch_role T n _ _ (by simp) (by simp)
  refine ⟨fun n _ =>
    ⟨?_, fun hl => absurd hl (hleader n), by simp, by simp, by simp, by simp, by simp⟩,
    by simp, fun n x hx => ?_⟩
  · rw [hboot]
    rintro x (hx | ⟨y, hy, -⟩)
    · exact absurd hx List.not_mem_nil
    · exact absurd hy List.not_mem_nil
  · rw [hboot] at hx
    exact absurd hx List.not_mem_nil

theorem reachable_chronicle (h : T.Reachable (Roomy valid) c) :
    ElectionInvariant T c ∧ ∃ books, Chronicle T valid c books := by
  have hstep : ∀ s e, (ElectionInvariant T s ∧ ∃ books, Chronicle T valid s books) →
    Roomy valid s e →
      ElectionInvariant T (T.next s e) ∧ ∃ books, Chronicle T valid (T.next s e) books := by
    rintro s e ⟨hinv, books, hbooks⟩ hok
    exact ⟨next_preserves hinv e, next_chronicle hbooks hinv hok⟩
  exact h.invariant hstep ⟨initial_electionInvariant T, _, initial_chronicle T valid⟩

/-- An entry that any node holds, has applied or has sent was written by the node elected in its
term, which voted for itself in that term, and its command was proposed. -/
theorem entries_come_from_leaders (T : Topology σ) (valid : Bytes → Prop) {c : Cluster σ}
    (hc : T.Reachable (Roomy valid) c) {n : NodeId} (hn : n ∈ T.members) {x : Entry}
    (hx : Met (c.nodes n) x) :
    (∃ m ∈ T.members, Cast c m x.term m ∧ Elected T.voterSet c m x.term ∧
      x ∈ logged (c.nodes m).trace) ∧
    ∀ bytes, x.payload = .command bytes → valid bytes := by
  obtain ⟨-, books, h⟩ := reachable_chronicle hc
  obtain ⟨m, hm⟩ := h.known n x ((h.kept n hn).sourced x hx)
  obtain ⟨hmem, helected, hvalid⟩ := h.author m x hm
  exact ⟨⟨m, hmem, (h.kept m hmem).cast x hm, helected, (h.kept m hmem).own x hm⟩, hvalid⟩

def proposed : Cluster NoOpStateMachine :=
  replay (threeVoters false).next (threeVoters false).initialCluster
    (firstElection ++ [.propose 1 [7]])

def copied : Cluster NoOpStateMachine :=
  replay (threeVoters false).next proposed [.tick 2, .deliver 2 3, .deliver 1 13]

theorem proposed_reachable : (threeVoters false).Reachable (Roomy (· = [7])) proposed :=
  replay_execution (by decide +kernel)

theorem copied_run : (threeVoters false).Run (Roomy (· = [7])) proposed copied :=
  replay_execution (by decide +kernel)

theorem entries_come_from_leaders_copied :
    Met (copied.nodes 2) ⟨2, 1, .command [7]⟩ ∧ ∃ m ∈ (threeVoters false).members,
      Cast copied m 1 m ∧ Elected (threeVoters false).voterSet copied m 1 ∧
        (⟨2, 1, .command [7]⟩ : Entry) ∈ logged (copied.nodes m).trace := by
  have hmet : Met (copied.nodes 2) ⟨2, 1, .command [7]⟩ := .inl (by decide +kernel)
  exact ⟨hmet, (entries_come_from_leaders (threeVoters false) (· = [7])
    (proposed_reachable.trans copied_run) (by decide) hmet).1⟩

/-- Index and term name an entry, whatever two nodes hold, have applied or have sent, at the same
time or at different times of a run. -/
theorem index_and_term_name_entry (T : Topology σ) (valid : Bytes → Prop) {c c' : Cluster σ}
    (hc : T.Reachable (Roomy valid) c) (hrun : T.Run (Roomy valid) c c') {a b : NodeId}
    (ha : a ∈ T.members) (hb : b ∈ T.members) {x y : Entry} (hx : Met (c.nodes a) x)
    (hy : Met (c'.nodes b) y) (hindex : x.index = y.index) (hterm : x.term = y.term)
    (ht : x.term < u64Max) : x = y := by
  obtain ⟨hinv, books, h⟩ := reachable_chronicle hc
  obtain ⟨hinv', books', h'⟩ := reachable_chronicle (hc.trans hrun)
  obtain ⟨n, hn⟩ := h'.known a x (logged_mono (run_grows hrun hinv a) ((h.kept a ha).sourced x hx))
  obtain ⟨m, hm⟩ := h'.known b y ((h'.kept b hb).sourced y hy)
  obtain ⟨hmem, helected, -⟩ := h'.author n x hn
  obtain rfl : m = n := elected_unique hinv' ht (hterm ▸ (h'.author m y hm).2.1) helected
  exact (h'.kept m hmem).once x hn y hm ht hterm hindex

theorem index_and_term_name_entry_copied :
    ∃ x y, Met (proposed.nodes 1) x ∧ Met (copied.nodes 2) y ∧ x.index = 2 ∧ y.index = 2 ∧
    x = y := by
  have hx : Met (proposed.nodes 1) ⟨2, 1, .command [7]⟩ := .inl (by decide +kernel)
  have hy : Met (copied.nodes 2) ⟨2, 1, .command [7]⟩ := .inl (by decide +kernel)
  exact ⟨_, _, hx, hy, rfl, rfl, index_and_term_name_entry (threeVoters false) (· = [7])
    proposed_reachable copied_run (by decide) (by decide) hx hy rfl rfl (by decide)⟩

end Steps

end EntryOrigins
