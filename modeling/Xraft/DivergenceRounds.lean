import Xraft.FaultFreeBatches
import Xraft.ServerRecovery
import Xraft.PersistOrder

/-! # Resolving a diverged log

A leader that appends nothing and a follower that fetches from it. The leader's log `G` is compacted
through `S`, the follower's log `F` through `R`; both are the whole logs, of which the stores keep
the part behind the snapshot. The leader's answer to a diverged fetch is exact when both logs hold
an entry of the follower's last epoch that the leader has not compacted away. For an epoch that the
leader never had, it answers with its own tip.
-/
namespace DivergenceRounds

open ProtocolTypes ConsensusEngine DurableStores NodeDriver EngineTransitions
open PositionedLog FaultFreeBatches ApplyPipeline ServerRecovery

variable {σ : Type}

/-! ## Logs -/

structure Dated (l : List Entry) : Prop where
  positioned : Positioned 0 l
  sorted : l.Pairwise (fun a b => a.term ≤ b.term)

def LogMatching (F G : List Entry) : Prop :=
  ∀ i x y, F[i]? = some x → G[i]? = some y → x.term = y.term → F.take (i + 1) = G.take (i + 1)

/-- The follower needs the snapshot, has an extension of the leader's log, or shares with the leader
an entry of its last epoch that stands at the snapshot or behind it. -/
def Resolvable (F G : List Entry) (S : ℕ) : Prop :=
  F.length < S ∨ F = [] ∨ G <+: F ∨
    ∃ x ∈ F, x ∈ G.drop (S - 1) ∧ x.term = lastTerm F

instance (F G : List Entry) (S : ℕ) : Decidable (Resolvable F G S) :=
  inferInstanceAs (Decidable (_ ∨ _ ∨ _ ∨ _))

theorem Dated.get_le {l : List Entry} (h : Dated l) {i j : ℕ} {x y : Entry} (hx : l[i]? = some x)
    (hy : l[j]? = some y) (hij : i ≤ j) : x.term ≤ y.term := by
  obtain ⟨hi, rfl⟩ := List.getElem?_eq_some_iff.mp hx
  obtain ⟨hj, rfl⟩ := List.getElem?_eq_some_iff.mp hy
  rcases Nat.lt_or_ge i j with hlt | hge
  · exact List.pairwise_iff_getElem.mp h.sorted i j hi hj hlt
  · obtain rfl : i = j := by omega
    exact le_rfl

theorem Dated.take {l : List Entry} (h : Dated l) (k : ℕ) : Dated (l.take k) :=
  ⟨h.positioned.shorten (List.take_prefix k l), h.sorted.sublist (List.take_sublist k l)⟩

theorem last_eq {l : List Entry} (h : l ≠ []) :
    ∃ x, l[l.length - 1]? = some x ∧ x.term = lastTerm l := by
  obtain ⟨p, x, rfl⟩ := (List.eq_nil_or_concat l).resolve_left h
  exact ⟨x, by simp, by simp⟩

theorem getLast?_take {l : List Entry} {k : ℕ} {e : Entry} (h : l[k]? = some e) :
    (l.take (k + 1)).getLast? = some e := by
  rw [List.take_add_one, h]
  exact List.getLast?_concat

theorem getElem?_of_isPrefix {P G : List Entry} (h : P <+: G) {k : ℕ} (hk : k < P.length) :
    P[k]? = G[k]? := by
  obtain ⟨rest, rfl⟩ := h
  rw [List.getElem?_append_left hk]

theorem mem_drop_of_getElem? {l : List Entry} {k j : ℕ} {e : Entry} (h : l[j]? = some e)
    (hj : k ≤ j) : e ∈ l.drop k :=
  List.mem_iff_getElem?.mpr ⟨j - k, by rw [List.getElem?_drop, Nat.add_sub_cancel' hj, h]⟩

theorem front_get {F G : List Entry} {R j : ℕ} (h : F.take R <+: G) (hj : j < R)
    (hF : j < F.length) : F[j]? = G[j]? := by
  have hget := getElem?_of_isPrefix h (by rw [List.length_take]; omega : j < (F.take R).length)
  rwa [List.getElem?_take_of_lt hj] at hget

theorem front_le {F G : List Entry} {R : ℕ} (h : F.take R <+: G) (hR : R ≤ F.length) :
    R ≤ G.length := by
  have hle := h.length_le
  rwa [List.length_take, min_eq_left hR] at hle

/-! ## Compacted nodes -/

def place (e : Entry) : ℕ × ℕ := (e.term, e.index)

/-- The node holds the log `G` with its first `S` entries behind a snapshot, and its stores work. -/
structure Holds (d : Driver σ) (G : List Entry) (S : ℕ) : Prop where
  faults : d.faults = []
  bound : S ≤ G.length
  log : d.logStore.entries = G.drop S
  snapshot : d.node.lastSnapshotMeta.map (fun m => (m.lastIncludedTerm, m.lastIncludedIndex)) =
    (G.take S).getLast?.map place

/-- Nothing is compacted, or the snapshot stands at the last compacted entry. -/
theorem Holds.compacted {d : Driver σ} {G : List Entry} {S : ℕ} (h : Holds d G S)
    (hG : Positioned 0 G) :
    (S = 0 ∧ d.node.lastSnapshotMeta = none) ∨ ∃ k e m, S = k + 1 ∧ G[k]? = some e ∧
      d.node.lastSnapshotMeta = some m ∧ m.lastIncludedIndex = k + 1 ∧
      m.lastIncludedTerm = e.term := by
  have hsnap := h.snapshot
  cases S with
  | zero => exact .inl ⟨rfl, by simpa using hsnap⟩
  | succ k =>
    have hk : k < G.length := h.bound
    have hget : G[k]? = some G[k] := List.getElem?_eq_getElem hk
    rw [getLast?_take hget] at hsnap
    obtain ⟨m, hm, hplace⟩ := Option.map_eq_some_iff.mp hsnap
    obtain ⟨hterm, hindex⟩ := Prod.mk.inj hplace
    have hpos := hG k _ hget
    exact .inr ⟨k, G[k], m, rfl, hget, hm, by omega, hterm⟩

theorem Holds.tip {d : Driver σ} {G : List Entry} {S : ℕ} (h : Holds d G S) (hG : Positioned 0 G) :
    d.effectiveLogTip = (G.length, lastTerm G) := by
  have hpos : Positioned S (G.drop S) := by simpa using hG.drop S
  have htail : G.drop S ≠ [] →
      (d.logStore.lastIndex, d.logStore.lastTerm) = (G.length, lastTerm G) := by
    intro hne
    have hlt : S < G.length := by
      by_contra hge
      exact hne (List.drop_eq_nil_of_le (by omega))
    obtain ⟨x, hx, hterm⟩ := last_eq hne
    have hlast : (G.drop S).getLast? = some x := by rw [List.getLast?_eq_getElem?, hx]
    have hlast' : G.getLast? = some x := by
      rw [List.getLast?_drop, if_neg (by omega)] at hlast
      exact hlast
    have hindex := hpos _ x hx
    rw [List.length_drop] at hindex
    simp only [MemoryLogStore.lastIndex, MemoryLogStore.lastTerm, h.log, hlast, lastTerm, hlast',
      Option.map_some, Option.getD_some, Prod.mk.injEq, and_true]
    omega
  unfold Driver.effectiveLogTip
  rcases h.compacted hG with ⟨rfl, hnone⟩ | ⟨k, e, m, rfl, hget, hm, hindex, hterm⟩
  · rw [hnone]
    cases G with
    | nil =>
      have hlog := h.log
      simp only [List.drop_nil] at hlog
      simp [MemoryLogStore.lastIndex, MemoryLogStore.lastTerm, hlog]
    | cons a rest => exact htail (by simp)
  · rw [hm]
    dsimp only
    by_cases hne : G.drop (k + 1) = []
    · have hlen : G.length = k + 1 := by
        have := h.bound
        have := List.drop_eq_nil_iff.mp hne
        omega
      have hempty : d.logStore.lastIndex = 0 := by
        simp [MemoryLogStore.lastIndex, h.log, hne]
      obtain ⟨x, hx, hxterm⟩ := last_eq (l := G) (by
        rintro rfl
        simp at hlen)
      have hxe : x = e := by
        rw [hlen, Nat.add_sub_cancel, hget] at hx
        exact (Option.some.inj hx).symm
      rw [if_pos (by omega), hindex, hterm, hlen, ← hxterm, hxe]
    · have hends := htail hne
      have hfirst : d.logStore.lastIndex = G.length := congrArg Prod.fst hends
      have := h.bound
      rw [if_neg (by omega)]
      exact hends

theorem Holds.entries_length {d : Driver σ} {G : List Entry} {S : ℕ} (h : Holds d G S) :
    d.logStore.entries.length + S = G.length := by
  have := h.bound
  rw [h.log, List.length_drop]
  omega

/-! ## The leader's answer -/

/-- A leader with the log `G` compacted through `S`: its epoch index covers the retained part, its
anchor and its snapshot stand at `S`. -/
structure Leads (l : Driver σ) (G : List Entry) (S : ℕ) : Prop extends Holds l G S where
  dated : Dated G
  starts : l.logStore.epochStarts = recordEpochs [] (G.drop S)
  anchor : l.logStore.snapshotAnchor = (G.take S).getLast?.map place
  named : ∀ m, l.node.lastSnapshotMeta = some m → m.id ≠ ""

def answerTo (l : Driver σ) (highWatermark : ℕ) (req : FetchRequest) :
    Except XRaftError FetchResponse :=
  (l.materializeFetchResponse l.node.config.clusterId l.node.currentTerm l.node.id highWatermark
    req.fetchOffset req.lastFetchedEpoch).2

structure From (l : Driver σ) (resp : FetchResponse) : Prop where
  cluster : resp.clusterId = l.node.config.clusterId
  epoch : resp.leaderEpoch = l.node.currentTerm
  leader : resp.leaderId = l.node.id
  isLeader : resp.isLeader = true

def blank (l : Driver σ) (highWatermark : ℕ) : FetchResponse :=
  ⟨l.node.config.clusterId, l.node.currentTerm, l.node.id, highWatermark, [], none, none, true⟩

abbrev correction (l : Driver σ) (highWatermark : ℕ) (de : DivergingEpoch) : FetchResponse :=
  { blank l highWatermark with divergingEpoch := some de }

def Asks (P : List Entry) (req : FetchRequest) : Prop :=
  req.fetchOffset = P.length + 1 ∧ req.lastFetchedEpoch = lastTerm P

theorem readBatch_ok {d : Driver σ} (h : d.faults = []) (resp : FetchResponse) (offset : ℕ) :
    ∃ entries, (d.readBatch resp offset).2 = .ok { resp with entries := entries } := by
  unfold Driver.readBatch
  rw [nextFault_none h]
  exact ⟨_, rfl⟩

section Leader

variable {l : Driver σ} {G : List Entry} {S : ℕ}

theorem Leads.redirects (h : Leads l G S) (highWatermark : ℕ) {req : FetchRequest}
    (hreq : req.fetchOffset ≤ S) (hpos : 0 < S) : ∃ redirect, answerTo l highWatermark req =
      .ok { blank l highWatermark with snapshotRedirect := some redirect } := by
  rcases h.compacted h.dated.positioned with ⟨rfl, -⟩ | ⟨k, e, m, rfl, -, hm, hindex, -⟩
  · omega
  · have hcover : l.node.snapshotCovering req.fetchOffset = some m := by
      have hid := h.named m hm
      simp [RaftNode.snapshotCovering, hm, hindex, hreq, hid]
    simp only [answerTo, Driver.materializeFetchResponse, hcover]
    exact ⟨_, rfl⟩

theorem Leads.uncovered (h : Leads l G S) {offset : ℕ} (hoffset : S < offset) :
    l.node.snapshotCovering offset = none := by
  rcases h.compacted h.dated.positioned with ⟨-, hm⟩ | ⟨k, e, m, rfl, -, hm, hindex, -⟩
  · simp [RaftNode.snapshotCovering, hm]
  · have hlt : ¬ offset ≤ k + 1 := by omega
    simp [RaftNode.snapshotCovering, hm, hindex, hlt]

/-- Behind the snapshot the leader compares the term right before the offset. -/
theorem Leads.answers (h : Leads l G S) (highWatermark : ℕ) {req : FetchRequest} {p : ℕ}
    (hoffset : req.fetchOffset = p + 2) (hp : S ≤ p + 1) :
    answerTo l highWatermark req = (l.answerFrom (blank l highWatermark) (p + 2)
      req.lastFetchedEpoch (G[p]?.map Entry.term)).2 := by
  have hretained : S ≤ p → l.logStore.termAt (p + 1) = G[p]?.map Entry.term := by
    intro hle
    have hpos : Positioned S (G.drop S) := by simpa using h.dated.positioned.drop S
    have hfind := hpos.find (p - S)
    rw [List.getElem?_drop, show S + (p - S) + 1 = p + 1 by omega,
      show S + (p - S) = p by omega] at hfind
    rw [MemoryLogStore.termAt, h.log, hfind]
  have hread (hle : S ≤ p) (hnone : l.node.lastSnapshotMeta.filter
      (fun snap => snap.lastIncludedIndex = p + 2 - 1) = none) :
      answerTo l highWatermark req = (l.answerFrom (blank l highWatermark) (p + 2)
        req.lastFetchedEpoch (G[p]?.map Entry.term)).2 := by
    unfold answerTo Driver.materializeFetchResponse
    rw [hoffset, h.uncovered (by omega)]
    dsimp only
    rw [if_neg (by omega), hnone]
    dsimp only
    rw [nextFault_none h.faults, afterCall_self h.faults]
    dsimp only
    rw [show p + 2 - 1 = p + 1 by omega, hretained hle]
    rfl
  rcases h.compacted h.dated.positioned with ⟨rfl, hm⟩ | ⟨k, e, m, rfl, hget, hm, hindex, hterm⟩
  · exact hread (by omega) (by simp [hm])
  · by_cases hat : p = k
    · have hsome : l.node.lastSnapshotMeta.filter
          (fun snap => snap.lastIncludedIndex = p + 2 - 1) = some m := by
        simp [hm, hindex, hat]
      unfold answerTo Driver.materializeFetchResponse
      rw [hoffset, h.uncovered (by omega)]
      dsimp only
      rw [if_neg (by omega), hsome, hat, hget, Option.map_some, ← hterm]
      rfl
    · have hne : ¬ k = p := fun hk => hat hk.symm
      exact hread (by omega) (by simp [hm, hindex, hne])

/-- A log that the leader extends gets entries, or an empty tail. -/
theorem Leads.serves (h : Leads l G S) (highWatermark : ℕ) {P : List Entry} (hP : P <+: G)
    (hS : S ≤ P.length) {req : FetchRequest} (hreq : Asks P req) : ∃ entries,
      answerTo l highWatermark req = .ok { blank l highWatermark with entries := entries } := by
  obtain ⟨hoffset, hepoch⟩ := hreq
  by_cases hne : P = []
  · subst hne
    unfold answerTo Driver.materializeFetchResponse
    rw [h.uncovered (by omega)]
    dsimp only
    rw [if_pos (by simp [hoffset])]
    exact readBatch_ok h.faults _ _
  · obtain ⟨x, hx, hterm⟩ := last_eq hne
    have hpos : 0 < P.length := List.length_pos_iff.mpr hne
    have hget : G[P.length - 1]? = some x := by
      rw [← getElem?_of_isPrefix hP (by omega), hx]
    rw [h.answers highWatermark (p := P.length - 1) (by omega) (by omega), hget, hepoch, ← hterm]
    unfold Driver.answerFrom Driver.divergingEpoch
    rw [Option.map_some, if_pos rfl]
    exact readBatch_ok h.faults _ _

theorem Leads.epochEnd_retained (h : Leads l G S) {e : Entry} (he : e ∈ G.drop S) :
    ∃ k y, l.logStore.endOffsetForEpoch e.term = some (k + 1) ∧ G[k]? = some y ∧
      y.term = e.term ∧ S ≤ k + 1 ∧ ∀ j z, G[j]? = some z → z.term = e.term → j ≤ k := by
  have hpos : Positioned S (G.drop S) := by simpa using h.dated.positioned.drop S
  obtain ⟨y, hy, hyt, hlast, hend⟩ := epoch_end hpos
    (h.dated.sorted.sublist (List.drop_sublist S G)) he ((G.take S).getLast?.map place)
  obtain ⟨hlow, hhigh, hget⟩ := hpos.index_of_mem hy
  rw [List.getElem?_drop, show S + (y.index - S - 1) = y.index - 1 by omega] at hget
  refine ⟨y.index - 1, y, ?_, hget, hyt, by omega, fun j z hz hzt => ?_⟩
  · unfold MemoryLogStore.endOffsetForEpoch MemoryLogStore.lastIndex
    rw [h.log, h.starts, h.anchor, hend, Nat.sub_add_cancel (by omega)]
  · by_cases hj : j < S
    · omega
    · have hle := hlast z (mem_drop_of_getElem? hz (by omega)) hzt
      have hzi := h.dated.positioned j z hz
      omega

/-- Without a retained entry of the epoch it is the snapshot that answers, unless it is older. -/
theorem Leads.epochEnd_unretained (h : Leads l G S) {t : ℕ} (hmiss : ∀ e ∈ G.drop S, e.term ≠ t) :
    l.logStore.endOffsetForEpoch t =
      ((G.take S).getLast?.filter (fun e => t ≤ e.term)).map (fun _ => S) := by
  unfold MemoryLogStore.endOffsetForEpoch endOffsetLookup
  rw [h.starts, h.anchor, no_start hmiss]
  cases S with
  | zero => simp
  | succ k =>
    have hk : k < G.length := h.bound
    have hget : G[k]? = some G[k] := List.getElem?_eq_getElem hk
    have hindex := h.dated.positioned k _ hget
    rw [getLast?_take hget]
    rcases Nat.lt_or_ge G[k].term t with hold | hold
    · simp [place, hold, hold.not_ge]
    · simp [place, hold, hindex]

theorem Leads.epochEnd (h : Leads l G S) {x : Entry} (hx : x ∈ G.drop (S - 1)) :
    ∃ k y, l.logStore.endOffsetForEpoch x.term = some (k + 1) ∧ G[k]? = some y ∧
      y.term = x.term ∧ S ≤ k + 1 ∧ ∀ j z, G[j]? = some z → z.term = x.term → j ≤ k := by
  by_cases hretained : ∃ e ∈ G.drop S, e.term = x.term
  · obtain ⟨e, he, hterm⟩ := hretained
    rw [← hterm]
    exact h.epochEnd_retained he
  · -- only the snapshot's own entry is left
    push Not at hretained
    cases S with
    | zero => exact absurd rfl (hretained x (by simpa using hx))
    | succ k =>
      have hk : k < G.length := h.bound
      have hget : G[k]? = some x := by
        rw [Nat.add_sub_cancel, List.drop_eq_getElem_cons hk] at hx
        rcases List.mem_cons.mp hx with rfl | hx
        · exact List.getElem?_eq_getElem hk
        · exact absurd rfl (hretained x hx)
      refine ⟨k, x, ?_, hget, rfl, le_rfl, fun j z hz hzt => ?_⟩
      · simp [h.epochEnd_unretained hretained, getLast?_take hget]
      · by_contra hgt
        exact hretained z (mem_drop_of_getElem? hz (by omega)) hzt

/-- An epoch that the leader holds neither at its snapshot nor behind it has no index, or the
snapshot's if the snapshot is newer. -/
theorem Leads.epochEnd_missing (h : Leads l G S) {t : ℕ}
    (hmiss : ∀ e ∈ G.drop (S - 1), e.term ≠ t) : l.logStore.endOffsetForEpoch t = none ∨
    (l.logStore.endOffsetForEpoch t = some S ∧
      ∃ k e, S = k + 1 ∧ G[k]? = some e ∧ t < e.term) := by
  rw [h.epochEnd_unretained fun e he =>
    hmiss e (List.drop_subset_drop_left G (Nat.sub_le S 1) he)]
  cases S with
  | zero => exact .inl (by simp)
  | succ k =>
    have hk : k < G.length := h.bound
    have hget : G[k]? = some G[k] := List.getElem?_eq_getElem hk
    have hne := hmiss G[k] (mem_drop_of_getElem? hget (by omega))
    rw [getLast?_take hget]
    rcases Nat.lt_or_ge G[k].term t with hold | hnewer
    · exact .inl (by simp [hold])
    · exact .inr ⟨by simp [hnewer], k, _, rfl, hget, by omega⟩

def pointTo (l : Driver σ) (G : List Entry) (epoch : ℕ) : DivergingEpoch :=
  match l.logStore.endOffsetForEpoch epoch with
  | some last => ⟨epoch, last⟩
  | none => ⟨lastTerm G, G.length⟩

/-- The answer to a claim that the leader's log does not bear out. -/
theorem Leads.corrects (h : Leads l G S) (highWatermark : ℕ) {req : FetchRequest} {p : ℕ}
    (hoffset : req.fetchOffset = p + 2) (hp : S ≤ p + 1)
    (hdiff : G[p]?.map Entry.term ≠ some req.lastFetchedEpoch) :
    answerTo l highWatermark req =
      .ok (correction l highWatermark (pointTo l G req.lastFetchedEpoch)) := by
  have hterm : max (lastTerm G) ((G[p]?.map Entry.term).getD 0) = lastTerm G := by
    refine max_eq_left ?_
    cases hy : G[p]? with
    | none => simp
    | some y =>
      have hlt := (List.getElem?_eq_some_iff.mp hy).1
      obtain ⟨x, hx, hxt⟩ := last_eq (List.ne_nil_of_length_pos (by omega : 0 < G.length))
      rw [← hxt]
      exact h.dated.get_le hy hx (by omega)
  rw [h.answers highWatermark hoffset hp]
  unfold Driver.answerFrom Driver.divergingEpoch Driver.lookupEpochEnd pointTo
  rw [if_neg hdiff, nextFault_none h.faults, h.tip h.dated.positioned]
  dsimp only
  rw [hterm]
  cases l.logStore.endOffsetForEpoch req.lastFetchedEpoch <;> rfl

/-- Below the end of a log that is not a prefix of the leader's, the terms differ. -/
theorem last_term_ne {F : List Entry} (hmatch : LogMatching F G) (hne : ¬ F <+: G) :
    ∃ z, F[F.length - 1]? = some z ∧ z.term = lastTerm F ∧ 0 < F.length ∧
      G[F.length - 1]?.map Entry.term ≠ some (lastTerm F) := by
  have hnil : F ≠ [] := by
    rintro rfl
    exact hne List.nil_prefix
  have hpos : 0 < F.length := List.length_pos_iff.mpr hnil
  obtain ⟨z, hz, hzterm⟩ := last_eq hnil
  refine ⟨z, hz, hzterm, hpos, fun heq => ?_⟩
  obtain ⟨y, hy, hyterm⟩ := Option.map_eq_some_iff.mp heq
  have htake := hmatch _ z y hz hy (hzterm.trans hyterm.symm)
  rw [Nat.sub_add_cancel hpos, List.take_length] at htake
  exact hne (htake ▸ List.take_prefix _ _)

/-- The leader's answer to a diverged log cuts it back to a common prefix. -/
structure Cuts (F G : List Entry) (S : ℕ) (de : DivergingEpoch) : Prop where
  below : de.endOffset < F.length
  behind : S ≤ de.endOffset
  common : F.take de.endOffset = G.take de.endOffset
  epoch : de.epoch = lastTerm (G.take de.endOffset)
  keeps : ∀ R, F.take R <+: G → R ≤ F.length → R ≤ de.endOffset

/-- The logs share the last epoch of `F` up to where `G` leaves it. -/
theorem cuts_of_shared {F : List Entry} (hF : Dated F) (hG : Dated G) (hmatch : LogMatching F G)
    {x y : Entry} {k : ℕ} (hxF : x ∈ F) (hxG : x ∈ G) (hxt : x.term = lastTerm F)
    (hget : G[k]? = some y) (hyt : y.term = x.term) (hk : S ≤ k + 1)
    (hlast : ∀ j z, G[j]? = some z → z.term = x.term → j ≤ k)
    (hdiff : G[F.length - 1]?.map Entry.term ≠ some (lastTerm F)) : Cuts F G S ⟨x.term, k + 1⟩ := by
  obtain ⟨z, hz, hzterm⟩ := last_eq (List.ne_nil_of_mem hxF)
  -- the shared entry, by position in both logs
  obtain ⟨hx0, -, hxi⟩ := hF.positioned.index_of_mem hxF
  obtain ⟨i, hi⟩ : ∃ i, x.index = i + 1 := ⟨x.index - 1, by omega⟩
  have hFi : F[i]? = some x := by simpa [hi] using hxi
  have hGi : G[i]? = some x := by simpa [hi] using (hG.positioned.index_of_mem hxG).2.2
  have hik : i ≤ k := hlast i x hGi rfl
  have hlt : k + 1 < F.length := by
    by_contra hge
    apply hdiff
    have hilt : i < F.length := (List.getElem?_eq_some_iff.mp hFi).1
    have hklt : k < G.length := (List.getElem?_eq_some_iff.mp hget).1
    have hw : G[F.length - 1]? = some G[F.length - 1] := List.getElem?_eq_getElem (by omega)
    have hlow := hG.get_le hGi hw (by omega)
    have hhigh := hG.get_le hw hget (by omega)
    rw [hw, Option.map_some]
    congr 1
    omega
  have hFk : F[k]? = some F[k] := List.getElem?_eq_getElem (by omega)
  have hFkt : F[k].term = y.term := by
    have hlow := hF.get_le hFi hFk hik
    have hhigh := hF.get_le hFk hz (by omega)
    omega
  refine ⟨hlt, hk, hmatch k _ y hFk hget hFkt, ?_, fun R hR hRF => ?_⟩
  · rw [← hyt]
    simp [lastTerm, getLast?_take hget]
  · by_contra hbelow
    dsimp only at hbelow
    have hFR : F[R - 1]? = some F[R - 1] := List.getElem?_eq_getElem (by omega)
    have hGR := (front_get hR (by omega) (by omega)).symm.trans hFR
    have hlow := hG.get_le hget hGR (by omega)
    have hhigh := hF.get_le hFR hz (by omega)
    have := hlast (R - 1) _ hGR (by omega)
    omega

theorem cuts_of_extension {F : List Entry} (hext : G <+: F) (hlen : G.length < F.length)
    (hS : S ≤ G.length) : Cuts F G S ⟨lastTerm G, G.length⟩ := by
  refine ⟨hlen, hS, ?_, ?_, fun R => front_le⟩
  · rw [List.take_length]
    exact (List.prefix_iff_eq_take.mp hext).symm
  · rw [List.take_length]

theorem Leads.diverges (h : Leads l G S) (highWatermark : ℕ) {F : List Entry} (hF : Dated F)
    (hmatch : LogMatching F G) (hres : Resolvable F G S) (hS : S ≤ F.length) (hne : ¬ F <+: G)
    {req : FetchRequest} (hreq : Asks F req) : ∃ de, Cuts F G S de ∧ answerTo l highWatermark req =
      .ok (correction l highWatermark de) := by
  obtain ⟨hoffset, hepoch⟩ := hreq
  obtain ⟨z, hz, hzterm, hpos, hdiff⟩ := last_term_ne hmatch hne
  have hanswer := h.corrects highWatermark (p := F.length - 1) (by omega : req.fetchOffset = _)
    (by omega) (hepoch ▸ hdiff)
  rw [hepoch, pointTo] at hanswer
  by_cases hshared : ∃ x ∈ F, x ∈ G.drop (S - 1) ∧ x.term = lastTerm F
  · obtain ⟨x, hxF, hxG, hxt⟩ := hshared
    obtain ⟨k, y, hend, hget, hyt, hk, hlast⟩ := h.epochEnd hxG
    rw [← hxt, hend] at hanswer
    exact ⟨_, cuts_of_shared hF h.dated hmatch hxF (List.mem_of_mem_drop hxG) hxt hget hyt hk hlast
      hdiff, hanswer⟩
  · -- the follower extends the leader's log: the leader's tip is the right answer
    have hext : G <+: F := by
      rcases hres with hlt | hnil' | hext | hsh
      · omega
      · rw [hnil'] at hpos
        exact absurd hpos (lt_irrefl 0)
      · exact hext
      · exact absurd hsh hshared
    have hlen : G.length < F.length := by
      by_contra hge
      exact hne (hext.eq_of_length_le (by omega) ▸ List.prefix_refl _)
    have hnone : l.logStore.endOffsetForEpoch (lastTerm F) = none := by
      refine (h.epochEnd_missing fun e he ht =>
        hshared ⟨e, hext.subset (List.mem_of_mem_drop he), he, ht⟩).resolve_right ?_
      rintro ⟨-, k, e, rfl, hget, hlt⟩
      have hFk := (getElem?_of_isPrefix hext (List.getElem?_eq_some_iff.mp hget).1).symm.trans hget
      have hle := hF.get_le hFk hz (by omega)
      omega
    rw [hnone] at hanswer
    exact ⟨_, cuts_of_extension hext hlen h.bound, hanswer⟩

structure Misses (F G : List Entry) (last : ℕ) : Prop where
  apart : last < F.length → ¬ F.take last <+: G
  keeps : ∀ R, F.take R <+: G → R ≤ F.length → R ≤ last

theorem misses_of_clash {F : List Entry} {k : ℕ} (hclash : k < F.length → F[k]? ≠ G[k]?) :
    Misses F G (k + 1) := by
  refine ⟨fun hlt hfront => ?_, fun R hR hRF => ?_⟩
  · exact hclash (by omega) (front_get hfront (by omega) (by omega))
  · by_contra hlow
    exact hclash (by omega) (front_get hR (by omega) (by omega))

theorem misses_of_tip {F : List Entry} (hext : ¬ G <+: F) : Misses F G G.length := by
  refine ⟨fun hlt hfront => ?_, fun R => front_le⟩
  have heq := hfront.eq_of_length (by rw [List.length_take]; exact min_eq_left hlt.le)
  exact hext (heq ▸ List.take_prefix _ _)

def Repeats (l : Driver σ) (de : DivergingEpoch) : Prop :=
  ∀ highWatermark req, req.fetchOffset = de.endOffset + 1 → req.lastFetchedEpoch = de.epoch →
    (∃ entries, answerTo l highWatermark req =
        .ok { blank l highWatermark with entries := entries }) ∨
      answerTo l highWatermark req =
        .ok (correction l highWatermark de)

theorem Leads.misleads (h : Leads l G S) {F : List Entry} (hF : Dated F) (hmatch : LogMatching F G)
    (hres : ¬ Resolvable F G S) {req : FetchRequest} (hreq : Asks F req) :
    ∃ de, Misses F G de.endOffset ∧ Repeats l de ∧ ∀ highWatermark, answerTo l highWatermark req =
      .ok (correction l highWatermark de) := by
  obtain ⟨hoffset, hepoch⟩ := hreq
  simp only [Resolvable, not_or, not_exists, not_and, not_lt] at hres
  obtain ⟨hS, hnil, hext, hshared⟩ := hres
  -- no position holds one entry of the last epoch in both logs
  have hapart {j : ℕ} {e : Entry} (hFj : F[j]? = some e) (hGj : G[j]? = some e) (hj : S ≤ j + 1) :
      e.term ≠ lastTerm F :=
    hshared e (List.mem_of_getElem? hFj) (mem_drop_of_getElem? hGj (by omega))
  have hne : ¬ F <+: G := by
    intro hfront
    obtain ⟨x, hx, hterm⟩ := last_eq hnil
    have hlt := (List.getElem?_eq_some_iff.mp hx).1
    exact hapart hx ((getElem?_of_isPrefix hfront hlt).symm.trans hx) (by omega) hterm
  obtain ⟨z, hz, hzterm, hpos, hdiff⟩ := last_term_ne hmatch hne
  have hanswer (highWatermark : ℕ) := h.corrects highWatermark (p := F.length - 1)
    (by omega : req.fetchOffset = _) (by omega) (hepoch ▸ hdiff)
  rw [hepoch] at hanswer
  by_cases hG : ∃ x ∈ G.drop (S - 1), x.term = lastTerm F
  · obtain ⟨x, hx, hxt⟩ := hG
    obtain ⟨k, y, hend, hget, hyt, hk, -⟩ := h.epochEnd hx
    have hpoint : pointTo l G (lastTerm F) = ⟨lastTerm F, k + 1⟩ := by
      rw [pointTo, ← hxt, hend]
    have hklt := (List.getElem?_eq_some_iff.mp hget).1
    have hlen : (G.take (k + 1)).length = k + 1 := by
      rw [List.length_take]
      omega
    have hclash (_ : k < F.length) (hFk : F[k]? = G[k]?) : False :=
      hapart (hFk.trans hget) hget hk (hyt.trans hxt)
    refine ⟨⟨lastTerm F, k + 1⟩, misses_of_clash hclash, ?_,
      fun highWatermark => hpoint ▸ hanswer highWatermark⟩
    · intro highWatermark req' hoffset' hepoch'
      refine .inl (h.serves highWatermark (List.take_prefix (k + 1) G) (by omega) ⟨?_, ?_⟩)
      · rw [hoffset', hlen]
      · rw [hepoch', ← hxt, ← hyt]
        simp [lastTerm, getLast?_take hget]
  · push Not at hG
    rcases h.epochEnd_missing hG with hnone | ⟨hsome, k, e, rfl, hget, hnewer⟩
    · have hpoint : pointTo l G (lastTerm F) = ⟨lastTerm G, G.length⟩ := by rw [pointTo, hnone]
      refine ⟨⟨lastTerm G, G.length⟩, misses_of_tip hext, ?_,
        fun highWatermark => hpoint ▸ hanswer highWatermark⟩
      intro highWatermark req' hoffset' hepoch'
      exact .inl (h.serves highWatermark List.prefix_rfl h.bound ⟨hoffset', hepoch'⟩)
    · have hpoint : pointTo l G (lastTerm F) = ⟨lastTerm F, k + 1⟩ := by rw [pointTo, hsome]
      have hclash (hk : k < F.length) (hFk : F[k]? = G[k]?) : False := by
        have := hF.get_le (hFk.trans hget) hz (by omega)
        omega
      refine ⟨⟨lastTerm F, k + 1⟩, misses_of_clash hclash, ?_,
        fun highWatermark => hpoint ▸ hanswer highWatermark⟩
      · intro highWatermark req' hoffset' hepoch'
        have hclaims : G[k]?.map Entry.term ≠ some req'.lastFetchedEpoch := by
          rw [hget, hepoch', Option.map_some, ne_eq, Option.some.injEq]
          exact (ne_of_lt hnewer).symm
        have hagain := h.corrects highWatermark hoffset' le_rfl hclaims
        rw [hepoch', hpoint] at hagain
        exact .inr hagain

/-- What the leader answers to a node with the log `F`: a snapshot, entries to a prefix, or a
cut. -/
theorem Leads.resolves (hl : Leads l G S) {F : List Entry} (hF : Dated F) (hmatch : LogMatching F G)
    (hres : Resolvable F G S) {req : FetchRequest} (hask : Asks F req) (highWatermark : ℕ) :
    ∃ resp, answerTo l highWatermark req = .ok resp ∧ From l resp ∧
      (resp.divergingEpoch = none ∧ (resp.snapshotRedirect.isSome ∨ F <+: G) ∨
        resp.snapshotRedirect = none ∧ ∃ de, resp.divergingEpoch = some de ∧ Cuts F G S de) := by
  by_cases hS : F.length < S
  · obtain ⟨redirect, hredirect⟩ := hl.redirects highWatermark (by rw [hask.1]; omega) (by omega)
    exact ⟨_, hredirect, ⟨rfl, rfl, rfl, rfl⟩, .inl ⟨rfl, .inl rfl⟩⟩
  · by_cases hfront : F <+: G
    · obtain ⟨entries, hserved⟩ := hl.serves highWatermark hfront (by omega) hask
      exact ⟨_, hserved, ⟨rfl, rfl, rfl, rfl⟩, .inl ⟨rfl, .inr hfront⟩⟩
    · obtain ⟨de, hcut, hde⟩ := hl.diverges highWatermark hF hmatch hres (by omega) hfront hask
      exact ⟨_, hde, ⟨rfl, rfl, rfl, rfl⟩, .inr ⟨rfl, de, rfl, hcut⟩⟩

end Leader

/-! ## The follower -/

structure Trails (f l : Driver σ) (F : List Entry) (R : ℕ) : Prop extends Holds f F R where
  running : f.haltReason = none
  mirrored : f.node.lastLogIndex = F.length ∧ f.node.lastLogTerm = lastTerm F
  cluster : f.node.config.clusterId = l.node.config.clusterId
  voter : f.node.isKnownVoter l.node.id = true
  accepts : f.node.currentTerm < l.node.currentTerm ∨ f.node.currentTerm = l.node.currentTerm ∧
    f.node.role ≠ .leader ∧ (f.node.leaderId = none ∨ f.node.leaderId = some l.node.id)
  room : F.length < u64Max

def Fetches (d : Driver σ) : Prop := d.node.role = .follower ∨ d.node.role = .observer

instance (d : Driver σ) : Decidable (Fetches d) := inferInstanceAs (Decidable (_ ∨ _))

theorem Trails.asks {f l : Driver σ} {F : List Entry} {R : ℕ} (h : Trails f l F R) :
    Asks F f.node.fetchRequest := by
  refine ⟨?_, h.mirrored.2⟩
  have := h.room
  simp only [RaftNode.fetchRequest, h.mirrored.1, satAdd]
  omega

/-- What the follower's part depends on in the engine; persisting leaves it alone. -/
structure Stance where
  snapshot : Option SnapshotMeta
  config : ClusterConfig
  voterSet : Option VoterSet
  term : ℕ
  role : NodeRole
  leader : Option NodeId
  lastLog : ℕ × ℕ

def stance (n : RaftNode) : Stance :=
  ⟨n.lastSnapshotMeta, n.config, n.voterSet, n.currentTerm, n.role, n.leaderId,
    n.lastLogIndex, n.lastLogTerm⟩

theorem stance_core {n m : RaftNode} (h : core n = core m) : stance n = stance m := by
  have hcore : stance (core n) = stance (core m) := congrArg stance h
  exact hcore

theorem Trails.congr {f f' l : Driver σ} {F : List Entry} {R : ℕ} (h : Trails f l F R)
    (hs : stance f'.node = stance f.node) (hlog : f'.logStore = f.logStore) (hf : f'.faults = [])
    (hrun : f'.haltReason = none) : Trails f' l F R := by
  have hsnap : f'.node.lastSnapshotMeta = f.node.lastSnapshotMeta := congrArg Stance.snapshot hs
  have hconf : f'.node.config = f.node.config := congrArg Stance.config hs
  have hvs : f'.node.voterSet = f.node.voterSet := congrArg Stance.voterSet hs
  have hterm : f'.node.currentTerm = f.node.currentTerm := congrArg Stance.term hs
  have hrole : f'.node.role = f.node.role := congrArg Stance.role hs
  have hleader : f'.node.leaderId = f.node.leaderId := congrArg Stance.leader hs
  have htip := congrArg Stance.lastLog hs
  obtain ⟨hindex, hlast⟩ := Prod.mk.inj htip
  refine ⟨⟨hf, h.bound, hlog ▸ h.log, hsnap ▸ h.snapshot⟩, hrun, ⟨hindex.trans h.mirrored.1,
    hlast.trans h.mirrored.2⟩, hconf ▸ h.cluster, ?_, ?_, h.room⟩
  · have := h.voter
    unfold RaftNode.isKnownVoter at this ⊢
    rw [hvs]
    exact this
  · rw [hterm, hrole, hleader]
    exact h.accepts

theorem Trails.accepted {f l : Driver σ} {F : List Entry} {R : ℕ} (h : Trails f l F R)
    {resp : FetchResponse} (hresp : From l resp) :
    ∃ m actions, f.node.acceptLeader resp = some (m, actions) := by
  obtain ⟨hc, hle, hid, hlead⟩ := hresp
  unfold RaftNode.acceptLeader
  have hvoter : ¬ (!f.node.isKnownVoter resp.leaderId) = true := by simp [hid, h.voter]
  have hfresh : ¬ resp.leaderEpoch < f.node.currentTerm := by
    have := h.accepts
    omega
  rw [if_neg (by rw [hc, h.cluster]; exact fun h => h rfl), if_neg (by simp [hlead]),
    if_neg hvoter, if_neg hfresh]
  dsimp only
  rcases h.accepts with hlt | ⟨heq, hrole, hleader⟩
  · have hraise : f.node.currentTerm < resp.leaderEpoch := by omega
    have hrole : (f.node.becomeFollower resp.leaderEpoch (some resp.leaderId)).1.role ≠
        .leader := by
      rw [becomeFollower_role]
      split_ifs <;> simp
    have hleader : ¬ ((f.node.becomeFollower resp.leaderEpoch (some resp.leaderId)).1.leaderId ≠
        none ∧ (f.node.becomeFollower resp.leaderEpoch (some resp.leaderId)).1.leaderId ≠
        some resp.leaderId) := fun h => h.2 rfl
    rw [if_pos hraise, if_neg hrole, if_neg hleader]
    exact ⟨_, _, rfl⟩
  · have hraise : ¬ f.node.currentTerm < resp.leaderEpoch := by omega
    have hknown : ¬ (f.node.leaderId ≠ none ∧ f.node.leaderId ≠ some resp.leaderId) := by
      rw [hid]
      rintro ⟨h₁, h₂⟩
      rcases hleader with hl | hl
      · exact h₁ hl
      · exact h₂ hl
    rw [if_neg hraise, if_neg hrole, if_neg hknown]
    exact ⟨_, _, rfl⟩

theorem accepted_actions {n m : RaftNode} {resp : FetchResponse} {actions : List Action}
    (h : Accepted n resp m actions) :
    ∀ a ∈ actions, a = .persistHardState ∨ a = .stepDown := by
  intro a ha
  rw [h.actions_eq] at ha
  rcases List.mem_append.mp ha with ha | ha
  · split_ifs at ha
    · exact .inl (List.mem_singleton.mp ha)
    · cases ha
  · split_ifs at ha
    · exact .inr (List.mem_singleton.mp ha)
    · cases ha

/-- Whoever accepted the leader's answer and lost no more than a tail still trails the leader. -/
theorem Trails.follows {f f' l : Driver σ} {F P : List Entry} {R : ℕ} (h : Trails f l F R)
    {resp : FetchResponse} (hresp : From l resp) {m : RaftNode} {actions : List Action}
    (hacc : Accepted f.node resp m actions)
    (hs : stance f'.node = { stance m with lastLog := (P.length, lastTerm P) })
    (hholds : Holds f' P R) (hrun : f'.haltReason = none) (hshort : P.length ≤ F.length) :
    Trails f' l P R ∧ Fetches f' := by
  have hconf : f'.node.config = f.node.config :=
    (congrArg Stance.config hs).trans hacc.progress.config
  have hvs : f'.node.voterSet = f.node.voterSet :=
    (congrArg Stance.voterSet hs).trans hacc.progress.voterSet
  have hleader : f'.node.leaderId = some l.node.id :=
    (congrArg Stance.leader hs).trans (hresp.leader ▸ hacc.leaderId)
  have hrole : f'.node.role = m.role := congrArg Stance.role hs
  have hfetches : Fetches f' := by
    unfold Fetches
    rw [hrole, hacc.role]
    split_ifs
    · exact .inr rfl
    · exact .inl rfl
  have hterm : f'.node.currentTerm = l.node.currentTerm := by
    have hraised : m.currentTerm = _ := congrArg Ballot.term hacc.ballot_eq
    have hfresh := hacc.fresh
    refine (congrArg Stance.term hs).trans ?_
    show m.currentTerm = _
    rw [hraised, ← hresp.epoch]
    split_ifs with hraise
    · rfl
    · exact le_antisymm hfresh (not_lt.mp hraise)
  refine ⟨⟨hholds, hrun, Prod.mk.inj (congrArg Stance.lastLog hs), hconf ▸ h.cluster, ?_,
    .inr ⟨hterm, ?_, .inr hleader⟩, hshort.trans_lt h.room⟩, hfetches⟩
  · have hvoter := h.voter
    unfold RaftNode.isKnownVoter at hvoter ⊢
    rwa [hvs]
  · intro hlead
    rcases hfetches with hr | hr <;> rw [hlead] at hr <;> cases hr

def Sends (p : FetchRequest → Prop) (w : List Effect) : Prop :=
  ∀ dest req, Effect.dispatch dest (.fetchRequest req) ∈ w → p req

theorem Sends.append {p : FetchRequest → Prop} {v w : List Effect} (hv : Sends p v)
    (hw : Sends p w) : Sends p (v ++ w) := fun dest req h =>
  (List.mem_append.mp h).elim (hv dest req) (hw dest req)

theorem sends_performed {d d' : Driver σ} {actions : List Action} (h : Performed d actions d')
    {p : FetchRequest → Prop}
    (hp : ∀ dest req, Action.sendMessage dest (.fetchRequest req) ∈ actions → p req) :
    ∃ w, d'.trace = d.trace ++ w ∧ Sends p w := by
  obtain ⟨w, hw, hidle⟩ := h.trace
  refine ⟨w, hw, fun dest req hmem => ?_⟩
  rcases hidle _ hmem with hidle | ⟨dest', m, heq, hact⟩
  · exact hidle.elim
  · obtain ⟨rfl, rfl⟩ := Effect.dispatch.inj heq
    exact hp _ _ hact

theorem Holds.truncate {d d' : Driver σ} {P : List Entry} {R k : ℕ} (h : Holds d P R)
    (hP : Positioned 0 P) (hR : R ≤ k) (hf : d'.faults = [])
    (hlog : d'.logStore = d.logStore.truncateFrom (k + 1))
    (hsnap : d'.node.lastSnapshotMeta = d.node.lastSnapshotMeta) : Holds d' (P.take k) R := by
  have hpos : Positioned R (P.drop R) := by simpa using hP.drop R
  have hbound := h.bound
  refine ⟨hf, by rw [List.length_take]; omega, ?_, ?_⟩
  · have hcut := hpos.filter_lt (k - R)
    rw [show R + (k - R) + 1 = k + 1 by omega] at hcut
    rw [hlog, MemoryLogStore.truncateFrom, MemoryLogStore.retain, h.log, hcut, List.drop_take]
  · rw [hsnap, h.snapshot, List.take_take, min_eq_left hR]

structure Exchange (σ : Type) where
  driver : Driver σ
  request : FetchRequest

def Exchange.entries (x : Exchange σ) : List Entry := x.driver.logStore.entries

/-- After a cut the follower holds a prefix of the leader's log, and so do the fetches it sends. -/
structure Settled (l : Driver σ) (G : List Entry) (S R : ℕ) (y : Exchange σ) (P : List Entry) :
    Prop where
  trails : Trails y.driver l P R
  asks : Asks P y.request
  common : P <+: G
  behind : S ≤ P.length

theorem Settled.served {l : Driver σ} {G : List Entry} {S R : ℕ} (hl : Leads l G S) {y : Exchange σ}
    {P : List Entry} (h : Settled l G S R y P) (highWatermark : ℕ) :
    ∃ resp, answerTo l highWatermark y.request = .ok resp ∧ resp.divergingEpoch = none := by
  obtain ⟨entries, hserved⟩ := hl.serves highWatermark h.common h.behind h.asks
  exact ⟨_, hserved, rfl⟩

variable [StateMachine σ]

theorem turn_quiet {d : Driver σ} {event : DriverEvent} (h : d.haltReason = none)
    (hh : (d.handleDriverEvent event).haltReason = none) : ∃ replies,
      (d.turn event).trace = (d.handleDriverEvent event).trace ++ replies ∧
      (∀ p, Sends p replies) ∧ (d.turn event).node = (d.handleDriverEvent event).node ∧
      (d.turn event).logStore = (d.handleDriverEvent event).logStore ∧
      (d.turn event).faults = (d.handleDriverEvent event).faults ∧
      (d.turn event).haltReason = none := by
  have hturn : d.turn event = (d.handleDriverEvent event).drainPendingReads := by
    unfold Driver.turn
    rw [if_neg (by simp [h])]
    dsimp only
    rw [if_neg]
    simp [Driver.drainPendingReads, Driver.emit, hh]
  rw [hturn]
  refine ⟨_, rfl, fun p dest req hmem => ?_, rfl, rfl, rfl, hh⟩
  obtain ⟨r, -, hr⟩ := List.mem_filterMap.mp hmem
  obtain ⟨v, -, hv⟩ := Option.map_eq_some_iff.mp hr
  cases hv

/-- The turn of a diverging answer: follow, cut, ask again. -/
theorem Trails.corrected {f l : Driver σ} {P : List Entry} {R : ℕ} (h : Trails f l P R)
    {resp : FetchResponse} (hresp : From l resp) {de : DivergingEpoch}
    (hdiv : resp.divergingEpoch = some de) (hdirect : resp.snapshotRedirect = none) {last : ℕ}
    (hsat : satAdd de.endOffset 1 = last + 1) : ∃ m actions d₂ req,
      Accepted f.node resp m actions ∧
      Performed { f with node := { m with lastFetchTick := some m.logicalTick } } actions d₂ ∧
      req.fetchOffset = last + 1 ∧ req.lastFetchedEpoch = de.epoch ∧
      f.handleDriverEvent (.fetchResult resp) = (Driver.mirrorLogTip { d₂ with
        logStore := d₂.logStore.truncateFrom (last + 1)
        trace := d₂.trace ++ [.truncate (last + 1), .flush] }).emit
          [.dispatch l.node.id (.fetchRequest req)] := by
  obtain ⟨m, actions, haccept⟩ := h.accepted hresp
  have hacc := acceptLeader_spec haccept
  have hroutine : ∀ a ∈ actions, Routine a := by
    intro a ha
    rcases accepted_actions hacc a ha with rfl | rfl <;> trivial
  let req : FetchRequest := ⟨m.config.clusterId, m.currentTerm, m.id, last + 1, de.epoch⟩
  have hstep : f.node.step (.fetchResponse resp) =
      ({ m with lastFetchTick := some m.logicalTick }, actions ++
        [.truncateLog (.suffixFromInclusive (last + 1)),
          .sendMessage l.node.id (.fetchRequest req)]) := by
    simp only [RaftNode.step, RaftNode.handleFetchResponse, haccept, hdiv, hdirect,
      RaftNode.resolveDivergence, hsat, hresp.leader, req]
  obtain ⟨d₂, hperf, hrun⟩ := runActions_performed processAcked none hroutine
    [.truncateLog (.suffixFromInclusive (last + 1)),
      .sendMessage l.node.id (.fetchRequest req)]
    (d := { f with node := { m with lastFetchTick := some m.logicalTick } }) h.faults {}
  refine ⟨m, actions, d₂, req, hacc, hperf, rfl, rfl, ?_⟩
  simp only [Driver.handleDriverEvent, Driver.feed, Driver.processActions, hstep, hrun]
  exact runActions_cut hperf.faults {} _ _ _

/-- The follower drops what the leader's answer asks it to, if anything, and fetches again at
once. -/
theorem Trails.cut {f l : Driver σ} {P : List Entry} {R : ℕ} (h : Trails f l P R) (hP : Dated P)
    {resp : FetchResponse} (hresp : From l resp) {de : DivergingEpoch}
    (hdiv : resp.divergingEpoch = some de) (hdirect : resp.snapshotRedirect = none) {last : ℕ}
    (hsat : satAdd de.endOffset 1 = last + 1) (hkeeps : R ≤ last) :
    Trails (f.turn (.fetchResult resp)) l (P.take last) R ∧
      Fetches (f.turn (.fetchResult resp)) ∧
      ∃ w, (f.turn (.fetchResult resp)).trace = f.trace ++ w ∧
        (∃ req, Effect.dispatch l.node.id (.fetchRequest req) ∈ w) ∧
        Sends (fun req => req.fetchOffset = last + 1 ∧ req.lastFetchedEpoch = de.epoch) w := by
  obtain ⟨m, actions, d₂, req, hacc, hperf, hoffset, hepoch, hhandled⟩ :=
    h.corrected hresp hdiv hdirect hsat
  have hballots := accepted_actions hacc
  have hstance : stance d₂.node = stance m := (stance_core hperf.core).trans rfl
  have hlog : d₂.logStore = f.logStore := by
    refine hperf.log.trans (logAfter_kept _ (fun entries hmem => ?_))
    rcases hballots _ hmem with h | h <;> cases h
  have hhalt : (f.handleDriverEvent (.fetchResult resp)).haltReason = none := by
    rw [hhandled]
    exact hperf.halt.trans h.running
  obtain ⟨replies, htrace, hquiet, hnode, hstore, hfaults, hrunning⟩ := turn_quiet h.running hhalt
  rw [hhandled] at htrace hnode hstore hfaults
  have hsnap : d₂.node.lastSnapshotMeta = f.node.lastSnapshotMeta :=
    (congrArg Stance.snapshot hstance).trans hacc.progress.lastSnapshotMeta
  have hcut {s : Driver σ} (hlog' : s.logStore = d₂.logStore.truncateFrom (last + 1))
      (hf : s.faults = []) (hsnap' : s.node.lastSnapshotMeta = d₂.node.lastSnapshotMeta) :
      Holds s (P.take last) R :=
    h.toHolds.truncate hP.positioned hkeeps hf (hlog ▸ hlog') (hsnap'.trans hsnap)
  have htip := (hcut (s := { d₂ with
      logStore := d₂.logStore.truncateFrom (last + 1)
      trace := d₂.trace ++ [.truncate (last + 1), .flush] }) rfl hperf.faults rfl).tip
    (hP.positioned.shorten (List.take_prefix _ _))
  have hs : stance (f.turn (.fetchResult resp)).node =
      { stance m with lastLog := ((P.take last).length, lastTerm (P.take last)) } := by
    rw [hnode, ← hstance, ← htip]
    rfl
  obtain ⟨ht, hfetches⟩ := h.follows hresp hacc hs (hcut hstore (hfaults.trans hperf.faults)
    (by rw [hnode]; rfl)) hrunning (List.length_take_le' _ _)
  refine ⟨ht, hfetches, ?_⟩
  obtain ⟨w, hw, hsent⟩ := sends_performed hperf
    (p := fun req => req.fetchOffset = last + 1 ∧ req.lastFetchedEpoch = de.epoch)
    (fun dest req hact => by rcases hballots _ hact with h | h <;> cases h)
  refine ⟨w ++ ([.truncate (last + 1), .flush] ++ [.dispatch l.node.id (.fetchRequest req)]
    ++ replies), ?_, ⟨req, by simp⟩, hsent.append (Sends.append (fun dest r hr => ?_) (hquiet _))⟩
  · rw [htrace]
    show d₂.trace ++ _ ++ _ ++ replies = _
    rw [hw]
    simp only [List.append_assoc]
  · simp only [List.mem_append, List.mem_cons, List.not_mem_nil, reduceCtorEq, false_or,
      or_false, Effect.dispatch.injEq, OutboundMessage.fetchRequest.injEq] at hr
    exact hr.2 ▸ ⟨hoffset, hepoch⟩

/-! ## Waiting for the next fetch -/

theorem becomePreCandidate_role (n : RaftNode) : n.becomePreCandidate.1.role ≠ .follower := by
  unfold RaftNode.becomePreCandidate
  split_ifs
  · unfold RaftNode.becomeCandidate
    split_ifs
    · rw [(becomeLeader_standing _).1]
      simp
    · simp [RaftNode.enterCandidate, RaftNode.resetElectionTimer]
  · simp [RaftNode.enterPreCandidate, RaftNode.resetElectionTimer]

/-- A tick that leaves the node in its role changes nothing else, and what it sends asks for the
same. -/
theorem Trails.tick {f l : Driver σ} {P : List Entry} {R : ℕ} (h : Trails f l P R) (hf : Fetches f)
    (hrole : (f.node.step .tick).1.role = f.node.role) : Trails (f.turn .tick) l P R ∧
      Fetches (f.turn .tick) ∧ ∃ w, (f.turn .tick).trace = f.trace ++ w ∧ Sends (Asks P) w := by
  have hkept : ¬ f.node.advanceClock.scheduleFetch.1.quorumLost = true := by
    obtain ⟨t, ht⟩ := scheduleFetch_fst f.node.advanceClock
    rw [ht]
    rcases hf with hr | hr <;> simp [RaftNode.quorumLost, RaftNode.advanceClock, hr]
  obtain ⟨t, c, hticked⟩ := ticked_eq f.node
  have hstep : f.node.step .tick = (ticked f.node, f.node.advanceClock.scheduleFetch.2) := by
    have htick := handleTick_eq f.node
    rw [if_neg hkept] at htick
    unfold RaftNode.electionTimeout at htick
    split_ifs at htick with hexpired
    · exfalso
      have hfollower : f.node.role = .follower := by
        have hr := hexpired.2
        rw [hticked] at hr
        rcases hf with hf | hf
        · exact hf
        · simp [hf] at hr
      rw [RaftNode.step, htick, hfollower] at hrole
      exact becomePreCandidate_role _ hrole
    · exact htick
  have hasks : ∀ a ∈ f.node.advanceClock.scheduleFetch.2, ∃ dest,
      a = .sendMessage dest (.fetchRequest f.node.fetchRequest) := by
    intro a ha
    obtain ⟨dest, hsend⟩ := PersistOrder.scheduleFetch_sends ha
    exact ⟨dest, hsend⟩
  have hroutine : ∀ a ∈ f.node.advanceClock.scheduleFetch.2, Routine a := by
    intro a ha
    obtain ⟨dest, rfl⟩ := hasks a ha
    trivial
  obtain ⟨d₂, hperf, hrun⟩ := runActions_performed processAcked none hroutine []
    (d := { f with node := ticked f.node }) h.faults {}
  have hhandled : f.handleDriverEvent .tick = d₂ := by
    rw [List.append_nil] at hrun
    simp only [Driver.handleDriverEvent, Driver.feed, Driver.processActions, hstep, hrun,
      runActions]
  have hstance : stance d₂.node = stance f.node := by
    rw [stance_core hperf.core]
    show stance (ticked f.node) = _
    rw [hticked]
    rfl
  have hlog : d₂.logStore = f.logStore := by
    refine hperf.log.trans (logAfter_kept _ (fun entries hmem => ?_))
    obtain ⟨dest, hsend⟩ := hasks _ hmem
    cases hsend
  have hhalt : d₂.haltReason = none := hperf.halt.trans h.running
  obtain ⟨replies, htrace, hquiet, hnode, hstore, hfaults, hrunning⟩ :=
    turn_quiet h.running (hhandled ▸ hhalt)
  rw [hhandled] at htrace hnode hstore hfaults
  refine ⟨h.congr (hnode ▸ hstance) (hstore.trans hlog) (hfaults.trans hperf.faults) hrunning, ?_,
    ?_⟩
  · unfold Fetches
    rw [hnode, show d₂.node.role = f.node.role from congrArg Stance.role hstance]
    exact hf
  · obtain ⟨w, hw, hsent⟩ := sends_performed hperf (p := Asks P) (fun dest req hact => by
      obtain ⟨_, hsend⟩ := hasks _ hact
      obtain ⟨-, hmsg⟩ := Action.sendMessage.inj hsend
      rw [OutboundMessage.fetchRequest.inj hmsg]
      exact h.asks)
    exact ⟨w ++ replies, by rw [htrace, hw, List.append_assoc], hsent.append (hquiet _)⟩

inductive Waits : Driver σ → Driver σ → Prop
  | refl (d : Driver σ) : Waits d d
  | tick {d d' : Driver σ} (h : Waits d d') (role : (d'.node.step .tick).1.role = d'.node.role) :
      Waits d (d'.turn .tick)

theorem Trails.waits {f f' l : Driver σ} {P : List Entry} {R : ℕ} (h : Trails f l P R)
    (hf : Fetches f) (hw : Waits f f') : Trails f' l P R ∧ Fetches f' ∧
      ∃ w, f'.trace = f.trace ++ w ∧ Sends (Asks P) w := by
  induction hw with
  | refl => exact ⟨h, hf, [], by simp, fun _ _ hmem => by cases hmem⟩
  | tick hw role ih =>
    obtain ⟨ht, hfetch, w, hw, hs⟩ := ih
    obtain ⟨ht', hfetch', w', hw', hs'⟩ := ht.tick hfetch role
    exact ⟨ht', hfetch', w ++ w', by rw [hw', hw, List.append_assoc], hs.append hs'⟩

/-! ## Rounds -/

/-- One round: the leader answers, the follower handles the answer, and some fetch that it sent
since then, at once or on a later tick, is the next one. -/
structure Round (l : Driver σ) (x : Exchange σ) (resp : FetchResponse) (y : Exchange σ) : Prop where
  answered : ∃ highWatermark, answerTo l highWatermark x.request = .ok resp
  handled : Waits (x.driver.turn (.fetchResult resp)) y.driver
  refetched : Effect.dispatch l.node.id (.fetchRequest y.request) ∈
    y.driver.trace.drop x.driver.trace.length

inductive DivergingRounds (l : Driver σ) (x : Exchange σ) : ℕ → Exchange σ → Prop
  | start : DivergingRounds l x 0 x
  | next {k : ℕ} {y z : Exchange σ} {resp : FetchResponse} (h : DivergingRounds l x k y)
      (round : Round l y resp z) (diverging : resp.divergingEpoch.isSome) :
      DivergingRounds l x (k + 1) z

section Convergence

variable {l : Driver σ} {G F : List Entry} {S R : ℕ}

theorem Round.settles (hl : Leads l G S) (hF : Dated F) (hmatch : LogMatching F G)
    (hres : Resolvable F G S) (hcommitted : F.take R <+: G) {x y : Exchange σ}
    (hx : Trails x.driver l F R) (hask : Asks F x.request) {resp : FetchResponse}
    (h : Round l x resp y) (hdiv : resp.divergingEpoch.isSome) :
    ∃ P, Settled l G S R y P ∧ P.length < F.length := by
  obtain ⟨highWatermark, hanswer⟩ := h.answered
  obtain ⟨resp', hanswer', hfrom, hcases⟩ := hl.resolves hF hmatch hres hask highWatermark
  rw [hanswer, Except.ok.injEq] at hanswer'
  subst hanswer'
  rcases hcases with ⟨hnone, -⟩ | ⟨hdirect, de, hde, hcut⟩
  · simp [hnone] at hdiv
  · have hbelow := hcut.below
    obtain ⟨ht, hf, w, hw, -, hsends⟩ := hx.cut hF hfrom hde hdirect
      (satAdd_eq (by have := hx.room; omega)) (hcut.keeps R hcommitted hx.bound)
    obtain ⟨ht', -, w', hw', hsends'⟩ := ht.waits hf h.handled
    have hlen : (F.take de.endOffset).length = de.endOffset := by
      rw [List.length_take]
      omega
    -- the immediate fetch claims the epoch of the answer, which is that of the new tip
    have hasks : Sends (Asks (F.take de.endOffset)) w := by
      intro dest req hreq
      obtain ⟨hoffset, hepoch⟩ := hsends dest req hreq
      exact ⟨by rw [hoffset, hlen], by rw [hepoch, hcut.epoch, hcut.common]⟩
    have hmem := h.refetched
    rw [hw', hw, List.append_assoc, List.drop_left] at hmem
    refine ⟨F.take de.endOffset, ⟨ht', (hasks.append hsends') _ _ hmem, ?_, ?_⟩, by omega⟩
    · rw [hcut.common]
      exact List.take_prefix _ _
    · rw [hlen]
      exact hcut.behind

theorem Settled.not_diverging (hl : Leads l G S) {y z : Exchange σ} {P : List Entry}
    (h : Settled l G S R y P) {resp : FetchResponse} (hround : Round l y resp z) :
    resp.divergingEpoch = none := by
  obtain ⟨highWatermark, hanswer⟩ := hround.answered
  obtain ⟨resp', hanswer', hnone⟩ := h.served hl highWatermark
  rw [hanswer, Except.ok.injEq] at hanswer'
  rw [hanswer', hnone]

theorem DivergingRounds.settled (hl : Leads l G S) (hF : Dated F) (hmatch : LogMatching F G)
    (hres : Resolvable F G S) (hcommitted : F.take R <+: G) {x y : Exchange σ}
    (hx : Trails x.driver l F R) (hask : Asks F x.request) {k : ℕ} (h : DivergingRounds l x k y) :
    (k = 0 ∧ y = x) ∨ (k = 1 ∧ ∃ P, Settled l G S R y P ∧ P.length < F.length) := by
  induction h with
  | start => exact .inl ⟨rfl, rfl⟩
  | next h round diverging ih =>
    rcases ih with ⟨rfl, rfl⟩ | ⟨-, P, hP, -⟩
    · exact .inr ⟨rfl, round.settles hl hF hmatch hres hcommitted hx hask diverging⟩
    · simp [hP.not_diverging hl round] at diverging

/-- However many rounds were answered with a diverging epoch: their number is bounded by that of the
follower's entries, a further one shortens the log, the leader answers and a diverging answer opens
a further round, and any other answer redirects to the snapshot or finds the follower with a prefix
of the leader's log. -/
def Converges (l : Driver σ) (G : List Entry) (R : ℕ) (x : Exchange σ) : Prop :=
  ∀ k y, DivergingRounds l x k y →
    k ≤ x.entries.length + 1 ∧
    (∀ resp z, Round l y resp z → resp.divergingEpoch.isSome →
      z.entries.length < y.entries.length) ∧
    ∀ highWatermark, ∃ resp, answerTo l highWatermark y.request = .ok resp ∧
      (resp.divergingEpoch.isSome → ∃ z, Round l y resp z) ∧
      (resp.divergingEpoch = none →
        resp.snapshotRedirect.isSome ∨ ∃ P, Holds y.driver P R ∧ P <+: G)

theorem Trails.converges {f : Driver σ} (hf : Trails f l F R) (hl : Leads l G S) (hF : Dated F)
    (hcommitted : F.take R <+: G) (hmatch : LogMatching F G) (hres : Resolvable F G S) :
    Converges l G R ⟨f, f.node.fetchRequest⟩ := by
  intro k y h
  rcases h.settled hl hF hmatch hres hcommitted hf hf.asks with ⟨rfl, rfl⟩ | ⟨rfl, P, hP, -⟩
  · refine ⟨by omega, fun resp z hround hdiv => ?_, fun highWatermark => ?_⟩
    · obtain ⟨P, hP, hlt⟩ := hround.settles hl hF hmatch hres hcommitted hf hf.asks hdiv
      have hlen := hP.trails.entries_length
      have hlen' := hf.entries_length
      simp only [Exchange.entries]
      omega
    · obtain ⟨resp, hanswer, hfrom, hcases⟩ := hl.resolves hF hmatch hres hf.asks highWatermark
      refine ⟨resp, hanswer, fun hdiv => ?_, fun hnone => ?_⟩
      · rcases hcases with ⟨hnone, -⟩ | ⟨hdirect, de, hde, hcut⟩
        · simp [hnone] at hdiv
        · have hbelow := hcut.below
          have hroom := hf.room
          obtain ⟨-, -, w, hw, ⟨req, hreq⟩, -⟩ := hf.cut hF hfrom hde hdirect
            (satAdd_eq (by omega)) (hcut.keeps R hcommitted hf.bound)
          refine ⟨⟨f.turn (.fetchResult resp), req⟩, ⟨highWatermark, hanswer⟩, .refl _, ?_⟩
          rw [hw, List.drop_left]
          exact hreq
      · rcases hcases with ⟨-, hredirect | hfront⟩ | ⟨-, de, hde, -⟩
        · exact .inl hredirect
        · exact .inr ⟨F, hf.toHolds, hfront⟩
        · simp [hde] at hnone
  · refine ⟨by simp, fun resp z hround hdiv => ?_, fun highWatermark => ?_⟩
    · simp [hP.not_diverging hl hround] at hdiv
    · obtain ⟨resp, hanswer, hnone⟩ := hP.served hl highWatermark
      exact ⟨resp, hanswer, by simp [hnone], fun _ => .inr ⟨P, hP.trails.toHolds, hP.common⟩⟩

omit [StateMachine σ] in
theorem Holds.unique {d : Driver σ} {P Q : List Entry} (hP : Holds d P R) (hQ : Holds d Q R)
    (hpast : Q.take R <+: G) (hfront : P <+: G) : P = Q := by
  have htake : P.take R = Q.take R := by
    refine List.IsPrefix.eq_of_length ?_ ?_
    · exact List.prefix_of_prefix_length_le ((List.take_prefix R P).trans hfront) hpast (by
        rw [List.length_take, List.length_take]
        have := hQ.bound
        omega)
    · rw [List.length_take, List.length_take, min_eq_left hP.bound, min_eq_left hQ.bound]
  rw [← List.take_append_drop R P, ← List.take_append_drop R Q, htake, ← hP.log, ← hQ.log]

/-- A round whose answer points to the end of the log or beyond cuts nothing. -/
theorem Trails.uncut {f : Driver σ} {P : List Entry} (h : Trails f l P R) (hP : Dated P)
    {de : DivergingEpoch} (hbeyond : P.length ≤ de.endOffset) {highWatermark : ℕ}
    {req : FetchRequest} {z : Exchange σ} (hround : Round l ⟨f, req⟩
      (correction l highWatermark de) z) :
    z.entries.length = f.logStore.entries.length := by
  have hroom := h.room
  have hsat : satAdd de.endOffset 1 = satAdd de.endOffset 1 - 1 + 1 := by
    simp only [satAdd]
    omega
  have hlast : P.length ≤ satAdd de.endOffset 1 - 1 := by
    simp only [satAdd]
    omega
  have hfrom : From l (correction l highWatermark de) :=
    ⟨rfl, rfl, rfl, rfl⟩
  obtain ⟨ht, hfetches, -⟩ := h.cut hP hfrom rfl rfl hsat (h.bound.trans hlast)
  obtain ⟨ht', -⟩ := ht.waits hfetches hround.handled
  have hlen := ht'.entries_length
  have hlen' := h.entries_length
  rw [List.length_take, min_eq_right hlast] at hlen
  simp only [Exchange.entries]
  omega

theorem Trails.diverged {f : Driver σ} (hf : Trails f l F R) (hl : Leads l G S) (hF : Dated F)
    (hcommitted : F.take R <+: G) (hmatch : LogMatching F G) (hres : ¬ Resolvable F G S) :
    ¬ Converges l G R ⟨f, f.node.fetchRequest⟩ := by
  intro hconv
  obtain ⟨de, hmiss, hrepeats, hanswer⟩ := hl.misleads hF hmatch hres hf.asks
  have hroom := hf.room
  by_cases hbeyond : F.length ≤ de.endOffset
  · -- the first round cuts nothing
    obtain ⟨-, hshort, hanswers⟩ := hconv 0 _ .start
    obtain ⟨resp, hresp, hopens, -⟩ := hanswers 0
    cases (hanswer 0).symm.trans hresp
    obtain ⟨z, hround⟩ := hopens rfl
    have hlt := hshort _ z hround rfl
    have hsame := hf.uncut hF hbeyond hround
    simp only [Exchange.entries] at hlt hsame
    omega
  · have hfrom : From l (correction l 0 de) := ⟨rfl, rfl, rfl, rfl⟩
    have hkeeps := hmiss.keeps R hcommitted hf.bound
    obtain ⟨ht, -, w, hw, ⟨req, hreq⟩, hsends⟩ := hf.cut hF hfrom rfl rfl
      (satAdd_eq (by omega)) hkeeps
    have hround : Round l ⟨f, f.node.fetchRequest⟩ (correction l 0 de)
        ⟨f.turn (.fetchResult (correction l 0 de)), req⟩ := by
      refine ⟨⟨0, hanswer 0⟩, .refl _, ?_⟩
      rw [hw, List.drop_left]
      exact hreq
    obtain ⟨-, hshort, hanswers⟩ := hconv 1 _ (DivergingRounds.start.next hround rfl)
    obtain ⟨resp, hresp, hopens, hsettled⟩ := hanswers 0
    obtain ⟨hoffset, hepoch⟩ := hsends _ _ hreq
    rcases hrepeats 0 req hoffset hepoch with ⟨entries, hserved⟩ | hagain
    · -- the second fetch is served although the logs differ
      cases hserved.symm.trans hresp
      rcases hsettled rfl with hredirect | ⟨P, hP, hfront⟩
      · cases hredirect
      · have hpast : (F.take de.endOffset).take R <+: G := by
          rwa [List.take_take, min_eq_left hkeeps]
        exact hmiss.apart (by omega) (hP.unique ht.toHolds hpast hfront ▸ hfront)
    · -- the second round cuts nothing
      cases hagain.symm.trans hresp
      obtain ⟨z, hagain⟩ := hopens rfl
      have hlt := hshort _ z hagain rfl
      have hsame := ht.uncut (hF.take _) (List.length_take_le _ _) hagain
      simp only [Exchange.entries] at hlt hsame
      omega

/-- The rounds of a leader that appends nothing and a follower whose compacted entries it has
converge exactly when the follower needs the snapshot, extends the leader's log or shares with the
leader an entry of its last epoch that stands at the snapshot or behind it. -/
theorem divergence_resolves {f : Driver σ} (hl : Leads l G S) (hF : Dated F)
    (hf : Trails f l F R) (hcommitted : F.take R <+: G) (hmatch : LogMatching F G) :
    Converges l G R ⟨f, f.node.fetchRequest⟩ ↔ Resolvable F G S :=
  ⟨fun hconv => by_contra fun hres => hf.diverged hl hF hcommitted hmatch hres hconv,
    hf.converges hl hF hcommitted hmatch⟩

end Convergence

/-! ## A log that the new leader has never seen -/

def twoEntries (t : ℕ) : List Entry := [⟨1, 1, .noOp⟩, ⟨2, t, .noOp⟩]

def restarted (n : NodeId) (entries : List Entry) : Driver NoOpStateMachine :=
  start (threeVoterConfig false n) (some threeVoterSet) [] 64 .mk [] { Durable.fresh with
    logStore := ⟨entries, recordEpochs [] entries, none⟩
    hsStore := some ⟨2, none, 0⟩ }

def elected : Driver NoOpStateMachine :=
  [.tick, .tick, .preVoteResult 3 ⟨"c", 2, 2, true, none⟩,
    .voteResult 3 ⟨"c", 3, 3, true, none⟩].foldl Driver.turn (restarted 1 [⟨1, 1, .noOp⟩])

def secondVoter (t : ℕ) : Driver NoOpStateMachine := restarted 2 (twoEntries t)

theorem twoEntries_dated {t : ℕ} (h : 1 ≤ t) : Dated (twoEntries t) := by
  refine ⟨fun i e he => ?_, by simpa [twoEntries] using h⟩
  rcases i with _ | _ | i <;> simp [twoEntries] at he <;> simp [← he]

theorem twoEntries_matching {t t' : ℕ} (h : t ≠ t') :
    LogMatching (twoEntries t) (twoEntries t') := by
  intro i x y hx hy hterm
  rcases i with _ | _ | i
  · rfl
  · simp only [twoEntries, List.getElem?_cons_succ, List.getElem?_cons_zero,
      Option.some.injEq] at hx hy
    subst hx hy
    exact absurd hterm h
  · simp [twoEntries] at hx

theorem elected_leads : elected.node.role = .leader ∧ Leads elected (twoEntries 3) 0 := by
  have hnone : elected.node.lastSnapshotMeta = none := by decide +kernel
  refine ⟨by decide +kernel, ⟨by decide +kernel, by decide, by decide +kernel, by simp [hnone]⟩,
    twoEntries_dated (by decide), by decide +kernel, by decide +kernel, fun m hm => ?_⟩
  simp [hnone] at hm

theorem secondVoter_trails {t : ℕ} (h : t = 1 ∨ t = 2) :
    Trails (secondVoter t) elected (twoEntries t) 0 := by
  rcases h with rfl | rfl
  all_goals
    exact ⟨⟨by decide +kernel, by decide, by decide +kernel, rfl⟩, by decide +kernel,
      by decide +kernel, by decide +kernel, by decide +kernel, by decide +kernel, by decide⟩

theorem secondVoter_round {t : ℕ} {resp : FetchResponse} {req : FetchRequest}
    (hanswer : answerTo elected 0 (secondVoter t).node.fetchRequest = .ok resp)
    (hsent : Effect.dispatch elected.node.id (.fetchRequest req) ∈
      ((secondVoter t).turn (.fetchResult resp)).trace.drop (secondVoter t).trace.length) :
    Round elected ⟨secondVoter t, (secondVoter t).node.fetchRequest⟩ resp
      ⟨(secondVoter t).turn (.fetchResult resp), req⟩ :=
  ⟨⟨0, hanswer⟩, .refl _, hsent⟩

/-- An entry of the first term that the leader lacks is cut in one round. -/
theorem divergence_resolves_stale_entry : ∃ y,
    DivergingRounds elected ⟨secondVoter 1, (secondVoter 1).node.fetchRequest⟩ 1 y ∧
      y.entries = [⟨1, 1, .noOp⟩] ∧ ∀ highWatermark, ∃ resp,
        answerTo elected highWatermark y.request = .ok resp ∧
        (resp.divergingEpoch = none → resp.snapshotRedirect.isSome ∨
          ∃ P, Holds y.driver P 0 ∧ P <+: twoEntries 3) := by
  have hround : Round elected ⟨secondVoter 1, (secondVoter 1).node.fetchRequest⟩
      ⟨"c", 3, 1, 0, [], some ⟨1, 1⟩, none, true⟩ ⟨_, ⟨"c", 3, 2, 2, 1⟩⟩ :=
    secondVoter_round (by decide +kernel) (by decide +kernel)
  have hrounds := DivergingRounds.start.next hround rfl
  have hconverges := (divergence_resolves elected_leads.2 (twoEntries_dated le_rfl)
    (secondVoter_trails (.inl rfl)) (List.nil_prefix) (twoEntries_matching (by decide))).mpr
    (by decide)
  obtain ⟨-, -, hanswers⟩ := hconverges _ _ hrounds
  refine ⟨_, hrounds, by decide +kernel, fun highWatermark => ?_⟩
  obtain ⟨resp, hanswer, -, hsettled⟩ := hanswers highWatermark
  exact ⟨resp, hanswer, hsettled⟩

/-- An entry of a term that the leader never saw: the answer names the leader's own tip, the round
cuts nothing, and the next fetch is served although the logs still differ. -/
theorem unknown_epoch_cuts_nothing :
    Leads elected (twoEntries 3) 0 ∧ Dated (twoEntries 2) ∧
      Trails (secondVoter 2) elected (twoEntries 2) 0 ∧
      LogMatching (twoEntries 2) (twoEntries 3) ∧ ¬ Resolvable (twoEntries 2) (twoEntries 3) 0 ∧
      ∃ resp z, Round elected ⟨secondVoter 2, (secondVoter 2).node.fetchRequest⟩ resp z ∧
        resp.divergingEpoch = some ⟨3, 2⟩ ∧ z.entries = twoEntries 2 ∧
        ∃ resp', answerTo elected 0 z.request = .ok resp' ∧ resp'.divergingEpoch = none ∧
          resp'.snapshotRedirect = none ∧ ¬ twoEntries 2 <+: twoEntries 3 := by
  have hround : Round elected ⟨secondVoter 2, (secondVoter 2).node.fetchRequest⟩
      ⟨"c", 3, 1, 0, [], some ⟨3, 2⟩, none, true⟩ ⟨_, ⟨"c", 3, 2, 3, 3⟩⟩ :=
    secondVoter_round (by decide +kernel) (by decide +kernel)
  refine ⟨elected_leads.2, twoEntries_dated (by decide), secondVoter_trails (.inr rfl),
    twoEntries_matching (by decide), by decide, _, _, hround, rfl, by decide +kernel,
    ⟨"c", 3, 1, 0, [], none, none, true⟩, by decide +kernel, rfl, rfl, by decide⟩

end DivergenceRounds
