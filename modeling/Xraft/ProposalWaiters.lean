import Xraft.OrderlyDriver

/-! # Proposals and their waiters

A proposal waits under the index its entry was appended at. The sessions of this module remember
every proposal with the term it was made in, so that each confirmation can be traced back to it.
-/
namespace ProposalWaiters

open ProtocolTypes ConsensusEngine DurableStores NodeDriver ServerRecovery EngineTransitions
open GuardedExecution ApplyPipeline PositionedLog BatchFootprints ActionOutcomes BatchOutcomes
open EngineOutlines DurableBeforeVisible LeaderAppendOnly TurnOutcomes RunningTurns OrderlyDriver

variable {σ : Type} {d d' d'' : Driver σ} {n : RaftNode}

structure Proposal where
  request : RequestId
  command : Bytes
  term : ℕ
  deriving DecidableEq

structure Session (σ : Type) where
  driver : Driver σ
  proposals : List Proposal

def proposalOf (d : Driver σ) : LifeEvent → List Proposal
  | .turn (.client request command) => [⟨request, command, d.node.currentTerm⟩]
  | _ => []

/-- The entry at the key of a waiter is the one its proposal was made for. -/
def Owns (proposals : List Proposal) (term : ℕ) (w : ℕ × RequestId) (e : Entry) : Prop :=
  ∃ p ∈ proposals, p.request = w.2 ∧ p.term = term ∧ e = ⟨w.1, term, .command p.command⟩

def Rightful (proposals : List Proposal) (term : ℕ) (d : Driver σ) : Prop :=
  ∀ w ∈ d.pending, ∀ e ∈ d.logStore.entries, e.index = w.1 → Owns proposals term w e

/-! ## Batches -/

/-- Once a leader has stepped down nothing of its batch can confirm a proposal. -/
theorem stepDown_before {opening rest before after : List Action} {a : Action}
    (hopen : ∀ x ∈ opening, ¬Confirming x) (hrest : Action.stepDown ∉ rest)
    (heq : opening ++ rest = before ++ a :: after) (ha : Confirming a)
    (hmem : Action.stepDown ∈ opening ++ rest) : Action.stepDown ∈ before := by
  have hin : Action.stepDown ∈ opening := (List.mem_append.mp hmem).resolve_right hrest
  rcases List.append_eq_append_iff.mp heq with ⟨c, rfl, -⟩ | ⟨c, rfl, hc⟩
  · exact List.mem_append_left _ hin
  · cases c with
    | nil => simpa using hin
    | cons x c =>
      obtain rfl : a = x := (List.cons.inj hc).1
      exact absurd ha (hopen a (List.mem_append_right _ List.mem_cons_self))

theorem not_confirming_of_prelude {a : Action} (h : Prelude a) : ¬Confirming a := by
  rcases h with hn | rfl
  · cases a <;> first | exact hn.elim | exact id
  · exact id

theorem not_stepDown_appends (entries : List Entry) : Action.stepDown ∉ appends entries := by
  unfold appends
  split_ifs <;> simp

theorem not_stepDown_drain (n : RaftNode) : Action.stepDown ∉ n.drainApplyPipeline.2 :=
  fun h => drainApplyPipeline_applies n _ h

theorem outline_stepDown_before {r : RaftNode × List Action} (h : Outline n r)
    {before after : List Action} {a : Action} (heq : r.2 = before ++ a :: after) (ha : Confirming a)
    (hmem : Action.stepDown ∈ r.2) : Action.stepDown ∈ before := by
  cases h with
  | @grow opening entries _ stretch =>
    exact stepDown_before
      (fun x hx => not_confirming_of_prelude (stretch.opens x hx))
      (not_stepDown_appends entries) heq ha hmem
  | @drain opening entries k c stretch _ _ _ =>
    have hassoc := List.append_assoc opening (appends entries)
      (RaftNode.drainApplyPipeline { k with commitIndex := c }).2
    rw [hassoc] at heq hmem
    refine stepDown_before
      (fun x hx => not_confirming_of_prelude (stretch.opens x hx)) (fun hin => ?_) heq ha hmem
    rcases List.mem_append.mp hin with hin | hin
    · exact not_stepDown_appends entries hin
    · exact not_stepDown_drain _ hin
  | cut stretch _ _ neutral =>
    refine stepDown_before
      (fun x hx => not_confirming_of_prelude (stretch.opens x hx)) (fun hin => ?_) heq ha hmem
    rcases List.mem_cons.mp hin with hin | hin
    · cases hin
    · exact neutral _ hin
  | serve req _ => simp [serving] at hmem

theorem outline_goes_on {r : RaftNode × List Action} (h : Outline n r) (hl : n.role = .leader)
    (hno : Action.stepDown ∉ r.2) : Leads n.currentTerm r.1 := by
  cases h with
  | grow stretch =>
    exact (stretch.yields hl).resolve_right (fun hin => hno (List.mem_append_left _ hin))
  | @drain opening entries k c stretch _ _ _ =>
    obtain ⟨a, s, hfst⟩ := drainApplyPipeline_fst { k with commitIndex := c }
    have hk := (stretch.yields hl).resolve_right
      (fun hin => hno (List.mem_append_left _ (List.mem_append_left _ hin)))
    dsimp only
    rw [hfst]
    exact hk
  | cut _ _ deposed _ => exact absurd (List.mem_append_left _ (deposed hl)) hno
  | serve req _ => exact ⟨hl, rfl⟩

theorem outline_appended {r : RaftNode × List Action} (h : Outline n r) {entries : List Entry}
    (hmem : Action.appendEntries entries ∈ r.2) : Positioned n.lastLogIndex entries := by
  have hopen : ∀ {opening : List Action}, (∀ a ∈ opening, Prelude a) →
      Action.appendEntries entries ∉ opening := by
    intro opening ho hin
    rcases ho _ hin with hn | hd
    · exact hn
    · cases hd
  have happends : ∀ {batch : List Entry}, Action.appendEntries entries ∈ appends batch →
      entries = batch := by
    intro batch hin
    unfold appends at hin
    split_ifs at hin
    · cases hin
    · simpa using hin
  cases h with
  | grow stretch =>
    rcases List.mem_append.mp hmem with hin | hin
    · exact absurd hin (hopen stretch.opens)
    · exact happends hin ▸ stretch.extend.positioned
  | drain stretch _ _ _ =>
    rcases List.mem_append.mp hmem with hin | hin
    · rcases List.mem_append.mp hin with hin | hin
      · exact absurd hin (hopen stretch.opens)
      · exact happends hin ▸ stretch.extend.positioned
    · exact (drainApplyPipeline_applies _ _ hin).elim
  | cut stretch _ _ neutral =>
    rcases List.mem_append.mp hmem with hin | hin
    · exact absurd hin (hopen stretch.opens)
    · rcases List.mem_cons.mp hin with hin | hin
      · cases hin
      · exact (neutral _ hin).elim
  | serve req _ => simp [serving] at hmem

section Batches

variable {proposals : List Proposal} {term : ℕ} {base : List (ℕ × RequestId)}

structure Kin (proposals : List Proposal) (term : ℕ) (base : List (ℕ × RequestId)) (d : Driver σ) :
    Prop where
  known : ∀ w ∈ d.pending, w ∈ base
  rightful : Rightful proposals term d

theorem Kin.shrink (h : Kin proposals term base d) (pending : ∀ w ∈ d'.pending, w ∈ d.pending)
    (log : ∀ e ∈ d'.logStore.entries, e ∈ d.logStore.entries) : Kin proposals term base d' :=
  ⟨fun w hw => h.known w (pending w hw),
    fun w hw e he hi => h.rightful w (pending w hw) e (log e he) hi⟩

theorem Kin.kept (h : Kin proposals term base d) (hk : Kept d d') : Kin proposals term base d' :=
  h.shrink (fun _ hw => hk.pending ▸ hw) (fun _ he => hk.logStore ▸ he)

theorem Kin.pumped (h : Kin proposals term base d) (hp : Pumped d d') :
    Kin proposals term base d' :=
  h.shrink hp.pending (fun _ he => hp.logStore ▸ he)

def Spares (proposals : List Proposal) (term : ℕ) (base : List (ℕ × RequestId))
    (entries : List Entry) : Prop :=
  ∀ e ∈ entries, ∀ w ∈ base, e.index = w.1 → Owns proposals term w e

theorem behindSnapshot_sub (s : MemoryLogStore) (metadata : SnapshotMeta) :
    ∀ e ∈ (behindSnapshot s metadata).entries, e ∈ s.entries := by
  intro e he
  unfold behindSnapshot at he
  dsimp only at he
  split_ifs at he
  all_goals
    have hin := List.mem_of_mem_filter he
    rwa [DriverJournal.updateSnapshotAnchor_entries] at hin

variable [StateMachine σ]

theorem Kin.did (h : Kin proposals term base d) {a : Action} (hd : Did d a d')
    (hspares : ∀ entries, a = .appendEntries entries → Spares proposals term base entries) :
    Kin proposals term base d' := by
  cases hd with
  | neutral _ kept => exact h.kept kept
  | stepDown kept =>
    refine Kin.kept (d := { d with pending := [] }) ⟨?_, ?_⟩ kept
    · exact fun w hw => absurd hw List.not_mem_nil
    · exact fun w hw => absurd hw List.not_mem_nil
  | @append entries _ _ kept =>
    refine Kin.kept (d := { d with logStore := PositionedLog.extend d.logStore entries }) ?_ kept
    refine ⟨h.known, fun w hw e he hi => ?_⟩
    rcases List.mem_append.mp he with he | he
    · exact h.rightful w hw e he hi
    · exact hspares entries rfl e he w (h.known w hw) hi
  | cut kept =>
    refine Kin.kept ?_ kept
    exact h.shrink (fun _ hw => hw) (fun _ he => List.mem_of_mem_filter he)
  | purge kept =>
    refine Kin.kept ?_ kept
    exact h.shrink (fun _ hw => hw) (fun _ he => List.mem_of_mem_filter he)
  | pipe did => exact h.pumped did.pumped
  | covered _ kept => exact h.kept kept
  | @install metadata data _ installed =>
    obtain ⟨store, sm, -, -, kept⟩ := installed.after
    refine Kin.kept ?_ kept
    exact h.shrink (fun _ hw => hw) (behindSnapshot_sub d.logStore metadata)
  | answered kept => exact h.kept kept
  | acked kept node ran =>
    have hran := pumped_of_sequence ran
    have hmid := h.kept kept
    exact hmid.shrink hran.pending (fun _ he => hran.logStore ▸ he)

theorem did_stepped {a : Action} (hd : Did d a d') (h : d.pending = []) : d'.pending = [] := by
  have hkin : Kin [] 0 [] d := ⟨fun w hw => h ▸ hw, fun w hw => absurd (h ▸ hw) List.not_mem_nil⟩
  have hkin' := hkin.did hd (fun _ _ _ _ w hw => absurd hw List.not_mem_nil)
  exact List.eq_nil_iff_forall_not_mem.mpr (fun w hw => List.not_mem_nil (hkin'.known w hw))

/-- Along a batch the waiters stay rightful, and a step-down sends them all away. -/
theorem Kin.sequence {actions : List Action} (h : Kin proposals term base d)
    (hseq : Sequence Did d actions d')
    (hspares : ∀ entries, Action.appendEntries entries ∈ actions →
      Spares proposals term base entries) :
    Kin proposals term base d' ∧
    (Action.stepDown ∈ actions ∨ d.pending = [] → d'.pending = []) := by
  induction hseq with
  | nil s => exact ⟨h, fun hmem => hmem.resolve_left List.not_mem_nil⟩
  | @cons s u v a rest first others ih =>
    have hu := h.did first (fun entries ha => hspares entries (ha ▸ List.mem_cons_self))
    obtain ⟨hv, hdown⟩ := ih hu (fun entries hin => hspares entries (List.mem_cons_of_mem _ hin))
    refine ⟨hv, fun hmem => hdown ?_⟩
    rcases hmem with hmem | hnil
    · rcases List.mem_cons.mp hmem with rfl | hmem
      · exact .inr (did_stepDown first).pending
      · exact .inl hmem
    · exact .inr (did_stepped first hnil)

/-! ## Confirmations -/

/-- Every confirmation among `w` was given by one action of the batch, to a waiter it still had and
for an entry in the log. -/
def Answered (d : Driver σ) (actions : List Action) (w : List Effect) : Prop :=
  ∀ r i, Effect.clientReply r (.ok i) ∈ w → ∃ before a after d₁,
    actions = before ++ a :: after ∧ Sequence Did d before d₁ ∧ Confirming a ∧
      (i, r) ∈ d₁.pending ∧ ∃ e ∈ d₁.logStore.entries, e.index = i ∧ Effect.apply e ∈ w

theorem answered_head {a : Action} {rest : List Action} {w : List Effect}
    (hconf : Confirms d d.logStore.entries w) (hquiet : ¬Confirming a → ∀ x ∈ w, Mute x) :
    Answered d (a :: rest) w := by
  intro r i hmem
  by_cases ha : Confirming a
  · obtain ⟨hp, e, he, hi, happ⟩ := hconf r i hmem
    exact ⟨[], a, rest, d, rfl, .nil d, ha, hp, e, he, hi, happ⟩
  · exact (hquiet ha _ hmem).elim

theorem did_confirms {a : Action} (h : Did d a d') : ∃ w, d'.trace = d.trace ++ w ∧
    Confirms d d.logStore.entries w ∧ (¬Confirming a → ∀ x ∈ w, Mute x) := by
  have hmute : ∀ {x : Driver σ}, Traced Mute x d' → x.trace = d.trace → ∃ w,
    d'.trace = d.trace ++ w ∧
      Confirms d d.logStore.entries w ∧ (¬Confirming a → ∀ x ∈ w, Mute x) := by
    intro x ht hx
    obtain ⟨w, hw, hm⟩ := ht
    exact ⟨w, hx ▸ hw, confirms_mute hm, fun _ => hm⟩
  cases h with
  | neutral _ kept => exact hmute kept.trace rfl
  | stepDown kept => exact hmute kept.trace rfl
  | append _ kept => exact hmute kept.trace rfl
  | cut kept => exact hmute kept.trace rfl
  | purge kept => exact hmute kept.trace rfl
  | pipe did =>
    obtain ⟨w, hw, hconf⟩ := did.pumped.trace
    refine ⟨w, hw, hconf, fun hno => ?_⟩
    cases did with
    | apply _ _ => exact absurd trivial hno
    | take captured =>
      obtain ⟨_, _, -, -, kept⟩ := captured.job
      obtain ⟨w', hw', hm⟩ := kept.trace
      have hsame : d.trace ++ w' = d.trace ++ w := hw'.symm.trans hw
      exact List.append_cancel_left hsame ▸ hm
  | covered _ kept => exact hmute kept.trace rfl
  | install installed =>
    obtain ⟨_, _, -, -, kept⟩ := installed.after
    exact hmute kept.trace rfl
  | answered kept => exact hmute kept.trace rfl
  | acked kept node ran =>
    have hran := pumped_of_sequence ran
    obtain ⟨w, hw, hm⟩ := kept.trace
    obtain ⟨w', hw', hconf⟩ := hran.trace
    rename_i mid
    have hmid : Confirms mid mid.logStore.entries w' := hconf
    refine ⟨w ++ w', ?_,
      (confirms_mute hm).trans hmid kept.logStore (fun x hx => kept.pending ▸ hx),
      fun hno => absurd trivial hno⟩
    rw [hw', ← List.append_assoc]
    exact congrArg (· ++ w') hw

theorem Answered.cons {a : Action} {rest : List Action} {w w' : List Effect} (hd : Did d a d')
    (h : Answered d (a :: rest) w) (h' : Answered d' rest w') :
    Answered d (a :: rest) (w ++ w') := by
  intro r i hmem
  rcases List.mem_append.mp hmem with hmem | hmem
  · obtain ⟨before, b, after, d₁, heq, hseq, hconf, hp, e, he, hi, happ⟩ := h r i hmem
    exact ⟨before, b, after, d₁, heq, hseq, hconf, hp, e, he, hi, List.mem_append_left _ happ⟩
  · obtain ⟨before, b, after, d₁, heq, hseq, hconf, hp, e, he, hi, happ⟩ := h' r i hmem
    exact ⟨a :: before, b, after, d₁, by rw [heq]; rfl, .cons hd hseq, hconf, hp, e, he, hi,
      List.mem_append_right _ happ⟩

theorem sequence_answered {actions : List Action} (h : Sequence Did d actions d')
    (more : List Action) :
    ∃ w, d'.trace = d.trace ++ w ∧ Answered d (actions ++ more) w ∧
      ∀ w', Answered d' more w' → Answered d (actions ++ more) (w ++ w') := by
  induction h with
  | nil s => exact ⟨[], (List.append_nil _).symm, nofun, fun w' h => h⟩
  | @cons s u v a rest first others ih =>
    obtain ⟨w, hw, hrest, hmore⟩ := ih
    obtain ⟨w₀, hw₀, hconf, hquiet⟩ := did_confirms first
    have hhead : Answered s (a :: (rest ++ more)) w₀ := answered_head hconf hquiet
    refine ⟨w₀ ++ w, by rw [hw, hw₀, List.append_assoc], hhead.cons first hrest, fun w' h => ?_⟩
    rw [List.append_assoc]
    exact hhead.cons first (hmore w' h)

theorem processActions_answered (d : Driver σ) (actions : List Action) (origin : Option NodeId)
    (hhalt : d.haltReason = none) : ∃ w,
      (d.processActions actions origin).1.trace = d.trace ++ w ∧ Answered d actions w := by
  rcases processActions_settles d actions origin hhalt with
    ⟨hseq, -⟩ | ⟨before, a, after, d₁, heq, hseq, hbroken⟩
  · obtain ⟨w, hw, hans, -⟩ := sequence_answered hseq []
    rw [List.append_nil] at hans
    exact ⟨w, hw, hans⟩
  · obtain ⟨w, hw, -, hmore⟩ := sequence_answered hseq (a :: after)
    obtain ⟨w', hw', hconf⟩ := hbroken.trace
    have hquiet : ¬Confirming a → ∀ x ∈ w', Mute x := by
      intro hno
      obtain ⟨w'', hw'', hm⟩ := hbroken.quiet hno
      have hsame : d₁.trace ++ w'' = d₁.trace ++ w' := hw''.symm.trans hw'
      exact List.append_cancel_left hsame ▸ hm
    refine ⟨w ++ w', by rw [hw', hw, List.append_assoc], ?_⟩
    rw [heq]
    exact hmore w' (answered_head hconf hquiet)

end Batches

/-! ## Turns -/

structure Waiting (d : Driver σ) (proposals : List Proposal) : Prop where
  leads : d.pending ≠ [] → d.node.role = .leader
  keys : ∀ w ∈ d.pending, d.node.lastApplied < w.1 ∧ w.1 ≤ d.node.lastLogIndex
  rightful : Rightful proposals d.node.currentTerm d

theorem Owns.mono {proposals more : List Proposal} {term : ℕ} {w : ℕ × RequestId} {e : Entry}
    (h : Owns proposals term w e) : Owns (proposals ++ more) term w e := by
  obtain ⟨p, hp, h⟩ := h
  exact ⟨p, List.mem_append_left _ hp, h⟩

theorem waiting_nil {proposals : List Proposal} (h : d.pending = []) : Waiting d proposals := by
  refine ⟨fun hne => absurd h hne, fun w hw => ?_, fun w hw => ?_⟩
  · exact absurd (h ▸ hw) List.not_mem_nil
  · exact absurd (h ▸ hw) List.not_mem_nil

theorem handleClientPropose_appended {command : Bytes} {entries : List Entry}
    (h : Action.appendEntries entries ∈ (n.handleClientPropose command).2) :
    entries = [⟨satAdd n.lastLogIndex 1, n.currentTerm, .command command⟩] := by
  unfold RaftNode.handleClientPropose at h
  split_ifs at h
  · cases h
  · rcases List.mem_cons.mp h with h | h
    · exact Action.appendEntries.inj h
    · exact (advanceCommit_applies _ _ h).elim

theorem batch_kin {proposals : List Proposal} {event : DriverEvent} {r : RaftNode × List Action}
    {registered : List (ℕ × RequestId)} (ho : Orderly d) (hw : Waiting d proposals)
    (hroom : d.node.lastLogIndex < u64Max) (hout : Outline d.node r)
    (hreg : Registers d event r registered) :
    Kin (proposals ++ proposalOf d (.turn event)) d.node.currentTerm (d.pending ++ registered)
        { d with node := r.1, pending := d.pending ++ registered } ∧
      ∀ entries, Action.appendEntries entries ∈ r.2 →
        Spares (proposals ++ proposalOf d (.turn event)) d.node.currentTerm
          (d.pending ++ registered) entries := by
  obtain ⟨base, -, hspans⟩ := ho.log
  refine ⟨⟨fun w hw => hw, fun w hmem e he hi => ?_⟩, fun entries hin e he w hmem hi => ?_⟩
  · rcases List.mem_append.mp hmem with hmem | hmem
    · exact (hw.rightful w hmem e he hi).mono
    · rcases hreg with ⟨rfl, -⟩ | ⟨request, command, -, -, -, -, rfl⟩
      · cases hmem
      · rw [List.mem_singleton.mp hmem] at hi
        have hle := (hspans.positioned.index_of_mem he).2.1
        have hlen := hspans.length
        omega
  · have hpos := (outline_appended hout hin).index_of_mem he
    rcases List.mem_append.mp hmem with hmem | hmem
    · have := (hw.keys w hmem).2
      omega
    · rcases hreg with ⟨rfl, -⟩ | ⟨request, command, rfl, -, rfl, -, rfl⟩
      · cases hmem
      · obtain rfl := List.mem_singleton.mp hmem
        rw [handleClientPropose_appended hin, satAdd_eq hroom] at he
        exact ⟨⟨request, command, d.node.currentTerm⟩,
          List.mem_append_right _ (List.mem_singleton_self _), rfl, rfl, List.mem_singleton.mp he⟩

theorem Waiting.kept {proposals : List Proposal} (h : Waiting d proposals) (hk : Kept d d') :
    Waiting d' proposals := by
  have hmarks := marks_of_core hk.node
  obtain ⟨hrole, hterm⟩ := standing_of_core hk.node
  refine ⟨?_, ?_, ?_⟩
  · rw [hk.pending, hrole]
    exact h.leads
  · rw [hk.pending, hmarks.lastApplied, tip_of_core hk.node]
    exact h.keys
  · rw [hterm]
    unfold Rightful
    rw [hk.pending, hk.logStore]
    exact h.rightful

theorem Waiting.mono {proposals more : List Proposal} (h : Waiting d proposals) :
    Waiting d (proposals ++ more) :=
  ⟨h.leads, h.keys, fun w hw e he hi => (h.rightful w hw e he hi).mono⟩

/-- The confirmations among `w` are of proposals made in the leadership in which they are given. -/
def Honest (proposals : List Proposal) (d : Driver σ) (w : List Effect) (d' : Driver σ) : Prop :=
  ∀ request index, Effect.clientReply request (.ok index) ∈ w → ∃ p ∈ proposals,
    p.request = request ∧ Effect.apply ⟨index, p.term, .command p.command⟩ ∈ w ∧
      Leads p.term d.node ∧ Leads p.term d'.node

theorem honest_mute {proposals : List Proposal} (h : Traced Mute d d') :
    ∃ w, d'.trace = d.trace ++ w ∧ Honest proposals d w d' := by
  obtain ⟨w, hw, hm⟩ := h
  exact ⟨w, hw, fun _ _ hmem => (hm _ hmem).elim⟩

def Admits (s : Session σ) (e : LifeEvent) : Prop :=
  FitLife s.driver e ∧ ∀ p ∈ proposalOf s.driver e, ∀ q ∈ s.proposals, q.request ≠ p.request

instance (s : Session σ) (e : LifeEvent) : Decidable (Admits s e) := by
  unfold Admits
  infer_instance

structure SessionInvariant (s : Session σ) : Prop where
  managed : Managed s.driver
  waiting : s.driver.haltReason = none → Waiting s.driver s.proposals
  unique : (s.proposals.map Proposal.request).Nodup

theorem unique_next {s : Session σ} {e : LifeEvent} (h : (s.proposals.map Proposal.request).Nodup)
    (hok : Admits s e) : ((s.proposals ++ proposalOf s.driver e).map Proposal.request).Nodup := by
  have hone : proposalOf s.driver e = [] ∨ ∃ p, proposalOf s.driver e = [p] := by
    unfold proposalOf
    split
    · exact .inr ⟨_, rfl⟩
    · exact .inl rfl
  rcases hone with hnil | ⟨p, hp⟩
  · rw [hnil, List.append_nil]
    exact h
  · have hfresh := hok.2
    rw [hp] at hfresh ⊢
    rw [List.map_append, List.nodup_append]
    refine ⟨h, List.nodup_singleton _, fun a ha b hb => ?_⟩
    obtain ⟨q, hq, rfl⟩ := List.mem_map.mp ha
    rw [List.map_singleton, List.mem_singleton] at hb
    rw [hb]
    exact hfresh p (List.mem_singleton_self _) q hq

section Turns

variable [StateMachine σ]

theorem batch_honest {proposals : List Proposal} {event : DriverEvent} {r : RaftNode × List Action}
    {registered : List (ℕ × RequestId)} {origin : Option NodeId} (ho : Orderly d)
    (hw : Waiting d proposals) (hhalt : d.haltReason = none) (hroom : d.node.lastLogIndex < u64Max)
    (hout : Outline d.node r) (hreg : Registers d event r registered) :
    ∃ w, (Driver.processActions { d with node := r.1, pending := d.pending ++ registered } r.2
        origin).1.trace = d.trace ++ w ∧
      Honest (proposals ++ proposalOf d (.turn event)) d w (Driver.processActions
        { d with node := r.1, pending := d.pending ++ registered } r.2 origin).1 := by
  obtain ⟨hkin, hspares⟩ := batch_kin ho hw hroom hout hreg
  obtain ⟨w, htrace, hans⟩ := processActions_answered
    { d with node := r.1, pending := d.pending ++ registered } r.2 origin hhalt
  refine ⟨w, htrace, fun request index hmem => ?_⟩
  obtain ⟨before, a, after, d₁, heq, hseq, hconf, hp, e, he, hi, happ⟩ := hans request index hmem
  obtain ⟨hkin₁, hdown⟩ := hkin.sequence hseq (fun entries hin => hspares entries (by
    rw [heq]
    exact List.mem_append_left _ hin))
  obtain ⟨p, hpmem, hreq, hterm, rfl⟩ := hkin₁.rightful _ hp e he hi
  have hno : Action.stepDown ∉ r.2 := by
    intro hin
    have hnil := hdown (.inl (outline_stepDown_before hout heq hconf hin))
    rw [hnil] at hp
    cases hp
  have hlead : d.node.role = .leader := by
    rcases List.mem_append.mp (hkin₁.known _ hp) with hold | hnew
    · exact hw.leads (List.ne_nil_of_mem hold)
    · rcases hreg with ⟨rfl, -⟩ | ⟨_, _, _, hl, -⟩
      · cases hnew
      · exact hl
  have hgoes := outline_goes_on hout hlead hno
  have hstanding : DriverJournal.SameStanding r.1 (Driver.processActions
      { d with node := r.1, pending := d.pending ++ registered } r.2 origin).1.node :=
    runActions_standing origin r.2 { d with node := r.1, pending := d.pending ++ registered } {}
  refine ⟨p, hpmem, hreq, ?_, ⟨hlead, hterm.symm⟩, ?_, ?_⟩
  · rw [hterm]
    exact happ
  · exact hstanding.role.trans hgoes.1
  · have hballot := congrArg Ballot.term hstanding.ballot
    exact hballot.trans (hgoes.2.trans hterm.symm)

theorem shape_honest {proposals : List Proposal} {event : DriverEvent} (h : Shape d event d')
    (ho : Orderly d) (hw : Waiting d proposals) (hhalt : d.haltReason = none)
    (hroom : d.node.lastLogIndex < u64Max) : ∃ w, d'.trace = d.trace ++ w ∧
      Honest (proposals ++ proposalOf d (.turn event)) d w d' := by
  cases h with
  | idle _ kept => exact honest_mute kept.trace
  | batch _ _ outline registers kept =>
    obtain ⟨w, htrace, hhonest⟩ := batch_honest ho hw hhalt hroom outline registers
    obtain ⟨w', htrace', hm⟩ := kept.trace
    refine ⟨w ++ w', by rw [htrace', htrace, List.append_assoc], fun request index hmem => ?_⟩
    rcases List.mem_append.mp hmem with hmem | hmem
    · obtain ⟨p, hp, hreq, happ, hbefore, hafter⟩ := hhonest request index hmem
      obtain ⟨hrole, hterm⟩ := standing_of_core kept.node
      exact ⟨p, hp, hreq, List.mem_append_left _ happ, hbefore, hrole.trans hafter.1,
        hterm.trans hafter.2⟩
    · exact (hm _ hmem).elim
  | @install _ snap data _ _ kept =>
    have hmute : Traced Mute d (d.processActions [.installSnapshot snap data] none).1 := by
      rcases processActions_settles d [.installSnapshot snap data] none hhalt with
        ⟨hseq, -⟩ | ⟨before, a, after, d₁, heq, hseq, hbroken⟩
      · obtain ⟨w, htrace, -, hquiet⟩ := did_confirms hseq.single
        exact ⟨w, htrace, hquiet id⟩
      · obtain ⟨rfl, hcons⟩ | ⟨_, _, hnil⟩ := List.singleton_eq_append_iff.mp heq
        cases hseq
        obtain ⟨rfl, -⟩ := List.cons.inj hcons
        exact hbroken.quiet id
    exact honest_mute (hmute.trans kept.trace)
  | trigger leader engine worker =>
    rcases handleTriggerSnapshot_outcome leader engine worker with hcap | hfail
    · obtain ⟨_, _, -, -, kept⟩ := hcap.job
      obtain ⟨w, hw, hm⟩ := kept.trace
      exact honest_mute ⟨w, hw, hm⟩
    · exact honest_mute hfail.hushed.trace
  | complete done =>
    rcases handleSnapshotCompleted_outcome done with hcomp | hfail
    · obtain ⟨w, hw, hm⟩ := hcomp.after.trace
      exact honest_mute ⟨w, hw, hm⟩
    · exact honest_mute hfail.hushed.trace

theorem refusal_mute {x : Effect} (h : DriverJournal.Refusal x) : Mute x := by
  cases x with
  | clientReply request result =>
    cases result with
    | error e => trivial
    | ok index => exact h.elim
  | apply entry => exact h.elim
  | _ => trivial

theorem turn_honest {proposals : List Proposal} {event : DriverEvent} (hm : Managed d)
    (hw : d.haltReason = none → Waiting d proposals) (hfit : Fit d event) :
    ∃ w, (d.turn event).trace = d.trace ++ w ∧
      Honest (proposals ++ proposalOf d (.turn event)) d w (d.turn event) := by
  by_cases hhalt : d.haltReason = none
  · have ho := hm.orderly hhalt
    obtain ⟨w, htrace, hhonest⟩ := shape_honest (handleDriverEvent_shape hfit hm.bounded) ho
      (hw hhalt) hhalt hfit.tip
    obtain ⟨w', hrefuse, htail⟩ := turn_tail hhalt event
    obtain ⟨hnode, -⟩ := turn_after d event hhalt
    refine ⟨w ++ w', by rw [htail, htrace, List.append_assoc], fun request index hmem => ?_⟩
    rcases List.mem_append.mp hmem with hmem | hmem
    · obtain ⟨p, hp, hreq, happ, hbefore, hafter⟩ := hhonest request index hmem
      rw [← hnode] at hafter
      exact ⟨p, hp, hreq, List.mem_append_left _ happ, hbefore, hafter⟩
    · exact (refusal_mute (hrefuse _ hmem)).elim
  · rw [turn_halted d event hhalt]
    exact ⟨[], (List.append_nil _).symm, nofun⟩

/-! ## Between the turns -/

/-- The keys a batch leaves lie between what it applied and the end of the log. -/
theorem advanced_keys {proposals : List Proposal} {event : DriverEvent}
    {registered : List (ℕ × RequestId)} {entries : List Entry} (ho : Orderly d)
    (hw : Waiting d proposals) (ha : Advanced d registered entries d')
    (hreg : Registered d event registered d') :
    (d'.pending ≠ [] → Leads d.node.currentTerm d'.node) ∧
      ∀ w ∈ d'.pending, d'.node.lastApplied < w.1 ∧ w.1 ≤ d'.node.lastLogIndex := by
  rcases ha.pending with hnil | ⟨hgoes, hpending⟩
  · exact ⟨fun hne => absurd hnil hne, fun w hw => absurd (hnil ▸ hw) List.not_mem_nil⟩
  have hleader : d'.pending ≠ [] → d.node.role = .leader := by
    intro hne
    obtain ⟨w, hmem⟩ := List.exists_mem_of_ne_nil _ hne
    rw [hpending] at hmem
    rcases List.mem_append.mp (List.mem_of_mem_filter hmem) with hold | hnew
    · exact hw.leads (List.ne_nil_of_mem hold)
    · rcases hreg with rfl | ⟨_, _, _, hl, -⟩
      · cases hnew
      · exact hl
  refine ⟨fun hne => hgoes (hleader hne), fun w hmem => ?_⟩
  rw [hpending] at hmem
  obtain ⟨hin, hdue⟩ := List.mem_filter.mp hmem
  have happlied := ho.applied
  have hrange : d.node.lastApplied < w.1 ∧ w.1 ≤ d'.node.lastLogIndex := by
    have hgrew := ha.extend.tip
    rcases List.mem_append.mp hin with hold | hnew
    · have := hw.keys w hold
      omega
    · rcases hreg with rfl | ⟨_, _, _, _, htip, rfl⟩
      · cases hnew
      · rw [List.mem_singleton.mp hnew, htip]
        have := ho.within
        dsimp only
        omega
  refine ⟨?_, hrange.2⟩
  -- a key up to the commit index would have been resolved by the entry applied there
  by_contra hle
  obtain ⟨base, hbase, hspans⟩ := (ho.advanced ha).log
  have hcovered := ho.covered
  rw [ha.snapshotMeta] at hbase
  have hlast := ha.lastApplied
  have hlen := hspans.length
  obtain ⟨i, hi⟩ : ∃ i, w.1 = base + i + 1 := ⟨w.1 - base - 1, by omega⟩
  obtain ⟨e, he⟩ : ∃ e, d'.logStore.entries[i]? = some e :=
    ⟨_, List.getElem?_eq_getElem (by omega)⟩
  have hindex := hspans.positioned i e he
  have hmem : e ∈ newly d d' :=
    mem_inRange.mpr ⟨List.mem_of_getElem? he, by omega, by omega⟩
  have hany : (newly d d').any (fun e => e.index = w.1) = true :=
    List.any_eq_true.mpr ⟨e, hmem, by simp only [decide_eq_true_eq]; omega⟩
  rw [hany] at hdue
  cases hdue

theorem shape_waiting {proposals : List Proposal} {event : DriverEvent} (h : Shape d event d')
    (hm : Managed d) (hw : Waiting d proposals) (hhalt : d.haltReason = none) (hfit : Fit d event)
    (hrunning : d'.haltReason = none) : Waiting d' (proposals ++ proposalOf d (.turn event)) := by
  have ho := hm.orderly hhalt
  have hidle : d.node.role ≠ .leader → d.pending = [] := by
    intro hne
    by_contra hpending
    exact hne (hw.leads hpending)
  cases h with
  | idle _ kept => exact hw.mono.kept kept
  | @batch _ r registered origin _ _ _ outline registers kept =>
    refine Waiting.kept ?_ kept
    rcases processActions_settles { d with node := r.1, pending := d.pending ++ registered }
      r.2 origin hhalt with ⟨hseq, -⟩ | ⟨_, _, _, _, _, _, hbroken⟩
    swap
    · exact absurd (kept.halt.symm.trans hrunning) hbroken.halt
    obtain ⟨hkin, hspares⟩ := batch_kin ho hw hfit.tip outline registers
    obtain ⟨hkin', -⟩ := hkin.sequence hseq hspares
    rcases batch_ran outline registers ho.applied hm.bounded hseq with ⟨_, hadv, hreg⟩ | ⟨_, hcut⟩
    · obtain ⟨hleads, hkeys⟩ := advanced_keys ho hw hadv hreg
      refine ⟨fun hne => (hleads hne).1, hkeys, fun w hmem e he hi => ?_⟩
      rw [(hleads (List.ne_nil_of_mem hmem)).2]
      exact hkin'.rightful w hmem e he hi
    · obtain ⟨m, pending, -, hpending, hcutKept⟩ := hcut.after
      refine waiting_nil (hcutKept.pending.trans ?_)
      exact hpending.elim id (fun h => h.2.trans (hidle h.1))
  | @install _ snap data _ installing kept =>
    have hfollows : d.node.role ≠ .leader := by
      intro hl
      obtain ⟨peer, clusterId, epoch, rfl, hleader⟩ := installs_from installing
      have hself := (hm.crowned hl).leaderId
      rw [hleader] at hself
      exact hfit.permitted.peer peer clusterId epoch (some snap) data rfl (Option.some.inj hself)
    refine waiting_nil (kept.pending.trans ?_)
    rcases processActions_settles d [.installSnapshot snap data] none hhalt with
      ⟨hseq, -⟩ | ⟨_, _, _, _, _, _, hbroken⟩
    · exact did_stepped hseq.single (hidle hfollows)
    · exact absurd (kept.halt.symm.trans hrunning) hbroken.halt
  | trigger leader engine worker =>
    rcases handleTriggerSnapshot_outcome leader engine worker with hcap | hfail
    · obtain ⟨_, _, -, -, kept⟩ := hcap.job
      refine Waiting.kept ?_ kept
      exact ⟨fun _ => leader, hw.keys, fun w hmem e he hi => (hw.rightful w hmem e he hi).mono⟩
    · exact absurd hrunning hfail.halt
  | @complete c rest done =>
    rcases handleSnapshotCompleted_outcome done with hcomp | hfail
    · have hmarks : ∀ m, m = (d.node.handleSnapshotComplete c.metadata).1 → m.role = d.node.role ∧
          m.currentTerm = d.node.currentTerm ∧ m.lastApplied = d.node.lastApplied ∧
          m.lastLogIndex = d.node.lastLogIndex := by
        rintro m rfl
        unfold RaftNode.handleSnapshotComplete
        split_ifs <;> exact ⟨rfl, rfl, rfl, rfl⟩
      obtain ⟨hrole, hterm, happlied, htip⟩ := hmarks _ rfl
      refine Waiting.kept ?_ hcomp.after
      refine ⟨?_, ?_, fun w hmem e he hi => ?_⟩
      · dsimp only
        rw [hrole]
        exact hw.leads
      · dsimp only
        rw [happlied, htip]
        exact hw.keys
      · dsimp only
        rw [hterm]
        exact (hw.rightful w hmem e (mem_compacted he) hi).mono
    · exact absurd hrunning hfail.halt

/-! ## Sessions -/

def Session.next (s : Session σ) (e : LifeEvent) : Session σ :=
  ⟨Driver.live s.driver e, s.proposals ++ proposalOf s.driver e⟩

theorem next_session {s : Session σ} {e : LifeEvent} (h : SessionInvariant s) (hok : Admits s e) :
    SessionInvariant (s.next e) := by
  refine ⟨live_managed h.managed hok.1, fun hrunning => ?_, unique_next h.unique hok⟩
  cases e with
  | turn event =>
    have hfit : Fit s.driver event := hok.1
    obtain ⟨hhalt, hhandled, hkept⟩ := turn_running hrunning
    exact (shape_waiting (handleDriverEvent_shape hfit h.managed.bounded) h.managed
      (h.waiting hhalt) hhalt hfit hhandled).kept hkept
  | snapshotWorker =>
    have hsame : (s.next .snapshotWorker).proposals = s.proposals := List.append_nil _
    rw [hsame]
    show Waiting s.driver.runSnapshotWorker s.proposals
    have hlive : s.driver.runSnapshotWorker.haltReason = none := hrunning
    rcases runSnapshotWorker_outcome s.driver with ⟨-, hidle⟩ | ⟨job, rest, c, hworked⟩
    · rw [hidle] at hlive ⊢
      exact h.waiting hlive
    · obtain ⟨_, _, _, _, -, -, -, heq⟩ := hworked.driver
      rw [heq] at hlive ⊢
      have hw := h.waiting hlive
      exact ⟨hw.leads, hw.keys, hw.rightful⟩

theorem start_pending (config : ClusterConfig) (voterSet : Option VoterSet) (rng : List ℕ)
    (maxFetchBatch : ℕ) (initial : σ) (faults : List (Option Fault)) (store : Durable)
    (hstore : Recoverable store)
    (h : (start config voterSet rng maxFetchBatch initial faults store).haltReason = none) :
    (start config voterSet rng maxFetchBatch initial faults store).pending = [] := by
  obtain ⟨sm, snap, hrestores, hpumps⟩ := start_running config voterSet rng maxFetchBatch initial
    faults store h
  obtain ⟨-, -, -, hlast⟩ := hstore
  rw [hrestores.snap_eq] at hlast
  obtain ⟨happlied, -, -, -, hcovered, -⟩ := recoverNode_marks config voterSet rng store.hsStore
    store.logStore snap hlast _ rfl
  exact (hpumps _ rfl (happlied.le.trans hcovered)).pending

/-- Waiters exist under a leader only, each for an entry that is still to be applied; and whoever is
told of success has had exactly its command applied at that index, in the leadership it proposed
in. -/
structure Truthful (s : Session σ) : Prop where
  waiters : s.driver.haltReason = none → (s.driver.pending ≠ [] → s.driver.node.role = .leader) ∧
    ∀ w ∈ s.driver.pending, s.driver.node.lastApplied < w.1 ∧ w.1 ≤ s.driver.node.lastLogIndex
  answers : ∀ event, Admits s (.turn event) → ∃ w,
    (s.driver.turn event).trace = s.driver.trace ++ w ∧
    ∀ request index, Effect.clientReply request (.ok index) ∈ w →
      ∃ p ∈ (s.next (.turn event)).proposals, p.request = request ∧
        (∀ q ∈ (s.next (.turn event)).proposals, q.request = request → q = p) ∧
        Effect.apply ⟨index, p.term, .command p.command⟩ ∈ w ∧
        Leads p.term s.driver.node ∧ Leads p.term (s.driver.turn event).node

theorem confirmed_proposals_are_applied (config : ClusterConfig) (voterSet : Option VoterSet)
    (rng : List ℕ) (maxFetchBatch : ℕ) (initial : σ) (faults : List (Option Fault))
    (store : Durable) (hstore : Recoverable store) {s : Session σ}
    (hrun : Execution Session.next Admits
      ⟨start config voterSet rng maxFetchBatch initial faults store, []⟩ s) : Truthful s := by
  have hstart : SessionInvariant
      ⟨start config voterSet rng maxFetchBatch initial faults store, []⟩ :=
    ⟨start_managed config voterSet rng maxFetchBatch initial faults store hstore,
      fun h => waiting_nil (start_pending config voterSet rng maxFetchBatch initial faults store
        hstore h), List.nodup_nil⟩
  have hinv : SessionInvariant s := hrun.invariant (fun _ _ h hok => next_session h hok) hstart
  refine ⟨fun hhalt => ⟨(hinv.waiting hhalt).leads, (hinv.waiting hhalt).keys⟩, fun event hok => ?_⟩
  obtain ⟨w, htrace, hhonest⟩ := turn_honest hinv.managed hinv.waiting hok.1
  refine ⟨w, htrace, fun request index hmem => ?_⟩
  obtain ⟨p, hp, hreq, happ, hbefore, hafter⟩ := hhonest request index hmem
  refine ⟨p, hp, hreq, fun q hq hqr => ?_, happ, hbefore, hafter⟩
  exact List.inj_on_of_nodup_map (unique_next hinv.unique hok) hq hp (hqr.trans hreq.symm)

end Turns

theorem recoverable_fresh : Recoverable Durable.fresh :=
  ⟨0, le_refl _, positioned_nil 0, le_refl _⟩

def firstSession : Session NoOpStateMachine :=
  replay Session.next ⟨firstVoter [], []⟩ (election ++ [.turn (.client 5 [9])])

/-- The second voter acknowledges the command, and its proposer is told. -/
theorem confirmed_proposals_are_applied_first_command : Truthful firstSession ∧
    .clientReply 5 (.ok 2) ∈
      (firstSession.driver.turn (.inboundFetch ⟨"c", 1, 2, 3, 1⟩)).trace := by
  have hrun : Execution Session.next Admits ⟨firstVoter [], []⟩ firstSession :=
    replay_execution (by decide +kernel)
  refine ⟨confirmed_proposals_are_applied _ _ _ _ _ _ _ recoverable_fresh hrun, ?_⟩
  decide +kernel

/-- Voter 1 follows voter 2, applies two entries and is then told to cut its log to nothing. Elected
itself, it appends its no-op at index 1 and a proposal at index 2. -/
def cutBelowCommit : List LifeEvent :=
  [.turn (.fetchResult ⟨"c", 1, 2, 2, [⟨1, 1, .noOp⟩, ⟨2, 1, .command [7]⟩], none, none, true⟩),
    .turn (.fetchResult ⟨"c", 1, 2, 2, [], some ⟨0, 0⟩, none, true⟩),
    .turn .tick, .turn .tick, .turn (.preVoteResult 2 ⟨"c", 0, 1, true, none⟩),
    .turn (.voteResult 2 ⟨"c", 0, 2, true, none⟩), .turn (.client 5 [9])]

/-- The waiter of that proposal stands at an index that was applied long ago. -/
theorem cut_below_commit_strands_waiter :
    let s := replay Session.next ⟨firstVoter [], []⟩ cutBelowCommit
    Execution Session.next (fun _ _ => True) ⟨firstVoter [], []⟩ s ∧
      s.driver.haltReason = none ∧ s.driver.pending = [(2, 5)] ∧ s.driver.node.lastApplied = 2 ∧
      .apply ⟨2, 1, .command [7]⟩ ∈ s.driver.trace := by
  intro s
  refine ⟨replay_execution (admissible_true _ _), ?_, ?_, ?_, ?_⟩
  · decide +kernel
  · decide +kernel
  · decide +kernel
  · decide +kernel

end ProposalWaiters
