import Xraft.ServerRecovery
import Xraft.GuardedExecution
import Mathlib.Logic.Function.Basic

/-! # A cluster of drivers

Drivers over one static voter set and a network without guarantees: whatever a driver ever sent or
answered may be delivered at any later time, in any order, any number of times, or never. Snapshot
transfers between nodes are not delivered. A crash is a fault at some store call followed by a
restart from the stores; messages lost in the crash are simply never delivered.
-/
namespace ReplicatedCluster

open ProtocolTypes ClusterConfiguration ConsensusEngine DurableStores NodeDriver ServerRecovery
open GuardedExecution

/-- The fixed part of a cluster: every member runs a checked configuration of one voter set. -/
structure Topology (σ : Type) where
  parsing : VoterParsing
  members : Finset NodeId
  config : NodeId → ClusterConfig
  clusterId : String
  voterSet : VoterSet
  maxFetchBatch : NodeId → ℕ
  initial : σ
  draws : NodeId → List ℕ
  node_id : ∀ n ∈ members, (config n).nodeId = n
  cluster_id : ∀ n ∈ members, (config n).clusterId = clusterId
  valid : ∀ n ∈ members, validate parsing (config n) = .ok ()
  voters : ∀ n ∈ members, buildVoterSet parsing (config n) = .ok (some voterSet)

def threeVoters (lease : Bool) : Topology NoOpStateMachine where
  parsing := sampleParsing
  members := {1, 2, 3}
  config := threeVoterConfig lease
  clusterId := "c"
  voterSet := threeVoterSet
  maxFetchBatch _ := 64
  initial := .mk
  draws _ := []
  node_id _ _ := rfl
  cluster_id _ _ := rfl
  valid := by cases lease <;> decide +kernel
  voters _ _ := rfl

structure Cluster (σ : Type) where
  nodes : NodeId → Driver σ
  nextRequest : RequestId

inductive Event
  | tick (n : NodeId)
  | deliver (source : NodeId) (position : ℕ)
  | propose (n : NodeId) (command : Bytes)
  | query (n : NodeId) (query : Bytes)
  | triggerSnapshot (n : NodeId)
  | snapshotWorker (n : NodeId)
  | snapshotCompleted (n : NodeId)
  | arm (n : NodeId) (faults : List (Option Fault))
  | restart (n : NodeId) (rng : List ℕ) (faults : List (Option Fault))

variable {σ : Type}

/-- Where a recorded effect arrives, and as what. Replies return to the caller of the request. -/
def arrival (source : NodeId) : Effect → Option (NodeId × DriverEvent)
  | .dispatch dest (.voteRequest req) => some (dest, .inboundVote req)
  | .dispatch dest (.preVoteRequest req) => some (dest, .inboundPreVote req)
  | .dispatch dest (.fetchRequest req) => some (dest, .inboundFetch req)
  | .voteReply req (.ok resp) => some (req.candidateId, .voteResult source resp)
  | .preVoteReply req (.ok resp) => some (req.candidateId, .preVoteResult source resp)
  | .fetchReply req (.ok resp) => some (req.replicaId, .fetchResult resp)
  | _ => none

def Cluster.sent (c : Cluster σ) (source : NodeId) (position : ℕ) : Option Effect :=
  (c.nodes source).trace[position]?

def Cluster.turnOf (c : Cluster σ) : Event → Option (NodeId × DriverEvent)
  | .tick n => some (n, .tick)
  | .deliver source position => (c.sent source position).bind (arrival source)
  | .propose n command => some (n, .client c.nextRequest command)
  | .query n q => some (n, .query c.nextRequest q)
  | .triggerSnapshot n => some (n, .triggerSnapshot c.nextRequest)
  | .snapshotCompleted n => some (n, .snapshotCompleted)
  | _ => none

/-- A response is a reply that some node sent; no snapshot arrives. -/
def Cluster.Replied (c : Cluster σ) (e : Event) (n : NodeId) : DriverEvent → Prop
  | .voteResult source resp => ∃ position req, e = .deliver source position ∧
      c.sent source position = some (.voteReply req (.ok resp)) ∧ req.candidateId = n
  | .preVoteResult source resp => ∃ position req, e = .deliver source position ∧
      c.sent source position = some (.preVoteReply req (.ok resp)) ∧ req.candidateId = n
  | .fetchResult resp => ∃ source position req, e = .deliver source position ∧
      c.sent source position = some (.fetchReply req (.ok resp)) ∧ req.replicaId = n
  | .fetchSnapshotResult .. => False
  | _ => True

theorem turnOf_replied {c : Cluster σ} {e : Event} {n : NodeId} {event : DriverEvent}
    (h : c.turnOf e = some (n, event)) : c.Replied e n event := by
  cases e with
  | deliver source position =>
    obtain ⟨x, hx, harr⟩ := Option.bind_eq_some_iff.mp h
    unfold arrival at harr
    split at harr <;> cases harr
    · trivial
    · trivial
    · trivial
    · exact ⟨position, _, rfl, hx, rfl⟩
    · exact ⟨position, _, rfl, hx, rfl⟩
    · exact ⟨source, position, _, rfl, hx, rfl⟩
  | _ => cases h <;> trivial

def Cluster.update (c : Cluster σ) (n : NodeId) (d : Driver σ) : Cluster σ :=
  ⟨Function.update c.nodes n d, c.nextRequest + 1⟩

theorem update_self (c : Cluster σ) (n : NodeId) (d : Driver σ) : (c.update n d).nodes n = d :=
  Function.update_self ..

theorem update_ne (c : Cluster σ) {n m : NodeId} (d : Driver σ) (h : m ≠ n) :
    (c.update n d).nodes m = c.nodes m := Function.update_of_ne h ..

variable [StateMachine σ]

def Topology.launch (T : Topology σ) (n : NodeId) (rng : List ℕ) (faults : List (Option Fault))
    (store : Durable) : Driver σ :=
  start (T.config n) (some T.voterSet) rng (T.maxFetchBatch n) T.initial faults store

def Topology.initialCluster (T : Topology σ) : Cluster σ :=
  ⟨fun n => T.launch n (T.draws n) [] Durable.fresh, 0⟩

def Topology.acts (T : Topology σ) (c : Cluster σ) : Event → Option (NodeId × Driver σ)
  | .snapshotWorker n => some (n, (c.nodes n).runSnapshotWorker)
  | .arm n faults => some (n, { c.nodes n with faults := faults })
  | .restart n rng faults => some (n, T.launch n rng faults (durable (c.nodes n)))
  | e => (c.turnOf e).map (fun t => (t.1, (c.nodes t.1).turn t.2))

def Topology.next (T : Topology σ) (c : Cluster σ) (e : Event) : Cluster σ :=
  match T.acts c e with
  | some (n, d) => if n ∈ T.members then c.update n d else c
  | none => c

/-- An event changes one member or nothing. -/
theorem next_cases (T : Topology σ) (c : Cluster σ) (e : Event) :
    T.next c e = c ∨
      ∃ n d, n ∈ T.members ∧ T.acts c e = some (n, d) ∧ T.next c e = c.update n d := by
  unfold Topology.next
  split
  · rename_i n d h
    split_ifs with hn
    · exact .inr ⟨n, d, hn, h, rfl⟩
    · exact .inl rfl
  · exact .inl rfl

theorem acts_cases {T : Topology σ} {c : Cluster σ} {e : Event} {n : NodeId} {d : Driver σ}
    (h : T.acts c e = some (n, d)) :
    (∃ event, c.turnOf e = some (n, event) ∧ d = (c.nodes n).turn event) ∨
      (e = .snapshotWorker n ∧ d = (c.nodes n).runSnapshotWorker) ∨
      (∃ faults, e = .arm n faults ∧ d = { c.nodes n with faults := faults }) ∨
      ∃ rng faults, e = .restart n rng faults ∧
      d = T.launch n rng faults (durable (c.nodes n)) := by
  have hturn : (c.turnOf e).map (fun t => (t.1, (c.nodes t.1).turn t.2)) = some (n, d) →
      ∃ event, c.turnOf e = some (n, event) ∧ d = (c.nodes n).turn event := by
    intro ht
    obtain ⟨⟨n', event⟩, hof, heq⟩ := Option.map_eq_some_iff.mp ht
    obtain ⟨rfl, rfl⟩ := Prod.mk.inj heq
    exact ⟨event, hof, rfl⟩
  cases e with
  | snapshotWorker m =>
    obtain ⟨rfl, rfl⟩ := Prod.mk.inj (Option.some.inj h)
    exact .inr (.inl ⟨rfl, rfl⟩)
  | arm m faults =>
    obtain ⟨rfl, rfl⟩ := Prod.mk.inj (Option.some.inj h)
    exact .inr (.inr (.inl ⟨faults, rfl, rfl⟩))
  | restart m rng faults =>
    obtain ⟨rfl, rfl⟩ := Prod.mk.inj (Option.some.inj h)
    exact .inr (.inr (.inr ⟨rng, faults, rfl, rfl⟩))
  | _ => exact .inl (hturn h)

abbrev Topology.Run (T : Topology σ) (ok : Cluster σ → Event → Prop) : Cluster σ →
    Cluster σ → Prop :=
  Execution T.next ok

def Topology.Reachable (T : Topology σ) (ok : Cluster σ → Event → Prop) (c : Cluster σ) : Prop :=
  T.Run ok T.initialCluster c

end ReplicatedCluster
