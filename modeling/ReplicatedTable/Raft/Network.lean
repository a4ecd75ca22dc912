import Std.Data.ExtTreeSet
import ReplicatedTable.Raft.Replica

/-!
# The network of replicas

All replicas that ever existed, the addresses at which they are registered, and the addresses that are cut
off. A replica reaches another through its address, unless one of the two is cut off. `deliver` brings
followers in line with a leader, one after the other in the order of the voters' ids.
-/
namespace ReplicatedTable.Raft
open Std

/-- mirrors `RaftNetwork`, with the replicas that its handles lead to -/
structure Network (σ : Type) where
  replicas : List (Replica σ) := []
  /-- Which replica took an address last, until it was shut down. -/
  registry : ExtTreeMap String Nat := ∅
  isolated : ExtTreeSet String := ∅

/-- What a leader does when a peer refuses its message. -/
inductive Activity where
  | voterSync
  | newLeader
  | replication
  | commit
  deriving DecidableEq, Repr

def Activity.label : Activity → String
  | .voterSync => "could not sync voter"
  | .newLeader => "peer refused new leader"
  | .replication => "replication failed"
  | .commit => "commit not delivered"

/-- A peer has refused a message. -/
structure Refusal where
  activity : Activity
  node : String
  peer : String
  reject : Reject
  deriving DecidableEq, Repr

namespace Network
variable {σ : Type}

/-- The replica with a number, unless it is gone. -/
def replica? (n : Network σ) (i : Nat) : Option (Replica σ) := (n.replicas[i]?).filter (!·.dropped)

/-- Puts a replica in the place of the one with a number. -/
def put (n : Network σ) (i : Nat) (r : Replica σ) : Network σ :=
  { n with replicas := n.replicas.set i r }

/-- The replica that answers at an address.
mirrors the lookup in `RaftNetwork.peer` -/
def resolve? (n : Network σ) (address : String) : Option Nat :=
  (n.registry[address]?).filter fun i => (n.replica? i).isSome

/-- The replica at address `target` as it is reached from address `source`.
mirrors `RaftNetwork.peer` -/
def peer? (n : Network σ) (source target : String) : Option Nat :=
  if source ∈ n.isolated ∨ target ∈ n.isolated then none else n.resolve? target

/-- The other replicas that a replica reaches, in the order of the voters' ids; one that answers for two
voters occurs twice.
mirrors `RaftInner.reachable_peers` -/
def reachable (n : Network σ) (r : Replica σ) : List Nat :=
  ((r.voters.toList.map (·.2)).filter (· ≠ r.address)).filterMap (n.peer? r.address)

/-- mirrors `RaftNetwork.isolate` -/
def isolate (n : Network σ) (address : String) : Network σ :=
  { n with isolated := n.isolated.insert address }

/-- mirrors `RaftNetwork.heal` -/
def heal (n : Network σ) (address : String) : Network σ :=
  { n with isolated := n.isolated.erase address }

/-- Adds a replica at an address that is free. The answer is its number.
mirrors `RaftNetwork.register`, as `MemoryRaft.new` calls it -/
def register (n : Network σ) (id address : String) (machine : σ) : Network σ × Except Error Nat :=
  if (n.resolve? address).isSome then (n, .error (.consensus (.addressInUse address)))
  else
    let i := n.replicas.length
    ({ n with
        replicas := n.replicas ++ [{ id := id, address := address, machine := machine }]
        registry := n.registry.insert address i }, .ok i)

/-- Nobody holds the replica any longer. -/
def drop (n : Network σ) (i : Nat) : Network σ :=
  match n.replica? i with
  | none => n
  | some r => n.put i { r with dropped := true }

variable [StateMachine σ]

/-- Brings a peer in line with the leader.
mirrors `RaftInner.sync_peer` -/
def sync (n : Network σ) (i : Nat) (term : Nat) (j : Nat) : Network σ × Except Reject Nat :=
  match n.replica? i, n.replica? j with
  | some leader, some follower =>
    let (follower, answer) := follower.receive leader term
    (n.put j follower, answer)
  | _, _ => (n, .error .down)

/-- The refusal that a leader records. -/
def refusal (n : Network σ) (activity : Activity) (i j : Nat) (reject : Reject) : Refusal where
  activity := activity
  node := ((n.replicas[i]?).map Replica.id).getD ""
  peer := ((n.replicas[j]?).map Replica.id).getD ""
  reject := reject

/-- Brings the peers in line one after the other.
mirrors the rounds at the end of `MemoryRaft.campaign` and of `apply` -/
def deliver (n : Network σ) (activity : Activity) (i : Nat) (term : Nat) :
    (peers : List Nat) → Network σ × List Refusal
  | [] => (n, [])
  | j :: js =>
    match n.sync i term j with
    | (n, .ok _) => deliver n activity i term js
    | (n, .error reject) =>
      let (n', refusals) := deliver n activity i term js
      (n', n.refusal activity i j reject :: refusals)

/-- Hands the leader's voters to the peers and brings them in line.
mirrors the loop over the peers in `add_voter` -/
def deliverVoters (n : Network σ) (i : Nat) (leader : Replica σ) :
    (peers : List Nat) → Network σ × List Refusal
  | [] => (n, [])
  | j :: js =>
    match n.replica? j with
    | none => deliverVoters n i leader js
    | some follower =>
      let (follower, accepted) :=
        follower.acceptVoters leader.term leader.address leader.voters leader.votersIndex
      let n := n.put j follower
      let (n, answer) :=
        match accepted with
        | .ok () =>
          let (n, answer) := n.sync i leader.term j
          (n, answer.map fun _ => ())
        | .error reject => (n, .error reject)
      let (n', refusals) := deliverVoters n i leader js
      match answer with
      | .ok () => (n', refusals)
      | .error reject => (n', n.refusal .voterSync i j reject :: refusals)

/-- How the first round of a write went: the number of peers that hold the entry, or the greater term of
one that does not follow this leader.
mirrors the loop that counts acknowledgements in `apply` -/
def replicate (n : Network σ) (i : Nat) (term : Nat) :
    (peers : List Nat) → Network σ × List Refusal × Except Nat Nat
  | [] => (n, [], .ok 0)
  | j :: js =>
    match n.sync i term j with
    | (n, .ok _) =>
      let (n, refusals, acks) := replicate n i term js
      (n, refusals, acks.map (· + 1))
    | (n, .error (.staleTerm newer)) => (n, [], .error newer)
    | (n, .error reject) =>
      let (n', refusals, acks) := replicate n i term js
      (n', n.refusal .replication i j reject :: refusals, acks)

end Network

end ReplicatedTable.Raft
