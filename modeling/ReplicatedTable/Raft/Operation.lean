import ReplicatedTable.Raft.Network

/-!
# Operations on replicas

What the holder of a replica can do with it: form a group, stand for election, step down, shut it down, add
a voter, and submit an entry. Each operation runs to its end before the next one starts and tells the new
network, its answer and the refusals of peers on the way. `step` runs any one operation, so that a run of
the network is a list of them. An operation on a replica that is gone answers as one that is shut down.
-/
namespace ReplicatedTable.Raft
open Std

/-- What an operation leaves behind. -/
structure Outcome (σ α : Type) where
  network : Network σ
  answer : Except Error α
  refusals : List Refusal := []

namespace Network
variable {σ : Type}

/-- An operation that fails and changes nothing. -/
def refuse {α : Type} (n : Network σ) (e : Error) : Outcome σ α := ⟨n, .error e, []⟩

/-- Runs a part on a replica that somebody holds. -/
def withReplica {α : Type} (n : Network σ) (i : Nat) (f : Replica σ → Outcome σ α) : Outcome σ α :=
  match n.replica? i with
  | none => n.refuse .shutdown
  | some r => f r

/-- Forms a group of which the replica is the only voter and the leader.
mirrors `MemoryRaft.bootstrap` -/
def bootstrap (n : Network σ) (i : Nat) : Outcome σ Unit :=
  n.withReplica i fun r =>
    if r.voters.isEmpty then
      let r := { r with
        voters := r.voters.insert r.id r.address, term := r.term + 1
        leaderAddress := some r.address }
      ⟨n.put i (r.setLeader true), .ok (), []⟩
    else n.refuse (.consensus .alreadyBootstrapped)

/-- Gives up leadership.
mirrors `MemoryRaft.step_down` -/
def stepDown (n : Network σ) (i : Nat) : Outcome σ Unit :=
  n.withReplica i fun r => ⟨n.put i (r.setLeader false), .ok (), []⟩

/-- Stops the replica and frees its address.
mirrors `shutdown` of `MemoryRaft` -/
def shutdown (n : Network σ) (i : Nat) : Outcome σ Unit :=
  n.withReplica i fun r =>
    if r.stopped then ⟨n, .ok (), []⟩
    else
      let n := n.put i ({ r with stopped := true }.setLeader false)
      ⟨{ n with registry := n.registry.erase r.address }, .ok (), []⟩

/-- Whether a peer votes for a candidate: its log must not be newer.
mirrors the vote of a peer in `MemoryRaft.campaign` -/
def grants (n : Network σ) (candidate : Replica σ) (j : Nat) : Bool :=
  match n.replica? j with
  | some peer => Log.upToDate peer.log candidate.log
  | none => false

/-- The greatest term among peers, zero if there are none.
mirrors the terms gathered in `MemoryRaft.campaign` -/
def highestTerm (n : Network σ) (peers : List Nat) : Nat :=
  peers.foldl (fun t j => max t (((n.replica? j).map Replica.term).getD 0)) 0

variable [StateMachine σ]

/-- Takes over leadership at a term above that of every voter within reach.
mirrors `MemoryRaft.campaign` -/
def campaign (n : Network σ) (i : Nat) : Outcome σ Nat :=
  n.withReplica i fun r =>
    if r.stopped then n.refuse .shutdown
    else if r.id ∉ r.voters then n.refuse (.consensus (.notVoter r.id))
    else
      let peers := n.reachable r
      if peers.length + 1 < majority r.voters then n.refuse (.consensus .noQuorum)
      else
        let votes := (peers.filter (n.grants r)).length + 1
        if votes < majority r.voters then
          n.refuse (.consensus (.electionLost votes r.voters.size))
        else
          let term := max r.term (n.highestTerm peers) + 1
          let r := { r with term := term, leaderAddress := some r.address }
          let (n, refusals) := (n.put i (r.setLeader true)).deliver .newLeader i term peers
          ⟨n, .ok term, refusals⟩

/-- Adds a voter, or moves one to another address. With `prev` other than zero this is done only if the
voters are those that were set at that index.
mirrors `add_voter` of `MemoryRaft` -/
def addVoter (n : Network σ) (i : Nat) (id address : String) (prev : Nat) : Outcome σ Unit :=
  n.withReplica i fun r =>
    if r.stopped then n.refuse .shutdown
    else if !r.leader then n.refuse r.notLeader
    else if prev ≠ 0 ∧ prev ≠ r.votersIndex then
      n.refuse (.consensus (.configurationChanged prev r.votersIndex))
    else if r.voters[id]? = some address then ⟨n, .ok (), []⟩
    else
      let r := { r with voters := r.voters.insert id address, votersIndex := r.log.length }
      let n := n.put i r
      let (n, refusals) := n.deliverVoters i r (n.reachable r)
      ⟨n, .ok (), refusals⟩

/-- The term of the first peer that is ahead of a term.
mirrors the look at the terms of the peers in `apply` -/
def newerTerm? (n : Network σ) (term : Nat) (peers : List Nat) : Option Nat :=
  (peers.map fun j => ((n.replica? j).map Replica.term).getD 0).find? (term < ·)

/-- Gives up leadership at a newer term.
mirrors the answers to a greater term in `apply` -/
def concede (n : Network σ) (i : Nat) (term : Nat) (refusals : List Refusal) : Outcome σ Nat :=
  match n.replica? i with
  | none => n.refuse .shutdown
  | some r =>
    let r := { r with term := term }.setLeader false
    ⟨n.put i r, .error r.notLeader, refusals⟩

/-- Applies an acknowledged entry on the leader and tells the peers of it.
mirrors the end of `apply`, behind the count of acknowledgements -/
def commit (n : Network σ) (i : Nat) (term index : Nat) (peers : List Nat)
    (refusals : List Refusal) : Outcome σ Nat :=
  match n.replica? i with
  | none => n.refuse .shutdown
  | some r =>
    match r.applyUpTo index with
    | (r, .error e) => ⟨n.put i r, .error e, refusals⟩
    | (r, .ok ()) =>
      let (n, more) := (n.put i r).deliver .commit i term peers
      ⟨n, .ok index, refusals ++ more⟩

/-- Appends an entry to the leader's log, replicates it and, once a majority holds it, applies it. The
answer is its index.
mirrors `apply` of `MemoryRaft` -/
def submit (n : Network σ) (i : Nat) (data : List UInt8) : Outcome σ Nat :=
  n.withReplica i fun r =>
    match r.stopped, r.halted, r.leader with
    | true, _, _ => n.refuse .shutdown
    | false, some reason, _ => n.refuse (.consensus (.halted reason))
    | false, none, false => n.refuse r.notLeader
    | false, none, true =>
      let peers := n.reachable r
      if peers.length + 1 < majority r.voters then
        n.refuse (.consensus (.quorumUnavailable (peers.length + 1) r.voters.size))
      else
        match n.newerTerm? r.term peers with
        | some newer => n.concede i newer []
        | none =>
          let log := r.log ++ [⟨r.term, data⟩]
          let (n, refusals, acks) := (n.put i { r with log := log }).replicate i r.term peers
          match acks with
          | .error newer => n.concede i (max r.term newer) refusals
          | .ok acks =>
            if acks + 1 < majority r.voters then
              ⟨n, .error (.consensus (.notAcknowledged log.length)), refusals⟩
            else n.commit i r.term log.length peers refusals

/-- One thing that happens to a network. -/
inductive Op (σ : Type) where
  | register (id address : String) (machine : σ)
  | drop (i : Nat)
  | isolate (address : String)
  | heal (address : String)
  | bootstrap (i : Nat)
  | campaign (i : Nat)
  | stepDown (i : Nat)
  | shutdown (i : Nat)
  | addVoter (i : Nat) (id address : String) (prev : Nat)
  | submit (i : Nat) (data : List UInt8)

/-- Runs one operation. The answer is a number where the operation has one: of a replica, a term or an
index. -/
def step (n : Network σ) : Op σ → Outcome σ (Option Nat)
  | .register id address machine =>
    let (n, answer) := n.register id address machine
    ⟨n, answer.map some, []⟩
  | .drop i => ⟨n.drop i, .ok none, []⟩
  | .isolate address => ⟨n.isolate address, .ok none, []⟩
  | .heal address => ⟨n.heal address, .ok none, []⟩
  | .bootstrap i => let o := n.bootstrap i; ⟨o.network, o.answer.map fun _ => none, o.refusals⟩
  | .campaign i => let o := n.campaign i; ⟨o.network, o.answer.map some, o.refusals⟩
  | .stepDown i => let o := n.stepDown i; ⟨o.network, o.answer.map fun _ => none, o.refusals⟩
  | .shutdown i => let o := n.shutdown i; ⟨o.network, o.answer.map fun _ => none, o.refusals⟩
  | .addVoter i id address prev =>
    let o := n.addVoter i id address prev
    ⟨o.network, o.answer.map fun _ => none, o.refusals⟩
  | .submit i data => let o := n.submit i data; ⟨o.network, o.answer.map some, o.refusals⟩

/-- The network after a sequence of operations. -/
def run (n : Network σ) (ops : List (Op σ)) : Network σ :=
  ops.foldl (fun n op => (n.step op).network) n

end Network

end ReplicatedTable.Raft
