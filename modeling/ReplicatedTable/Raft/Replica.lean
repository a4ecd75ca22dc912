import Std.Data.ExtTreeMap
import ReplicatedTable.Raft.Log

/-!
# Replicas

One member of a replication group: its log, how much of it is applied, whom it takes for the leader, and
the voters it knows. The functions here change one replica on its own; `append` and `acceptVoters` are what
a leader's messages do to it.
-/
namespace ReplicatedTable.Raft
open Std

/-- Voter addresses by voter id. -/
abbrev Voters := ExtTreeMap String String

/-- mirrors `RaftState`, with what `RaftInner` adds to it -/
structure Replica (σ : Type) where
  id : String
  address : String
  machine : σ
  leader : Bool := false
  term : Nat := 0
  leaderAddress : Option String := none
  voters : Voters := ∅
  /-- The length of the log when the voters were last changed. -/
  votersIndex : Nat := 0
  log : Log := []
  applied : Nat := 0
  /-- Why the machine failed; such a replica applies nothing more. -/
  halted : Option String := none
  stopped : Bool := false
  /-- The replica is gone: nobody holds it, and it answers nobody. -/
  dropped : Bool := false
  /-- Every change of `leader` so far, in order. -/
  notices : List Bool := []
  /-- Whether somebody has taken the notices. -/
  subscribed : Bool := false

/-- Why a replica refuses a message of a leader. -/
inductive Reject where
  | staleTerm (term : Nat)
  | mismatch (index : Nat)
  | conflict (index : Nat)
  | halted
  | down
  deriving DecidableEq, Repr

def Reject.message : Reject → String
  | .staleTerm term => s!"stale term, peer is at term {term}"
  | .mismatch index => s!"peer log does not match at index {index}"
  | .conflict index => s!"peer already applied a different entry at index {index}"
  | .halted => "peer replica halted"
  | .down => "peer shut down"

/-- The number of voters that make a majority. -/
def majority (voters : Voters) : Nat := voters.size / 2 + 1

namespace Replica
variable {σ : Type}

/-- Whether the replica leads and still runs.
mirrors `MemoryRaft.is_leader` -/
def leads (r : Replica σ) : Bool := r.leader && !r.stopped

/-- Sets the leader flag; a change is announced.
mirrors `RaftInner.set_leader` -/
def setLeader (r : Replica σ) (leader : Bool) : Replica σ :=
  if r.leader = leader then r else { r with leader := leader, notices := r.notices ++ [leader] }

/-- Hands out the notices, once.
mirrors `MemoryRaft.take_leader_notify` -/
def subscribe (r : Replica σ) : Replica σ × Bool := ({ r with subscribed := true }, !r.subscribed)

/-- Whom to turn to instead of this replica.
mirrors `RaftInner.not_leader` -/
def notLeader (r : Replica σ) : Error :=
  match r.leaderAddress with
  | some address => .notLeader (if address = r.address then "unknown" else address)
  | none => .notLeader "unknown"

/-- Takes note of a leader whose term is not behind.
mirrors `RaftInner.observe_leader` -/
def observe (r : Replica σ) (term : Nat) (leader : String) : Except Reject (Replica σ) :=
  if r.stopped then .error .down
  else if term < r.term then .error (.staleTerm r.term)
  else if term > r.term ∨ r.leaderAddress ≠ some leader then
    let r := { r with term := term, leaderAddress := some leader }
    .ok (if leader = r.address then r else r.setLeader false)
  else .ok r

variable [StateMachine σ]

/-- Applies the entries that follow those applied so far, until the machine fails.
mirrors the loop of `RaftInner.apply_committed` -/
def applyEntries (r : Replica σ) : Log → Replica σ × Except Error Unit
  | [] => (r, .ok ())
  | e :: es =>
    match StateMachine.apply r.machine (r.applied + 1) e.data with
    | (machine, .ok ()) => applyEntries { r with machine := machine, applied := r.applied + 1 } es
    | (machine, .error err) =>
      ({ r with machine := machine, halted := some err.message }, .error err)

/-- Applies what the log holds up to an index.
mirrors `RaftInner.apply_committed` -/
def applyUpTo (r : Replica σ) (index : Nat) : Replica σ × Except Error Unit :=
  match r.halted with
  | some reason => (r, .error (.consensus (.halted reason)))
  | none => r.applyEntries ((r.log.take index).drop r.applied)

/-- Takes entries that follow the one at `prev`, which must have the term `prevTerm`, and applies what the
leader has applied. The answer is the length of the log.
mirrors `RaftInner.append` -/
def append (r : Replica σ) (term : Nat) (leader : String) (prev prevTerm : Nat) (entries : Log)
    (commit : Nat) : Replica σ × Except Reject Nat :=
  match r.observe term leader with
  | .error reject => (r, .error reject)
  | .ok r =>
    if r.halted.isSome then (r, .error .halted)
    else if prev ≠ 0 ∧ (r.log.at? prev).map Entry.term ≠ some prevTerm then
      (r, .error (.mismatch prev))
    else
      match Log.splice r.log r.applied prev entries with
      | .error index => (r, .error (.conflict index))
      | .ok log =>
        match { r with log := log }.applyUpTo (min commit log.length) with
        | (r, .ok ()) => (r, .ok log.length)
        | (r, .error _) => (r, .error .halted)

omit [StateMachine σ] in
/-- Takes the voters of a leader.
mirrors `RaftInner.accept_config` -/
def acceptVoters (r : Replica σ) (term : Nat) (leader : String) (voters : Voters)
    (votersIndex : Nat) : Replica σ × Except Reject Unit :=
  match r.observe term leader with
  | .error reject => (r, .error reject)
  | .ok r => ({ r with voters := voters, votersIndex := votersIndex }, .ok ())

/-- What a leader sends to bring a follower in line: the entries behind those on which the logs agree.
mirrors `RaftInner.sync_peer`, with both replicas at hand -/
def receive (follower leader : Replica σ) (term : Nat) : Replica σ × Except Reject Nat :=
  let prev := Log.agreement leader.log follower.log
  follower.append term leader.address prev (((leader.log.at? prev).map Entry.term).getD 0)
    (leader.log.drop prev) leader.applied

end Replica

end ReplicatedTable.Raft
