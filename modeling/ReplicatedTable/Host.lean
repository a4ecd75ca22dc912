import ReplicatedTable.Table.Machine
import ReplicatedTable.Membership.Store

/-!
# What a node stands on

The parts of a node that serve clients and gossip use its consensus engine and its table through these
functions on the state `ω` of whatever carries them.
-/
namespace ReplicatedTable

/-- What became of an entry that was submitted. -/
inductive Submission where
  | answered (answer : Except Error Nat)
  /-- There is no answer within any time. -/
  | pending

/-- mirrors `ConsensusEngine`, with the leadership flag and the table beside it -/
structure Host (ω : Type) where
  /-- The leadership flag of the node. -/
  leads : ω → Bool
  /-- Whom the engine takes for the leader. -/
  leaderAddress : ω → Option String
  table : ω → Table.Machine
  submit : ω → List UInt8 → (timeout : Nat) → ω × Submission
  addVoter : ω → (id address : String) → (prev timeout : Nat) → ω × Except Error Unit

namespace Host
variable {ω : Type}

/-- Admits a voter, whatever the voters are at present.
mirrors `VoterAdmission.admit` -/
def enlist (h : Host ω) (timeout : Nat) (w : ω) (id address : String) : ω × Except Error Unit :=
  h.addVoter w id address 0 timeout

end Host

end ReplicatedTable
