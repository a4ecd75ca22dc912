import ReplicatedTable.Error
import ReplicatedTable.Gossip.Member

/-!
# Records of members

What a node keeps of a member: where gossip and consensus reach it and whether it is there. A member has a
record only if it has a name and a tag with its consensus address.
-/
namespace ReplicatedTable.Membership
open Gossip Text

/-- mirrors `NodeStatus` -/
inductive Presence where
  | alive
  | left
  | failed
  deriving DecidableEq, Repr

def Presence.name : Presence → String
  | .alive => "alive"
  | .left => "left"
  | .failed => "failed"

/-- A member that is about to leave still counts as alive. -/
def Presence.ofLiveness : Liveness → Presence
  | .alive | .leaving => .alive
  | .left => .left
  | .failed => .failed

/-- mirrors `NodeRecord` -/
structure Record where
  id : String
  gossipAddress : String
  consensusAddress : String
  status : Presence
  deriving DecidableEq, Repr

/-- The tag that holds a member's consensus address. -/
def addressTag : String := "raft_addr"

namespace Record

/-- The record of a member. The name is kept as it is, the consensus address without blanks at its ends.
mirrors `NodeRecord.from_member` -/
def ofMember (m : Member) : Except Error Record :=
  if blank m.name then .error (.malformedMember m.name "empty member name")
  else
    match (m.tags[addressTag]?).map trim with
    | some address =>
      if address = "" then .error (.malformedMember m.name "missing raft_addr tag")
      else .ok ⟨m.name, m.address, address, .ofLiveness m.status⟩
    | none => .error (.malformedMember m.name "missing raft_addr tag")

end Record

end ReplicatedTable.Membership
