import ReplicatedTable.Gossip.Member

/-!
# Gossip events

What a gossip engine tells about members, and messages of users, which the node takes no notice of.
-/
namespace ReplicatedTable.Gossip

/-- mirrors `MemberEventKind` -/
inductive EventKind where
  | join
  | leave
  | failed
  | reap
  | update
  deriving DecidableEq, Repr

def EventKind.label : EventKind → String
  | .join => "member-join"
  | .leave => "member-leave"
  | .failed => "member-failed"
  | .reap => "member-reap"
  | .update => "member-update"

/-- mirrors `GossipEvent` -/
inductive Event where
  | members (kind : EventKind) (members : List Member)
  | user (name : String) (payload : List UInt8)
  deriving DecidableEq

end ReplicatedTable.Gossip
