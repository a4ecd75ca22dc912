import Std.Data.ExtTreeSet
import ReplicatedTable.Error
import ReplicatedTable.Gossip.Event

/-!
# The gossip network

Who is registered under which name, whom each of them knows, and the events that were sent to them. A
member that registers gets a mailbox of its own; what is sent there stays, also after the member is gone.
Joining unites views: everybody who learns of somebody new is told so. Leaving, failing, reaping and new
tags are told to those who know the member.
-/
namespace ReplicatedTable.Gossip
open Std

abbrev NameSet := ExtTreeSet String

/-- A registered member, the names it knows and the number of its mailbox.
mirrors `PeerSlot` -/
structure Slot where
  member : Member
  view : NameSet
  mailbox : Nat

/-- mirrors `GossipNetwork`, with what was sent to the mailboxes -/
structure Network where
  slots : ExtTreeMap String Slot := ∅
  /-- Members that failed and were not reaped yet, with those who saw it. -/
  failed : ExtTreeMap String (Member × List String) := ∅
  /-- How many mailboxes there are. -/
  mailboxes : Nat := 0
  /-- All events that were sent, in order, with the mailboxes they went to. -/
  log : List (Nat × Event) := []

namespace Network

/-- Sends an event to a mailbox.
mirrors `PeerSlot.deliver` -/
def deliver (n : Network) (mailbox : Nat) (e : Event) : Network :=
  { n with log := n.log ++ [(mailbox, e)] }

/-- The events sent to a mailbox, in order. -/
def sent (n : Network) (mailbox : Nat) : List Event :=
  n.log.filterMap fun p => if p.1 = mailbox then some p.2 else none

/-- Whether more can be sent to a mailbox. -/
def isOpen (n : Network) (mailbox : Nat) : Bool :=
  n.slots.toList.any fun p => p.2.mailbox == mailbox

/-- Registers a member, which first hears of itself. The answer is the number of its mailbox.
mirrors `GossipNetwork.register` -/
def register (n : Network) (m : Member) : Except GossipFault (Network × Nat) :=
  if m.name ∈ n.slots then .error (.memberRunning m.name)
  else if n.slots.toList.any fun p => p.2.member.address == m.address then
    .error (.addressInUse m.address)
  else
    let mailbox := n.mailboxes
    let n := { n with
      slots := n.slots.insert m.name ⟨m, (∅ : NameSet).insert m.name, mailbox⟩
      mailboxes := mailbox + 1 }
    .ok (n.deliver mailbox (.members .join [m]), mailbox)

/-- The first member by name that is registered at an address. -/
def at? (n : Network) (address : String) : Option Slot :=
  (n.slots.toList.find? fun p => p.2.member.address == address).map (·.2)

/-- Gives a member the united view and tells it of those who are new to it.
mirrors the loop over the union in `GossipNetwork.merge` -/
def introduce (n : Network) (union : NameSet) (known : List (String × Member)) (name : String) :
    Network :=
  match n.slots[name]? with
  | none => n
  | some slot =>
    let fresh := (known.filter fun p => p.1 ∉ slot.view).map (·.2)
    let n := if fresh.isEmpty then n else n.deliver slot.mailbox (.members .join fresh)
    { n with slots := n.slots.insert name { slot with view := union } }

/-- Unites the views of a member and of the one at an address, for all whom either knows. The second part
tells whether both are registered.
mirrors `GossipNetwork.merge` -/
def merge (n : Network) (name target : String) : Network × Bool :=
  match n.at? target, n.slots[name]? with
  | some theirs, some own =>
    let union := own.view ∪ theirs.view
    let known := union.toList.filterMap fun m => (n.slots[m]?).map fun slot => (m, slot.member)
    (union.toList.foldl (fun n m => n.introduce union known m) n, true)
  | _, _ => (n, false)

/-- Takes a member out of the view of another one and tells it why.
mirrors the loop over the observers in `GossipNetwork.depart` -/
def forget (n : Network) (name : String) (e : Event) (other : String) : Network :=
  match n.slots[other]? with
  | none => n
  | some slot =>
    { n with slots := n.slots.insert other { slot with view := slot.view.erase name } }.deliver
      slot.mailbox e

/-- Removes a member. The answer is its last description and those who were told.
mirrors `GossipNetwork.depart` -/
def depart (n : Network) (name : String) (kind : EventKind) (status : Liveness) :
    Network × Option (Member × List String) :=
  match n.slots[name]? with
  | none => (n, none)
  | some slot =>
    let member := { slot.member with status := status }
    let n := { n with slots := n.slots.erase name }
    let observers := (slot.view.toList.filter (· ≠ name)).filter (· ∈ n.slots)
    (observers.foldl (fun n other => n.forget name (.members kind [member]) other) n,
      some (member, observers))

/-- mirrors `GossipNetwork.leave` -/
def leave (n : Network) (name : String) : Network := (n.depart name .leave .left).1

/-- Lets a member crash.
mirrors `GossipNetwork.fail` -/
def fail (n : Network) (name : String) : Network × Bool :=
  match n.depart name .failed .failed with
  | (n, none) => (n, false)
  | (n, some entry) => ({ n with failed := n.failed.insert name entry }, true)

/-- Tells an event to those who are registered among the names. -/
def tell (n : Network) (names : List String) (e : Event) : Network :=
  names.foldl (fun n name => (n.slots[name]?).elim n fun slot => n.deliver slot.mailbox e) n

/-- Gives a failed member up for good.
mirrors `GossipNetwork.reap` -/
def reap (n : Network) (name : String) : Network × Bool :=
  match n.failed[name]? with
  | none => (n, false)
  | some (member, observers) =>
    ({ n with failed := n.failed.erase name }.tell observers (.members .reap [member]), true)

/-- Changes the tags of a member.
mirrors `GossipNetwork.update` -/
def update (n : Network) (name : String) (tags : Tags) : Network × Option Member :=
  match n.slots[name]? with
  | none => (n, none)
  | some slot =>
    let member := { slot.member with tags := tags }
    let n := { n with slots := n.slots.insert name { slot with member := member } }
    (n.tell slot.view.toList (.members .update [member]), some member)

/-- The registered names in ascending order.
mirrors `GossipNetwork.member_names` -/
def names (n : Network) : List String := n.slots.keys

end Network

end ReplicatedTable.Gossip
