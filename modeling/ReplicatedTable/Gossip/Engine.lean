import ReplicatedTable.Gossip.Network

/-!
# Gossip engines

An engine speaks for one member on the network. It can be started once, and after it was told to stop it
does nothing more. The network knows it by the name of its member only.
-/
namespace ReplicatedTable.Gossip

/-- mirrors `MemoryGossip` -/
structure Engine where
  member : Member
  /-- Whether events are handed to anybody. -/
  handler : Bool := false
  started : Bool := false
  /-- Whether the engine was told to stop. -/
  stopped : Bool := false
  /-- The mailbox that its dispatch task reads, once there is one. -/
  mailbox : Option Nat := none

namespace Engine

def running (e : Engine) : Bool := e.started && !e.stopped

/-- Registers the member and starts the dispatch task.
mirrors `start` of `MemoryGossip`, up to the task that it spawns -/
def start (e : Engine) (n : Network) : Network × Engine × Except Error Unit :=
  if e.stopped then (n, e, .error (.gossip .alreadyStopped))
  else if e.started then (n, e, .error (.gossip .alreadyStarted))
  else
    match n.register e.member with
    | .error fault => (n, e, .error (.gossip fault))
    | .ok (n, mailbox) => (n, { e with started := true, mailbox := some mailbox }, .ok ())

/-- Joins the members at some addresses, other than its own. The answer is how many of them there are.
mirrors `join` of `MemoryGossip` -/
def join (e : Engine) (n : Network) (addresses : List String) : Network × Except Error Nat :=
  if !e.running then (n, .error (.gossip .notRunning))
  else
    let (n, contacted) := (addresses.filter (· ≠ e.member.address)).foldl
      (fun (n, contacted) address =>
        let (n, found) := n.merge e.member.name address
        (n, if found then contacted + 1 else contacted)) (n, 0)
    if contacted = 0 ∧ addresses ≠ [] then (n, .error (.gossip (.unreachable addresses)))
    else (n, .ok contacted)

/-- Replaces the tags of the member.
mirrors `MemoryGossip.set_tags` -/
def setTags (e : Engine) (n : Network) (tags : Tags) : Network × Engine × Except Error Unit :=
  if !e.running then (n, e, .error (.gossip .notRunning))
  else
    match n.update e.member.name tags with
    | (n, some member) => (n, { e with member := member }, .ok ())
    | (n, none) => (n, e, .error (.gossip (.notRegistered e.member.name)))

/-- Leaves the network and tells the dispatch task to stop.
mirrors `shutdown` of `MemoryGossip`, up to the wait for the task -/
def requestStop (e : Engine) (n : Network) : Network × Engine :=
  if e.stopped then (n, e)
  else (if e.started then n.leave e.member.name else n, { e with stopped := true })

end Engine

end ReplicatedTable.Gossip
