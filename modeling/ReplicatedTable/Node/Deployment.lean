import ReplicatedTable.Cluster.Basic
import ReplicatedTable.Config.NodeConfig
import ReplicatedTable.Gossip.Dispatch
import ReplicatedTable.Gossip.Engine
import ReplicatedTable.Node.FileTree
import ReplicatedTable.Node.Run

/-!
# Nodes on shared networks

Sites that share a network of replicas, a gossip network and a tree of files. Each of them has the run of
its node, the dispatch task of its gossip engine, its leadership tracker and its store of records.
-/
namespace ReplicatedTable.Node
open Config

/-- mirrors `Node` -/
structure Site where
  config : NodeConfig
  run : Run
  replica : Nat
  gossip : Gossip.Engine
  dispatch : Gossip.Dispatch := {}
  /-- The members of the event in the hands of the bridge that are still to do. -/
  pending : List Gossip.Member := []
  tracker : Tracker := {}
  store : Membership.Store := {}
  /-- What becomes of the address for clients. -/
  bind : Except IoFault Unit := .ok ()
  interrupted : Bool := false
  /-- Whether the teardown waits for the dispatch task to end. -/
  teardownWaits : Bool := false

structure Deployment where
  replicas : Replicas := {}
  network : Gossip.Network := {}
  tree : FileTree := {}
  sites : List Site := []

namespace Site

def router (p : Site) : Router :=
  ⟨p.config.nodeId, p.config.applyTimeout, p.config.reconfigTimeout⟩

end Site

namespace Deployment

def put (d : Deployment) (i : Nat) (p : Site) : Deployment :=
  { d with sites := d.sites.set i p }

def site? (d : Deployment) (i : Nat) : Option Site := d.sites[i]?

/-- The replica of a site. -/
def replica? (d : Deployment) (i : Nat) : Option (Raft.Replica Table.Machine) :=
  (d.site? i).bind fun p => d.replicas.replica? p.replica

def withReplica {α : Type} (d : Deployment) (i : Nat)
    (f : Replicas → Nat → Raft.Outcome Table.Machine α) : Deployment × Except Error α :=
  match d.site? i with
  | none => (d, .error .shutdown)
  | some p =>
    let o := f d.replicas p.replica
    ({ d with replicas := o.network }, o.answer)

/-- A site as the parts of its node use it. -/
def host (i : Nat) : Host Deployment where
  leads d := ((d.site? i).map (·.tracker.leader)).getD false
  leaderAddress d := (d.replica? i).bind (·.leaderAddress)
  table d := ((d.replica? i).map (·.machine)).getD {}
  submit d bytes _ :=
    let (d, answer) := d.withReplica i fun n r => n.submit r bytes
    (d, .answered answer)
  addVoter d id address prev _ := d.withReplica i fun n r => n.addVoter r id address prev

/-- mirrors `RequestRouter.status` -/
def status (d : Deployment) (i : Nat) (p : Site) : Status := p.router.status (host i) d p.store

/-- The gossip member of a node. Its tag tells the others where its replica is.
mirrors the member that `Node.in_memory` makes -/
def memberOf (c : NodeConfig) : Gossip.Member where
  name := c.nodeId
  address := c.gossipAddress
  tags := Std.ExtTreeMap.ofList [("raft_addr", c.consensusAddress)]
  status := .alive

/-- Adds a site for a node; the replica of a seed forms a group of its own. The answer is the number of
the site.
mirrors `Node.in_memory`, with `bootstrap` for a seed -/
def launch (d : Deployment) (c : NodeConfig) (bind : Except IoFault Unit) : Deployment × Except Error Nat :=
  match d.replicas.register c.nodeId c.consensusAddress ({} : Table.Machine) with
  | (_, .error e) => (d, .error e)
  | (replicas, .ok replica) =>
    let replicas := if c.seed then (replicas.bootstrap replica).network else replicas
    let p : Site := {
      config := c, replica, bind
      run := { seed := c.seed, joinAddresses := c.joinAddresses }
      gossip := { member := memberOf c, handler := true } }
    ({ d with replicas, sites := d.sites ++ [p] }, .ok d.sites.length)

/-- A gossip engine is told to stop, by its node or by somebody else. Whoever tells it first has to wait for
its dispatch task, if there is one; the second part says so. -/
def stopGossip (d : Deployment) (i : Nat) (p : Site) : Deployment × Bool :=
  let (network, engine) := p.gossip.requestStop d.network
  ({ d with network }.put i { p with gossip := engine }, !p.gossip.stopped && p.gossip.mailbox.isSome)

end Deployment

end ReplicatedTable.Node
