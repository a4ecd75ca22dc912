import ReplicatedTable.Cluster.Scripted
import ReplicatedTable.Leadership
import ReplicatedTable.Membership.Bridge
import ReplicatedTable.Raft.Operation
import ReplicatedTable.Router

/-!
# Clusters of request-serving nodes

Nodes that share one network of replicas, each with its leadership tracker and its store of records. An
engine of a node is a replica on the network or a scripted one. The trackers take the notices of their
engines when the cluster settles.
-/
namespace ReplicatedTable
open Std

instance : Raft.StateMachine Table.Machine where
  apply m index data :=
    match m.apply index data with
    | .ok m => (m, .ok ())
    | .error e => (m, .error e)

abbrev Replicas := Raft.Network Table.Machine

/-- The consensus engine of a node. -/
inductive Engine where
  | replica (number : Nat)
  | scripted (script : Script)

structure ClusterNode where
  engine : Engine
  tracker : Tracker := {}
  store : Membership.Store := {}

/-- Timeouts are in milliseconds. -/
structure Cluster where
  applyTimeout : Nat := 5000
  reconfigTimeout : Nat := 10000
  replicas : Replicas := {}
  nodes : ExtTreeMap String ClusterNode := ∅

namespace Cluster

def node? (c : Cluster) (name : String) : Option ClusterNode := c.nodes[name]?

def put (c : Cluster) (name : String) (node : ClusterNode) : Cluster :=
  { c with nodes := c.nodes.insert name node }

/-- The replica of a node, with its number. -/
def replica? (c : Cluster) (name : String) : Option (Nat × Raft.Replica Table.Machine) := do
  match (← c.node? name).engine with
  | .replica i => (c.replicas.replica? i).map fun r => (i, r)
  | .scripted _ => none

def script? (c : Cluster) (name : String) : Option Script := do
  match (← c.node? name).engine with
  | .replica _ => none
  | .scripted s => some s

def putScript (c : Cluster) (name : String) (s : Script) : Cluster :=
  match c.node? name with
  | none => c
  | some node => c.put name { node with engine := .scripted s }

/-- The notices that the engine of a node has sent. -/
def notices (c : Cluster) (node : ClusterNode) : List Bool :=
  match node.engine with
  | .replica i => ((c.replicas.replica? i).map (·.notices)).getD []
  | .scripted s => s.notices

/-- The trackers take the notices that are there. -/
def settle (c : Cluster) : Cluster :=
  { c with nodes := c.nodes.map fun _ node =>
      { node with tracker := node.tracker.drain (c.notices node) } }

/-- A node as its parts use it. While an engine keeps its caller waiting everything else settles. -/
def host (name : String) : Host Cluster where
  leads c := ((c.node? name).map (·.tracker.leader)).getD false
  leaderAddress c :=
    match c.replica? name, c.script? name with
    | some (_, r), _ => r.leaderAddress
    | none, some s => s.leaderAddress
    | none, none => none
  table c := ((c.replica? name).map fun p => p.2.machine).getD {}
  submit c bytes timeout :=
    match c.replica? name, c.script? name with
    | some (i, _), _ =>
      let o := c.replicas.submit i bytes
      ({ c with replicas := o.network }, .answered o.answer)
    | none, some s =>
      let (s, answer) := s.submit bytes timeout
      let c := c.putScript name s
      match answer with
      | .pending => (c.settle, answer)
      | .answered _ => (c, answer)
    | none, none => (c, .answered (.error .shutdown))
  addVoter c id address prev timeout :=
    match c.replica? name, c.script? name with
    | some (i, _), _ =>
      let o := c.replicas.addVoter i id address prev
      ({ c with replicas := o.network }, o.answer)
    | none, some s =>
      let (s, answer) := s.addVoter id address prev timeout
      (c.putScript name s, answer)
    | none, none => (c, .error .shutdown)

/-- Adds a node with a replica of its own, in the place of a node of the same name. -/
def addReplica (c : Cluster) (name address : String) : Cluster × Except Error Unit :=
  match c.replicas.register name address ({} : Table.Machine) with
  | (_, .error e) => (c, .error e)
  | (replicas, .ok i) =>
    let replicas := (c.replica? name).elim replicas fun old => replicas.drop old.1
    ({ c with replicas }.put name { engine := .replica i }, .ok ())

def addScripted (c : Cluster) (name : String) (s : Script) : Cluster :=
  let replicas := (c.replica? name).elim c.replicas fun old => c.replicas.drop old.1
  { c with replicas }.put name { engine := .scripted s }

/-- Hands a gossip event to the bridge of a node. -/
def event (c : Cluster) (name : String) (timeout : Nat) (e : Gossip.Event) : Cluster :=
  match c.node? name with
  | none => c
  | some node =>
    let (c, store) := Membership.Bridge.handle (host name) timeout (c, node.store) e
    match c.node? name with
    | none => c
    | some node => c.put name { node with store }

end Cluster

end ReplicatedTable
