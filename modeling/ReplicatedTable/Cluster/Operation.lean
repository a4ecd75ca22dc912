import ReplicatedTable.Cluster.Basic
import ReplicatedTable.Http.Server

/-!
# What happens to a cluster

Single operations on the nodes of a cluster and on its network, and sequences of them.
-/
namespace ReplicatedTable

namespace Cluster

inductive Op where
  /-- A node with a replica of its own at an address. -/
  | addReplica (name address : String)
  /-- A node with a scripted engine. -/
  | addScripted (name : String) (s : Script)
  | bootstrap (name : String)
  | campaign (name : String)
  | stepDown (name : String)
  | shutdown (name : String)
  /-- An entry goes to the engine of a node past its router. -/
  | submit (name : String) (bytes : List UInt8)
  | isolate (address : String)
  | heal (address : String)
  /-- A scripted engine sends a leadership notice. -/
  | notify (name : String) (leads : Bool)
  /-- The bridge of a node takes a gossip event. -/
  | event (name : String) (e : Gossip.Event)
  | write (name table row column value : String)
  | join (name id address : String)
  /-- The trackers take the notices that are there. -/
  | settle

/-- An operation of a replica. -/
def onReplica {α : Type} (c : Cluster) (name : String) (number : α → Option Nat)
    (f : Replicas → Nat → Raft.Outcome Table.Machine α) :
    Option (Cluster × Except Error (Option Nat)) :=
  (c.replica? name).map fun (i, _) =>
    let o := f c.replicas i
    ({ c with replicas := o.network }, o.answer.map number)

def router (c : Cluster) (name : String) : Router := ⟨name, c.applyTimeout, c.reconfigTimeout⟩

/-- Runs one operation. There is no result if the node is not there or has not the engine for it. The answer
is a number where the operation has one: a term or an index. -/
def step? (c : Cluster) : Op → Option (Cluster × Except Error (Option Nat))
  | .addReplica name address =>
    let (c, answer) := c.addReplica name address
    some (c, answer.map fun _ => none)
  | .addScripted name s => some (c.addScripted name s, .ok none)
  | .bootstrap name => c.onReplica name (fun _ => none) Raft.Network.bootstrap
  | .campaign name => c.onReplica name some Raft.Network.campaign
  | .stepDown name => c.onReplica name (fun _ => none) Raft.Network.stepDown
  | .shutdown name => c.onReplica name (fun _ => none) Raft.Network.shutdown
  | .submit name bytes => c.onReplica name some fun n i => n.submit i bytes
  | .isolate address => some ({ c with replicas := c.replicas.isolate address }, .ok none)
  | .heal address => some ({ c with replicas := c.replicas.heal address }, .ok none)
  | .notify name leads => (c.script? name).map fun s =>
    (c.putScript name { s with notices := s.notices ++ [leads] }, .ok none)
  | .event name e => (c.node? name).map fun _ => (c.event name c.reconfigTimeout e, .ok none)
  | .write name table row column value => (c.node? name).map fun _ =>
    let (c, answer) := (c.router name).write (host name) c table row column value
    (c, answer.map some)
  | .join name id address => (c.node? name).map fun _ =>
    let (c, answer) := (c.router name).join (host name) c id address
    (c, answer.map fun _ => none)
  | .settle => some (c.settle, .ok none)

/-- The cluster after a sequence of operations, less those that have no result. -/
def run (c : Cluster) (ops : List Op) : Cluster :=
  ops.foldl (fun c op => ((c.step? op).map (·.1)).getD c) c

def read (c : Cluster) (name table row : String) : Except Error Table.Row :=
  Router.read (host name) c table row

def readCell (c : Cluster) (name table row column : String) : Except Error String :=
  Router.readCell (host name) c table row column

def leaderAddress (c : Cluster) (name : String) : Option String := (host name).leaderAddress c

def table (c : Cluster) (name : String) : Table.Machine := (host name).table c

def status (c : Cluster) (name : String) (node : ClusterNode) : Status :=
  (c.router name).status (host name) c node.store

/-- The response of a node to a request, if it is there. -/
def answer? (c : Cluster) (name : String) (r : Http.Request) : Option (Cluster × Http.Response) :=
  (c.node? name).map fun node => Http.serve (c.router name) (host name) c node.store r

/-- The scripted engines forget what they were asked. -/
def forgetCalls (c : Cluster) : Cluster :=
  { c with nodes := c.nodes.map fun _ node =>
      match node.engine with
      | .scripted s => { node with engine := .scripted { s with calls := [] } }
      | .replica _ => node }

end Cluster

end ReplicatedTable
