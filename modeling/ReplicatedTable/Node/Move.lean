import ReplicatedTable.Node.Deployment

/-!
# How nodes on shared networks proceed

A move is one step of one task of a site: of a task of its node, of the dispatch task of its gossip
engine, or of the bridge, which has an event in its hands until all members are done; or it comes from
outside. A list of moves is one order in which the tasks of all sites make progress.
-/
namespace ReplicatedTable.Node

inductive Move where
  | prepare
  | begin (w : Worker)
  /-- The tracker takes a notice. -/
  | notice
  | startGossip
  | joinGossip
  | noticeGossipGone
  | bind
  | closeHttp
  /-- The interrupt is seen. -/
  | interrupt
  | release (w : Worker)
  /-- The gossip engine has stopped, as far as the teardown can tell. -/
  | leaveGossip
  | stopConsensus
  | signal (w : Worker)
  | finish (w : Worker)
  | collect
  /-- The dispatch task looks for the signal to stop. -/
  | lookForSignal
  | takeEvent
  /-- The dispatch task hands its event to the bridge. -/
  | handEvent
  /-- The bridge takes the next member of its event, or gives the event back. -/
  | bridge
  /-- Somebody interrupts the node. -/
  | interruptFromOutside
  /-- Somebody else who holds the gossip engine tells it to stop. -/
  | stopGossipFromOutside
  deriving DecidableEq, Repr

namespace Site

/-- The site after an event of its run. -/
def record? (p : Site) (e : Event) : Option Site :=
  (p.run.step? e).map fun run => { p with run }

def cancelled (p : Site) : Bool := (p.run.serving?.map (·.cancelled)).getD false

def follows (p : Site) : Bool := (p.run.serving?.map fun s => s.running .leadership).getD false

end Site

namespace Deployment

/-- Makes the directories of a node. Its notices are there, as nobody else takes them.
mirrors `prepare` -/
def prepare (d : Deployment) (p : Site) : Deployment × Except Error Unit :=
  let (tree, answer) := d.tree.createAll [p.config.gossipDirectory, p.config.consensusDirectory]
  ({ d with tree }, answer.mapError .io)

/-- The node tells its gossip engine to stop.
mirrors the start of `teardown` -/
def beginTeardown (d : Deployment) (i : Nat) (p : Site) : Deployment :=
  let (d, waits) := d.stopGossip i p
  { d with sites := d.sites.modify i fun p => { p with teardownWaits := waits } }

/-- One member of an event, or the end of it. -/
def bridge? (d : Deployment) (i : Nat) (p : Site) : Option Deployment :=
  match p.dispatch.phase, p.pending with
  | .handling (.members kind _), m :: rest =>
    let (d, store) :=
      Membership.Bridge.take (host i) p.config.reconfigTimeout (d, p.store) m kind
    some (d.put i { p with store, pending := rest })
  | .handling _, _ => some (d.put i { p with dispatch := p.dispatch.finish, pending := [] })
  | _, _ => none

/-- A step of the dispatch task, which reads a mailbox. What it hands to the bridge is in the hands of that. -/
def dispatch? (d : Deployment) (i : Nat) (p : Site) (f : Nat → Gossip.Dispatch → Option Gossip.Dispatch) :
    Option Deployment :=
  p.gossip.mailbox.bind fun k => (f k p.dispatch).map fun dispatch =>
    d.put i { p with dispatch, pending := dispatch.phase.members }

/-- One move of a site, if it is possible. -/
def step? (d : Deployment) (i : Nat) (m : Move) : Option Deployment := do
  let p ← d.site? i
  match m with
  | .prepare =>
    let (d, answer) := d.prepare p
    let p ← p.record? (.prepared answer)
    match answer with
    | .ok () => some (d.put i p)
    | .error _ => some (d.beginTeardown i p)
  | .begin .teardown => some (d.beginTeardown i (← p.record? (.began .teardown)))
  | .begin w => some (d.put i (← p.record? (.began w)))
  | .notice =>
    if p.follows then
      let r ← d.replica? i
      some (d.put i { p with tracker := ← p.tracker.receive? r.notices })
    else none
  | .startGossip =>
    let (network, gossip, answer) := p.gossip.start d.network
    let p ← p.record? (.gossipStarted answer)
    some ({ d with network }.put i { p with gossip })
  | .joinGossip =>
    let (network, answer) := p.gossip.join d.network p.config.joinAddresses
    let p ← p.record? (.gossipJoined answer)
    some ({ d with network }.put i p)
  | .noticeGossipGone => if p.gossip.stopped then some (d.put i (← p.record? .gossipGone)) else none
  | .bind => some (d.put i (← p.record? (.httpBound p.bind)))
  | .closeHttp => if p.cancelled then some (d.put i (← p.record? (.httpClosed (.ok ())))) else none
  | .interrupt => if p.interrupted then some (d.put i (← p.record? .interrupted)) else none
  | .release .leadership =>
    let p ← p.record? (.released .leadership)
    some (d.put i { p with tracker := p.tracker.stop })
  | .release w => some (d.put i (← p.record? (.released w)))
  | .leaveGossip =>
    if p.teardownWaits ∧ p.dispatch.phase ≠ .ended then none
    else some (d.put i (← p.record? (.gossipStopped (.ok ()))))
  | .stopConsensus =>
    let (d, answer) := d.withReplica i Raft.Network.shutdown
    some (d.put i (← p.record? (.consensusStopped answer)))
  | .signal w => some (d.put i (← p.record? (.signalled w)))
  | .finish w => some (d.put i (← p.record? (.ended w)))
  | .collect => some (d.put i (← p.record? .collected))
  | .lookForSignal => d.dispatch? i p fun _ t => t.look? p.gossip.stopped
  | .takeEvent => d.dispatch? i p fun k t => t.take? (d.network.sent k) (d.network.isOpen k)
  | .handEvent => d.dispatch? i p fun _ t => t.hand? p.gossip.handler
  | .bridge => d.bridge? i p
  | .interruptFromOutside => some (d.put i { p with interrupted := true })
  | .stopGossipFromOutside => some (d.stopGossip i p).1

/-- Takes one move after the other; there is nothing if one of them is not possible. -/
def run? (d : Deployment) (moves : List (Nat × Move)) : Option Deployment :=
  moves.foldlM (fun d (i, m) => d.step? i m) d

end Deployment

end ReplicatedTable.Node
