import ReplicatedTable.Node.Move

/-!
# Turns of the tasks

When nobody chooses an order, the tasks of all sites take turns: a task that can make a move waits in a line
behind those that could before it, and once it is its turn it makes moves until it cannot. The readers of
events come into the line in the order in which the events were sent.
-/
namespace ReplicatedTable.Node

inductive Task where
  | worker (w : Worker)
  /-- Hands events to the bridge. -/
  | dispatch
  /-- Runs the node, which waits for its workers. -/
  | main
  deriving DecidableEq, Repr

namespace Task

/-- The tasks of a site, in the order in which they come into the line if one move lets all of them go on. -/
def all : List Task := Worker.all.map .worker ++ [.dispatch, .main]

/-- What a worker does between its beginning and its end. -/
def work : Worker → List Move
  | .leadership => [.notice]
  | .gossip => [.startGossip, .joinGossip, .noticeGossipGone]
  | .http => [.bind, .closeHttp]
  | .interrupt => [.interrupt]
  | .teardown => [.leaveGossip, .stopConsensus]

/-- The moves of a task, in the order in which they are tried. -/
def moves : Task → List Move
  | .worker w => .begin w :: work w ++ [.release w, .signal w, .finish w]
  | .dispatch => [.lookForSignal, .takeEvent, .handEvent, .bridge]
  | .main => [.prepare, .collect]

end Task

structure Turns where
  deployment : Deployment := {}
  /-- The line of tasks that can make a move, by the numbers of their sites. -/
  line : List (Nat × Task) := []

namespace Turns

/-- A dispatch task sleeps while nothing comes of looking. -/
def sleeps (d : Deployment) (i : Nat) : Bool :=
  (d.site? i).any fun p => p.gossip.mailbox.any fun k =>
    p.dispatch.sleeps (d.network.sent k) (d.network.isOpen k) p.gossip.stopped

def move? (d : Deployment) (t : Nat × Task) : Option Deployment :=
  if t.2 = .dispatch ∧ sleeps d t.1 then none else t.2.moves.findSome? (d.step? t.1)

def ready (d : Deployment) (t : Nat × Task) : Bool := (move? d t).isSome

/-- The site that reads a mailbox. -/
def reader? (d : Deployment) (mailbox : Nat) : Option Nat :=
  (List.range d.sites.length).find? fun i =>
    (d.site? i).any fun p => p.gossip.mailbox == some mailbox

/-- The tasks of all sites: first the readers of what was sent, in order. -/
def tasks (before after : Deployment) : List (Nat × Task) :=
  (after.network.log.drop before.network.log.length).filterMap
      (fun p => (reader? after p.1).map (·, .dispatch)) ++
    (List.range after.sites.length).flatMap fun i => Task.all.map (i, ·)

/-- Something happens to the deployment. Tasks that can go on because of it come into the line. -/
def become (s : Turns) (d : Deployment) : Turns where
  deployment := d
  line := (tasks s.deployment d).foldl (fun line t =>
    if ready d t && !ready s.deployment t && !line.contains t then line ++ [t] else line) s.line

/-- All tasks that can make a move are in line. -/
def ofDeployment (d : Deployment) : Turns := ({} : Turns).become d

/-- A task makes moves until it cannot. -/
def proceed (t : Nat × Task) : (fuel : Nat) → Turns → Turns
  | 0, s => s
  | fuel + 1, s =>
    match move? s.deployment t with
    | none => s
    | some d => proceed t fuel (s.become d)

/-- The moves that an event makes necessary: three until it is in the hands of the bridge, one for each of its
members, and one to give it back. -/
def work : Gossip.Event → Nat
  | .members _ ms => ms.length + 4
  | .user _ _ => 4

/-- Enough moves for the run of a node and for all that was sent to it. -/
def bound (d : Deployment) (i : Nat) : Nat :=
  match d.site? i with
  | none => 0
  | some p =>
    let mailbox := (p.gossip.mailbox.map d.network.sent).getD []
    let notices := ((d.replica? i).map (·.notices.length)).getD 0
    mailbox.foldl (fun n e => n + work e)
      (40 + notices + 4 * (d.sites.length + p.config.joinAddresses.length))

/-- Takes turns until nobody is in line. -/
def settleTurns : (turns : Nat) → Turns → Turns
  | 0, s => s
  | turns + 1, s =>
    match s.line with
    | [] => s
    | t :: line => settleTurns turns (proceed t (bound s.deployment t.1) { s with line })

/-- Enough turns for all moves. -/
def enough (d : Deployment) : Nat :=
  (List.range d.sites.length).foldl (fun n i => n + bound d i) 8 * (d.sites.length + 2)

def settle (s : Turns) : Turns := s.settleTurns (enough s.deployment)

/-- Adds a site. It has its first turn when all others have come to rest, as its directories take time. -/
def launch (s : Turns) (c : Config.NodeConfig) (bind : Except IoFault Unit) :
    Turns × Except Error Nat :=
  match s.deployment.launch c bind with
  | (d, .error e) => ({ s with deployment := d }, .error e)
  | (d, .ok i) =>
    let s := { s with deployment := d }.settle
    ({ s with line := s.line ++ [(i, .main)] }, .ok i)

/-- A gossip engine is told to stop by somebody who waits for its dispatch task, and thereby lets all tasks
have their turns. -/
def stopGossip (s : Turns) (i : Nat) : Turns :=
  match s.deployment.site? i with
  | none => s
  | some p =>
    let (d, waits) := s.deployment.stopGossip i p
    let s := s.become d
    if waits && p.dispatch.phase ≠ .ended then s.settle else s

end Turns

/-- All tasks go on until nothing is left to do. -/
def Deployment.settle (d : Deployment) : Deployment := (Turns.ofDeployment d).settle.deployment

end ReplicatedTable.Node
