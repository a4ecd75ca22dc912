import ReplicatedTable.Gossip.Engine
import ReplicatedTable.Gossip.Dispatch

/-!
# Engines with listeners

Engines on one network whose handlers note down the events. The dispatch tasks run when the session
settles, and for one turn each while a shutdown waits for its own task. A slow listener lets the other
tasks run before it notes an event down.
-/
namespace ReplicatedTable.Gossip
open Std

structure Listener where
  engine : Engine
  dispatch : Dispatch := {}
  slow : Bool := false
  heard : List Event := []

namespace Listener

/-- One turn of the dispatch task: it runs until it has to wait or its listener lets others run. -/
def turn (n : Network) : (fuel : Nat) → Listener → Listener
  | 0, l => l
  | fuel + 1, l =>
    match l.engine.mailbox, l.dispatch.phase with
    | none, _ => l
    | some _, .handling e =>
      turn n fuel { l with dispatch := l.dispatch.finish, heard := l.heard ++ [e] }
    | some mailbox, _ =>
      let sent := n.sent mailbox
      let isOpen := n.isOpen mailbox
      if l.dispatch.sleeps sent isOpen l.engine.stopped then l
      else
        match l.dispatch.step? sent isOpen l.engine.stopped l.engine.handler with
        | none => l
        | some d =>
          let l := { l with dispatch := d }
          match d.phase with
          | .handling _ => if l.slow then l else turn n fuel l
          | _ => turn n fuel l

/-- Enough steps for everything in the mailbox: with each event the task looks for the signal, for the event and
for the handler, and the handler returns. -/
def bound (n : Network) (l : Listener) : Nat :=
  4 * ((l.engine.mailbox.map fun m => (n.sent m).length).getD 0) + 3

def run (n : Network) (l : Listener) : Listener := turn n (l.bound n) l

/-- Runs the task until it has to wait for an event. -/
def settle (n : Network) : (turns : Nat) → Listener → Listener
  | 0, l => l
  | turns + 1, l => settle n turns (run n l)

end Listener

/-- The engines by the name under which they are held. -/
structure Session where
  network : Network := {}
  listeners : ExtTreeMap String Listener := ∅

namespace Session

/-- All dispatch tasks have one turn. -/
def wait (s : Session) : Session :=
  { s with listeners := s.listeners.map fun _ l => l.run s.network }

/-- All dispatch tasks run until nothing is left to do. -/
def settle (s : Session) : Session :=
  { s with listeners := s.listeners.map fun _ l => Listener.settle s.network (l.bound s.network) l }

def put (s : Session) (name : String) (l : Listener) : Session :=
  { s with listeners := s.listeners.insert name l }

/-- Stops an engine and waits until its dispatch task has ended. -/
def shutdown (s : Session) (name : String) (l : Listener) : Session :=
  if l.engine.stopped then s
  else
    let (network, engine) := l.engine.requestStop s.network
    let s := { s with network }.put name { l with engine }
    if engine.mailbox.isSome ∧ l.dispatch.phase ≠ .ended then s.wait else s

/-- The events that were heard since this was asked last. -/
def hear (s : Session) : Session × List (String × List Event) :=
  ({ s with listeners := s.listeners.map fun _ l => { l with heard := [] } },
    (s.listeners.toList.map fun (name, l) => (name, l.heard)).filter fun p => !p.2.isEmpty)

end Session

end ReplicatedTable.Gossip
