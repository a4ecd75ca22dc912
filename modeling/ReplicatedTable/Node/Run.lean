import ReplicatedTable.Supervision.Group

/-!
# The run of a node

A node makes its directories and takes the leadership notices of its consensus engine, and then runs five
tasks as one group: it follows leadership, takes part in gossip, serves clients, waits for an interrupt,
and after the signal to stop tears its engines down, gossip first. If the start fails it tears its engines
down as well.

A run changes by single events, which hold what an engine or the system answered. A list of them is one
order in which the tasks make progress. A task that has failed, or is to stop the others, gives the signal after
its work is over and before it ends, and others may go on before the one and before the other.
-/
namespace ReplicatedTable.Node

/-- The tasks of a node, in the order in which they are given to the group. -/
inductive Worker where
  | leadership
  | gossip
  | http
  | interrupt
  | teardown
  deriving DecidableEq, Repr

def Worker.all : List Worker := [.leadership, .gossip, .http, .interrupt, .teardown]

/-- The place of a task in the group. -/
def Worker.number : Worker → Nat
  | .leadership => 0
  | .gossip => 1
  | .http => 2
  | .interrupt => 3
  | .teardown => 4

/-- Only the teardown waits for the signal before it begins. -/
def Worker.onCancel (w : Worker) : Bool := w == .teardown

/-- What a node asks of its engines. -/
inductive Call where
  | startGossip
  | joinGossip (addresses : List String)
  | stopGossip
  | stopConsensus
  deriving DecidableEq, Repr

inductive GossipWork where
  | idle
  | starting
  | joining
  /-- Waits for the engine to stop, or for the signal. -/
  | watching
  | over
  deriving DecidableEq, Repr

inductive HttpWork where
  | idle
  | binding
  | serving
  | over
  deriving DecidableEq, Repr

inductive Teardown where
  | idle
  | stoppingGossip
  | stoppingConsensus (gossip : Except Error Unit)
  | finished (answer : Except Error Unit)
  deriving DecidableEq

/-- The first of two errors.
mirrors the answer of `teardown` -/
def firstError (a b : Except Error Unit) : Except Error Unit :=
  match a with
  | .ok () => b
  | .error e => .error e

def endingOf : Except Error Unit → Ending
  | .ok () => .done
  | .error e => .failed e

/-- The tasks of a node that has started.
mirrors the tasks that `Node.run` spawns, `run_gossip`, `serve_http` and `teardown` among them -/
structure Serving where
  group : Group := Group.ofKinds (Worker.all.map Worker.onCancel)
  gossip : GossipWork := .idle
  http : HttpWork := .idle
  teardown : Teardown := .idle
  /-- What the tasks whose work is over have come to, in order. They end with it. -/
  outcomes : List (Worker × Ending) := []
  /-- The tasks among them that have to give the signal before they end. -/
  owing : List Worker := []
  deriving DecidableEq

inductive Stage where
  | preparing
  /-- The start has failed, and the engines are torn down. -/
  | abandoning (why : Error) (teardown : Teardown)
  | serving (s : Serving)
  | returned (answer : Except Error Unit)
  deriving DecidableEq

/-- mirrors `Node.run` -/
structure Run where
  seed : Bool
  joinAddresses : List String
  stage : Stage := .preparing
  /-- What the engines were asked so far, in order. -/
  calls : List Call := []
  deriving DecidableEq

inductive Event where
  /-- The directories and the notices are there, or one of them is not. -/
  | prepared (answer : Except Error Unit)
  /-- A task runs for the first time. -/
  | began (w : Worker)
  | gossipStarted (answer : Except Error Unit)
  | gossipJoined (answer : Except Error Nat)
  /-- The gossip task sees that its engine has stopped. -/
  | gossipGone
  | httpBound (answer : Except IoFault Unit)
  | httpClosed (answer : Except IoFault Unit)
  | interrupted
  /-- A task sees the signal, and has nothing more to do. -/
  | released (w : Worker)
  | gossipStopped (answer : Except Error Unit)
  | consensusStopped (answer : Except Error Unit)
  /-- A task gives the signal. -/
  | signalled (w : Worker)
  | ended (w : Worker)
  /-- An ending is taken from the group. -/
  | collected
  deriving DecidableEq

namespace Serving

def cancelled (s : Serving) : Bool := s.group.cancelled

def running (s : Serving) (w : Worker) : Bool := s.group.progress? w.number == some .running

/-- An action of the group, with the calls that follow it. -/
def act? (s : Serving) (a : Group.Action) (calls : List Call) : Option (Serving × List Call) :=
  (s.group.step? a).map fun g => ({ s with group := g }, calls)

/-- What a task has come to, if its work is over. -/
def outcome? (s : Serving) (w : Worker) : Option Ending := s.outcomes.lookup w

/-- Does nothing more for a task. -/
def quit (s : Serving) : Worker → Serving
  | .gossip => { s with gossip := .over }
  | .http => { s with http := .over }
  | .leadership | .interrupt | .teardown => s

/-- The work of a task is over. A task that has failed owes the others the signal, and so does one that is to
stop them. -/
def retire? (s : Serving) (w : Worker) (e : Ending) (stops : Bool) : Option (Serving × List Call) :=
  if s.running w ∧ s.outcome? w = none then
    some ({ s.quit w with
      outcomes := s.outcomes ++ [(w, e)]
      owing := if stops || e.error?.isSome then s.owing ++ [w] else s.owing }, [])
  else none

/-- A task gives the signal that it owes. -/
def signal? (s : Serving) (w : Worker) : Option (Serving × List Call) :=
  if w ∈ s.owing then { s with owing := s.owing.filter (· ≠ w) }.act? .cancel [] else none

/-- A task whose work is over ends, with the signal given if it had to be. -/
def end? (s : Serving) (w : Worker) : Option (Serving × List Call) :=
  if w ∈ s.owing then none else (s.outcome? w).bind fun e => s.act? (.finish w.number e) []

/-- What a task does first. -/
def begin? (s : Serving) : Worker → Option (Serving × List Call)
  | .gossip => { s with gossip := .starting }.act? (.begin Worker.gossip.number) [.startGossip]
  | .http => { s with http := .binding }.act? (.begin Worker.http.number) []
  | .teardown =>
    { s with teardown := .stoppingGossip }.act? (.begin Worker.teardown.number) [.stopGossip]
  | w => s.act? (.begin w.number) []

/-- Whether a task has nothing more to do once it sees the signal. -/
def heeds (s : Serving) : Worker → Bool
  | .leadership | .interrupt => true
  | .gossip => s.gossip == .watching
  | .http | .teardown => false

/-- One event, with the calls that the node makes because of it. -/
def step? (seed : Bool) (joinAddresses : List String) (s : Serving) : Event → Option (Serving × List Call)
  | .prepared _ => none
  | .began w => s.begin? w
  | .gossipStarted answer =>
    if s.gossip = .starting then
      match answer with
      | .error e => s.retire? .gossip (.failed e) false
      | .ok () =>
        if seed then some ({ s with gossip := .watching }, [])
        else some ({ s with gossip := .joining }, [.joinGossip joinAddresses])
    else none
  | .gossipJoined _ => if s.gossip = .joining then some ({ s with gossip := .watching }, []) else none
  | .gossipGone => if s.gossip = .watching then s.retire? .gossip .done true else none
  | .httpBound answer =>
    if s.http = .binding then
      match answer with
      | .error fault => s.retire? .http (.failed (.io fault)) false
      | .ok () => some ({ s with http := .serving }, [])
    else none
  | .httpClosed answer =>
    if s.http = .serving then s.retire? .http (endingOf (answer.mapError .io)) false else none
  | .interrupted => s.retire? .interrupt .done true
  | .released w => if s.cancelled ∧ s.heeds w then s.retire? w .done false else none
  | .gossipStopped answer =>
    if s.teardown = .stoppingGossip then
      some ({ s with teardown := .stoppingConsensus answer }, [.stopConsensus])
    else none
  | .consensusStopped answer =>
    match s.teardown with
    | .stoppingConsensus gossip =>
      let answer := firstError gossip answer
      { s with teardown := .finished answer }.retire? .teardown (endingOf answer) false
    | _ => none
  | .signalled w => s.signal? w
  | .ended w => s.end? w
  | .collected => s.act? .collect []

end Serving

namespace Run

/-- The answer of a run that has come to its end. -/
def answer? (r : Run) : Option (Except Error Unit) :=
  match r.stage with
  | .returned answer => some answer
  | _ => none

def finished (r : Run) : Bool := r.answer?.isSome

/-- The tasks of the node, if it has come to them and not returned. -/
def serving? (r : Run) : Option Serving :=
  match r.stage with
  | .serving s => some s
  | _ => none

def goTo (r : Run) (stage : Stage) (calls : List Call) : Run :=
  { r with stage, calls := r.calls ++ calls }

/-- A node returns when its group is complete. -/
def stageOf (s : Serving) : Stage := s.group.result?.elim (.serving s) .returned

def step? (r : Run) (e : Event) : Option Run :=
  match r.stage, e with
  | .preparing, .prepared (.ok ()) => some (r.goTo (.serving {}) [])
  | .preparing, .prepared (.error why) => some (r.goTo (.abandoning why .stoppingGossip) [.stopGossip])
  | .abandoning why .stoppingGossip, .gossipStopped answer =>
    some (r.goTo (.abandoning why (.stoppingConsensus answer)) [.stopConsensus])
  | .abandoning why (.stoppingConsensus _), .consensusStopped _ =>
    some (r.goTo (.returned (.error why)) [])
  | .serving s, e =>
    (s.step? r.seed r.joinAddresses e).map fun (s, calls) => r.goTo (stageOf s) calls
  | _, _ => none

/-- Takes one event after the other; there is no run if one of them cannot happen. -/
def run? (r : Run) (events : List Event) : Option Run := events.foldlM step? r

end Run

end ReplicatedTable.Node
