import ReplicatedTable.Cluster.Scripted
import ReplicatedTable.Leadership
import ReplicatedTable.Membership.Bridge
import ReplicatedTable.Node.FileTree
import ReplicatedTable.Node.Run

/-!
# Rehearsals of a run

A node on engines that answer as they were told beforehand. Of the events that can happen the first one in a
fixed order does, so that each task goes on until it has to wait, and the engines take their time to stop.
-/
namespace ReplicatedTable.Node

/-- What the engines are told beforehand. -/
structure Rehearsal where
  seed : Bool
  joinAddresses : List String
  reconfigTimeout : Nat
  tree : FileTree
  gossipDirectory : String
  consensusDirectory : String
  /-- The leadership notices, unless somebody else took them. -/
  notices : Option (List Bool)
  startGossip : Except Error Unit
  /-- The gossip events that arrive while gossip starts. -/
  events : List Gossip.Event
  joinGossip : Except Error Nat
  bind : Except IoFault Unit
  stopGossip : Except Error Unit
  stopConsensus : Except Error Unit
  /-- The voters that cannot be added. -/
  failFor : List String

/-- What is seen of a rehearsal, in order. -/
inductive Note where
  | handlerRegistered
  | engine (c : Call)
  | consensus (c : ReplicatedTable.Call)

namespace Rehearsal

structure State where
  run : Run
  tree : FileTree
  tracker : Tracker := {}
  store : Membership.Store := {}
  script : Script
  interrupted : Bool
  gossipGone : Bool
  journal : List Note := [.handlerRegistered]

/-- The node as its bridge uses it. -/
def host : Host State where
  leads s := s.tracker.leader
  leaderAddress s := s.script.leaderAddress
  table _ := {}
  submit s bytes timeout :=
    let (script, answer) := s.script.submit bytes timeout
    ({ s with script }, answer)
  addVoter s id address prev timeout :=
    let (script, answer) := s.script.addVoter id address prev timeout
    ({ s with script, journal := s.journal ++ [.consensus (.addVoter id address prev timeout)] }, answer)

/-- Makes the directories and takes the notices. -/
def prepare (r : Rehearsal) (t : FileTree) : FileTree × Except Error Unit :=
  match t.createAll [r.gossipDirectory, r.consensusDirectory] with
  | (t, .error fault) => (t, .error (.io fault))
  | (t, .ok ()) =>
    (t, if r.notices.isSome then .ok () else .error (.internal .notificationsTaken))

/-- What follows from an event besides the run itself. -/
def react (r : Rehearsal) (s : State) : Event → State
  | .prepared _ => { s with tree := (r.prepare s.tree).1 }
  | .began .leadership => { s with tracker := s.tracker.drain (r.notices.getD []) }
  | .gossipStarted (.ok ()) => r.events.foldl (fun s e =>
      let (s, store) := Membership.Bridge.handle host r.reconfigTimeout (s, s.store) e
      { s with store }) s
  | .released .leadership => { s with tracker := s.tracker.stop }
  | _ => s

/-- The events that can be thought of, in order. A task whose work is over comes to its end before others go on. -/
def thinkable (r : Rehearsal) (s : State) (patient : Bool) : List Event :=
  Worker.all.map .signalled ++ Worker.all.map .ended ++
  [.prepared (r.prepare s.tree).2, .began .leadership, .began .gossip, .gossipStarted r.startGossip,
    .gossipJoined r.joinGossip] ++
  (if s.gossipGone then [.gossipGone] else []) ++
  [.began .http, .httpBound r.bind, .began .interrupt] ++
  (if s.interrupted then [.interrupted] else []) ++
  [.released .leadership, .released .gossip] ++
  (if (s.run.serving?.map (·.cancelled)).getD false then [.httpClosed (.ok ())] else []) ++
  [.released .interrupt, .began .teardown] ++
  (if patient then [.gossipStopped r.stopGossip, .consensusStopped r.stopConsensus] else []) ++
  [.collected]

/-- The next state, if there is one. Only the patient wait until the engines have stopped. -/
def step? (r : Rehearsal) (patient : Bool) (s : State) : Option State :=
  (r.thinkable s patient).findSome? fun e => (s.run.step? e).map fun run =>
    let calls := run.calls.drop s.run.calls.length
    r.react { s with run, journal := s.journal ++ calls.map .engine } e

def play (r : Rehearsal) (patient : Bool) : (fuel : Nat) → State → State
  | 0, s => s
  | fuel + 1, s =>
    match r.step? patient s with
    | none => s
    | some s => r.play patient fuel s

/-- More events than the run of a node can have. -/
def bound : Nat := 40

def start (r : Rehearsal) (interrupted gossipGone : Bool) : State where
  run := { seed := r.seed, joinAddresses := r.joinAddresses }
  tree := r.tree
  script := { failFor := r.failFor }
  interrupted := interrupted
  gossipGone := gossipGone

/-- The node as it runs: all its tasks wait, or it has failed to start and returned. -/
def settle (r : Rehearsal) (s : State) : State :=
  let s := r.play false bound s
  if s.run.serving?.isSome then s else r.play true bound s

/-- The node after an interrupt, or after its gossip engine has stopped by itself. -/
def conclude (r : Rehearsal) (s : State) (interrupted gossipGone : Bool) : State :=
  r.play true bound { s with
    interrupted := s.interrupted || interrupted, gossipGone := s.gossipGone || gossipGone }

end Rehearsal

end ReplicatedTable.Node
