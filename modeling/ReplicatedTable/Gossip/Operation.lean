import ReplicatedTable.Gossip.Session

/-!
# What happens to engines on a network

Single operations on the engines of a session and on its network, and sequences of them.
-/
namespace ReplicatedTable.Gossip

namespace Session

inductive Op where
  /-- An engine is held under a name from now on; one that was held under it stays on the network. -/
  | add (name : String) (l : Listener)
  /-- The engine hands its events to its listener from now on. -/
  | listen (name : String)
  | start (name : String)
  | shutdown (name : String)
  | join (name : String) (addresses : List String)
  | setTags (name : String) (tags : Tags)
  /-- A member crashes. -/
  | fail (member : String)
  /-- A member that crashed is given up. -/
  | reap (member : String)

/-- What an operation answers if it succeeds. -/
inductive Answer where
  | done
  | contacted (count : Nat)
  | found (b : Bool)
  deriving DecidableEq, Repr

/-- An operation of the engine under a name. -/
def withListener (s : Session) (name : String)
    (f : Listener → Session × Except Error Answer) : Option (Session × Except Error Answer) :=
  (s.listeners[name]?).map f

/-- Runs one operation. There is no result if no engine is held under the name. -/
def step? (s : Session) : Op → Option (Session × Except Error Answer)
  | .add name l => some (s.put name l, .ok .done)
  | .listen name => s.withListener name fun l =>
    (s.put name { l with engine.handler := true }, .ok .done)
  | .start name => s.withListener name fun l =>
    let (network, engine, answer) := l.engine.start s.network
    ({ s with network }.put name { l with engine }, answer.map fun _ => .done)
  | .shutdown name => s.withListener name fun l => (s.shutdown name l, .ok .done)
  | .join name addresses => s.withListener name fun l =>
    let (network, answer) := l.engine.join s.network addresses
    ({ s with network }, answer.map .contacted)
  | .setTags name tags => s.withListener name fun l =>
    let (network, engine, answer) := l.engine.setTags s.network tags
    ({ s with network }.put name { l with engine }, answer.map fun _ => .done)
  | .fail member =>
    let (network, found) := s.network.fail member
    some ({ s with network }, .ok (.found found))
  | .reap member =>
    let (network, found) := s.network.reap member
    some ({ s with network }, .ok (.found found))

/-- The session after a sequence of operations, less those that have no result. -/
def run (s : Session) (ops : List Op) : Session :=
  ops.foldl (fun s op => ((s.step? op).map (·.1)).getD s) s

end Session

end ReplicatedTable.Gossip
