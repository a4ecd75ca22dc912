import ReplicatedTable.Gossip.Event

/-!
# Dispatch of events

The task of an engine that takes events from its mailbox, one at a time and in order, and hands each to the
handler. It looks for the signal to stop before it looks for an event, then for an event, and with one in its
hands for a handler. These are three steps: others may send events, register a handler or give the signal
between any two of them. An event in the hands of a handler is finished before the task looks again.
-/
namespace ReplicatedTable.Gossip

inductive Phase where
  /-- The task looks for the signal next. -/
  | idle
  /-- There was no signal, and it looks for an event next. -/
  | looked
  /-- It has taken an event, and looks for a handler next. -/
  | holding (e : Event)
  | handling (e : Event)
  | ended
  deriving DecidableEq

/-- The members that the event in the hands of the handler is about. -/
def Phase.members : Phase → List Member
  | .handling (.members _ ms) => ms
  | _ => []

/-- mirrors the task that `start` of `MemoryGossip` spawns -/
structure Dispatch where
  phase : Phase := .idle
  /-- How many events were taken from the mailbox. -/
  taken : Nat := 0
  /-- The events that were handed to a handler, in order. -/
  handed : List Event := []

namespace Dispatch

/-- Looks for the signal to stop.
mirrors the poll of `cancelled` in the loop of that task -/
def look? (d : Dispatch) (stopped : Bool) : Option Dispatch :=
  match d.phase with
  | .idle => some { d with phase := if stopped then .ended else .looked }
  | _ => none

/-- Takes the next event. If there is none the task begins anew, or ends if nothing can come any more.
mirrors the poll of `recv` in the loop -/
def take? (d : Dispatch) (sent : List Event) (isOpen : Bool) : Option Dispatch :=
  match d.phase with
  | .looked =>
    match sent[d.taken]? with
    | some e => some { d with phase := .holding e, taken := d.taken + 1 }
    | none => some { d with phase := if isOpen then .idle else .ended }
  | _ => none

/-- Hands the event to the handler. It is dropped if there is none.
mirrors the lookup of the handler and the call of `handle_event` -/
def hand? (d : Dispatch) (handler : Bool) : Option Dispatch :=
  match d.phase with
  | .holding e =>
    if handler then some { d with phase := .handling e, handed := d.handed ++ [e] }
    else some { d with phase := .idle }
  | _ => none

/-- The handler has returned.
mirrors the return of `handle_event` -/
def finish (d : Dispatch) : Dispatch :=
  match d.phase with
  | .handling _ => { d with phase := .idle }
  | _ => d

/-- The step that comes next, unless the task waits for its handler or has ended. -/
def step? (d : Dispatch) (sent : List Event) (isOpen stopped handler : Bool) : Option Dispatch :=
  d.look? stopped <|> d.take? sent isOpen <|> d.hand? handler

/-- Whether nothing comes of looking again, so that the task sleeps. -/
def sleeps (d : Dispatch) (sent : List Event) (isOpen stopped : Bool) : Bool :=
  d.phase == .idle && !stopped && isOpen && sent.length ≤ d.taken

end Dispatch

end ReplicatedTable.Gossip
