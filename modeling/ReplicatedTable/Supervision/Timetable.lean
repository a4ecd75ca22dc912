import ReplicatedTable.Supervision.Group

/-!
# Groups that follow a timetable

Each job of a timetable waits for spans of time or for the signal to stop, and then does one thing. Jobs
that can go on take turns in the order in which they became able to; time passes only when there are none,
and endings are taken only then too. Times are in milliseconds.
-/
namespace ReplicatedTable

inductive Wait where
  | span (ms : Nat)
  | signal
  deriving DecidableEq, Repr

inductive Deed where
  | ending (e : Ending)
  /-- Gives the signal and ends well. -/
  | cancel
  deriving DecidableEq, Repr

structure Job where
  name : String
  onCancel : Bool := false
  waits : List Wait := []
  deed : Deed := .ending .done
  deriving DecidableEq, Repr

namespace Timetable

/-- A deed that was done, with its time and whether the signal had been given by then. -/
structure Entry where
  job : String
  time : Nat
  cancelled : Bool
  deriving DecidableEq, Repr

/-- What comes next: a job goes on with the waits that are left, or the signal is given from outside once
it is time. -/
inductive Turn where
  | job (i : Nat) (waits : List Wait)
  | cancel (time : Nat)
  deriving DecidableEq, Repr

structure State where
  group : Group
  now : Nat := 0
  /-- The turns that can be taken now, in order. -/
  ready : List Turn
  /-- The turns that wait for the signal, in the order in which they came. -/
  awaiting : List Turn := []
  /-- The turns that wait for a time. -/
  sleeping : List (Nat × Turn) := []
  journal : List Entry := []

namespace State

/-- Takes an action of the group. The signal wakes whoever waits for it. -/
def act (s : State) (a : Group.Action) : State :=
  match s.group.step? a with
  | none => s
  | some g =>
    if g.cancelled then
      { s with group := g, ready := s.ready ++ s.awaiting, awaiting := [] }
    else { s with group := g }

def perform (s : State) (i : Nat) : Deed → State
  | .ending e => s.act (.finish i e)
  | .cancel => (s.act .cancel).act (.finish i .done)

/-- A running job goes on until it has to wait. -/
def proceed (s : State) (i : Nat) (job : Job) : List Wait → State
  | [] =>
    let entry := ⟨job.name, s.now, s.group.cancelled⟩
    { s with journal := s.journal ++ [entry] }.perform i job.deed
  | .signal :: rest =>
    if s.group.cancelled then s.proceed i job rest
    else { s with awaiting := s.awaiting ++ [.job i (.signal :: rest)] }
  | .span 0 :: rest => s.proceed i job rest
  | .span ms :: rest => { s with sleeping := s.sleeping ++ [(s.now + ms, .job i rest)] }

def turn (jobs : List Job) (s : State) : Turn → State
  | .cancel time =>
    if s.now < time then { s with sleeping := s.sleeping ++ [(time, .cancel time)] }
    else s.act .cancel
  | .job i waits =>
    match jobs[i]?, s.group.progress? i with
    | some job, some .ready =>
      if s.group.mayBegin i then (s.act (.begin i)).proceed i job waits
      else { s with awaiting := s.awaiting ++ [.job i waits] }
    | some job, some .running => s.proceed i job waits
    | _, _ => s

/-- The next time for which a turn waits. -/
def wakeTime? (s : State) : Option Nat := (s.sleeping.map (·.1)).min?

/-- Time goes on to the given one, and its turns can be taken. -/
def advance (s : State) (time : Nat) : State :=
  let (due, later) := s.sleeping.partition (·.1 ≤ time)
  { s with now := time, ready := s.ready ++ due.map (·.2), sleeping := later }

/-- The next state, if there is one before the limit and the group is not complete. -/
def step? (jobs : List Job) (limit : Nat) (s : State) : Option State :=
  if s.group.complete then none
  else
    match s.ready with
    | t :: rest => some (turn jobs { s with ready := rest } t)
    | [] =>
      if s.group.pending ≠ [] then some (s.act .collect)
      else s.wakeTime?.bind fun time => if time < limit then some (s.advance time) else none

def run (jobs : List Job) (limit : Nat) : (fuel : Nat) → State → State
  | 0, s => s
  | fuel + 1, s =>
    match s.step? jobs limit with
    | none => s
    | some s => run jobs limit fuel s

end State

/-- All jobs are ready from the beginning; the signal may be given from outside at some time. -/
def start (jobs : List Job) (cancelAt : Option Nat) : State where
  group := Group.ofKinds (jobs.map (·.onCancel))
  ready := jobs.mapIdx (fun i job => Turn.job i job.waits) ++ cancelAt.toList.map .cancel

/-- Enough steps for all waits, endings and times. -/
def bound (jobs : List Job) : Nat := jobs.foldl (fun n job => n + 3 * job.waits.length + 6) 4

/-- The last state before the limit. -/
def run (jobs : List Job) (cancelAt : Option Nat) (limit : Nat) : State :=
  State.run jobs limit (bound jobs) (start jobs cancelAt)

end Timetable

end ReplicatedTable
