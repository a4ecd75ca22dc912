import ReplicatedTable.Error

/-!
# Groups of tasks

Tasks that share one signal to stop. The first task that fails gives the signal, and a task of the second
kind begins only after it was given. Whoever waits for the group takes the endings of its tasks in the
order in which they came, and is answered after the last one: with the first error, if there is one.

A group changes by single actions, so that a list of them is one order in which the tasks may run.
-/
namespace ReplicatedTable

/-- How a task ended. -/
inductive Ending where
  | done
  | failed (e : Error)
  | panicked (report : String)
  deriving DecidableEq, Repr

def Ending.error? : Ending → Option Error
  | .done => none
  | .failed e => some e
  | .panicked report => some (.internal (.panicked report))

inductive Progress where
  | ready
  | running
  | ended (e : Ending)
  deriving DecidableEq, Repr

structure Task where
  /-- Whether the task begins only after the signal. -/
  onCancel : Bool := false
  progress : Progress := .ready
  deriving DecidableEq, Repr

/-- mirrors `Supervisor` -/
structure Group where
  cancelled : Bool := false
  tasks : List Task
  /-- The endings that were not taken yet, in the order in which they came. -/
  pending : List Ending := []
  firstError : Option Error := none
  deriving DecidableEq, Repr

namespace Group

/-- A group of new tasks, by their kinds. -/
def ofKinds (onCancel : List Bool) : Group where
  tasks := onCancel.map fun b => { onCancel := b }

inductive Action where
  /-- The signal is given, by a task or from outside. -/
  | cancel
  | begin (i : Nat)
  | finish (i : Nat) (e : Ending)
  /-- Whoever waits takes the next ending. -/
  | collect
  deriving DecidableEq, Repr

def progress? (g : Group) (i : Nat) : Option Progress := (g.tasks[i]?).map (·.progress)

/-- mirrors `Supervisor.spawn` and `Supervisor.spawn_on_cancel` -/
def mayBegin (g : Group) (i : Nat) : Bool :=
  match g.tasks[i]? with
  | some t => t.progress == .ready && (!t.onCancel || g.cancelled)
  | none => false

def setProgress (g : Group) (i : Nat) (p : Progress) : Group :=
  { g with tasks := g.tasks.modify i fun t => { t with progress := p } }

/-- A task that fails gives the signal itself; of one that panics only the taking of its ending does.
mirrors the wrapper of a task in `Supervisor.spawn` -/
def finish (g : Group) (i : Nat) (e : Ending) : Group :=
  { g.setProgress i (.ended e) with
    cancelled := g.cancelled || (match e with | .failed _ => true | _ => false)
    pending := g.pending ++ [e] }

/-- mirrors one step of the tasks, or of the loop of `Supervisor.wait` -/
def step? (g : Group) : Action → Option Group
  | .cancel => some { g with cancelled := true }
  | .begin i => if g.mayBegin i then some (g.setProgress i .running) else none
  | .finish i e => if g.progress? i = some .running then some (g.finish i e) else none
  | .collect =>
    match g.pending with
    | [] => none
    | e :: rest => some { g with
        cancelled := g.cancelled || e.error?.isSome
        pending := rest
        firstError := g.firstError <|> e.error? }

/-- Whether all tasks have ended and all endings were taken. -/
def complete (g : Group) : Bool :=
  g.pending.isEmpty && g.tasks.all fun t =>
    match t.progress with
    | .ended _ => true
    | _ => false

/-- The answer to whoever waits, once the group is complete.
mirrors what `Supervisor.wait` returns -/
def result? (g : Group) : Option (Except Error Unit) :=
  if g.complete then some (g.firstError.elim (.ok ()) .error) else none

/-- Takes one action after the other; there is no group if one of them is not possible. -/
def run? (g : Group) (actions : List Action) : Option Group := actions.foldlM step? g

end Group

end ReplicatedTable
