import ReplicatedTable.Raft.Log

/-!
# Machines that record

A `Recorder` keeps the entries that it was given, in order, and fails on those that a fault is set for. A
`Journal` is any machine together with all calls that were made of it.
-/
namespace ReplicatedTable.Raft

structure Recorder where
  fault : Nat → List UInt8 → Option Error := fun _ _ => none
  entries : List (Nat × List UInt8) := []

instance : StateMachine Recorder where
  apply r index data :=
    match r.fault index data with
    | some e => (r, .error e)
    | none => ({ r with entries := r.entries ++ [(index, data)] }, .ok ())

variable {σ : Type}

/-- A call of a machine, and how it went. -/
structure Call where
  index : Nat
  data : List UInt8
  answer : Except Error Unit

/-- A machine and all calls that were made of it, in order. -/
structure Journal (σ : Type) where
  machine : σ
  calls : List Call

instance [StateMachine σ] : StateMachine (Journal σ) where
  apply j index data :=
    let (machine, answer) := StateMachine.apply j.machine index data
    (⟨machine, j.calls ++ [⟨index, data, answer⟩]⟩, answer)

namespace Journal

/-- The journal of a machine that was not called yet. -/
def opened (machine : σ) : Journal σ := ⟨machine, []⟩

/-- What the machine was given with success: indices and data. -/
def accepted (j : Journal σ) : List (Nat × List UInt8) :=
  (j.calls.filter (·.answer.isOk)).map fun c => (c.index, c.data)

/-- A call that succeeded adds to what was accepted, and no other call does. -/
theorem accepted_concat (m m' : σ) (calls : List Call) (c : Call) :
    accepted ⟨m', calls ++ [c]⟩ =
      accepted ⟨m, calls⟩ ++ if c.answer.isOk then [(c.index, c.data)] else [] := by
  unfold accepted
  rw [List.filter_append, List.map_append]
  cases h : c.answer.isOk <;> simp [h]

end Journal

end ReplicatedTable.Raft
