import ReplicatedTable.Host

/-!
# Scripted consensus engines

An engine that answers as it was told beforehand and notes down what it is asked.
-/
namespace ReplicatedTable

/-- What an engine was asked. -/
inductive Call where
  | addVoter (id address : String) (prev timeout : Nat)
  | submit (bytes : List UInt8) (timeout : Nat)
  deriving DecidableEq, Repr

structure Script where
  /-- The answer to every entry. -/
  submission : Submission := .answered (.ok 0)
  /-- The voters that cannot be added. -/
  failFor : List String := []
  leaderAddress : Option String := none
  /-- The leadership notices that were sent. -/
  notices : List Bool := []
  calls : List Call := []

namespace Script

def submit (s : Script) (bytes : List UInt8) (timeout : Nat) : Script × Submission :=
  ({ s with calls := s.calls ++ [.submit bytes timeout] }, s.submission)

def addVoter (s : Script) (id address : String) (prev timeout : Nat) : Script × Except Error Unit :=
  ({ s with calls := s.calls ++ [.addVoter id address prev timeout] },
    if id ∈ s.failFor then .error (.consensus (.reported "quorum unreachable")) else .ok ())

end Script

end ReplicatedTable
