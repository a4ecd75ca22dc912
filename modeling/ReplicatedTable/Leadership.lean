/-!
# Leadership

A tracker follows the notices of a consensus engine and keeps the last one as its flag. It starts as
follower, keeps the flag when the notices end, and finishes when it is told to stop.
-/
namespace ReplicatedTable

inductive Role where
  | leader
  | follower
  deriving DecidableEq, Repr

def Role.name : Role → String
  | .leader => "leader"
  | .follower => "follower"

/-- mirrors `LeadershipTracker` -/
structure Tracker where
  leader : Bool := false
  /-- How many notices were taken. -/
  taken : Nat := 0
  finished : Bool := false
  deriving DecidableEq, Repr

namespace Tracker

/-- mirrors `LeadershipTracker.role` -/
def role (t : Tracker) : Role := if t.leader then .leader else .follower

/-- Takes the next notice, if there is one.
mirrors `LeadershipTracker.observe`, for the next notice that `run` takes -/
def receive? (t : Tracker) (notices : List Bool) : Option Tracker :=
  if t.finished then none
  else (notices[t.taken]?).map fun b => { t with leader := b, taken := t.taken + 1 }

/-- Takes all notices that are there. -/
def drain (t : Tracker) (notices : List Bool) : Tracker :=
  if t.finished then t
  else { t with
    leader := ((notices.drop t.taken).getLast?).getD t.leader
    taken := max t.taken notices.length }

/-- mirrors the end of `LeadershipTracker.run` -/
def stop (t : Tracker) : Tracker := { t with finished := true }

end Tracker

end ReplicatedTable
