import ReplicatedTable.Host
import ReplicatedTable.Gossip.Event

/-!
# From gossip to membership

Gossip events keep the store of records up to date. A leader also admits everybody who joins as a voter. A
member without a record is passed over, and a failed admission is left to the next event.
-/
namespace ReplicatedTable.Membership
open Gossip

namespace Bridge
variable {ω : Type}

/-- A member has joined: it is recorded and, by a leader, admitted.
mirrors `MembershipBridge.on_join`, for one of the members -/
def join (h : Host ω) (timeout : Nat) (s : ω × Store) (m : Member) : ω × Store :=
  match s.2.add m with
  | .error _ => s
  | .ok (store, r) =>
    if h.leads s.1 then ((h.enlist timeout s.1 r.id r.consensusAddress).1, store) else (s.1, store)

/-- mirrors `MembershipBridge.on_update`, for one of the members -/
def update (store : Store) (m : Member) : Store :=
  match store.add m with
  | .error _ => store
  | .ok (store, _) => store

/-- mirrors `MembershipBridge.on_departure`, for one of the members -/
def depart (status : Presence) (store : Store) (m : Member) : Store := (store.mark m.name status).1

/-- Takes one member of an event. -/
def take (h : Host ω) (timeout : Nat) (s : ω × Store) (m : Member) : EventKind → ω × Store
  | .join => join h timeout s m
  | .leave => (s.1, depart .left s.2 m)
  | .failed => (s.1, depart .failed s.2 m)
  | .reap => s
  | .update => (s.1, update s.2 m)

/-- Takes one event, member by member.
mirrors `handle_event` of `MembershipBridge` -/
def handle (h : Host ω) (timeout : Nat) (s : ω × Store) : Event → ω × Store
  | .members kind ms => ms.foldl (fun s m => take h timeout s m kind) s
  | .user _ _ => s

end Bridge

end ReplicatedTable.Membership
