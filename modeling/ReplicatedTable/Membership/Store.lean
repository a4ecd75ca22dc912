import ReplicatedTable.Membership.Record

/-!
# The store of records

One record for each member that was ever seen, by its id. A record is replaced when the member is seen
again and marked when it is gone, but never removed.
-/
namespace ReplicatedTable.Membership
open Std Gossip

/-- mirrors `MetadataStore` -/
structure Store where
  records : ExtTreeMap String Record := ∅
  deriving DecidableEq

namespace Store

def insert (s : Store) (r : Record) : Store := ⟨s.records.insert r.id r⟩

/-- Records a member, or reports why it has no record.
mirrors `MetadataStore.add` -/
def add (s : Store) (m : Member) : Except Error (Store × Record) :=
  (Record.ofMember m).map fun r => (s.insert r, r)

/-- mirrors `MetadataStore.lookup` -/
def lookup (s : Store) (id : String) : Option Record := s.records[id]?

/-- Changes the status of a record; the second part tells whether there is one.
mirrors `MetadataStore.mark` -/
def mark (s : Store) (id : String) (status : Presence) : Store × Bool :=
  match s.records[id]? with
  | some r => (⟨s.records.insert id { r with status := status }⟩, true)
  | none => (s, false)

/-- All records in ascending order of their ids.
mirrors `MetadataStore.members` -/
def members (s : Store) : List Record := s.records.toList.map (·.2)

/-- mirrors `MetadataStore.len` -/
def size (s : Store) : Nat := s.records.size

end Store

end ReplicatedTable.Membership
