import ReplicatedTable.Host
import ReplicatedTable.Leadership

/-!
# Requests of clients

Writes and joins go through the consensus engine; reads are answered from the table of this node.
-/
namespace ReplicatedTable
open Text

/-- The settings of a node that matter to requests; times are in milliseconds.
mirrors `RequestRouter` -/
structure Router where
  nodeId : String
  applyTimeout : Nat
  reconfigTimeout : Nat
  deriving DecidableEq, Repr

/-- What a node tells about itself.
mirrors `NodeStatusView` -/
structure Status where
  nodeId : String
  role : Role
  leader : Option String
  lastApplied : Nat
  members : Nat
  deriving DecidableEq, Repr

namespace Router
variable {ω : Type}

/-- The entry of a write, if none of its names is blank. -/
def entry (table row column value : String) : Except Error Table.Entry := do
  let table ← nonBlank "table" table
  let row ← nonBlank "row" row
  let column ← nonBlank "column" column
  .ok ⟨table, row, column, value⟩

/-- Writes a cell. The answer is the index at which the write is committed.
mirrors `RequestRouter.write` -/
def write (r : Router) (h : Host ω) (w : ω) (table row column value : String) :
    ω × Except Error Nat :=
  match entry table row column value with
  | .error e => (w, .error e)
  | .ok entry =>
    if h.leads w then
      match h.submit w entry.encode r.applyTimeout with
      | (w, .answered (.ok index)) => (w, .ok index)
      | (w, .answered (.error e)) => (w, .error (.writeFailed (.reported e.message)))
      | (w, .pending) => (w, .error (.writeFailed (.expired r.applyTimeout)))
    else (w, .error (.writeFailed (.notLeader (h.leaderAddress w))))

/-- All columns of a row.
mirrors `RequestRouter.read` -/
def read (h : Host ω) (w : ω) (table row : String) : Except Error Table.Row :=
  match (h.table w).row? table row with
  | some cells => .ok cells
  | none => .error (.notFound (table ++ "/" ++ row))

/-- mirrors `RequestRouter.read_cell` -/
def readCell (h : Host ω) (w : ω) (table row column : String) : Except Error String :=
  match (h.table w).cell? table row column with
  | some value => .ok value
  | none => .error (.notFound (table ++ "/" ++ row ++ "/" ++ column))

/-- Adds a voter by hand, on a leader or not. A blank id stands for the address.
mirrors `RequestRouter.join` -/
def join (r : Router) (h : Host ω) (w : ω) (id address : String) : ω × Except Error Unit :=
  match nonBlank "peer address" (trim address) with
  | .error e => (w, .error e)
  | .ok address =>
    let id := trim id
    h.enlist r.reconfigTimeout w (if id = "" then address else id) address

/-- mirrors `RequestRouter.status` -/
def status (r : Router) (h : Host ω) (w : ω) (store : Membership.Store) : Status where
  nodeId := r.nodeId
  role := if h.leads w then .leader else .follower
  leader := h.leaderAddress w
  lastApplied := (h.table w).lastApplied
  members := store.size

end Router

end ReplicatedTable
