import ReplicatedTable.Table.Entry

/-!
# The replicated table

Cells by table, row and column, changed by log entries only, and the index of the last entry that was
applied. A snapshot writes both down; restoring one replaces both, or changes nothing if the bytes do not
hold a snapshot.
-/
namespace ReplicatedTable.Table
open Std Binary

/-- The values of a row by column. -/
abbrev Row := ExtTreeMap String String

/-- Rows by table and row name. -/
abbrev Tables := ExtTreeMap String (ExtTreeMap String Row)

/-- The tables as they are after the entries up to `lastApplied`.
mirrors `KvStateMachine`, and its `Snapshot` -/
structure Machine where
  tables : Tables := ∅
  lastApplied : Nat := 0
  deriving DecidableEq

namespace Machine

/-- mirrors `KvStateMachine.get_by_row_key` -/
def row? (m : Machine) (table row : String) : Option Row := (m.tables[table]?).bind (·[row]?)

/-- mirrors `KvStateMachine.get_cell` -/
def cell? (m : Machine) (table row column : String) : Option String :=
  (m.row? table row).bind (·[column]?)

/-- The tables with one cell set.
mirrors `KvStateMachine.upsert` -/
def upsert (tables : Tables) (e : Entry) : Tables :=
  let rows := (tables[e.table]?).getD ∅
  let row := (rows[e.row]?).getD ∅
  tables.insert e.table (rows.insert e.row (row.insert e.column e.value))

/-- Applies the entry at an index. Bytes that hold no entry are fatal to the replica and change
nothing.
mirrors `apply` of `KvStateMachine` -/
def apply (m : Machine) (index : Nat) (bytes : List UInt8) : Except Error Machine :=
  match Entry.decode bytes with
  | .error fault => .error (.fatalApply index (Error.codec fault).message)
  | .ok entry => .ok ⟨upsert m.tables entry, index⟩

/-- mirrors `KvStateMachine.snapshot` -/
def snapshot (m : Machine) : List UInt8 :=
  number 8 m.lastApplied ++ map (map (map text)) m.tables

def readSnapshot : Reader Machine := fun bs => do
  let (lastApplied, bs) ← readNumber 8 bs
  let (tables, bs) ← readMap (readMap (readMap readText)) bs
  .ok (⟨tables, lastApplied⟩, bs)

/-- The machine that a snapshot at the front of the bytes holds.
mirrors `KvStateMachine.restore` -/
def restore (bytes : List UInt8) : Except Error Machine :=
  match readSnapshot bytes with
  | .error fault => .error (.codec fault)
  | .ok (m, _) => .ok m

end Machine

end ReplicatedTable.Table
