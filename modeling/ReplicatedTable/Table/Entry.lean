import ReplicatedTable.Binary

/-!
# Log entries

The one kind of entry sets a cell. Its binary form starts with the version of the format and the number of
the operation, and the four texts follow.
-/
namespace ReplicatedTable.Table
open Binary

def formatVersion : UInt8 := 1

/-- Sets the cell of a column, in a row of a table, to a value.
mirrors `LogEntry` -/
structure Entry where
  table : String
  row : String
  column : String
  value : String
  deriving DecidableEq, Repr

namespace Entry

/-- The number of the operation, always that of setting a cell, and the four texts. -/
def body (e : Entry) : List UInt8 :=
  number 4 0 ++ text e.table ++ text e.row ++ text e.column ++ text e.value

/-- mirrors `LogEntry.encode` -/
def encode (e : Entry) : List UInt8 := formatVersion :: e.body

def readBody : Reader Entry := fun bs => do
  let (operation, bs) ← readNumber 4 bs
  if operation ≠ 0 then .error (.unknownOperation operation)
  else
    let (table, bs) ← readText bs
    let (row, bs) ← readText bs
    let (column, bs) ← readText bs
    let (value, bs) ← readText bs
    .ok (⟨table, row, column, value⟩, bs)

/-- Reads an entry from the front of the bytes; what follows it is ignored.
mirrors `LogEntry.decode` -/
def decode : List UInt8 → Except CodecFault Entry
  | [] => .error .emptyEntry
  | v :: bs =>
    if v = formatVersion then (readBody bs).map Prod.fst
    else .error (.unsupportedVersion v.toNat)

end Entry

end ReplicatedTable.Table
