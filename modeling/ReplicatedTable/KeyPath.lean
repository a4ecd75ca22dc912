import ReplicatedTable.Text.Percent

/-!
# Paths of keys

A row is addressed as `/key/table/row` and a cell as `/key/table/row/column`. Inside a segment the
characters that would end or split it are escaped.
-/
namespace ReplicatedTable
open Text

/-- The bytes that a segment holds as they are: printable ASCII but for the marks that end or split a
segment and the percent sign.
mirrors the bytes that `SEGMENT_ENCODE_SET` leaves alone -/
def keepInSegment (b : UInt8) : Bool :=
  0x20 < b && b < 0x7F && !(b == 0x2F || b == 0x25 || b == 0x3F || b == 0x23 || b == 0x26)

/-- A name as one segment of a path.
mirrors `encode_segment` -/
def encodeSegment (name : String) : String :=
  String.ofList (percentEncode keepInSegment (utf8 name))

/-- The path of a row, or of a cell if a column is given.
mirrors `key_path` -/
def keyPath (table row : String) (column : Option String) : String :=
  "/key/" ++ encodeSegment table ++ "/" ++ encodeSegment row ++
    match column with
    | none => ""
    | some column => "/" ++ encodeSegment column

end ReplicatedTable
