import ReplicatedTable.Json.Found

/-!
# Bodies of write requests

A body holds the value of a cell, as the field `value` of an object or as the only item of a list. Other
fields are passed over.
-/
namespace ReplicatedTable.Http.WriteBody
open Text Json

def expectedBody : String := "struct WriteRequest"

/-- The string at the cursor. -/
def text (c : Cursor) : Scan String :=
  let c := c.skipBlanks
  match c.peek with
  | none => .error (Fault.endInValue.next c)
  | some b => if b == 0x22 then Json.string c else .error (mistyped "a string" c)

/-- Behind the bracket that closes a list after its only item. -/
def endOfList (c : Cursor) : Except Located Cursor :=
  let c := c.skipBlanks
  match c.peek with
  | none => .error (Fault.endInList.next c)
  | some 0x5D => .ok c.eat
  | some 0x2C =>
    let c := c.eat.skipBlanks
    .error ((if c.peek == some 0x5D then Fault.trailingComma else Fault.trailing).next c)
  | some _ => .error (Fault.trailing.next c)

/-- Reports a fault of the whole object or list, behind its closing bracket if that comes next. -/
def whole (fault : Fault) (bracket : UInt8) (c : Cursor) : Located :=
  let c := c.skipBlanks
  fault.at (if c.peek == some bracket then c.eat else c)

/-- The list behind its opening bracket. -/
def list (c : Cursor) : Except Located (String × Cursor) := do
  let c := c.skipBlanks
  match c.peek with
  | none => .error (Fault.endInList.next c)
  | some 0x5D => .error (whole (.wrongLength 0 (expectedBody ++ " with 1 element")) 0x5D c)
  | some _ =>
    let (value, c) ← text c
    let c ← endOfList c
    .ok (value, c)

/-- The fields of an object from the cursor on; `value` holds that of the field if it was read. -/
def fields : (fuel : Nat) → (first : Bool) → (value : Option String) → Cursor → Scan String
  | 0, _, _, c => .error (Fault.endInObject.at c)
  | fuel + 1, first, value, c =>
    let c := c.skipBlanks
    match c.peek with
    | none => .error (Fault.endInObject.next c)
    | some 0x7D =>
      match value with
      | some s => .ok (s, c.eat)
      | none => .error (whole (.missingField "value") 0x7D c)
    | some b =>
      if !first && b != 0x2C then .error (Fault.expectedObjectEnd.next c)
      else
        let c := if first then c else c.eat.skipBlanks
        match c.peek with
        | none => .error (Fault.endInValue.next c)
        | some 0x22 =>
          match Json.string c with
          | .error e => .error e
          | .ok (key, c) =>
            if key = "value" ∧ value.isSome then
              .error (whole (.duplicateField "value") 0x7D c)
            else
              let c := c.skipBlanks
              match c.peek with
              | none => .error (Fault.endInObject.next c)
              | some 0x3A =>
                if key = "value" then
                  match text c.eat with
                  | .error e => .error e
                  | .ok (s, c) => fields fuel false (some s) c
                else
                  match skipValue c.eat with
                  | .error e => .error e
                  | .ok c => fields fuel false value c
              | some _ => .error (Fault.expectedColon.next c)
        | some b =>
          .error ((if !first && b == 0x7D then Fault.trailingComma else Fault.keyNoString).next c)

/-- The value in a body.
mirrors the reading of a `WriteRequest` -/
def read (bytes : List UInt8) : Except Located String := do
  let c : Cursor := (Cursor.mk bytes 1 0).skipBlanks
  let (value, c) ←
    match c.peek with
    | none => .error (Fault.endInValue.next c)
    | some 0x5B => list c.eat
    | some 0x7B => fields (c.rest.length + 1) true none c.eat
    | some _ => .error (mistyped expectedBody c)
  let c := c.skipBlanks
  if c.peek.isSome then .error (Fault.trailing.next c) else .ok value

end ReplicatedTable.Http.WriteBody
