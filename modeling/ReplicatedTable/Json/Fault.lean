import ReplicatedTable.Text.Cursor

/-!
# Faults of JSON texts

What can be wrong with a JSON text, and where.
-/
namespace ReplicatedTable.Json
open Text

inductive Fault where
  | endInValue
  | endInList
  | endInObject
  | endInString
  | expectedColon
  | expectedListEnd
  | expectedObjectEnd
  | expectedIdent
  | expectedValue
  | badEscape
  | badNumber
  | numberRange
  | badText
  | control
  | keyNoString
  | loneSurrogate
  | trailingComma
  | trailing
  | endOfHexEscape
  | wrongType (found expected : String)
  | wrongLength (length : Nat) (expected : String)
  | missingField (name : String)
  | duplicateField (name : String)
  deriving DecidableEq, Repr

def tick (s : String) : String := "`" ++ s ++ "`"

def Fault.message : Fault → String
  | .endInValue => "EOF while parsing a value"
  | .endInList => "EOF while parsing a list"
  | .endInObject => "EOF while parsing an object"
  | .endInString => "EOF while parsing a string"
  | .expectedColon => "expected `:`"
  | .expectedListEnd => "expected `,` or `]`"
  | .expectedObjectEnd => "expected `,` or `\x7d`"
  | .expectedIdent => "expected ident"
  | .expectedValue => "expected value"
  | .badEscape => "invalid escape"
  | .badNumber => "invalid number"
  | .numberRange => "number out of range"
  | .badText => "invalid unicode code point"
  | .control => "control character (\\u0000-\\u001F) found while parsing a string"
  | .keyNoString => "key must be a string"
  | .loneSurrogate => "lone leading surrogate in hex escape"
  | .trailingComma => "trailing comma"
  | .trailing => "trailing characters"
  | .endOfHexEscape => "unexpected end of hex escape"
  | .wrongType found expected => s!"invalid type: {found}, expected {expected}"
  | .wrongLength length expected => s!"invalid length {length}, expected {expected}"
  | .missingField name => s!"missing field {tick name}"
  | .duplicateField name => s!"duplicate field {tick name}"

/-- A fault and the place at which it was found. -/
structure Located where
  fault : Fault
  line : Nat
  column : Nat
  deriving DecidableEq, Repr

def Located.message (l : Located) : String :=
  s!"{l.fault.message} at line {l.line} column {l.column}"

/-- A fault behind what was read. -/
def Fault.at (f : Fault) (c : Cursor) : Located := ⟨f, c.line, c.column⟩

/-- A fault of the next byte. -/
def Fault.next (f : Fault) (c : Cursor) : Located := f.at c.eat

end ReplicatedTable.Json
