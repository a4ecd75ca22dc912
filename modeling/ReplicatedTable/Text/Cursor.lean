/-!
# Places in a text

The bytes that are still to be read and how far into which line the reading has come. Lines count from one,
columns are the bytes of the line that were read.
-/
namespace ReplicatedTable.Text

structure Cursor where
  rest : List UInt8
  line : Nat := 1
  column : Nat := 0
  deriving DecidableEq, Repr

namespace Cursor

def peek (c : Cursor) : Option UInt8 := c.rest.head?

/-- One byte on; at the end nothing changes. -/
def eat (c : Cursor) : Cursor :=
  match c.rest with
  | [] => c
  | b :: r => if b == 0x0A then ⟨r, c.line + 1, 0⟩ else ⟨r, c.line, c.column + 1⟩

def eatMany (c : Cursor) : (n : Nat) → Cursor
  | 0 => c
  | n + 1 => eatMany c.eat n

/-- Goes on while the bytes satisfy a predicate. -/
def eatWhile (p : UInt8 → Bool) : (line column : Nat) → List UInt8 → Cursor
  | line, column, [] => ⟨[], line, column⟩
  | line, column, b :: r =>
    if p b then
      if b == 0x0A then eatWhile p (line + 1) 0 r else eatWhile p line (column + 1) r
    else ⟨b :: r, line, column⟩

/-- Behind blanks, tabs and ends of lines. -/
def skipBlanks (c : Cursor) : Cursor :=
  eatWhile (fun b => b == 0x20 || b == 0x09 || b == 0x0A || b == 0x0D) c.line c.column c.rest

def digit (b : UInt8) : Bool := 0x30 ≤ b && b ≤ 0x39

def skipDigits (c : Cursor) : Cursor := eatWhile digit c.line c.column c.rest

def atDigit (c : Cursor) : Bool := (c.peek).any digit

end Cursor

end ReplicatedTable.Text
