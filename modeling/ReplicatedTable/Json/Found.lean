import ReplicatedTable.Json.Scan

/-!
# Values of the wrong type

Names the value at a cursor, for the report that another type was expected. A number counts as an integer if
it is written without point and exponent and fits into 64 bits.
-/
namespace ReplicatedTable.Json
open Text

/-- A number as it is written: an integer, or a float that was scaled by a power of ten. -/
inductive Written where
  | int (i : Int)
  | float (f : Float)

/-- Adds digits to a number as long as it fits into 64 bits. The second part counts them. -/
def takeDigits (n count : Nat) (line column : Nat) : List UInt8 → Nat × Nat × Cursor
  | [] => (n, count, ⟨[], line, column⟩)
  | b :: r =>
    let n' := n * 10 + (b.toNat - 0x30)
    if Cursor.digit b && n' < UInt64.size then takeDigits n' (count + 1) line (column + 1) r
    else (n, count, ⟨b :: r, line, column⟩)

def powerOfTen (k : Nat) : Float := Float.ofScientific 1 false k

/-- Divides by large powers of ten until the exponent is small enough. -/
def lower : (fuel : Nat) → Float → Nat → Float
  | 0, f, _ => f
  | fuel + 1, f, k =>
    if k ≤ 308 then f / powerOfTen k
    else if f == 0.0 then f
    else lower fuel (f / powerOfTen 308) (k - 308)

/-- The float `n * 10 ^ e`, none if it is too large. -/
def scaled? (n : Nat) (e : Int) : Option Float :=
  let f := (UInt64.ofNat n).toFloat
  match e with
  | .ofNat k =>
    if k ≤ 308 then
      let f := f * powerOfTen k
      if f.isInf then none else some f
    else if f == 0.0 then some f
    else none
  | .negSucc k => some (lower 8 f (k + 1))

def signed (positive : Bool) (f : Float) : Written := .float (if positive then f else -f)

def floatOf (positive : Bool) (n : Nat) (e : Int) (c : Cursor) : Scan Written :=
  match scaled? n e with
  | some f => .ok (signed positive f, c)
  | none => .error (Fault.numberRange.at c)

/-- The digits of an exponent, as long as it fits into 32 bits; the flag tells whether it does. -/
def exponentDigits (n : Nat) (line column : Nat) : List UInt8 → Nat × Bool × Cursor
  | [] => (n, true, ⟨[], line, column⟩)
  | b :: r =>
    if Cursor.digit b then
      let n' := n * 10 + (b.toNat - 0x30)
      if n' < UInt32.size / 2 then exponentDigits n' line (column + 1) r
      else (n, false, ⟨r, line, column + 1⟩)
    else (n, true, ⟨b :: r, line, column⟩)

/-- Reads an exponent from its letter on. -/
def exponent (positive : Bool) (n : Nat) (e : Int) (c : Cursor) : Scan Written :=
  let c := c.eat
  let negative := c.peek == some 0x2D
  let c := if negative || c.peek == some 0x2B then c.eat else c
  match c.peek with
  | none => .error (Fault.endInValue.at c)
  | some _ =>
    if c.atDigit then
      let (x, fits, c) := exponentDigits 0 c.line c.column c.rest
      if fits then floatOf positive n (if negative then e - x else e + x) c
      else if n ≠ 0 ∧ !negative then .error (Fault.numberRange.at c)
      else .ok (signed positive 0.0, c.skipDigits)
    else .error (Fault.badNumber.at c.eat)

/-- Reads the places behind a point, from the point on. -/
def places (positive : Bool) (n : Nat) (e : Int) (c : Cursor) : Scan Written :=
  let c := c.eat
  let (n, count, c) := takeDigits n 0 c.line c.column c.rest
  if count = 0 ∧ !c.atDigit then
    .error ((if c.peek.isSome then Fault.badNumber else Fault.endInValue).next c)
  else
    let c := c.skipDigits
    let e := e - count
    if exponentMark c then exponent positive n e c else floatOf positive n e c

/-- Reads what is behind the digits before the point. -/
def afterDigits (positive : Bool) (n : Nat) (c : Cursor) : Scan Written :=
  let digits := c.rest.takeWhile Cursor.digit
  if digits.isEmpty then
    if c.peek == some 0x2E then places positive n 0 c
    else if exponentMark c then exponent positive n 0 c
    else if positive then .ok (.int n, c)
    else if n = 0 ∨ UInt64.size / 2 < n then .ok (signed false (UInt64.ofNat n).toFloat, c)
    else .ok (.int (-n), c)
  else
    let c := c.skipDigits
    let e : Int := digits.length
    if c.peek == some 0x2E then places positive n e c
    else if exponentMark c then exponent positive n e c
    else floatOf positive n e c

/-- Reads a number behind its sign. -/
def number (positive : Bool) (c : Cursor) : Scan Written :=
  match c.peek with
  | none => .error (Fault.endInValue.at c)
  | some b =>
    if b == 0x30 then
      if c.eat.atDigit then .error (Fault.badNumber.next c.eat) else afterDigits positive 0 c.eat
    else if Cursor.digit b then
      let (n, _, c) := takeDigits 0 0 c.line c.column c.rest
      afterDigits positive n c
    else .error (Fault.badNumber.at c.eat)

def Written.describe : Written → String
  | .int i => "integer " ++ tick (toString i)
  | .float f => "floating point " ++ tick (Number.compact f)

/-- What value is at the cursor, of which lists and objects are not read. -/
def found (c : Cursor) : Scan String :=
  match c.peek with
  | none => .error (Fault.expectedValue.next c)
  | some b =>
    if b == 0x6E then (word wordNull c.eat).map fun c => ("null", c)
    else if b == 0x74 then (word wordTrue c.eat).map fun c => ("boolean " ++ tick "true", c)
    else if b == 0x66 then (word wordFalse c.eat).map fun c => ("boolean " ++ tick "false", c)
    else if b == 0x2D then (number false c.eat).map fun p => (p.1.describe, p.2)
    else if Cursor.digit b then (number true c).map fun p => (p.1.describe, p.2)
    else if b == 0x22 then (string c).map fun p => ("string " ++ quoted p.1, p.2)
    else if b == 0x5B then .ok ("sequence", c)
    else if b == 0x7B then .ok ("map", c)
    else .error (Fault.expectedValue.next c)

/-- The report that the value at the cursor should have been another one. -/
def mistyped (expected : String) (c : Cursor) : Located :=
  match found c with
  | .ok (what, c) => (Fault.wrongType what expected).at c
  | .error e => e

end ReplicatedTable.Json
