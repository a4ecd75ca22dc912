import ReplicatedTable.Json.Fault
import ReplicatedTable.Number.Written
import ReplicatedTable.Text.Percent
import ReplicatedTable.Text.Span

/-!
# Scanning JSON texts

Reads strings, numbers and words from a cursor, passes over values that nobody asked for, and names the
value at a cursor that has the wrong type.
-/
namespace ReplicatedTable.Json
open Text

/-- What is read and where the reading goes on. -/
abbrev Scan (α : Type) := Except Located (α × Cursor)

/-- The four hexadecimal digits of an escape. -/
def hex4 (c : Cursor) : Scan Nat :=
  match c.rest with
  | h₁ :: h₂ :: h₃ :: h₄ :: _ =>
    let c := c.eatMany 4
    match hexValue? h₁, hexValue? h₂, hexValue? h₃, hexValue? h₄ with
    | some a, some b, some d, some e =>
      .ok (((a.toNat * 16 + b.toNat) * 16 + d.toNat) * 16 + e.toNat, c)
    | _, _, _, _ => .error (Fault.badEscape.at c)
  | rest => .error (Fault.endInString.at (c.eatMany rest.length))

/-- The byte that has to come next in an escape. -/
def inEscape (b : UInt8) (c : Cursor) : Except Located Cursor :=
  match c.peek with
  | none => .error (Fault.endInString.at c)
  | some a => if a == b then .ok c.eat else .error (Fault.endOfHexEscape.at c.eat)

/-- The character behind `\u`; one beyond the first plane takes two escapes. -/
def unicodeEscape (c : Cursor) : Except Located (Char × Cursor) := do
  let (n, c) ← hex4 c
  if 0xDC00 ≤ n ∧ n ≤ 0xDFFF then .error (Fault.loneSurrogate.at c)
  else if n < 0xD800 ∨ 0xDBFF < n then .ok (Char.ofNat n, c)
  else
    let c ← inEscape 0x5C c
    let c ← inEscape 0x75 c
    let (n', c) ← hex4 c
    if n' < 0xDC00 ∨ 0xDFFF < n' then .error (Fault.loneSurrogate.at c)
    else .ok (Char.ofNat ((n - 0xD800) * 0x400 + (n' - 0xDC00) + 0x10000), c)

/-- The byte that a one-letter escape stands for. -/
def shortEscape? (b : UInt8) : Option UInt8 :=
  if b == 0x22 || b == 0x5C || b == 0x2F then some b
  else if b == 0x62 then some 0x08
  else if b == 0x66 then some 0x0C
  else if b == 0x6E then some 0x0A
  else if b == 0x72 then some 0x0D
  else if b == 0x74 then some 0x09
  else none

/-- The bytes of what is behind a backslash. -/
def escape (c : Cursor) : Scan (List UInt8) :=
  match c.peek with
  | none => .error (Fault.endInString.at c)
  | some b =>
    let c := c.eat
    if b == 0x75 then (unicodeEscape c).map fun (ch, c) => (utf8 (String.singleton ch), c)
    else
      match shortEscape? b with
      | some b => .ok ([b], c)
      | none => .error (Fault.badEscape.at c)

/-- The bytes of a string behind its quotation mark; `read` holds those read so far, the last one first. -/
def stringTail : (fuel : Nat) → (read : List UInt8) → Cursor → Scan (List UInt8)
  | 0, _, c => .error (Fault.endInString.at c)
  | fuel + 1, read, c =>
    match c.peek with
    | none => .error (Fault.endInString.at c)
    | some b =>
      if b == 0x22 then .ok (read.reverse, c.eat)
      else if b == 0x5C then
        match escape c.eat with
        | .ok (bytes, c) => stringTail fuel (bytes.reverse ++ read) c
        | .error e => .error e
      else if b < 0x20 then .error (Fault.control.at c.eat)
      else stringTail fuel (b :: read) c.eat

/-- The report that a string is no text, at the first byte between two cursors that is part of none. -/
def noText (start finish : Cursor) : Located :=
  let bytes := start.rest.take (start.rest.length - finish.rest.length)
  let valid := match utf8Fault? 0 bytes with
    | some fault => fault.validUpTo
    | none => bytes.length
  Fault.badText.at (start.eatMany (valid + 1))

/-- Reads a string from its opening quotation mark on. -/
def string (c : Cursor) : Scan String :=
  match stringTail (c.rest.length + 1) [] c.eat with
  | .error e => .error e
  | .ok (bytes, behind) =>
    match ofUtf8? bytes with
    | some s => .ok (s, behind)
    | none => .error (noText c.eat behind)

/-- Passes over a string behind its quotation mark. -/
def skipStringTail : (fuel : Nat) → Cursor → Except Located Cursor
  | 0, c => .error (Fault.endInString.at c)
  | fuel + 1, c =>
    match c.peek with
    | none => .error (Fault.endInString.at c)
    | some b =>
      if b == 0x22 then .ok c.eat
      else if b == 0x5C then
        let c := c.eat
        match c.peek with
        | none => .error (Fault.endInString.at c)
        | some e =>
          let c := c.eat
          if e == 0x75 then
            match hex4 c with
            | .ok (_, c) => skipStringTail fuel c
            | .error e => .error e
          else if (shortEscape? e).isSome then skipStringTail fuel c
          else .error (Fault.badEscape.at c)
      else if b < 0x20 then .error (Fault.control.at c)
      else skipStringTail fuel c.eat

/-- Passes over a string from its opening quotation mark on. -/
def skipString (c : Cursor) : Except Located Cursor := skipStringTail (c.rest.length + 1) c.eat

/-- The rest of a word whose first letter is known. -/
def word : List UInt8 → Cursor → Except Located Cursor
  | [], c => .ok c
  | b :: r, c =>
    match c.peek with
    | none => .error (Fault.endInValue.at c)
    | some a => if a == b then word r c.eat else .error (Fault.expectedIdent.at c.eat)

def wordNull : List UInt8 := utf8 "ull"

def wordTrue : List UInt8 := utf8 "rue"

def wordFalse : List UInt8 := utf8 "alse"

def exponentMark (c : Cursor) : Bool := c.peek == some 0x65 || c.peek == some 0x45

/-- Passes over the digits of an exponent from its letter on. -/
def skipExponent (c : Cursor) : Except Located Cursor :=
  let c := c.eat
  let c := if c.peek == some 0x2B || c.peek == some 0x2D then c.eat else c
  if c.atDigit then .ok c.skipDigits else .error (Fault.badNumber.at c.eat)

/-- Passes over a number behind its sign. -/
def skipNumber (c : Cursor) : Except Located Cursor := do
  let c ←
    match c.peek with
    | some 0x30 => if c.eat.atDigit then .error (Fault.badNumber.next c.eat) else .ok c.eat
    | _ => if c.atDigit then .ok c.skipDigits else .error (Fault.badNumber.at c.eat)
  if c.peek == some 0x2E then
    let c := c.eat
    if c.atDigit then
      let c := c.skipDigits
      if exponentMark c then skipExponent c else .ok c
    else .error (Fault.badNumber.next c)
  else if exponentMark c then skipExponent c
  else .ok c

/-- Passes over the value at the cursor, whatever it is. `enclosing` tells of each list and object around
it, the innermost first, whether it is an object. -/
def skipNested : (fuel : Nat) → (enclosing : List Bool) → Cursor → Except Located Cursor
  | 0, _, c => .error (Fault.endInValue.at c)
  | fuel + 1, enclosing, c =>
    let c := c.skipBlanks
    match c.peek with
    | none => .error (Fault.endInValue.next c)
    | some b =>
      if b == 0x6E then (word wordNull c.eat).bind (after fuel true enclosing)
      else if b == 0x74 then (word wordTrue c.eat).bind (after fuel true enclosing)
      else if b == 0x66 then (word wordFalse c.eat).bind (after fuel true enclosing)
      else if b == 0x2D then (skipNumber c.eat).bind (after fuel true enclosing)
      else if Cursor.digit b then (skipNumber c).bind (after fuel true enclosing)
      else if b == 0x22 then (skipString c).bind (after fuel true enclosing)
      else if b == 0x5B then after fuel false (false :: enclosing) c.eat
      else if b == 0x7B then after fuel false (true :: enclosing) c.eat
      else .error (Fault.expectedValue.next c)
where
  /-- Behind a value, or, if `comma` is false, behind an opening bracket. -/
  after (fuel : Nat) (comma : Bool) (enclosing : List Bool) (c : Cursor) : Except Located Cursor :=
    match fuel, enclosing with
    | _, [] => .ok c
    | 0, _ => .error (Fault.endInValue.at c)
    | fuel + 1, object :: outer =>
      let c := c.skipBlanks
      match c.peek with
      | none => .error ((if object then Fault.endInObject else Fault.endInList).next c)
      | some b =>
        if b == 0x2C && comma then inside fuel object outer c.eat
        else if b == (if object then 0x7D else 0x5D) then after fuel true outer c.eat
        else if comma then
          .error ((if object then Fault.expectedObjectEnd else Fault.expectedListEnd).next c)
        else inside fuel object outer c
  /-- At a value in a list, or at a key in an object. -/
  inside (fuel : Nat) (object : Bool) (outer : List Bool) (c : Cursor) : Except Located Cursor :=
    match fuel with
    | 0 => .error (Fault.endInValue.at c)
    | fuel + 1 =>
      if object then do
        let c := c.skipBlanks
        match c.peek with
        | none => .error (Fault.endInObject.next c)
        | some b =>
          if b == 0x22 then
            let c ← skipString c
            let c := c.skipBlanks
            match c.peek with
            | none => .error (Fault.endInObject.next c)
            | some b =>
              if b == 0x3A then skipNested fuel (object :: outer) c.eat
              else .error (Fault.expectedColon.next c)
          else .error (Fault.keyNoString.next c)
      else skipNested fuel (object :: outer) c

/-- Passes over the value at the cursor. -/
def skipValue (c : Cursor) : Except Located Cursor := skipNested (4 * c.rest.length + 4) [] c

end ReplicatedTable.Json
