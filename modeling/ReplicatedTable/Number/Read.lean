/-!
# Reading numbers

Signed 64-bit integers and floats in decimal. A float may lack the digits before or behind its point, but
not both, and is rounded to the nearest.
-/
namespace ReplicatedTable.Number

def digitValue (c : Char) : Nat := c.toNat - '0'.toNat

def ofDigits (cs : List Char) : Nat := cs.foldl (fun n c => n * 10 + digitValue c) 0

/-- Whether there is a minus sign, and what is behind the sign. -/
def splitSign : List Char → Bool × List Char
  | '-' :: r => (true, r)
  | '+' :: r => (false, r)
  | r => (false, r)

/-- Whether a number fits into a signed 64-bit integer. -/
def isInt64 (i : Int) : Bool := -9223372036854775808 ≤ i && i < 9223372036854775808

/-- Digits behind an optional sign, if they fit into a signed 64-bit integer. -/
def readInt64? (s : String) : Option Int :=
  let (negative, cs) := splitSign s.toList
  if cs.isEmpty || !cs.all Char.isDigit then none
  else
    let i : Int := if negative then -(ofDigits cs : Int) else ofDigits cs
    if isInt64 i then some i else none

/-- Digits behind an optional plus sign, if they fit into an unsigned 64-bit integer. -/
def readNat64? (s : String) : Option Nat :=
  let cs := match s.toList with
    | '+' :: r => r
    | r => r
  if cs.isEmpty || !cs.all Char.isDigit then none
  else if ofDigits cs < UInt64.size then some (ofDigits cs)
  else none

/-- The float `n * 10 ^ e`, infinite if it is too large and zero if it is too small. -/
def scientific (n : Nat) (e : Int) : Float :=
  let point := (toString n).length + e
  if n = 0 ∨ point < -330 then 0.0
  else if 310 < point then 1.0 / 0.0
  else
    match e with
    | .ofNat k => Float.ofScientific n false k
    | .negSucc k => Float.ofScientific n true (k + 1)

/-- An exponent, zero if there is none. -/
def readExponent? : List Char → Option Int
  | [] => some 0
  | c :: r =>
    let (negative, cs) := splitSign r
    if (c = 'e' ∨ c = 'E') ∧ !cs.isEmpty ∧ cs.all Char.isDigit then
      some (if negative then -(ofDigits cs : Int) else ofDigits cs)
    else none

/-- A float without its sign. -/
def readUnsigned? (cs : List Char) : Option Float :=
  let word := (String.ofList cs).map Char.toLower
  if word = "inf" ∨ word = "infinity" then some (1.0 / 0.0)
  else if word = "nan" then some (0.0 / 0.0)
  else
    let whole := cs.takeWhile Char.isDigit
    let rest := cs.dropWhile Char.isDigit
    let (places, rest) := match rest with
      | '.' :: r => (r.takeWhile Char.isDigit, r.dropWhile Char.isDigit)
      | r => ([], r)
    if whole.isEmpty && places.isEmpty then none
    else (readExponent? rest).map fun e => scientific (ofDigits (whole ++ places)) (e - places.length)

def readFloat? (s : String) : Option Float :=
  let (negative, cs) := splitSign s.toList
  (readUnsigned? cs).map fun f => if negative then -f else f

end ReplicatedTable.Number
