import ReplicatedTable.Number.Shortest

/-!
# Written floats

Two ways to write a float by its shortest digits: with all its places, and in a compact form that takes an
exponent for very large and very small numbers and always shows that the number is no integer.
-/
namespace ReplicatedTable.Number

def sign (f : Float) : String := if UInt64.size / 2 ≤ f.toBits.toNat then "-" else ""

/-- Zeros and digits for a number below one, or digits with a point in them. -/
def placed (digits : String) (point : Int) : String :=
  match point with
  | .negSucc k => "0." ++ String.ofList (List.replicate (k + 1) '0') ++ digits
  | .ofNat 0 => "0." ++ digits
  | .ofNat k =>
    if k < digits.length then
      String.ofList (digits.toList.take k) ++ "." ++ String.ofList (digits.toList.drop k)
    else digits ++ String.ofList (List.replicate (k - digits.length) '0')

/-- All places, and no point for an integer. -/
def positional (f : Float) : String :=
  if f.isNaN then "NaN"
  else if f.isInf then sign f ++ "inf"
  else
    let d := shortest f.toBits
    let digits := toString d.coefficient
    if d.coefficient = 0 then sign f ++ "0"
    else sign f ++ placed digits (digits.length + d.exponent)

/-- An exponent with its sign from `1e+16` on and below `1e-5`; an integer ends in `.0`. -/
def compact (f : Float) : String :=
  let d := shortest f.toBits
  let digits := toString d.coefficient
  let point : Int := digits.length + d.exponent
  if d.coefficient = 0 then sign f ++ "0.0"
  else if 0 ≤ d.exponent ∧ point ≤ 16 then sign f ++ placed digits point ++ ".0"
  else if -5 < point ∧ point ≤ 16 then sign f ++ placed digits point
  else
    let mantissa :=
      if digits.length = 1 then digits
      else String.ofList (digits.toList.take 1) ++ "." ++ String.ofList (digits.toList.drop 1)
    sign f ++ mantissa ++ (if point < 1 then "e" else "e+") ++ toString (point - 1)

end ReplicatedTable.Number
