/-!
# The shortest decimal of a float

A positive float is `m * 2 ^ q`; the reals that round to it form an interval, whose ends belong to it if
`m` is even. Of the decimals in the interval this picks one with the fewest digits, and of those with the
same number of digits the nearest.
-/
namespace ReplicatedTable.Number

/-- The number `coefficient * 10 ^ exponent`. -/
structure Decimal where
  coefficient : Nat
  exponent : Int
  deriving DecidableEq, Repr

/-- A fraction of natural numbers, scaled by a power of two. -/
def scaleTwo (n : Nat) (q : Int) : Nat × Nat :=
  match q with
  | .ofNat k => (n * Nat.pow 2 k, 1)
  | .negSucc k => (n, Nat.pow 2 (k + 1))

/-- The coefficient at `10 ^ k` nearest to a float among those that round to it. The float is
`4 * m * 2 ^ q`, and `below` is 1 if the next smaller float is nearer than the next larger one, else 2. -/
def onGrid? (m : Nat) (q : Int) (below : Nat) (k : Int) : Option Nat :=
  let up := match k with
    | .ofNat k => Nat.pow 10 k
    | .negSucc _ => 1
  let down := match k with
    | .ofNat _ => 1
    | .negSucc k => Nat.pow 10 (k + 1)
  -- compare `c * up / down` with `x * 2 ^ q`
  let (twos, halves) := scaleTwo 1 q
  let unit := twos * down
  let side := up * halves
  let c := 4 * m * unit / side
  let inside (c : Nat) : Bool :=
    let x := c * side
    let lo := (4 * m - below) * unit
    let hi := (4 * m + 2) * unit
    if m % 2 = 0 then lo ≤ x && x ≤ hi else lo < x && x < hi
  let error (c : Nat) : Nat := (c * side - 4 * m * unit) + (4 * m * unit - c * side)
  match inside c, inside (c + 1) with
  | true, true =>
    if error c < error (c + 1) || (error c == error (c + 1) && c % 2 = 0) then some c
    else some (c + 1)
  | true, false => some c
  | false, true => some (c + 1)
  | false, false => none

/-- The first grid from `10 ^ k` downwards on which a float has a point. -/
def firstGrid (m : Nat) (q : Int) (below : Nat) : (fuel : Nat) → (k : Int) → Decimal
  | 0, k => ⟨0, k⟩
  | fuel + 1, k =>
    match onGrid? m q below k with
    | some c => ⟨c, k⟩
    | none => firstGrid m q below fuel (k - 1)

/-- The shortest decimal of the absolute value of a finite float that is given by its bits. -/
def shortest (bits : UInt64) : Decimal :=
  let fraction := bits.toNat % Nat.pow 2 52
  let power : Nat := bits.toNat / Nat.pow 2 52 % Nat.pow 2 11
  if power = 0 ∧ fraction = 0 then ⟨0, 0⟩
  else if power = 0 then firstGrid fraction (-1076) 2 700 309
  else firstGrid (fraction + Nat.pow 2 52) (Int.ofNat power - 1077)
    (if fraction = 0 ∧ 1 < power then 1 else 2) 700 309

end ReplicatedTable.Number
