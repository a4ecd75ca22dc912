/-!
# JSON values

Values with exact numbers, and the members of objects in the order in which they stand.
-/
namespace ReplicatedTable

/-- A number written with a point or an exponent is a `decimal` with the value
`mantissa / 10 ^ places`. -/
inductive Json where
  | null
  | bool (b : Bool)
  | int (i : Int)
  | decimal (mantissa : Int) (places : Nat)
  | str (s : String)
  | arr (items : List Json)
  | obj (members : List (String × Json))
  deriving Repr, Inhabited

namespace Json

def nat (n : Nat) : Json := .int n

/-- The texts of an object, none if another value occurs in it. -/
def texts? : List (String × Json) → Option (List (String × String))
  | [] => some []
  | (key, .str s) :: r => (texts? r).map ((key, s) :: ·)
  | _ => none

end Json

end ReplicatedTable
