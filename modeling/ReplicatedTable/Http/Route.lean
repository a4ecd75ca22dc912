import ReplicatedTable.Text.Percent

/-!
# Routes

The paths that the server knows. A path is split at the slashes; names in it are decoded once. Only the
last segment must not be empty.
-/
namespace ReplicatedTable.Http
open Text

/-- mirrors the routes that `create_router` adds -/
inductive Route where
  | row (table row : String)
  | cell (table row column : String)
  | join
  | health
  | members
  deriving DecidableEq, Repr

/-- What a path leads to: a route, the first name of a route that is no text, or nothing. -/
inductive Target where
  | route (r : Route)
  | badName (name : String) (ofCell : Bool)
  | unknown
  deriving DecidableEq, Repr

/-- The parts of a path between the slashes. -/
def segments : List UInt8 → List (List UInt8)
  | [] => [[]]
  | b :: r =>
    match segments r with
    | [] => [[b]]
    | s :: ss => if b == 0x2F then [] :: s :: ss else (b :: s) :: ss

/-- A segment as a name. -/
def name? (segment : List UInt8) : Option String := ofUtf8? (percentDecode segment)

/-- The target of a path that starts with a slash and has these segments behind it. -/
def targetOf (parts : List (List UInt8)) : Target :=
  if parts = [utf8 "join"] then .route .join
  else if parts = [utf8 "health"] then .route .health
  else if parts = [utf8 "members"] then .route .members
  else
    match parts with
    | [key, table, row] =>
      if key ≠ utf8 "key" ∨ row = [] then .unknown
      else
        match name? table, name? row with
        | some table, some row => .route (.row table row)
        | none, _ => .badName "table" false
        | some _, none => .badName "row" false
    | [key, table, row, column] =>
      if key ≠ utf8 "key" ∨ column = [] then .unknown
      else
        match name? table, name? row, name? column with
        | some table, some row, some column => .route (.cell table row column)
        | none, _, _ => .badName "table" true
        | some _, none, _ => .badName "row" true
        | some _, some _, none => .badName "column" true
    | _ => .unknown

/-- The target of a path. -/
def target (path : String) : Target :=
  match segments (utf8 path) with
  | [] :: parts => targetOf parts
  | _ => .unknown

end ReplicatedTable.Http
