import ReplicatedTable.Config.TomlScan

/-!
# TOML documents

Reads a document as a tree of tables. A key is set once, a table is opened once, and neither a value nor an
inline table can be extended; a document that breaks these rules is refused.
-/
namespace ReplicatedTable.Config.Toml

inductive Value where
  | str (s : String)
  | int (i : Int)
  | float (f : Float)
  | bool (b : Bool)
  | moment (s : String)
  | arr (items : List Value)
  | table

/-- How a table came to be: on the way to another one, by its own header, or by a key with points. -/
inductive Origin where
  | passing
  | header
  | dotted
  deriving DecidableEq

inductive Node where
  | leaf (v : Value)
  | table (origin : Origin) (entries : List (String × Node))
  | tables (all : List (List (String × Node)))

abbrev Entries := List (String × Node)

/-- The entries with one of them set. -/
def set (entries : Entries) (k : String) (n : Node) : Entries :=
  if entries.any (·.1 == k) then entries.map fun p => if p.1 == k then (k, n) else p
  else entries ++ [(k, n)]

/-- Changes the table at a path, which is told where the table came from, and makes the tables that are
missing. A key with points must not lead into a table with a header of its own. -/
def within (f : Origin → Entries → Option Entries) :
    List (String × Origin) → (here : Origin) → Entries → Option Entries
  | [], here, entries => f here entries
  | (k, origin) :: path, _, entries =>
    match entries.lookup k with
    | none => (within f path origin []).map fun es => set entries k (.table origin es)
    | some (.table old es) =>
      if origin = .dotted ∧ old = .header then none
      else (within f path old es).map fun es => set entries k (.table old es)
    | some (.tables all) =>
      match all.reverse with
      | [] => none
      | last :: earlier =>
        (within f path .header last).map fun es => set entries k (.tables (earlier.reverse ++ [es]))
    | some (.leaf _) => none

/-- The last part of a key, and the way to it. -/
def splitLast (parts : List String) : List String × String :=
  (parts.dropLast, parts.getLast?.getD "")

/-- Sets the value of a key in the table at a path. A key with points has to end in a table that came to be
by such keys. -/
def assign (current : List String) (parts : List String) (v : Value) : Entries → Option Entries :=
  let (way, k) := splitLast parts
  within (fun origin es =>
      if (!way.isEmpty && origin ≠ .dotted) || es.any (·.1 == k) then none
      else some (es ++ [(k, .leaf v)]))
    (current.map (·, .passing) ++ way.map (·, .dotted)) .header

/-- Opens a table by its header. -/
def openTable (parts : List String) : Entries → Option Entries :=
  let (way, k) := splitLast parts
  within (fun _ es =>
    match es.lookup k with
    | none => some (es ++ [(k, .table .header [])])
    | some (.table .passing inner) => some (set es k (.table .header inner))
    | some _ => none) (way.map (·, .passing)) .header

/-- Opens one more table of an array of tables. -/
def addTable (parts : List String) : Entries → Option Entries :=
  let (way, k) := splitLast parts
  within (fun _ es =>
    match es.lookup k with
    | none => some (es ++ [(k, .tables [[]])])
    | some (.tables all) => some (set es k (.tables (all ++ [[]])))
    | some _ => none) (way.map (·, .passing)) .header

/-- The characters of a value that is no string, list or table. A date takes a time behind a blank. -/
def scalarToken (cs : List Char) : List Char × List Char :=
  let plain := fun c : Char => bareChar c || c == '+' || c == '.' || c == ':'
  let front := cs.takeWhile plain
  let rest := cs.drop front.length
  match date? front, rest with
  | some (_, []), ' ' :: r =>
    if (r.head?).any Char.isDigit then
      let more := r.takeWhile plain
      (front ++ ' ' :: more, r.drop more.length)
    else (front, rest)
  | _, _ => (front, rest)

def scalar? (s : String) : Option Value :=
  if s = "true" then some (.bool true)
  else if s = "false" then some (.bool false)
  else
    match int? s, float? s, moment? s with
    | some i, _, _ => some (.int i)
    | none, some f, _ => some (.float f)
    | none, none, some m => some (.moment m)
    | none, none, none => none

/-- A value; `depth` tells how many lists and inline tables may still be opened. -/
def value : (fuel depth : Nat) → List Char → Option (Value × List Char)
  | 0, _, _ => none
  | fuel + 1, depth, cs =>
    match cs, depth with
    | '"' :: _, _ | '\'' :: _, _ => (string? cs).map fun (s, r) => (.str s, r)
    | '[' :: r, depth + 1 => items fuel depth [] r
    | '\x7b' :: r, depth + 1 => fields fuel depth [] r
    | _, _ =>
      let (token, r) := scalarToken cs
      (scalar? (String.ofList token)).map fun v => (v, r)
where
  /-- The items of a list up to its end; `read` are those before, the last one first. -/
  items (fuel depth : Nat) (read : List Value) (cs : List Char) : Option (Value × List Char) :=
    match fuel with
    | 0 => none
    | fuel + 1 =>
      match skipLines (cs.length + 1) cs with
      | ']' :: r => some (.arr read.reverse, r)
      | cs =>
        match value fuel depth cs with
        | none => none
        | some (v, r) =>
          match skipLines (r.length + 1) r with
          | ',' :: r => items fuel depth (v :: read) r
          | ']' :: r => some (.arr (v :: read).reverse, r)
          | _ => none
  /-- The fields of an inline table up to its end. -/
  fields (fuel depth : Nat) (entries : Entries) (cs : List Char) : Option (Value × List Char) :=
    match fuel with
    | 0 => none
    | fuel + 1 =>
      match skipLines (cs.length + 1) cs with
      | '\x7d' :: r => some (.table, r)
      | cs =>
        match key cs with
        | some (parts, '=' :: r) =>
          match value fuel depth (skipBlanks r) with
          | none => none
          | some (v, r) =>
            match assign [] parts v entries with
            | none => none
            | some entries =>
              match skipLines (r.length + 1) r with
              | ',' :: r => fields fuel depth entries r
              | '\x7d' :: r => some (.table, r)
              | _ => none
        | _ => none

/-- The lines of a document; `current` is the path of the open table. -/
def lines : (fuel : Nat) → (current : List String) → Entries → List Char → Option Entries
  | 0, _, _, _ => none
  | fuel + 1, current, entries, cs =>
    match skipLines (cs.length + 1) cs with
    | [] => some entries
    | '[' :: '[' :: r =>
      match key r with
      | some (parts, ']' :: ']' :: r) => do
        let r ← endOfLine r
        lines fuel parts (← addTable parts entries) r
      | _ => none
    | '[' :: r =>
      match key r with
      | some (parts, ']' :: r) => do
        let r ← endOfLine r
        lines fuel parts (← openTable parts entries) r
      | _ => none
    | cs =>
      match key cs with
      | some (parts, '=' :: r) => do
        let (v, r) ← value (2 * r.length + 2) deepest (skipBlanks r)
        let r ← endOfLine r
        lines fuel current (← assign current parts v entries) r
      | _ => none

/-- Reads a document. -/
def parse? (s : String) : Option Entries :=
  let cs := match s.toList with
    | '\uFEFF' :: r => r
    | cs => cs
  lines (cs.length + 1) [] [] cs

end ReplicatedTable.Config.Toml
