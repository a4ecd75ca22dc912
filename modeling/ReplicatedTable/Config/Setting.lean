import ReplicatedTable.Config.NodeConfig
import ReplicatedTable.Number.Read
import ReplicatedTable.Number.Written

/-!
# Values of settings

The values that settings are given outside of the program. They are less strict than the settings: a number
or a flag can stand for a text, and a text for a number or a flag. A value can also be given for a place
inside of a setting, such as one item of a list.
-/
namespace ReplicatedTable.Config

/-- A value of a setting. A place in a list that nothing was put at is `missing`. -/
inductive Setting where
  | missing
  | text (s : String)
  | int (i : Int)
  | float (f : Float)
  | flag (b : Bool)
  | list (items : List Setting)
  | table

/-- A step into a setting: to a field of a table, or to an item of a list, from its end if negative. -/
inductive Step where
  | field (name : String)
  | item (i : Int)
  deriving DecidableEq, Repr

/-- The place of a value: the name of a setting, and the way into it. -/
structure Place where
  name : String
  way : List Step := []
  deriving DecidableEq, Repr

namespace Setting

/-- The small letters of ASCII. -/
def small (s : String) : String := s.map Char.toLower

/-- The flag that a word stands for. -/
def word? (s : String) : Option Bool :=
  match small s with
  | "true" | "on" | "yes" => some true
  | "false" | "off" | "no" => some false
  | _ => none

def text? : Setting → Option String
  | .text s => some s
  | .int i => some (toString i)
  | .float f => some (Number.positional f)
  | .flag b => some (if b then "true" else "false")
  | .missing | .list _ | .table => none

def flag? : Setting → Option Bool
  | .text "1" => some true
  | .text "0" => some false
  | .text s => word? s
  | .int i => some (i != 0)
  | .float f => some (f != 0.0)
  | .flag b => some b
  | .missing | .list _ | .table => none

/-- A float is rounded, and cut off at the ends of 64 bits. -/
def count? : Setting → Option Nat
  | .text s =>
    match word? s with
    | some b => some b.toNat
    | none => Number.readNat64? s
  | .int (.ofNat n) => some n
  | .int (.negSucc _) => none
  | .float f => some f.round.toUInt64.toNat
  | .flag b => some b.toNat
  | .missing | .list _ | .table => none

def texts? : Setting → Option (List String)
  | .list items => items.mapM text?
  | _ => none

def readers : NodeConfig.Readers Setting where
  text? := text?
  flag? := flag?
  count? := count?
  texts? := texts?

/-- A list with an item at an index, and where in the list that item is. The list grows at its end, or at its
front for a negative index. -/
def reach (items : List Setting) : Int → List Setting × Nat
  | .ofNat i => (items ++ List.replicate (i + 1 - items.length) missing, i)
  | .negSucc i =>
    if i < items.length then (items, items.length - (i + 1))
    else (List.replicate (i + 1 - items.length) missing ++ items, 0)

/-- Puts a value at the end of a way, and makes lists and tables of what is on it. -/
def put (v : Setting) : (way : List Step) → (old : Setting) → Setting
  | [], _ => v
  | .field _ :: _, _ => .table
  | .item i :: way, old =>
    let (items, i) := reach (match old with
      | .list items => items
      | _ => []) i
    .list (items.set i (put v way (items.getD i .missing)))

end Setting

namespace Place

def nameChar (c : Char) : Bool := c.isAlphanum || c == '_' || c == '-'

/-- A name at the front. -/
def name? (cs : List Char) : Option (String × List Char) :=
  let front := cs.takeWhile nameChar
  if front.isEmpty then none else some (String.ofList front, cs.dropWhile nameChar)

/-- An index behind its bracket, up to the closing one. Blanks may stand around it. -/
def index? (cs : List Char) : Option (Int × List Char) :=
  let blank := fun c : Char => c = ' ' ∨ c = '\t'
  let cs := cs.dropWhile blank
  let (sign, cs) := match cs with
    | '-' :: r => (['-'], r)
    | cs => ([], cs)
  let digits := cs.takeWhile Char.isDigit
  match (cs.dropWhile Char.isDigit).dropWhile blank with
  | ']' :: r => (Number.readInt64? (String.ofList (sign ++ digits))).map (·, r)
  | _ => none

/-- The steps behind a name: points with names, and indices in brackets. -/
def way? : (fuel : Nat) → List Char → Option (List Step)
  | _, [] => some []
  | 0, _ => none
  | fuel + 1, '.' :: r => (name? r).bind fun (s, r) => (way? fuel r).map (.field s :: ·)
  | fuel + 1, '[' :: r => (index? r).bind fun (i, r) => (way? fuel r).map (.item i :: ·)
  | _, _ => none

/-- The place that a key names. A key that is not written as one is a name as a whole. -/
def ofKey (key : String) : Place :=
  let place? := (name? key.toList).bind fun (s, r) => (way? r.length r).map (⟨s, ·⟩)
  place?.getD ⟨key, []⟩

end Place

/-- Settings by name; of several with one name the first counts. -/
abbrev Settings := List (String × Setting)

/-- Puts a value at the place that a key names. -/
def Settings.put (settings : Settings) (key : String) (v : Setting) : Settings :=
  let place := Place.ofKey key
  (place.name, v.put place.way ((settings.lookup place.name).getD .missing)) :: settings

end ReplicatedTable.Config
