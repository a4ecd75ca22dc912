import ReplicatedTable.Number.Read

/-!
# Scanning TOML

Blanks and comments, keys, strings, numbers and moments of a TOML document. Everything here takes the
characters that are left and gives back what is left behind what it read, or nothing if the document is
broken there.
-/
namespace ReplicatedTable.Config.Toml

def skipBlanks (cs : List Char) : List Char := cs.dropWhile fun c => c = ' ' ∨ c = '\t'

/-- Control characters other than tabs, which a document may not hold. -/
def control (c : Char) : Bool := (c.toNat < 0x20 && c != '\t') || c.toNat == 0x7F

/-- The end of a line, behind blanks and a comment. -/
def endOfLine (cs : List Char) : Option (List Char) :=
  let cs := skipBlanks cs
  let cs := match cs with
    | '#' :: r => r.dropWhile fun c => !control c
    | cs => cs
  match cs with
  | [] => some []
  | '\n' :: r => some r
  | '\r' :: '\n' :: r => some r
  | _ => none

/-- What is behind blanks, comments and ends of lines. -/
def skipLines : (fuel : Nat) → List Char → List Char
  | 0, cs => cs
  | fuel + 1, cs =>
    match skipBlanks cs with
    | [] => []
    | cs@(_ :: _) =>
      match endOfLine cs with
      | some r => skipLines fuel r
      | none => cs

def hexValue? (c : Char) : Option Nat :=
  if c.isDigit then some (c.toNat - 48)
  else if 'a' ≤ c ∧ c ≤ 'f' then some (c.toNat - 87)
  else if 'A' ≤ c ∧ c ≤ 'F' then some (c.toNat - 55)
  else none

/-- A character by so many hexadecimal digits. -/
def codePoint (count : Nat) (cs : List Char) : Option (Char × List Char) := do
  let ds ← (cs.take count).mapM hexValue?
  let n := ds.foldl (fun n d => n * 16 + d) 0
  if ds.length = count ∧ n.isValidChar then some (Char.ofNat n, cs.drop count) else none

/-- What is behind a backslash. -/
def escape : List Char → Option (Char × List Char)
  | 'b' :: r => some ('\x08', r)
  | 't' :: r => some ('\t', r)
  | 'n' :: r => some ('\n', r)
  | 'f' :: r => some ('\x0c', r)
  | 'r' :: r => some ('\r', r)
  | 'e' :: r => some ('\x1b', r)
  | '"' :: r => some ('"', r)
  | '\\' :: r => some ('\\', r)
  | 'x' :: r => codePoint 2 r
  | 'u' :: r => codePoint 4 r
  | 'U' :: r => codePoint 8 r
  | _ => none

/-- A string in quotation marks, behind the first; `read` is what was read, the last character first. -/
def basic : (fuel : Nat) → (read : List Char) → List Char → Option (String × List Char)
  | 0, _, _ => none
  | fuel + 1, read, cs =>
    match cs with
    | '"' :: r => some (String.ofList read.reverse, r)
    | '\\' :: r => (escape r).bind fun (c, r) => basic fuel (c :: read) r
    | c :: r => if control c then none else basic fuel (c :: read) r
    | [] => none

/-- A string between apostrophes, behind the first. -/
def literal : (fuel : Nat) → (read : List Char) → List Char → Option (String × List Char)
  | 0, _, _ => none
  | fuel + 1, read, cs =>
    match cs with
    | '\'' :: r => some (String.ofList read.reverse, r)
    | c :: r => if control c then none else literal fuel (c :: read) r
    | [] => none

/-- What is behind blanks and ends of lines. -/
def skipSpace : List Char → List Char
  | ' ' :: r | '\t' :: r | '\n' :: r | '\r' :: '\n' :: r => skipSpace r
  | cs => cs

/-- The end of a long string at three marks or more: up to two marks before the closing three belong to
it. -/
def closing? (mark : Char) (cs : List Char) : Option (Nat × List Char) :=
  let n := ((cs.takeWhile (· = mark)).take 5).length
  if 3 ≤ n then some (n - 3, cs.drop n) else none

/-- A string of several lines with escapes, behind its opening marks. -/
def longBasic : (fuel : Nat) → (read : List Char) → List Char → Option (String × List Char)
  | 0, _, _ => none
  | fuel + 1, read, cs =>
    match closing? '"' cs with
    | some (n, r) => some (String.ofList (read.reverse ++ List.replicate n '"'), r)
    | none =>
      match cs with
      | '\\' :: r =>
        match escape r with
        | some (c, r) => longBasic fuel (c :: read) r
        | none =>
          match skipBlanks r with
          | '\n' :: r => longBasic fuel read (skipSpace r)
          | '\r' :: '\n' :: r => longBasic fuel read (skipSpace r)
          | _ => none
      | '\r' :: '\n' :: r => longBasic fuel ('\n' :: '\r' :: read) r
      | '\n' :: r => longBasic fuel ('\n' :: read) r
      | c :: r => if control c then none else longBasic fuel (c :: read) r
      | [] => none

/-- A string of several lines without escapes, behind its opening marks. -/
def longLiteral : (fuel : Nat) → (read : List Char) → List Char → Option (String × List Char)
  | 0, _, _ => none
  | fuel + 1, read, cs =>
    match closing? '\'' cs with
    | some (n, r) => some (String.ofList (read.reverse ++ List.replicate n '\''), r)
    | none =>
      match cs with
      | '\r' :: '\n' :: r => longLiteral fuel ('\n' :: '\r' :: read) r
      | '\n' :: r => longLiteral fuel ('\n' :: read) r
      | c :: r => if control c then none else longLiteral fuel (c :: read) r
      | [] => none

/-- A first line that is empty does not count. -/
def skipFirstLine : List Char → List Char
  | '\n' :: r => r
  | '\r' :: '\n' :: r => r
  | cs => cs

/-- A string of any sort. -/
def string? (cs : List Char) : Option (String × List Char) :=
  let fuel := cs.length + 1
  match cs with
  | '"' :: '"' :: '"' :: r => longBasic fuel [] (skipFirstLine r)
  | '"' :: r => basic fuel [] r
  | '\'' :: '\'' :: '\'' :: r => longLiteral fuel [] (skipFirstLine r)
  | '\'' :: r => literal fuel [] r
  | _ => none

def bareChar (c : Char) : Bool := c.isAlphanum || c == '_' || c == '-'

/-- One part of a key. -/
def keyPart (cs : List Char) : Option (String × List Char) :=
  match cs with
  | '"' :: r => basic (cs.length + 1) [] r
  | '\'' :: r => literal (cs.length + 1) [] r
  | _ =>
    let front := cs.takeWhile bareChar
    if front.isEmpty then none else some (String.ofList front, cs.drop front.length)

/-- The parts of a key between points. -/
def keyParts : (fuel : Nat) → List Char → Option (List String × List Char)
  | 0, _ => none
  | fuel + 1, cs =>
    match keyPart (skipBlanks cs) with
    | none => none
    | some (part, r) =>
      match skipBlanks r with
      | '.' :: r => (keyParts fuel r).map fun (parts, r) => (part :: parts, r)
      | r => some ([part], r)

/-- How many parts a key can have, and how many lists and inline tables can lie in one another. -/
def deepest : Nat := 80

/-- A key, by its parts. -/
def key (cs : List Char) : Option (List String × List Char) :=
  (keyParts (cs.length + 1) cs).filter fun p => p.1.length ≤ deepest

/-- Digits in which every underscore stands between two digits, without the underscores. -/
def grouped? (digit : Char → Bool) (cs : List Char) : Option (List Char) :=
  let ds := cs.filter (· ≠ '_')
  let ok := match cs.head?, cs.getLast? with
    | some a, some b => a ≠ '_' && b ≠ '_'
    | _, _ => false
  let double := (cs.zip (cs.drop 1)).any fun p => p.1 == '_' && p.2 == '_'
  if ok && !double && ds.all digit then some ds else none

def inInt64 (i : Int) : Option Int := if Number.isInt64 i then some i else none

/-- A number in another base than ten. -/
def based? (base : Nat) (digit : Char → Bool) (cs : List Char) : Option Int :=
  (grouped? digit cs).bind fun ds =>
    inInt64 ((ds.filterMap hexValue?).foldl (fun n d => n * base + d) 0 : Nat)

/-- The digits before a point: no zero in front of other digits. -/
def whole? (cs : List Char) : Option (List Char) :=
  (grouped? Char.isDigit cs).bind fun ds =>
    if ds.head? = some '0' ∧ 1 < ds.length then none else some ds

/-- An integer. -/
def int? (s : String) : Option Int :=
  match s.toList with
  | '0' :: 'x' :: r => based? 16 (fun c => (hexValue? c).isSome) r
  | '0' :: 'o' :: r => based? 8 (fun c => '0' ≤ c ∧ c ≤ '7') r
  | '0' :: 'b' :: r => based? 2 (fun c => c = '0' ∨ c = '1') r
  | cs =>
    let (negative, cs) := Number.splitSign cs
    (whole? cs).bind fun ds =>
      inInt64 (if negative then -(Number.ofDigits ds : Int) else Number.ofDigits ds)

/-- A float: digits, then places or an exponent or both. It must not be too large. -/
def float? (s : String) : Option Float :=
  let (negative, cs) := Number.splitSign s.toList
  let value : Option Float :=
    if cs = ['i', 'n', 'f'] ∨ cs = ['n', 'a', 'n'] then Number.readUnsigned? cs
    else do
      let plain := fun c : Char => c ≠ '.' ∧ c ≠ 'e' ∧ c ≠ 'E'
      let ds ← whole? (cs.takeWhile plain)
      let rest := cs.dropWhile plain
      let (places, rest) ← match rest with
        | '.' :: r =>
          (grouped? Char.isDigit (r.takeWhile plain)).map fun ps => ('.' :: ps, r.dropWhile plain)
        | r => some ([], r)
      let power ← match rest with
        | [] => some []
        | e :: r =>
          let (down, r) := Number.splitSign r
          if e = '.' then none
          else (grouped? Char.isDigit r).map fun ps => ['e'] ++ (if down then ['-'] else []) ++ ps
      if places.isEmpty && power.isEmpty then none
      else (Number.readUnsigned? (ds ++ places ++ power)).filter Float.isFinite
  value.map fun f => if negative then -f else f

def twoDigits (a b : Char) (most : Nat) : Bool :=
  a.isDigit && b.isDigit && Number.ofDigits [a, b] ≤ most

def leapYear (y : Nat) : Bool := (y % 4 == 0 && y % 100 != 0) || y % 400 == 0

def daysOf (y m : Nat) : Nat :=
  if m = 2 then (if leapYear y then 29 else 28)
  else if m = 4 ∨ m = 6 ∨ m = 9 ∨ m = 11 then 30
  else 31

/-- A date at the front. -/
def date? : List Char → Option (List Char × List Char)
  | y₁ :: y₂ :: y₃ :: y₄ :: '-' :: m₁ :: m₂ :: '-' :: d₁ :: d₂ :: r =>
    let y := Number.ofDigits [y₁, y₂, y₃, y₄]
    let m := Number.ofDigits [m₁, m₂]
    let d := Number.ofDigits [d₁, d₂]
    if [y₁, y₂, y₃, y₄, m₁, m₂, d₁, d₂].all Char.isDigit && 1 ≤ m && m ≤ 12 && 1 ≤ d && d ≤ daysOf y m
    then some ([y₁, y₂, y₃, y₄, '-', m₁, m₂, '-', d₁, d₂], r) else none
  | _ => none

/-- A fraction of a second, behind its point; nine digits count, and zeros at the end do not. -/
def fraction? (cs : List Char) : Option (List Char × List Char) :=
  let ds := cs.takeWhile Char.isDigit
  let shown := ((ds.take 9).reverse.dropWhile (· = '0')).reverse
  if ds.isEmpty then none
  else some ('.' :: (if shown.isEmpty then ['0'] else shown), cs.drop ds.length)

/-- A time of day at the front, with or without seconds. -/
def time? : List Char → Option (List Char × List Char)
  | h₁ :: h₂ :: ':' :: m₁ :: m₂ :: r =>
    if twoDigits h₁ h₂ 23 && twoDigits m₁ m₂ 59 then
      let minutes := [h₁, h₂, ':', m₁, m₂]
      match r with
      | ':' :: s₁ :: s₂ :: r =>
        if twoDigits s₁ s₂ 60 then
          let clock := minutes ++ [':', s₁, s₂]
          match r with
          | '.' :: r => (fraction? r).map fun (shown, r) => (clock ++ shown, r)
          | r => some (clock, r)
        else none
      | ':' :: _ => none
      | r => some (minutes, r)
    else none
  | _ => none

/-- The distance of a time from the meridian. Of no distance to the west it is said to be to the east. -/
def offset? : List Char → Option (List Char)
  | [] => some []
  | ['Z'] | ['z'] => some ['Z']
  | [s, h₁, h₂, ':', m₁, m₂] =>
    if (s = '+' ∨ s = '-') ∧ twoDigits h₁ h₂ 23 ∧ twoDigits m₁ m₂ 59 then
      let s := if Number.ofDigits [h₁, h₂, m₁, m₂] = 0 then '+' else s
      some [s, h₁, h₂, ':', m₁, m₂]
    else none
  | _ => none

/-- A date, a time, or both with a letter or a blank between them. -/
def moment? (s : String) : Option String :=
  let cs := s.toList
  match date? cs with
  | some (date, []) => some (String.ofList date)
  | some (date, c :: r) =>
    if c = 'T' ∨ c = 't' ∨ c = ' ' then do
      let (time, r) ← time? r
      let offset ← offset? r
      some (String.ofList (date ++ 'T' :: time ++ offset))
    else none
  | none =>
    match time? cs with
    | some (time, []) => some (String.ofList time)
    | _ => none

end ReplicatedTable.Config.Toml
