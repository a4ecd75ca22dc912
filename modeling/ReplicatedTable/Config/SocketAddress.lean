/-!
# Socket addresses

An IPv4 address or a bracketed IPv6 address, and a port. Reading accepts leading zeros in ports but not in
the parts of an IPv4 address. Writing is canonical: no leading zeros, small letters, and the longest run of
zero groups left out.
-/
namespace ReplicatedTable.Config

inductive SocketAddress where
  | v4 (a b c d : Nat) (port : Nat)
  | v6 (groups : List Nat) (scope port : Nat)
  deriving DecidableEq, Repr

namespace SocketAddress

def digitIn? (base : Nat) (c : Char) : Option Nat :=
  let n := c.toNat
  let d :=
    if 48 ≤ n ∧ n ≤ 57 then n - 48
    else if 97 ≤ n ∧ n ≤ 122 then n - 87
    else if 65 ≤ n ∧ n ≤ 90 then n - 55
    else base
  if d < base then some d else none

/-- The digits at the front. -/
def digits (base : Nat) (cs : List Char) : List Nat × List Char :=
  let front := cs.takeWhile fun c => (digitIn? base c).isSome
  (front.filterMap (digitIn? base), cs.drop front.length)

/-- A number below a bound, of at most so many digits. -/
def number (base bound : Nat) (most : Option Nat) (leadingZero : Bool) (cs : List Char) : Option (Nat × List Char) :=
  let (ds, rest) := digits base cs
  let n := ds.foldl (fun n d => n * base + d) 0
  if ds.isEmpty || most.any (· < ds.length) || bound ≤ n then none
  else if !leadingZero && ds.head? == some 0 && 1 < ds.length then none
  else some (n, rest)

def char (c : Char) : List Char → Option (List Char)
  | d :: r => if c = d then some r else none
  | [] => none

def octet (cs : List Char) : Option (Nat × List Char) := number 10 256 (some 3) false cs

def ipv4 (cs : List Char) : Option ((Nat × Nat × Nat × Nat) × List Char) := do
  let (a, cs) ← octet cs
  let (b, cs) ← octet (← char '.' cs)
  let (c, cs) ← octet (← char '.' cs)
  let (d, cs) ← octet (← char '.' cs)
  some ((a, b, c, d), cs)

/-- Up to `room` groups, with colons between them; the last two may be written as an IPv4 address, which
the flag tells. -/
def groups : (room : Nat) → (first : Bool) → List Char → List Nat × Bool × List Char
  | 0, _, cs => ([], false, cs)
  | room + 1, first, cs =>
    match if first then some cs else char ':' cs with
    | none => ([], false, cs)
    | some inner =>
      match if 0 < room then ipv4 inner else none with
      | some ((a, b, c, d), rest) => ([a * 256 + b, c * 256 + d], true, rest)
      | none =>
        match number 16 65536 (some 4) true inner with
        | none => ([], false, cs)
        | some (g, rest) =>
          let (gs, mixed, rest) := groups room false rest
          (g :: gs, mixed, rest)

/-- Eight groups, or fewer around a double colon. -/
def ipv6 (cs : List Char) : Option ((List Nat) × List Char) := do
  let (front, mixed, cs) := groups 8 true cs
  if front.length = 8 then some (front, cs)
  else if mixed then none
  else
    let cs ← char ':' (← char ':' cs)
    let (back, _, cs) := groups (7 - front.length) true cs
    some (front ++ List.replicate (8 - front.length - back.length) 0 ++ back, cs)

def portNumber (cs : List Char) : Option (Nat × List Char) := do number 10 65536 none true (← char ':' cs)

def readV4 (cs : List Char) : Option (SocketAddress × List Char) := do
  let ((a, b, c, d), cs) ← ipv4 cs
  let (port, cs) ← portNumber cs
  some (.v4 a b c d port, cs)

def readV6 (cs : List Char) : Option (SocketAddress × List Char) := do
  let (groups, cs) ← ipv6 (← char '[' cs)
  let scope := (char '%' cs).bind (number 10 UInt32.size none true)
  let (scope, cs) := scope.getD (0, cs)
  let (port, cs) ← portNumber (← char ']' cs)
  some (.v6 groups scope port, cs)

/-- Reads a whole text. -/
def ofText? (s : String) : Option SocketAddress :=
  match readV4 s.toList with
  | some (a, []) => some a
  | _ =>
    match readV6 s.toList with
    | some (a, []) => some a
    | _ => none

def hex (n : Nat) : String := String.ofList (Nat.toDigits 16 n)

/-- Start and length of the first longest run of zeros; `i` is the index of the next group, and the last
two arguments are the run that is going on and the longest one so far. -/
def longestZeros (i : Nat) : List Nat → (run best : Nat × Nat) → Nat × Nat
  | [], _, best => best
  | g :: gs, run, best =>
    if g = 0 then
      let run := if run.2 = 0 then (i, 1) else (run.1, run.2 + 1)
      longestZeros (i + 1) gs run (if best.2 < run.2 then run else best)
    else longestZeros (i + 1) gs (0, 0) best

def colons (gs : List Nat) : String := ":".intercalate (gs.map hex)

def renderV6 (gs : List Nat) : String :=
  match gs with
  | [0, 0, 0, 0, 0, 65535, x, y] => s!"::ffff:{x / 256}.{x % 256}.{y / 256}.{y % 256}"
  | gs =>
    let (start, length) := longestZeros 0 gs (0, 0) (0, 0)
    if 1 < length then colons (gs.take start) ++ "::" ++ colons (gs.drop (start + length))
    else colons gs

def render : SocketAddress → String
  | .v4 a b c d port => s!"{a}.{b}.{c}.{d}:{port}"
  | .v6 gs scope port =>
    let scope := if scope = 0 then "" else s!"%{scope}"
    s!"[{renderV6 gs}{scope}]:{port}"

/-- Whether every machine has the address: it leads back to the machine, or stands for all its addresses. -/
def everywhere : SocketAddress → Bool
  | .v4 a b c d _ => a == 127 || [a, b, c, d] == [0, 0, 0, 0]
  | .v6 groups _ _ =>
    match groups with
    | [0, 0, 0, 0, 0, 0xFFFF, g, h] => g / 256 == 127 || [g, h] == [0, 0]
    | groups => groups.dropLast.all (· == 0) && groups.getLast?.any (· ≤ 1)

end SocketAddress

end ReplicatedTable.Config
