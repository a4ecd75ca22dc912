import ReplicatedTable.CommandLine.Exit
import ReplicatedTable.Http.Message
import ReplicatedTable.Http.Url
import ReplicatedTable.Json.Printer
import ReplicatedTable.KeyPath

/-!
# The client

Commands that send one request to a node and tell its response. The names of a cell are encoded in the
address, which is resolved as clients do before it is sent.
-/
namespace ReplicatedTable.CommandLine
open Text

namespace Client

/-- mirrors `Commands` of the client -/
inductive Command where
  | put (table row column value : String)
  | get (table row : String) (column : Option String)
  | join (address : String) (id : Option String)
  | status
  | members
  deriving DecidableEq, Repr

def nodeOption : OptionRule := { name := "node" }

/-- The address of a node that is asked if none is named. -/
def defaultNode : String := "http://localhost:8080"

/-- The rule for the arguments of a command, by its name. -/
def ruleOf? : String → Option Rule
  | "put" => some { fewest := 4, most := 4 }
  | "get" => some { fewest := 2, most := 3 }
  | "join" => some { options := [{ name := "address" }, { name := "id" }] }
  | "status" => some {}
  | "members" => some {}
  | _ => none

def commandOf? (name : String) (a : Arguments) : Option Command :=
  match name, a.positional with
  | "put", [table, row, column, value] => some (.put table row column value)
  | "get", table :: row :: rest => some (.get table row rest.head?)
  | "join", _ => (a.value? "address").map fun address => .join address (a.value? "id")
  | "status", _ => some .status
  | "members", _ => some .members
  | _, _ => none

/-- The command behind its name. -/
def readCommand (name : String) (args : List String) : Except Halt Command :=
  match ruleOf? name with
  | none =>
    .error (if name = "help" then helpWith ["put", "get", "join", "status", "members"] args else .misused)
  | some rule => do (commandOf? name (← rule.read args)).elim (.error .misused) .ok

/-- The address of the node and the command. -/
def read (args : List String) : Except Halt (String × Command) := do
  match ← Rule.leading { options := [nodeOption], versioned := true } {} args with
  | (_, []) => .error .misused
  | (a, name :: rest) => return ((a.value? "node").getD defaultNode, ← readCommand name rest)

/-- An address without slashes at its end. -/
def base (node : String) : String :=
  String.ofList (node.toList.reverse.dropWhile (· == '/')).reverse

/-- The path of a command behind the address of the node. -/
def Command.path : Command → String
  | .put table row column _ => keyPath table row (some column)
  | .get table row column => keyPath table row column
  | .join _ _ => "/join"
  | .status => "/health"
  | .members => "/members"

def Command.method : Command → String
  | .put _ _ _ _ | .join _ _ => "POST"
  | _ => "GET"

/-- A header value as it arrives: without blanks around it. -/
def headerValue (s : String) : List UInt8 :=
  let blank (b : UInt8) : Bool := b == 0x20 || b == 0x09
  ((utf8 s).dropWhile blank).reverse.dropWhile blank |>.reverse

def Command.headers : Command → List (String × List UInt8)
  | .join address id =>
    ("Peer-Address", headerValue address) :: (id.map fun id => ("Peer-Id", headerValue id)).toList
  | _ => []

def Command.body : Command → List UInt8
  | .put _ _ _ value => utf8 (Json.compact (.obj [("value", .str value)]))
  | _ => []

/-- The request of a command as the node sees it. -/
def Command.request (node : String) (c : Command) : Http.Request where
  method := c.method
  path := Http.Url.path (base node ++ c.path)
  headers := c.headers
  body := c.body

/-- Whether a text can be sent as a header. -/
def sendable (s : String) : Bool :=
  (utf8 s).all fun b => b == 0x09 || (0x20 ≤ b && b != 0x7F)

def Command.sendable : Command → Bool
  | .join address id => Client.sendable address && id.all Client.sendable
  | _ => true

def phrase : Nat → String
  | 400 => "Bad Request"
  | 404 => "Not Found"
  | 405 => "Method Not Allowed"
  | 413 => "Payload Too Large"
  | 500 => "Internal Server Error"
  | _ => "OK"

def bodyText (r : Http.Response) : String :=
  match r.body with
  | .empty => ""
  | .text s => s
  | .json j => j.compact

def bodyJson (r : Http.Response) : Json :=
  match r.body with
  | .json j => j
  | _ => .null

/-- A member of a response, or what is told in its place. -/
def told (j : Json) (key absent : String) : String := ((j.member key).text?).getD absent

def memberLine (j : Json) : String :=
  "\t".intercalate (["id", "gossip_address", "consensus_address", "status"].map (told j · "-"))

/-- What a command tells about a response that is a success. -/
def Command.report (c : Command) (j : Json) : List String :=
  match c with
  | .put _ _ _ _ => ["OK"]
  | .get _ _ _ =>
    (j.member "value").pretty 0 ::
      (((j.member "leader").text?.filter (· ≠ "")).map ("leader: " ++ ·)).toList
  | .join address id => [s!"Joined {id.getD address} ({address})"]
  | .status =>
    ["Node status:", "  ID: " ++ told j "node_id" "-", "  Role: " ++ told j "role" "-",
      "  Leader: " ++ told j "leader" "unknown", "  Last applied: " ++ (j.member "last_applied").compact,
      "  Members: " ++ (j.member "members").compact]
  | .members =>
    match j with
    | .arr items => items.map memberLine
    | _ => []

/-- What a command leaves behind after its response.
mirrors `check`, and what `main` prints behind it -/
def Command.finish (c : Command) (r : Http.Response) : Exit :=
  if 200 ≤ r.status ∧ r.status < 300 then Exit.success (c.report (bodyJson r))
  else Exit.failure s!"request failed ({r.status} {phrase r.status}): {bodyText r}" []

/-- Carries out a command with a way to send requests.
mirrors `main` of the client -/
def run {ω : Type} (send : ω → Http.Request → ω × Http.Response) (w : ω) (args : List String) :
    ω × Exit :=
  match read args with
  | .error h => (w, Exit.halted .client h)
  | .ok (node, c) =>
    if c.sendable then
      let (w, response) := send w (c.request node)
      (w, c.finish response)
    else
      (w, Exit.failure s!"{c.method} {base node}{c.path}"
        ["builder error", "failed to parse header value"])

end Client

end ReplicatedTable.CommandLine
