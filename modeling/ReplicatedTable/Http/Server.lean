import ReplicatedTable.Http.Message
import ReplicatedTable.Http.Route
import ReplicatedTable.Http.WriteBody
import ReplicatedTable.Router

/-!
# The server

Answers requests from the router of a node. A request that announces too long a body is refused before
anything else, and the id that a request carries goes back with every response.
-/
namespace ReplicatedTable.Http
open Text

/-- The most bytes that a body may have. -/
def maxBody : Nat := 1048576

/-- A number of bytes that a client announces; anything else than digits, behind a plus sign or not,
announces nothing. -/
def announced? (s : String) : Option Nat :=
  let digits := match s.toList with
    | '+' :: r => r
    | r => r
  if digits.isEmpty || !digits.all Char.isDigit then none
  else
    let n := digits.foldl (fun n c => n * 10 + (c.toNat - '0'.toNat)) 0
    if n < UInt64.size then some n else none

def rowJson (row : Table.Row) : Json := .obj (row.toList.map fun (k, v) => (k, .str v))

def recordJson (r : Membership.Record) : Json :=
  .obj [("id", .str r.id), ("gossip_address", .str r.gossipAddress),
    ("consensus_address", .str r.consensusAddress), ("status", .str r.status.name)]

def statusJson (s : Status) : Json :=
  .obj [("node_id", .str s.nodeId), ("role", .str s.role.name),
    ("is_leader", .bool (s.role == .leader)),
    ("leader", (s.leader.map Json.str).getD .null),
    ("last_applied", .nat s.lastApplied), ("members", .nat s.members)]

/-- What was read, with the address of the leader. -/
def readJson (leader : Option String) (value : Json) : Json :=
  .obj [("value", value), ("leader", .str (leader.getD ""))]

/-- mirrors `unknown_route` -/
def unknownPath : Response :=
  { status := 400, body := .json (.obj [("status", .str "400 bad request")]) }

variable {ω : Type}

/-- A write to a cell, whose body may have `limit` bytes.
mirrors `put_cell` -/
def postCell (router : Router) (h : Host ω) (w : ω) (limit : Nat) (body : List UInt8)
    (table row column : String) : ω × Response :=
  if limit < body.length then
    (w, .ofText 413 "Failed to buffer the request body: length limit exceeded")
  else
    match WriteBody.read body with
    | .error e => (w, .ofError (.invalidRequest (.body e.message)))
    | .ok value =>
      let (w, answer) := router.write h w table row column value
      (w, .ofUnit (answer.map fun _ => ()))

/-- A request to admit a voter.
mirrors `join` -/
def postJoin (router : Router) (h : Host ω) (w : ω) (r : Request) : ω × Response :=
  let address := trim ((r.header? "Peer-Address").getD "")
  if address = "" then (w, .ofError (.invalidRequest (.missingHeader "Peer-Address")))
  else
    let (w, answer) := router.join h w (trim ((r.header? "Peer-Id").getD "")) address
    (w, .ofUnit answer)

/-- What a request to read answers.
mirrors `get_row`, `get_cell`, `health` and `members` -/
def get (router : Router) (h : Host ω) (w : ω) (store : Membership.Store) : Route → Response
  | .row table row =>
    match Router.read h w table row with
    | .ok cells => .ofJson (readJson (h.leaderAddress w) (rowJson cells))
    | .error e => .ofError e
  | .cell table row column =>
    match Router.readCell h w table row column with
    | .ok value => .ofJson (readJson (h.leaderAddress w) (.str value))
    | .error e => .ofError e
  | .health => .ofJson (statusJson (router.status h w store))
  | .members => .ofJson (.arr (store.members.map recordJson))
  | .join => unknownPath

/-- The methods of a target, none if it has no route. -/
def allowed : Target → Option (List String)
  | .route (.row _ _) | .badName _ false => some ["GET", "HEAD"]
  | .route (.cell _ _ _) | .badName _ true => some ["GET", "HEAD", "POST"]
  | .route .join => some ["POST"]
  | .route .health | .route .members => some ["GET", "HEAD"]
  | .unknown => none

/-- The response of a target to a method that it allows. -/
def respond (router : Router) (h : Host ω) (w : ω) (store : Membership.Store) (limit : Nat)
    (r : Request) : Target → ω × Response
  | .unknown => (w, unknownPath)
  | .badName name _ => (w, .ofText 400 ("Invalid URL: Invalid UTF-8 in `" ++ name ++ "`"))
  | .route .join => postJoin router h w r
  | .route (.cell table row column) =>
    if r.method = "POST" then postCell router h w limit r.body table row column
    else (w, get router h w store (.cell table row column))
  | .route route => (w, get router h w store route)

/-- Answers a request.
mirrors the router that `create_router` builds, with `request_tracing_middleware` around it -/
def serve (router : Router) (h : Host ω) (w : ω) (store : Membership.Store) (r : Request) :
    ω × Response :=
  let requestId := r.header? "X-Request-ID"
  let announced := (r.header? "Content-Length").bind announced?
  let tooLong := announced.any (maxBody < ·)
  let limit := min maxBody (announced.getD maxBody)
  let refused := Response.ofText 413 "length limit exceeded"
  let target := target r.path
  match allowed target with
  | none => (w, { (if tooLong then refused else unknownPath) with requestId := requestId })
  | some methods =>
    if r.method ∈ methods then
      let (w, response) :=
        if tooLong then (w, refused) else respond router h w store limit r target
      (w, { response with requestId := requestId, headOnly := r.method = "HEAD" })
    else
      let allow := some (",".intercalate methods)
      let response := if tooLong then { refused with allow := allow } else { status := 405, allow }
      (w, { response with requestId := requestId })

end ReplicatedTable.Http
