import ReplicatedTable.Error
import ReplicatedTable.Json

/-!
# Requests and responses

What the server reads of a request and writes as a response. Of several headers of one name the first
counts, and a header counts only if its value is printable ASCII.
-/
namespace ReplicatedTable.Http
open Text

structure Request where
  method : String
  /-- The path as it stands in the request line. -/
  path : String
  headers : List (String × List UInt8) := []
  body : List UInt8 := []
  deriving DecidableEq, Repr

/-- The capital letters of ASCII made small. -/
def lowerCase (s : String) : String := s.map Char.toLower

def printable (b : UInt8) : Bool := b == 0x09 || (0x20 ≤ b && b ≤ 0x7E)

namespace Request

/-- The text of a header. -/
def header? (r : Request) (name : String) : Option String :=
  match r.headers.find? fun h => lowerCase h.1 = lowerCase name with
  | some (_, value) => if value.all printable then ofUtf8? value else none
  | none => none

end Request

/-- The path of a request target: that of an absolute address, or what comes before the query. There is
none in a target that names a server only. -/
def pathOf (target : String) : String :=
  let cut (cs : List Char) : List Char := cs.takeWhile fun c => c ≠ '?' ∧ c ≠ '#'
  let cs := target.toList
  match cs with
  | '/' :: _ => String.ofList (cut cs)
  | ['*'] => "*"
  | _ =>
    match Text.behind? "://".toList cs with
    | some rest =>
      let path := cut (rest.dropWhile fun c => c ≠ '/' ∧ c ≠ '?' ∧ c ≠ '#')
      if path.isEmpty then "/" else String.ofList path
    | none => ""

inductive Body where
  | empty
  | text (s : String)
  | json (j : Json)

structure Response where
  status : Nat
  body : Body := .empty
  /-- The methods that the path allows, if the method was a wrong one. -/
  allow : Option String := none
  /-- The id of the request, if the client gave one. -/
  requestId : Option String := none
  /-- Whether the body is left out, though its type is told. -/
  headOnly : Bool := false

namespace Response

def contentType (r : Response) : Option String :=
  match r.body with
  | .empty => none
  | .text _ => some "text/plain; charset=utf-8"
  | .json _ => some "application/json"

/-- The status and its name for a failure. -/
def statusOf (e : Error) : Nat × String :=
  match e.blame with
  | .missing => (404, "404 not found")
  | .client => (400, "400 bad request")
  | .server => (500, "internal server error")

/-- mirrors `into_response` of `Error` -/
def ofError (e : Error) : Response :=
  { status := (statusOf e).1
    body := .json (.obj [("error", .str e.message), ("status", .str (statusOf e).2)]) }

def ofJson (j : Json) : Response := { status := 200, body := .json j }

def ofText (status : Nat) (s : String) : Response := { status := status, body := .text s }

/-- The response to an operation whose success has nothing to tell. -/
def ofUnit : Except Error Unit → Response
  | .ok () => { status := 200 }
  | .error e => ofError e

end Response

end ReplicatedTable.Http
