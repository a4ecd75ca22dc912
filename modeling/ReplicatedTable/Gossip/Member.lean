import Std.Data.ExtTreeMap
import ReplicatedTable.Json

/-!
# Members

What gossip knows of a node: its name, the address at which gossip reaches it, its tags and its liveness.
-/
namespace ReplicatedTable.Gossip
open Std

/-- mirrors `MemberStatus` -/
inductive Liveness where
  | alive
  | leaving
  | left
  | failed
  deriving DecidableEq, Repr

def Liveness.name : Liveness → String
  | .alive => "alive"
  | .leaving => "leaving"
  | .left => "left"
  | .failed => "failed"

def Liveness.ofName? : String → Option Liveness
  | "alive" => some .alive
  | "leaving" => some .leaving
  | "left" => some .left
  | "failed" => some .failed
  | _ => none

/-- A name, alone or as the only key of an object that maps it to null. -/
def Liveness.ofJson? : Json → Option Liveness
  | .str s => ofName? s
  | .obj [(s, .null)] => ofName? s
  | _ => none

abbrev Tags := ExtTreeMap String String

structure Member where
  name : String
  address : String
  tags : Tags := ∅
  status : Liveness := .alive
  deriving DecidableEq

namespace Member

def ofFields? : Json → Json → Json → Json → Option Member
  | .str name, .str address, .obj tags, status => do
    let tags ← Json.texts? tags
    let status ← Liveness.ofJson? status
    some ⟨name, address, ExtTreeMap.ofList tags, status⟩
  | _, _, _, _ => none

/-- Reads an object that has all four fields, or a list of their four values. -/
def ofJson? : Json → Option Member
  | .arr [name, address, tags, status] => ofFields? name address tags status
  | .obj fields => do
    ofFields? (← fields.lookup "name") (← fields.lookup "addr") (← fields.lookup "tags")
      (← fields.lookup "status")
  | _ => none

end Member

end ReplicatedTable.Gossip
