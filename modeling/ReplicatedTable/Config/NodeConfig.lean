import ReplicatedTable.Config.SocketAddress
import ReplicatedTable.Error
import ReplicatedTable.Json

/-!
# Settings of a node

What a node has to know before it starts, with what it takes if it is not told. Timeouts are in
milliseconds.
-/
namespace ReplicatedTable.Config
open Text

structure NodeConfig where
  nodeId : String := "node-1"
  httpAddress : SocketAddress := .v4 0 0 0 0 8080
  gossipAddress : String := "127.0.0.1:7946"
  consensusAddress : String := "127.0.0.1:9000"
  gossipDirectory : String := "./data/gossip"
  consensusDirectory : String := "./data/raft"
  seed : Bool := false
  joinAddresses : List String := []
  applyTimeout : Nat := 5000
  reconfigTimeout : Nat := 10000
  logLevel : String := "info"
  deriving DecidableEq, Repr

namespace NodeConfig

/-- Accepts settings with which a node can run.
mirrors `NodeConfig.validate` -/
def validate (c : NodeConfig) : Except Error Unit :=
  if blank c.nodeId then .error (.invalidSettings .blankNodeId)
  else if blank c.consensusAddress then .error (.invalidSettings .blankConsensusAddress)
  else if !c.seed && c.joinAddresses.isEmpty then .error (.invalidSettings .nobodyToJoin)
  else if c.applyTimeout = 0 then .error (.invalidSettings .zeroApplyTimeout)
  else .ok ()

/-- The names of the settings, in order. -/
def fieldNames : List String :=
  ["node_id", "http_addr", "gossip_addr", "raft_addr", "gossip_data_dir", "raft_data_dir", "is_seed",
    "join_addrs", "apply_timeout_ms", "reconfig_timeout_ms", "log_level"]

/-- Readers for the kinds of settings from values of one sort. -/
structure Readers (α : Type) where
  text? : α → Option String
  flag? : α → Option Bool
  count? : α → Option Nat
  texts? : α → Option (List String)

/-- A setting that may be left out. -/
def optional {α β : Type} (value : Option α) (read : α → Option β) (default : β) : Option β :=
  match value with
  | none => some default
  | some v => read v

/-- Reads all settings by name; there is none if one of them cannot be read. -/
def ofLookup? {α : Type} (r : Readers α) (get : String → Option α) : Option NodeConfig := do
  let d : NodeConfig := {}
  some {
    nodeId := ← optional (get "node_id") r.text? d.nodeId
    httpAddress :=
      ← optional (get "http_addr") (fun v => (r.text? v).bind SocketAddress.ofText?) d.httpAddress
    gossipAddress := ← optional (get "gossip_addr") r.text? d.gossipAddress
    consensusAddress := ← optional (get "raft_addr") r.text? d.consensusAddress
    gossipDirectory := ← optional (get "gossip_data_dir") r.text? d.gossipDirectory
    consensusDirectory := ← optional (get "raft_data_dir") r.text? d.consensusDirectory
    seed := ← optional (get "is_seed") r.flag? d.seed
    joinAddresses := ← optional (get "join_addrs") r.texts? d.joinAddresses
    applyTimeout := ← optional (get "apply_timeout_ms") r.count? d.applyTimeout
    reconfigTimeout := ← optional (get "reconfig_timeout_ms") r.count? d.reconfigTimeout
    logLevel := ← optional (get "log_level") r.text? d.logLevel }

/-- JSON values have to be of the very type of the setting. -/
def jsonReaders : Readers Json where
  text?
    | .str s => some s
    | _ => none
  flag?
    | .bool b => some b
    | _ => none
  count?
    | .int (.ofNat n) => if n < UInt64.size then some n else none
    | _ => none
  texts?
    | .arr items => items.mapM fun
      | .str s => some s
      | _ => none
    | _ => none

/-- Settings from an object, or from a list of values in order. -/
def ofJson? : Json → Option NodeConfig
  | .obj members => ofLookup? jsonReaders fun name => members.lookup name
  | .arr items =>
    if fieldNames.length < items.length then none
    else ofLookup? jsonReaders fun name => (fieldNames.zip items).lookup name
  | _ => none

end NodeConfig

end ReplicatedTable.Config
