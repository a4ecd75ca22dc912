import ReplicatedTable.CommandLine.Exit
import ReplicatedTable.Config.Load
import ReplicatedTable.Node.Turns

/-!
# Commands that run nodes

One command runs a single node with settings from a file, the environment and its arguments, the last of
which go first; another one runs several nodes that join the first of them. Both go on until they are
interrupted, or until their nodes have stopped by themselves.
-/
namespace ReplicatedTable.CommandLine
open Config Node

namespace Launch

/-- What commands find around them. -/
structure Surroundings where
  /-- The text of the file that a path leads to. -/
  text? : (path : String) → Option String := fun _ => none
  environment : List (String × String) := []
  tree : FileTree := {}

/-- A number of 16 bits. -/
def port? (s : String) : Option Nat :=
  match Number.readInt64? s with
  | some (.ofNat n) => if n < 65536 then some n else none
  | _ => none

def isPort (s : String) : Bool := (port? s).isSome

def isPath (s : String) : Bool := s ≠ ""

def isSocketAddress (s : String) : Bool := (SocketAddress.ofText? s).isSome

def serveRule : Rule where
  options := [{ name := "config", accepts := isPath }, { name := "id" },
    { name := "http", accepts := isSocketAddress }, { name := "gossip" }, { name := "raft" },
    { name := "gossip-data", accepts := isPath }, { name := "raft-data", accepts := isPath },
    { name := "seed", takes := .nothing }, { name := "join", takes := .values }]

def devRule : Rule where
  options := [{ name := "nodes", accepts := isPort }, { name := "http-port", accepts := isPort },
    { name := "gossip-port", accepts := isPort }, { name := "raft-port", accepts := isPort },
    { name := "data", accepts := isPath }]

/-- mirrors `Commands` of the node software -/
inductive Command where
  | serve (a : Arguments)
  | dev (a : Arguments)

def read (args : List String) : Except Halt Command := do
  match ← Rule.leading { versioned := true } {} args with
  | (_, []) => .error .misused
  | (_, name :: rest) =>
    match name with
    | "serve" => return .serve (← serveRule.read rest)
    | "dev" => return .dev (← devRule.read rest)
    | "help" => .error (helpWith ["serve", "dev"] rest)
    | _ => .error .misused

/-- Where settings come from: the file with the path that is given, or with the usual ending behind it. -/
def sourceOf (s : Surroundings) (path : Option String) : Source :=
  match path with
  | none => .nothing
  | some path =>
    match s.text? path, s.text? (path ++ ".toml") with
    | some text, _ => .file text
    | none, some text => .file text
    | none, none => .missingFile

/-- The settings with those that are given as arguments. -/
def override (c : NodeConfig) (a : Arguments) : NodeConfig :=
  let text (name default : String) : String := (a.value? name).getD default
  let join := (a.values "join").flatMap (Text.splitAt ',')
  { c with
    nodeId := text "id" c.nodeId
    httpAddress := ((a.value? "http").bind SocketAddress.ofText?).getD c.httpAddress
    gossipAddress := text "gossip" c.gossipAddress
    consensusAddress := text "raft" c.consensusAddress
    gossipDirectory := text "gossip-data" c.gossipDirectory
    consensusDirectory := text "raft-data" c.consensusDirectory
    seed := c.seed || a.given "seed"
    joinAddresses := if join.isEmpty then c.joinAddresses else join }

/-- The settings of a single node. -/
def settings (s : Surroundings) (a : Arguments) : Except Error NodeConfig :=
  match load? (sourceOf s (a.value? "config")) s.environment with
  | none => .error (.settings "no usable settings")
  | some c =>
    let c := override c a
    c.validate.map fun _ => c

/-- The exit after a failure of a node. -/
def exitOf (e : Error) : Exit :=
  Exit.failure e.message <|
    match e with
    | .io fault => [fault.message]
    | .settings text => [text]
    | _ => []

/-- All nodes are interrupted and go on until they wait or return. -/
def interruptAll (d : Deployment) : Deployment :=
  ((List.range d.sites.length).foldl
    (fun d i => (d.step? i .interruptFromOutside).getD d) d).settle

/-- The failures of nodes, once all of them have returned. -/
def failures? (d : Deployment) : Option (List Error) :=
  (d.sites.mapM fun (p : Site) => p.run.answer?).map fun answers => answers.filterMap fun
    | .ok () => none
    | .error e => some e

/-- The settings of one of several nodes, counted from zero, if there are ports for it.
mirrors the settings that `dev` makes for its nodes, with `nth_port` -/
def devSettings (a : Arguments) (i : Nat) : Except String NodeConfig := do
  let base (name : String) (default : Nat) : Nat := ((a.value? name).bind port?).getD default
  let nth (name : String) (default : Nat) : Except String Nat :=
    let first := base name default
    if first + i < 65536 then .ok (first + i)
    else .error s!"--{name} {first} leaves no room for node {i + 1}"
  let seedPort := base "gossip-port" 7946
  let id := s!"n{i + 1}"
  let directory := (a.value? "data").getD "./data/dev" ++ "/" ++ id
  let http ← nth "http-port" 8080
  let gossip ← nth "gossip-port" 7946
  let raft ← nth "raft-port" 9000
  return {
    nodeId := id
    httpAddress := .v4 127 0 0 1 http
    gossipAddress := s!"127.0.0.1:{gossip}"
    consensusAddress := s!"127.0.0.1:{raft}"
    gossipDirectory := directory ++ "/gossip"
    consensusDirectory := directory ++ "/raft"
    seed := i = 0
    joinAddresses := if i = 0 then [] else [s!"127.0.0.1:{seedPort}"] }

/-- What becomes of an address for clients. Ports are free, but not every machine has every address. -/
def bind (a : SocketAddress) : Except IoFault Unit :=
  if a.everywhere then .ok () else .error .addressNotAvailable

/-- Adds nodes in order; the others wait until the first one leads. -/
def launchAll (d : Deployment) : List NodeConfig → Deployment × Except Error Unit
  | [] => (d, .ok ())
  | c :: rest =>
    match d.launch c (bind c.httpAddress) with
    | (d, .error e) => (d, .error e)
    | (d, .ok _) => launchAll (if c.seed then d.settle else d) rest

/-- The nodes of a command, once they have come as far as they can. There is an exit if they do not run. -/
def startAll (d : Deployment) (nodes : List NodeConfig) : Deployment × Option Exit :=
  match launchAll d nodes with
  | (d, .error e) => (d, some (exitOf e))
  | (d, .ok ()) => (d.settle, none)

/-- Starts a single node. -/
def startOne (s : Surroundings) (a : Arguments) : Deployment × Option Exit :=
  let empty : Deployment := { tree := s.tree }
  match settings s a with
  | .error e => (empty, some (exitOf e))
  | .ok c => startAll empty [c]

/-- Starts several nodes. If there are no ports for one of them, the first one has started by then. -/
def startMany (s : Surroundings) (a : Arguments) : Deployment × Option Exit :=
  let nodes := ((a.value? "nodes").bind port?).getD 3
  let empty : Deployment := { tree := s.tree }
  if nodes = 0 then (empty, some (Exit.failure "--nodes must be at least 1" []))
  else
    match (List.range nodes).mapM (devSettings a), devSettings a 0 with
    | .ok all, _ => startAll empty all
    | .error message, .ok first => ((startAll empty [first]).1, some (Exit.failure message []))
    | .error message, .error _ => (empty, some (Exit.failure message []))

def start (s : Surroundings) : Command → Deployment × Option Exit
  | .serve a => startOne s a
  | .dev a => startMany s a

/-- What a command leaves behind when all of its nodes have returned. -/
def exit? (c : Command) (d : Deployment) : Option Exit :=
  (failures? d).map fun
    | [] => {}
    | failed@(e :: _) =>
      match c with
      | .serve _ => exitOf e
      | .dev _ => Exit.failure s!"{failed.length} node(s) stopped with an error" []

/-- Carries out a command. There is no exit as long as its nodes run.
mirrors `main` of the node software -/
def run (s : Surroundings) (args : List String) (interrupted : Bool) : Option Exit × FileTree :=
  match read args with
  | .error h => (some (Exit.halted .node h), s.tree)
  | .ok c =>
    match start s c with
    | (d, some exit) => (some exit, d.tree)
    | (d, none) =>
      let d := if interrupted then interruptAll d else d
      (exit? c d, d.tree)

end Launch

end ReplicatedTable.CommandLine
