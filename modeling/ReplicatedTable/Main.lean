import ReplicatedTable.CommandLine.Client
import ReplicatedTable.CommandLine.Launch
import ReplicatedTable.Http.Server

/-!
# The program

Runs the nodes of a command in one process. While they run, each line of standard input is a command of a
client to the first node, and the end of the input interrupts them.
-/
open ReplicatedTable CommandLine Node

def tell (e : Exit) : IO Unit := do
  IO.print e.output
  IO.eprint e.errors

/-- The files that may be the one with the settings, with their texts if they can be read. -/
def settingsFiles (a : Arguments) : IO (List (String × String)) :=
  ((a.value? "config").toList.flatMap fun path => [path, path ++ ".toml"]).filterMapM fun (path : String) => do
    try return some (path, ← IO.FS.readFile (path : String))
    catch _ => return none

/-- The variables of the environment that can stand for settings. -/
def environment : IO (List (String × String)) :=
  Config.NodeConfig.fieldNames.filterMapM fun name => do
    let full := (Config.variablePrefix ++ name).map Char.toUpper
    return (← IO.getEnv full).map ((full, ·))

def surroundings : Launch.Command → IO Launch.Surroundings
  | .serve a => do
    let files ← settingsFiles a
    return { text? := fun path => files.lookup path, environment := ← environment }
  | .dev _ => return {}

/-- Sends a request to the first node. -/
def send (d : Deployment) (r : Http.Request) : Deployment × Http.Response :=
  match d.site? 0 with
  | some p =>
    let (d, response) := Http.serve p.router (Deployment.host 0) d p.store r
    (d.settle, response)
  | none => (d, Http.unknownPath)

/-- Carries out the lines of standard input. -/
partial def converse (input : IO.FS.Stream) (d : Deployment) : IO Deployment := do
  let line ← input.getLine
  if line.isEmpty then return d
  let words := (line.trimAscii.toString.splitOn " ").filter (· ≠ "")
  if words.isEmpty then converse input d
  else
    let (d, exit) := Client.run send d words
    tell exit
    converse input d

def main (args : List String) : IO UInt32 := do
  match Launch.read args with
  | .error h =>
    let exit := Exit.halted .node h
    tell exit
    return exit.code.toUInt32
  | .ok command =>
    let (d, early) := Launch.start (← surroundings command) command
    for path in d.tree.directories.toList do
      IO.FS.createDirAll path
    let exit ← match early with
      | some exit => pure exit
      | none =>
        let d ← converse (← IO.getStdin) d
        pure ((Launch.exit? command (Launch.interruptAll d)).getD {})
    tell exit
    return exit.code.toUInt32
