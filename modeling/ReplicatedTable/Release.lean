/-!
# Release

The programs of the release, with their version, their names and what they tell of how they are called.
-/
namespace ReplicatedTable

/-- mirrors `VERSION` -/
def version : String := "0.1.0"

/-- The line that the node software shows of itself.
mirrors `BUILD_INFO` -/
def buildInfo : String := version ++ " (quorumkv)"

structure Program where
  name : String
  usage : String

namespace Program

/-- Sends a request to a node. -/
def client : Program where
  name := "quorumkv"
  usage := "Usage: quorumkv [--node <NODE>] <put|get|join|status|members> [ARGUMENTS]"

/-- Runs nodes. -/
def node : Program where
  name := "quorumkv-node"
  usage := "Usage: quorumkv-node <serve|dev> [OPTIONS]"

/-- The name of the program with its version. -/
def banner (p : Program) : String := p.name ++ " " ++ version

end Program

end ReplicatedTable
