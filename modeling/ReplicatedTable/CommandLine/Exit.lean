import ReplicatedTable.CommandLine.Arguments
import ReplicatedTable.Release

/-!
# What a command leaves behind

The exit status of a command, and what it writes.
-/
namespace ReplicatedTable.CommandLine

structure Exit where
  code : Nat := 0
  output : String := ""
  errors : String := ""
  deriving DecidableEq, Repr

namespace Exit

/-- Lines with their ends. -/
def lines (ls : List String) : String := String.join (ls.map (· ++ "\n"))

def success (ls : List String) : Exit := { output := lines ls }

/-- Causes below a failure; several of them are numbered. -/
def causes : List String → List String
  | [] => []
  | [cause] => ["", "Caused by:", "    " ++ cause]
  | several => ["", "Caused by:"] ++ several.mapIdx fun i cause => s!"    {i}: {cause}"

/-- A failure, with what caused it. -/
def failure (message : String) (because : List String) : Exit where
  code := 1
  errors := lines (("Error: " ++ message) :: causes because)

/-- A command that cannot be carried out as it was given, or asks for something to be told. -/
def halted (p : Program) : Halt → Exit
  | .misused => { code := 2, errors := lines [p.usage] }
  | .help => success [p.usage]
  | .version => success [p.banner]

end Exit

end ReplicatedTable.CommandLine
