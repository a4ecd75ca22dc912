import ReplicatedTable.Config.Setting
import ReplicatedTable.Config.Toml

/-!
# Loading settings

Settings come from a file and then from the environment, which has the last word on each place.
-/
namespace ReplicatedTable.Config

/-- The setting that a value of a document is. -/
def settingOf : Toml.Value → Setting
  | .str s | .moment s => .text s
  | .int i => .int i
  | .float f => .float f
  | .bool b => .flag b
  | .arr items => .list (items.map settingOf)
  | .table => .table

def settingOfNode : Toml.Node → Setting
  | .leaf v => settingOf v
  | .table _ _ => .table
  | .tables all => .list (all.map fun _ => .table)

/-- What variables of the environment that are meant for the node start with. -/
def variablePrefix : String := "quorumkv_"

/-- The setting of a variable: a flag, a number or a text; only the addresses to join are a list. -/
def settingOfVariable (name value : String) : Setting :=
  match Setting.small value, Number.readInt64? value, Number.readFloat? value with
  | "true", _, _ => .flag true
  | "false", _, _ => .flag false
  | _, some i, _ => .int i
  | _, none, some f => .float f
  | _, none, none =>
    if name = "join_addrs" then .list ((Text.splitAt ',' value).map .text) else .text value

/-- The settings in an environment, in small letters. -/
def environmentSettings (environment : List (String × String)) : List (String × Setting) :=
  environment.filterMap fun (full, value) =>
    let name := (Setting.small full).toList
    let start := variablePrefix.toList
    if start.isPrefixOf name then
      let name := String.ofList (name.drop start.length)
      some (name, settingOfVariable name value)
    else none

/-- Where settings are read from besides the environment. -/
inductive Source where
  | nothing
  | missingFile
  | file (text : String)

/-- The content of a file behind a byte order mark. -/
def withoutMark (text : String) : String :=
  match text.toList with
  | '\uFEFF' :: r => String.ofList r
  | _ => text

/-- Loads settings; there are none if the file is missing or broken, or a value does not fit.
mirrors `NodeConfig.load` -/
def load? (source : Source) (environment : List (String × String)) : Option NodeConfig := do
  let entries ← match source with
    | .nothing => some []
    | .missingFile => none
    | .file text => Toml.parse? (withoutMark text)
  let given := entries.map (fun (k, n) => (k, settingOfNode n)) ++ environmentSettings environment
  let settings : Settings := given.foldl (fun settings (k, v) => settings.put k v) []
  NodeConfig.ofLookup? Setting.readers fun name => settings.lookup name

end ReplicatedTable.Config
