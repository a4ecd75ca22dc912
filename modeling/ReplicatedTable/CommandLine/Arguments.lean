/-!
# Arguments of commands

Options have a name of their own after two hyphens, and take nothing or one value, behind an equals sign or
as the next argument, which then must not look like an option. All other arguments are positional. Whatever
comes behind two hyphens alone is positional.
-/
namespace ReplicatedTable.CommandLine

inductive Takes where
  | nothing
  /-- One value, once. -/
  | value
  /-- One value each time. -/
  | values
  deriving DecidableEq, Repr

structure OptionRule where
  name : String
  takes : Takes := .value
  /-- Whether a value fits the option. -/
  accepts : String → Bool := fun _ => true

structure Rule where
  options : List OptionRule := []
  /-- How many positional arguments there may be. -/
  fewest : Nat := 0
  most : Nat := 0
  /-- Whether the version can be asked for. -/
  versioned : Bool := false

/-- Why arguments are not carried out. -/
inductive Halt where
  | misused
  | help
  | version
  deriving DecidableEq, Repr

/-- What a call for help comes to: it may name one of the commands, or itself. -/
def helpWith (commands : List String) : (names : List String) → Halt
  | [] => .help
  | [name] => if name = "help" ∨ name ∈ commands then .help else .misused
  | _ => .misused

structure Arguments where
  /-- The options that were given, with their values, in order. -/
  options : List (String × String) := []
  positional : List String := []
  deriving DecidableEq, Repr

namespace Arguments

def given (a : Arguments) (name : String) : Bool := a.options.any (·.1 == name)

def value? (a : Arguments) (name : String) : Option String := a.options.lookup name

/-- All values of an option, in order. -/
def values (a : Arguments) (name : String) : List String :=
  (a.options.filter (·.1 == name)).map (·.2)

def put (a : Arguments) (name value : String) : Arguments :=
  { a with options := a.options ++ [(name, value)] }

end Arguments

/-- Whether an argument looks like an option. -/
def optionLike (arg : String) : Bool := arg.startsWith "-" && arg ≠ "-"

/-- The name of an option and the value behind its equals sign. -/
def nameAndValue (arg : String) : String × Option String :=
  let cs := arg.toList.drop 2
  let name := String.ofList (cs.takeWhile (· ≠ '='))
  match cs.dropWhile (· ≠ '=') with
  | _ :: value => (name, some (String.ofList value))
  | [] => (name, none)

namespace Rule

def option? (r : Rule) (name : String) : Option OptionRule := r.options.find? (·.name == name)

/-- An option with its value, if it can be given here. -/
def give (a : Arguments) (o : OptionRule) (value : String) : Except Halt Arguments :=
  if o.takes = .value ∧ a.given o.name then .error .misused
  else if o.accepts value then .ok (a.put o.name value)
  else .error .misused

/-- What an argument with one hyphen asks for. -/
def short (r : Rule) (arg : String) : Halt :=
  match arg.toList.drop 1 with
  | 'h' :: _ => .help
  | 'V' :: _ => if r.versioned then .version else .misused
  | _ => .misused

/-- The option that an argument starts, with the value that it has itself. -/
def long (r : Rule) (a : Arguments) (arg : String) : Except Halt (OptionRule × Option String) :=
  match nameAndValue arg, r.option? (nameAndValue arg).1 with
  | (_, some _), some ⟨_, .nothing, _⟩ => .error .misused
  | (_, none), some ⟨name, .nothing, accepts⟩ =>
    if a.given name then .error .misused else .ok (⟨name, .nothing, accepts⟩, none)
  | (_, value), some o => .ok (o, value)
  | ("help", none), none => .error .help
  | ("version", none), none => .error (if r.versioned then .version else .misused)
  | _, none => .error .misused

/-- Reads options up to the first positional argument, or to two hyphens alone. The second part are the
arguments from there on. -/
def leading (r : Rule) (a : Arguments) : List String → Except Halt (Arguments × List String)
  | [] => .ok (a, [])
  | arg :: rest =>
    if arg = "--" then .ok (a, arg :: rest)
    else if arg.startsWith "--" then
      match r.long a arg, rest with
      | .error h, _ => .error h
      | .ok (o, some value), rest =>
        match give a o value with
        | .error h => .error h
        | .ok a => r.leading a rest
      | .ok (o, none), rest =>
        if o.takes = .nothing then r.leading (a.put o.name "") rest
        else
          match rest with
          | [] => .error .misused
          | value :: rest =>
            if optionLike value then .error .misused
            else
              match give a o value with
              | .error h => .error h
              | .ok a => r.leading a rest
    else if optionLike arg then .error (r.short arg)
    else .ok (a, arg :: rest)

def addPositional (r : Rule) (a : Arguments) (arg : String) : Except Halt Arguments :=
  if a.positional.length < r.most then .ok { a with positional := a.positional ++ [arg] }
  else .error .misused

/-- The arguments, if they are enough. -/
def finish (r : Rule) (a : Arguments) : Except Halt Arguments :=
  if r.fewest ≤ a.positional.length then .ok a else .error .misused

def readFrom (r : Rule) : (fuel : Nat) → Arguments → List String → Except Halt Arguments
  | 0, _, _ => .error .misused
  | fuel + 1, a, args => do
    match ← r.leading a args with
    | (a, []) => r.finish a
    | (a, "--" :: rest) => r.finish (← rest.foldlM r.addPositional a)
    | (a, arg :: rest) => r.readFrom fuel (← r.addPositional a arg) rest

/-- Reads all arguments. -/
def read (r : Rule) (args : List String) : Except Halt Arguments :=
  r.readFrom (args.length + 1) {} args

end Rule

end ReplicatedTable.CommandLine
