import IndexSync.Text.Split

/-! The arguments of the command line. -/
namespace IndexSync.Cli

inductive Command
  | sql (config : String) (drops : Bool)
  | setup (config strategy : String)
  | status (config : String)
  deriving DecidableEq, Repr

/-- What arguments ask for: a command, an explanation, or nothing that there is. -/
inductive Asked
  | command (c : Command)
  | help
  | misuse
  deriving DecidableEq, Repr

/-- The options of a command: those that take a value, and those that stand alone. -/
structure Options where
  valued : List String
  flags : List String
  deriving DecidableEq, Repr

/-- The options that were given. -/
structure Given where
  values : List (String × String)
  flags : List String
  extra : List String
  deriving DecidableEq, Repr

def helpFlag : String := "--help"

def Given.none : Given := ⟨[], [], []⟩

def Given.addValue (g : Given) (name value : String) : Given :=
  { g with values := (name, value) :: g.values }

def Given.addFlag (g : Given) (name : String) : Given := { g with flags := name :: g.flags }

def Given.addExtra (g : Given) (args : List String) : Given := { g with extra := g.extra ++ args }

/-- The value of an option, empty if it was not given. The last one counts. -/
def Given.value (g : Given) (name : String) : String := (g.values.lookup name).getD ""

def isOption (arg : String) : Bool := arg.startsWith "-" && arg ≠ "-"

/-- An option with its value behind an equals sign, if it has one. -/
def cutValue (arg : String) : String × Option String :=
  match Text.cutText? "=" arg with
  | some (name, value) => (name, some value)
  | none => (arg, none)

/-- Reads arguments. An option that takes a value takes what follows it, whatever it is. -/
def readOptions (known : Options) : List String → Given → Option Given
  | [], given => some given
  | "--" :: rest, given => some (given.addExtra rest)
  | arg :: rest, given =>
    if !isOption arg then readOptions known rest (given.addExtra [arg])
    else
      let (name, value) := cutValue arg
      if known.valued.contains name then
        match value, rest with
        | some v, rest => readOptions known rest (given.addValue name v)
        | none, v :: rest => readOptions known rest (given.addValue name v)
        | none, [] => none
      else if (helpFlag :: known.flags).contains name && value.isNone then
        readOptions known rest (given.addFlag name)
      else none

def configOption : String := "--config"
def strategyOption : String := "--strategy"
def dropFlag : String := "--drop"

/-- The commands: their names, their options, and what they make of them. -/
def commands : List (String × Options × (Given → Command)) :=
  [("sql", ⟨[configOption], [dropFlag]⟩,
      fun g => .sql (g.value configOption) (g.flags.contains dropFlag)),
    ("setup", ⟨[configOption, strategyOption], []⟩,
      fun g => .setup (g.value configOption) (g.value strategyOption)),
    ("status", ⟨[configOption], []⟩, fun g => .status (g.value configOption))]

/-- How the program is called. -/
def usage : List String :=
  "Usage: triggersearch COMMAND [OPTIONS]" :: commands.map fun (name, known, _) =>
    String.intercalate " " (" " :: name :: known.valued.map (· ++ " VALUE") ++ known.flags)

/-- What the arguments after the name of a command ask for. -/
def readCommand (name : String) (args : List String) : Asked :=
  match commands.lookup name with
  | none => .misuse
  | some (known, build) =>
    match readOptions known args .none with
    | none => .misuse
    | some given =>
      if given.flags.contains helpFlag then .help
      else if given.extra.isEmpty then .command (build given)
      else .misuse

def Command.config : Command → String
  | sql config _ => config
  | setup config _ => config
  | status config => config

/-- What all arguments ask for. -/
def read : List String → Asked
  | [] => .misuse
  | "--" :: name :: args => readCommand name args
  | arg :: args =>
    if arg = helpFlag then .help
    else if isOption arg then .misuse
    else readCommand arg args

/-- Whether the arguments ask for the version, wherever they do. -/
def asksForVersion (args : List String) : Bool := args.contains "--version" || args.contains "-V"

end IndexSync.Cli
