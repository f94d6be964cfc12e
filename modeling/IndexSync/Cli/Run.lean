import IndexSync.Cli.Arguments
import IndexSync.Cli.Printout
import IndexSync.Config.Settings
import IndexSync.Store.Capture
import IndexSync.Store.Setup
import IndexSync.Trigger.Resolution
import IndexSync.Trigger.Setup
import IndexSync.Url.Engine
import IndexSync.Url.Masked

/-! The commands of the command line: to print the setup statements, to run them, and to show how many
changes wait. -/
namespace IndexSync.Cli

/-- Where the commands run: the environment, the files, and the classes that can be reached. -/
structure Host where
  environment : Config.Environment
  directory : String
  file : String → Config.FileState
  catalog : Catalog

/-- Databases by the paths of their files. -/
abbrev Databases := Entries String Store.Database

/-- An outcome that ends a command before its time. -/
abbrev Attempt (α : Type) := Except Outcome α

/-- A fault of the configuration is a refusal; any other failure breaks the command. -/
def guarded {α : Type} (x : Except Failure α) : Attempt α :=
  x.mapError fun f => if f.isConfiguration then .refused f.message else .broken f

variable (host : Host)

def configPath (asked : String) : String :=
  if asked.isEmpty then Config.Path.resolve host.directory host.environment none
  else Config.Path.tidy asked

def settings (asked : String) (options : Config.Options := .none) : Attempt Config.Settings :=
  let path := configPath host asked
  guarded (Config.Settings.load host.environment path (host.file path) [] options)

def models (s : Config.Settings) : Attempt (List CaptureModel) :=
  guarded (Declaration.buildAll host.catalog s.declarations)

def address : Option String := host.environment.get? Url.variableName

/-- The source of triggers: that of the settings, or the one for the dialect of the address. -/
def source (s : Config.Settings) : Attempt TriggerSource := do
  let named := s.triggerSource.filter fun t => !t.isEmpty
  let reference ← match named with
    | some name => pure (some name)
    | none => guarded (Url.dialect? s.databaseUrl)
  match reference with
  | none => .error (.refused "Set trigger_source or database_url to choose the SQL dialect.")
  | some name => guarded (Trigger.resolveSource host.catalog (.path (some name)))

/-- The path of the file that an engine opens. Nothing is kept of a database in memory. -/
def databasePath? (e : Url.Engine) : Option String :=
  (e.database.filter fun d => d ≠ "" && d ≠ ":memory:").map Config.Path.tidy

/-- The directory that a path leads through. -/
def parent (path : String) : String := ((Text.cutLastText? '/' path).map (·.1)).getD "."

def isDirectory : Config.FileState → Bool
  | .directory => true
  | _ => false

/-- Whether an engine can open its file. -/
def canOpen (e : Url.Engine) : Bool :=
  e.dialect = Trigger.Dialect.sqlite.name &&
    (databasePath? e).all fun path =>
      isDirectory (host.file (parent path)) && !isDirectory (host.file path)

def openDatabase (e : Url.Engine) (dbs : Databases) : Store.Database :=
  ((databasePath? e).bind dbs.get?).getD .empty

def keepDatabase (e : Url.Engine) (db : Store.Database) (dbs : Databases) : Databases :=
  match databasePath? e with
  | some path => dbs.put path db
  | none => dbs

def cannotOpen : Failure := Store.refused "unable to open database file"

/-- Runs a statement in the database of an engine. -/
def execute (e : Url.Engine) (s : Trigger.Statement) : Action Store.Database Unit :=
  if canOpen host e then Store.Database.execute s else Action.fail cannotOpen

def sql (config : String) (drops : Bool) (options : Config.Options := .none) : Attempt Printout := do
  let s ← settings host config options
  let ms ← models host s
  let source ← source host s
  -- no fault of a source is taken for one of the configuration here
  let statements ← (Trigger.planned source ms (if drops then .dropCreate else .create)).mapError
    Outcome.broken
  return ⟨statements.map fun p => p.statement.text ++ ";", none, []⟩

/-- The strategy that is asked for, or else that of the settings. -/
def strategy (asked : String) (s : Config.Settings) : Attempt Trigger.Strategy :=
  if asked.isEmpty then .ok s.strategy else guarded (Trigger.Strategy.ofValue (.text asked))

def setupPrintout (strategy : Trigger.Strategy) (r : Trigger.SetupReport) : Printout where
  before := []
  table := some ⟨"Trigger setup",
    [["Item", "Value"], ["Strategy", strategy.name], ["Executed", toString r.executed],
      ["Failed", toString r.failed.length]]⟩
  after := r.failed.map ("failed: " ++ ·)

/-- What a setup needs before its first statement runs. -/
def setupParts (config asked : String) (options : Config.Options := .none) :
    Attempt (Trigger.Strategy × List CaptureModel × TriggerSource × Url.Engine) := do
  let s ← settings host config options
  let strategy ← strategy asked s
  let ms ← models host s
  let source ← source host s
  let engine ← guarded (Url.Engine.create s.databaseUrl (address host))
  return (strategy, ms, source, engine)

def setup (config asked : String) (dbs : Databases) (options : Config.Options := .none) :
    Attempt Printout × Databases :=
  match setupParts host config asked options with
  | .error outcome => (.error outcome, dbs)
  | .ok (strategy, ms, source, engine) =>
    let (r, db) := Trigger.applyStrategy (execute host engine) (fun _ db => db) source ms strategy
      (openDatabase engine dbs)
    (guarded (r.map (setupPrintout strategy)), keepDatabase engine db dbs)

def statusRow (m : CaptureModel) (pending : Entries String Nat) : List String :=
  [m.captureTable, m.sourceTable, m.entityType.fullName,
    grouped ((pending.get? m.captureTable).getD 0)]

def status (config : String) (dbs : Databases) (options : Config.Options := .none) :
    Attempt Printout := do
  let s ← settings host config options
  let ms ← models host s
  let url ← guarded (Url.resolve s.databaseUrl (address host))
  let engine ← guarded (Url.Engine.create (some url) (address host))
  let pending ← guarded (if canOpen host engine then (openDatabase engine dbs).counts ms
    else .error cannotOpen)
  let masked ← guarded (Url.mask url)
  let head := ["Capture table", "Source table", "Entity", "Pending"]
  return ⟨["Connection: " ++ masked], some ⟨"triggersearch status (" ++ s.name ++ ")",
    head :: ms.map fun m => statusRow m pending⟩, []⟩

def outcomeOf : Attempt Printout → Outcome
  | .ok p => .printed p
  | .error outcome => outcome

/-- Runs the command that the arguments ask for. -/
def run (args : List String) (dbs : Databases) (options : Config.Options := .none) :
    Outcome × Databases :=
  match read args with
  | .misuse => (.misused, dbs)
  | .help => (.explained, dbs)
  | .command (.sql config drops) => (outcomeOf (sql host config drops options), dbs)
  | .command (.status config) => (outcomeOf (status host config dbs options), dbs)
  | .command (.setup config asked) =>
    let (r, dbs) := setup host config asked dbs options
    (outcomeOf r, dbs)

def version : String := "triggersearch 0.1.0\n"

/-- Runs the program: the exit code, and the version if it was asked for. -/
def program (args : List String) (dbs : Databases) (options : Config.Options := .none) :
    Nat × String × Databases :=
  if asksForVersion args then (0, version, dbs)
  else
    let (outcome, dbs) := run host args dbs options
    (outcome.exitCode, "", dbs)

end IndexSync.Cli
