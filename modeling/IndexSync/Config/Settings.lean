import IndexSync.Capture.Declaration
import IndexSync.Config.Complaint
import IndexSync.Config.File
import IndexSync.Json.Read
import IndexSync.Trigger.Plan

/-! The settings of one synchronization, from a file, the environment, and the caller. -/
namespace IndexSync.Config

/-- Where changes come from: the capture tables of a database, or the caller. -/
inductive SyncType
  | sql | manual
  deriving DecidableEq, Repr

def SyncType.name : SyncType → String
  | sql => "sql"
  | manual => "manual-updates"

/-- A watched entity as the settings describe it. -/
structure WatchedEntity where
  entity : String
  captureTable : String
  sourceTable : Option String
  ids : List IdColumn
  eventTypeColumn : String
  keyColumn : String
  deriving DecidableEq, Repr

def WatchedEntity.declaration (w : WatchedEntity) : Declaration :=
  ⟨.path w.entity, some w.captureTable, w.ids, w.sourceTable, some w.eventTypeColumn,
    some w.keyColumn⟩

/-- Keywords that say where settings come from and give none themselves. The library that reads settings knows
them by name, and what they lead to: the values of settings, or a failure. -/
structure Options where
  names : List String
  read : (steering given : List (String × Value)) → Environment →
    Except Failure (List (String × Value))

namespace Options

/-- No keyword says where settings come from. -/
def none : Options := ⟨[], fun _ given _ => .ok given⟩

variable (options : Options) (given : List (String × Value))

/-- The entries that say where settings come from. -/
def steering : List (String × Value) := given.filter fun (k, _) => options.names.contains k

/-- The entries that give settings. -/
def others : List (String × Value) := given.filter fun (k, _) => !options.names.contains k

end Options

structure Settings where
  name : String
  type : SyncType
  databaseUrl : Option String
  triggerSource : Option String
  strategy : Trigger.Strategy
  delay : Binary64
  batchSize : Nat
  pageSize : Nat
  watched : List WatchedEntity
  deriving Repr

namespace Settings

def columnOf (v : Value) : Checked IdColumn := do
  let entries ← entriesOf .notColumn v
  let build : Checked (String → String → String → IdColumn) := .ok IdColumn.mk
  build
    |>.both (required entries "capture_column" textOf)
    |>.both (required entries "source_column" textOf)
    |>.both (optional entries "sql_type" IdColumn.defaultType textOf)

def watchedOf (v : Value) : Checked WatchedEntity := do
  let entries ← entriesOf .notEntity v
  let build : Checked
      (String → String → Option String → List IdColumn → String → String → WatchedEntity) :=
    .ok WatchedEntity.mk
  build
    |>.both (required entries "entity" textOf)
    |>.both (required entries "capture_table" textOf)
    |>.both (optional entries "source_table" none optionalTextOf)
    |>.both (optional entries "ids" [] (listOf columnOf))
    |>.both (optional entries "event_type_column" CaptureModel.defaultEventTypeColumn textOf)
    |>.both (optional entries "key_column" CaptureModel.defaultKeyColumn textOf)

def types : List (String × SyncType) := [.sql, .manual].map fun (t : SyncType) => (t.name, t)

def strategies : List (String × Trigger.Strategy) :=
  [.create, .dropCreate, .dontCreate].map fun (s : Trigger.Strategy) => (s.name, s)

/-- The delay between two runs when none is given: half a second. -/
def defaultDelay : Binary64 := Binary64.ofRatio false 1 2

def defaultBatchSize : Nat := 5
def defaultPageSize : Nat := 50

/-- The settings that entries give, or all that is wrong with them. -/
def check (entries : List (Value × Value)) : Checked Settings :=
  let build : Checked (String → SyncType → Option String → Option String → Trigger.Strategy →
      Binary64 → Nat → Nat → List WatchedEntity → Settings) := .ok Settings.mk
  build
    |>.both (optional entries "name" "default" nameOf)
    |>.both (optional entries "type" .sql (oneOf types))
    |>.both (optional entries "database_url" none optionalTextOf)
    |>.both (optional entries "trigger_source" none optionalTextOf)
    |>.both (optional entries "trigger_creation_strategy" .create (oneOf strategies))
    |>.both (optional entries "update_delay_seconds" defaultDelay positiveOf)
    |>.both (optional entries "batch_size_for_updates" defaultBatchSize countOf)
    |>.both (optional entries "batch_size_for_update_queries" defaultPageSize countOf)
    |>.both (optional entries "watched_entities" [] (listOf watchedOf))

/-- The names of all settings. -/
def names : List String :=
  ["name", "type", "database_url", "trigger_source", "trigger_creation_strategy",
    "update_delay_seconds", "batch_size_for_updates", "batch_size_for_update_queries",
    "watched_entities"]

/-- The setting that is a list. In the environment it is written in JSON. -/
def listName : String := "watched_entities"

/-- What the names of variables for settings begin with, in small letters. -/
def variableStem : String := "triggersearch_"

/-- The value of a variable. The case of its name does not count, and the last one wins. -/
def named? (env : Environment) (name : String) : Option String :=
  (env.reverse.find? fun (k, _) => Text.lower k = variableStem ++ name).map (·.2)

/-- Whether variables are there for parts of a setting. -/
def hasParts (env : Environment) (name : String) : Bool :=
  let stem := variableStem ++ name ++ "__"
  env.any fun (k, _) => stem.toList.isPrefixOf (Text.lower k).toList

/-- What the environment gives for a setting. Parts of a list can only make a dictionary. -/
def fromEnvironment (env : Environment) (name : String) : Except Failure (Option Value) :=
  if name ≠ listName then .ok ((named? env name).map .text)
  else
    match named? env name with
    | none => .ok (if hasParts env name then some (.dict []) else none)
    | some text =>
      match Json.read? text with
      | none => .error (.unreadableEnvironment name)
      | some .null => .ok none
      | some v => .ok (some v)

/-- What the given entries hold for a setting: under its name, or under its name in another
case. -/
def given? (entries : List (String × Value)) (name : String) : Option Value :=
  (entries.lookup name).or ((entries.find? fun (k, _) => Text.lower k = name).map (·.2))

/-- The entries by name. A key that is no text names nothing. -/
def textKeys (entries : Entries Value Value) : Except Failure (List (String × Value)) :=
  entries.mapM fun (k, v) => match k with
    | .text name => .ok (name, v)
    | _ => .error .nonTextSetting

/-- The values of settings: those that are given, and for the others what the environment gives. -/
def layered (env : Environment) (given : List (String × Value)) :
    Except Failure (List (String × Value)) := do
  let values ← names.mapM fun name => do
    let fallback ← fromEnvironment env name
    return ((given? given name).or fallback).map fun v => (name, v)
  return values.filterMap id

/-- The values of settings, from where the entries say that they come from. -/
def valuesOf (env : Environment) (options : Options) (given : List (String × Value)) :
    Except Failure (List (String × Value)) :=
  if (options.steering given).isEmpty then layered env given
  else options.read (options.steering given) (options.others given) env

def ofValues (values : List (String × Value)) : Except Failure Settings :=
  match check (values.map fun (name, v) => (.text name, v)) with
  | .ok settings => .ok settings
  | .error problems => .error (.settings (.invalid (problems.map (·.text))))

/-- Settings from given entries, with the environment for those that are not given, unless the entries
say that settings come from elsewhere. -/
def ofEntries (env : Environment) (entries : Entries Value Value) (options : Options := .none) :
    Except Failure Settings := do
  let given ← textKeys entries
  let values ← valuesOf env options given
  ofValues values

/-- Settings from a file, with overrides that win over it. -/
def load (env : Environment) (path : String) (file : FileState) (overrides : List (String × Value))
    (options : Options := .none) : Except Failure Settings := do
  let entries ← file.entries path
  ofEntries env (overrides.foldl (fun es (k, v) => es.put (.text k) v) entries) options

def declarations (s : Settings) : List Declaration := s.watched.map (·.declaration)

end Settings
end IndexSync.Config
