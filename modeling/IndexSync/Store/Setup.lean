import IndexSync.Store.Database

/-! Running setup statements. A database understands the statements of its own dialect, and of the
others those that mean the same to it. -/
namespace IndexSync.Store

/-- Whether a name can stand between two of the given tokens. -/
def isQuote (token : String) : Bool := token = "\"" || token = "\x60"

/-- The statements of a dialect that are understood. -/
def understands (s : Trigger.Statement) : Bool :=
  isQuote s.token &&
    match s.dialect, s.command with
    | _, .custom _ => false
    | .sqlite, _ => true
    | .postgresql, .createTable _ => true
    | .postgresql, .dropTable _ => true
    | .mysql, .dropTable _ => true
    | .mysql, .dropTrigger .. => true
    | _, _ => false

def captureColumns (dialect : Trigger.Dialect) (m : CaptureModel) : List Column :=
  ⟨m.keyColumn, if dialect = .sqlite then .integer else .numeric, false⟩ ::
    m.idColumns.map (fun c => ⟨c.captureColumn, .ofType c.sqlType, true⟩) ++
    [⟨m.eventTypeColumn, .integer, true⟩]

/-- The table that captures changes for a model. Only the own dialect numbers its rows. -/
def captureTable (dialect : Trigger.Dialect) (m : CaptureModel) : Table :=
  ⟨m.captureTable, captureColumns dialect m, [m.keyColumn],
    if dialect = .sqlite then .neverAgain else .given, 0, []⟩

/-- Whether a name stands twice in a list. -/
def hasTwice : List String → Bool
  | [] => false
  | name :: rest => rest.any (sameName name) || hasTwice rest

def refused (reason : String) : Failure := .store (.refused reason)

/-- What names of the database's own objects begin with. -/
def ownStem : String := "sqlite_"

def isReserved (name : String) : Bool := sameName (String.ofList (name.toList.take 7)) ownStem

namespace Database

/-- Adds a table, unless there is one of that name. -/
def createTable (t : Table) (db : Database) : Except Failure Database :=
  if isReserved t.name then .error (refused ("object name reserved for internal use: " ++ t.name))
  else if db.hasTable t.name then .ok db
  else if hasTwice (t.columns.map (·.name)) then .error (refused "duplicate column name")
  else .ok { db with tables := db.tables ++ [t] }

/-- Takes a table out with the triggers for its rows. -/
def dropTable (name : String) (db : Database) : Database where
  tables := db.tables.filter fun t => !sameName t.name name
  triggers := db.triggers.filter fun r => !sameName r.table name

def createTrigger (r : RowTrigger) (db : Database) : Except Failure Database :=
  if !db.hasTable r.table then .error (refused ("no such table: " ++ r.table))
  else if db.triggers.any fun s => sameName s.name r.name then .ok db
  else .ok { db with triggers := db.triggers ++ [r] }

def dropTrigger (name : String) (db : Database) : Database :=
  { db with triggers := db.triggers.filter fun r => !sameName r.name name }

def run (db : Database) (dialect : Trigger.Dialect) : Trigger.Command → Except Failure Database
  | .createTable m => db.createTable (captureTable dialect m)
  | .dropTable name => .ok (db.dropTable name)
  | .createTrigger name kind table (.insert i) => db.createTrigger ⟨name, kind, table, i⟩
  | .dropTrigger name _ => .ok (db.dropTrigger name)
  | _ => .error (refused "syntax error")

/-- Runs one statement in a transaction of its own. -/
def execute (s : Trigger.Statement) : Action Database Unit := fun db =>
  if !understands s then (.error (refused "syntax error"), db)
  else match db.run s.dialect s.command with
    | .ok changed => (.ok (), changed)
    | .error f => (.error f, db)

/-- Adds the capture table of a model in the own dialect. -/
def addCaptureTable (m : CaptureModel) (db : Database) : Database :=
  (db.createTable (captureTable .sqlite m)).toOption.getD db

/-- A database with the capture tables of models. -/
def ofModels (ms : List CaptureModel) : Database :=
  ms.foldl (fun db m => db.addCaptureTable m) empty

end Database
end IndexSync.Store
