import IndexSync.Action
import IndexSync.Store.Table
import IndexSync.Trigger.Statement

/-! Databases: tables, and triggers that add a row to one table for each row that changes in
another. -/
namespace IndexSync.Store

/-- A trigger for the rows of one table. -/
structure RowTrigger where
  name : String
  kind : EventKind
  table : String
  insert : Trigger.CaptureInsert
  deriving DecidableEq, Repr

structure Database where
  tables : List Table
  triggers : List RowTrigger
  deriving Repr

def Table.RowChange.kind : Table.RowChange → EventKind
  | inserted _ => .insert
  | updated .. => .update
  | deleted _ => .delete

/-- The version of the row that a trigger asks for, if the change has one. -/
def Table.RowChange.version? : Table.RowChange → Trigger.RowVersion → Option Row
  | inserted new, .new => some new
  | updated _ new, .new => some new
  | updated old _, .old => some old
  | deleted old, .old => some old
  | _, _ => none

def RowTrigger.watches (r : RowTrigger) (table : String) (kind : EventKind) : Bool :=
  r.kind = kind && sameName r.table table

/-- The columns of the changed row that a trigger reads. -/
def RowTrigger.columnsRead (r : RowTrigger) : List String :=
  r.insert.values.filterMap fun v => match v with
    | .column _ name => some name
    | .code _ => none

/-- The named values that a trigger stores for a change in a table. -/
def RowTrigger.cells (r : RowTrigger) (t : Table) (change : Table.RowChange) :
    List (String × Value) :=
  r.insert.columns.zip (r.insert.values.map fun v => match v with
    | .column version name => ((change.version? version).map (t.cell name)).getD .null
    | .code n => .int n)

namespace Database

def empty : Database := ⟨[], []⟩

def find? (db : Database) (name : String) : Option Table :=
  db.tables.find? fun t => sameName t.name name

def hasTable (db : Database) (name : String) : Bool := (db.find? name).isSome

def table (db : Database) (name : String) : Except Failure Table :=
  match db.find? name with
  | some t => .ok t
  | none => .error (.store (.refused ("no such table: " ++ name)))

/-- The database with a table in place of the one of the same name. -/
def setTable (db : Database) (t : Table) : Database :=
  { db with tables := db.tables.map fun u => if sameName u.name t.name then t else u }

/-- Whether all triggers that a kind of change sets off can run. A trigger does not set itself
off. -/
def ready : (depth : Nat) → List RowTrigger → Database → String → EventKind → Except Failure Unit
  | 0, _, _, _, _ => .ok ()
  | depth + 1, idle, db, name, kind =>
    (idle.filter (·.watches name kind)).forM fun r => do
      (← db.table name).requireColumns r.columnsRead
      (← db.table r.insert.table).requireColumns r.insert.columns
      ready depth (idle.erase r) db r.insert.table .insert

/-- Runs the triggers that a change sets off, and those that their rows set off. -/
def fire : (depth : Nat) → List RowTrigger → Database → Table → Table.RowChange →
    Except Failure Database
  | 0, _, db, _, _ => .ok db
  | depth + 1, idle, db, t, change =>
    (idle.filter (·.watches t.name change.kind)).foldlM (fun db r => do
      let target ← db.table r.insert.table
      let (row, target) ← target.insert (r.cells t change)
      fire depth (idle.erase r) (db.setTable target) target (.inserted row)) db

def fireAll (db : Database) (t : Table) (changes : List Table.RowChange) :
    Except Failure Database :=
  changes.foldlM (fun db change => fire db.triggers.length db.triggers db t change) db

def readyFor (db : Database) (name : String) (kind : EventKind) : Except Failure Unit :=
  ready db.triggers.length db.triggers db name kind

/-- Inserts a row, and answers the row as it is stored. -/
def insert (db : Database) (name : String) (cells : List (String × Value)) :
    Except Failure (Row × Database) := do
  let t ← db.table name
  db.readyFor name .insert
  let (row, t) ← t.insert cells
  return (row, ← (db.setTable t).fireAll t [.inserted row])

def update (db : Database) (name : String) (condition cells : List (String × Value)) :
    Except Failure Database := do
  let t ← db.table name
  db.readyFor name .update
  let (changes, t) ← t.update condition cells
  (db.setTable t).fireAll t changes

def delete (db : Database) (name : String) (condition : List (String × Value)) :
    Except Failure Database := do
  let t ← db.table name
  db.readyFor name .delete
  let (changes, t) ← t.delete condition
  (db.setTable t).fireAll t changes

/-- One change that a writer makes. -/
inductive Write
  | insert (table : String) (cells : List (String × Value))
  | update (table : String) (condition cells : List (String × Value))
  | delete (table : String) (condition : List (String × Value))
  deriving Repr

def apply (db : Database) : Write → Except Failure Database
  | .insert table cells => (db.insert table cells).map (·.2)
  | .update table condition cells => db.update table condition cells
  | .delete table condition => db.delete table condition

/-- Makes changes in one transaction: all of them, or none if one fails. -/
def write (ws : List Write) : Action Database Unit := fun db =>
  match ws.foldlM apply db with
  | .ok changed => (.ok (), changed)
  | .error f => (.error f, db)

end Database
end IndexSync.Store
