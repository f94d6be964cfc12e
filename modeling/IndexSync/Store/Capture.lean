import IndexSync.Store.Database

/-! Capture tables as the poller sees them: pages of captured changes, their count, and the deletion
of rows that have been dealt with. -/
namespace IndexSync.Store.Database

def isAfter (m : CaptureModel) (t : Table) (after : Option Int) (row : Row) : Bool :=
  match after with
  | none => true
  | some k =>
    match (t.cell m.keyColumn row).number? with
    | some n => k < n
    | none => t.cell m.keyColumn row != .null

/-- The captured change that a row holds. -/
def eventOf (m : CaptureModel) (t : Table) (row : Row) : Except Failure CaptureEvent :=
  m.eventOfSelection (m.selectedColumns.map (t.cell · row))

/-- At most `n` captured changes with keys after the given one, in the order of their keys. -/
def page (m : CaptureModel) (after : Option Int) (n : Nat) (db : Database) :
    Except Failure (List CaptureEvent) := do
  let t ← db.table m.captureTable
  t.requireColumns m.selectedColumns
  ((t.orderBy m.keyColumn (t.rows.filter (isAfter m t after))).take n).mapM (eventOf m t)

/-- How many captured changes wait. -/
def count (m : CaptureModel) (db : Database) : Except Failure Nat := do
  return (← db.table m.captureTable).rows.length

/-- How many captured changes wait in each capture table. -/
def counts (ms : List CaptureModel) (db : Database) : Except Failure (Entries String Nat) :=
  ms.foldlM (fun found m => do return found.put m.captureTable (← db.count m)) []

/-- Deletes the rows with the given keys. -/
def deleteKeys (m : CaptureModel) (keys : List Int) (db : Database) : Except Failure Database := do
  let t ← db.table m.captureTable
  db.readyFor m.captureTable .delete
  t.requireColumns [m.keyColumn]
  let (changes, t) := t.deleteWhere fun row => keys.any fun k => t.cell m.keyColumn row == .int k
  (db.setTable t).fireAll t changes

/-- Adds a captured change by hand, and answers its key. -/
def capture (m : CaptureModel) (key : Option Int) (ids : List Value) (code : Value)
    (db : Database) : Except Failure (Value × Database) := do
  let cells := (key.map fun k => (m.keyColumn, .int k)).toList ++
    (m.idColumns.map (·.captureColumn)).zip ids ++ [(m.eventTypeColumn, code)]
  let (row, db) ← db.insert m.captureTable cells
  return (((← db.table m.captureTable)).cell m.keyColumn row, db)

/-- The keys of all rows of a capture table, if it is there. -/
def keys? (m : CaptureModel) (db : Database) : Option (List Value) :=
  (db.find? m.captureTable).map fun t => t.rows.map (t.cell m.keyColumn)

end IndexSync.Store.Database
