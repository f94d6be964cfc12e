import IndexSync.Failure
import IndexSync.Store.Affinity

/-! Tables: rows in the order of their keys, and the changes that can be made to them. The case of
plain letters does not count in names. -/
namespace IndexSync.Store

def sameName (a b : String) : Bool :=
  a.toList.map Char.toLower = b.toList.map Char.toLower

structure Column where
  name : String
  affinity : Affinity
  required : Bool
  deriving DecidableEq, Repr

/-- How a row comes to its key when it is given none: by the number after the largest there is, or
after the largest there ever was. -/
inductive Numbering
  | given | afterLargest | neverAgain
  deriving DecidableEq, Repr

/-- A row: a value for each column, in the order of the columns. -/
abbrev Row := List Value

structure Table where
  name : String
  columns : List Column
  keyColumns : List String
  numbering : Numbering
  /-- The largest key that was ever numbered. -/
  largest : Int
  rows : List Row
  deriving Repr

namespace Table

def position? (t : Table) (name : String) : Option Nat :=
  t.columns.findIdx? fun c => sameName c.name name

def hasColumn (t : Table) (name : String) : Bool := (t.position? name).isSome

/-- The value in a column. A column that is not there holds nothing. -/
def cell (t : Table) (name : String) (row : Row) : Value :=
  ((t.position? name).bind (row[·]?)).getD .null

def keyOf (t : Table) (row : Row) : List Value := t.keyColumns.map (t.cell · row)

def noColumn (name : String) : Failure := .store (.refused ("no such column: " ++ name))

def requireColumns (t : Table) (names : List String) : Except Failure Unit :=
  match names.find? fun n => !t.hasColumn n with
  | some name => .error (noColumn name)
  | none => .ok ()

/-- The value that a list of named values holds for a column. -/
def named? (cells : List (String × Value)) (name : String) : Option Value :=
  (cells.find? fun (n, _) => sameName n name).map (·.2)

/-- The full row of named values. A column without a value holds nothing. -/
def fullRow (t : Table) (cells : List (String × Value)) : Row :=
  t.columns.map fun c => c.affinity.store ((named? cells c.name).getD .null)

/-- The row with new values in some of its columns. -/
def changedRow (t : Table) (cells : List (String × Value)) (row : Row) : Row :=
  t.columns.map fun c =>
    match named? cells c.name with
    | some v => c.affinity.store v
    | none => t.cell c.name row

/-- The key that follows the largest one. -/
def nextKey (t : Table) : Int :=
  let keys := t.rows.filterMap fun r => match t.keyOf r with
    | [.int n] => some n
    | _ => none
  keys.foldl max (if t.numbering = .neverAgain then t.largest else 0) + 1

/-- Gives a row its key if it has none. Numbered keys are integers. -/
def numbered (t : Table) (row : Row) : Except Failure Row :=
  if t.numbering = .given then .ok row
  else match t.keyOf row with
    | [.null] => .ok (t.changedRow (t.keyColumns.map fun k => (k, .int t.nextKey)) row)
    | [.int _] => .ok row
    | _ => .error (.store (.constraint "datatype mismatch"))

/-- The first required column that a row leaves empty. -/
def missing? (t : Table) (row : Row) : Option Column :=
  ((t.columns.zip row).find? fun (c, v) => c.required && v == .null).map (·.1)

/-- Whether a row with the same key is there. Keys that hold nothing are never the same. -/
def keyTaken (t : Table) (row : Row) : Bool :=
  let key := t.keyOf row
  !key.contains .null && t.rows.any fun r => t.keyOf r == key

/-- Puts a row in its place. -/
def place (t : Table) (row : Row) : List Row → List Row
  | [] => [row]
  | r :: rest =>
    if storedListLe (t.keyOf r) (t.keyOf row) then r :: t.place row rest else row :: r :: rest

def raisedLargest (t : Table) (row : Row) : Int :=
  match t.keyOf row with
  | [.int n] => max t.largest n
  | _ => t.largest

/-- Adds a row if nothing forbids it. -/
def addRow (t : Table) (row : Row) : Except Failure Table :=
  match t.missing? row with
  | some c => .error (.store (.constraint ("NOT NULL constraint failed: " ++ t.name ++ "." ++ c.name)))
  | none =>
    if t.keyTaken row then
      .error (.store (.constraint ("UNIQUE constraint failed: " ++ t.name)))
    else .ok { t with rows := t.place row t.rows, largest := t.raisedLargest row }

/-- What happened to one row. -/
inductive RowChange
  | inserted (new : Row)
  | updated (old new : Row)
  | deleted (old : Row)
  deriving Repr

/-- Inserts a row of named values. -/
def insert (t : Table) (cells : List (String × Value)) : Except Failure (Row × Table) := do
  t.requireColumns (cells.map (·.1))
  let row ← t.numbered (t.fullRow cells)
  return (row, ← t.addRow row)

/-- Whether a row holds the given values. -/
def holds (t : Table) (condition : List (String × Value)) (row : Row) : Bool :=
  condition.all fun (name, v) =>
    let stored := (t.columns.find? fun c => sameName c.name name).map (·.affinity.store v)
    stored.any (t.cell name row == ·)

/-- Puts a row before the first one that it does not have to follow by its value in a column. -/
def putBefore (t : Table) (column : String) (row : Row) : List Row → List Row
  | [] => [row]
  | r :: rest =>
    if storedLe (t.cell column row) (t.cell column r) then row :: r :: rest
    else r :: t.putBefore column row rest

/-- Rows in the order of their values in a column. Rows with the same value stay in order. -/
def orderBy (t : Table) (column : String) (rows : List Row) : List Row :=
  rows.foldr (t.putBefore column) []

/-- Takes out the rows that satisfy a test, in the order of their keys. -/
def deleteWhere (t : Table) (test : Row → Bool) : List RowChange × Table :=
  ((t.rows.filter test).map .deleted, { t with rows := t.rows.filter fun r => !test r })

def delete (t : Table) (condition : List (String × Value)) :
    Except Failure (List RowChange × Table) := do
  t.requireColumns (condition.map (·.1))
  return t.deleteWhere (t.holds condition)

def removeRow (t : Table) (row : Row) : Table := { t with rows := t.rows.erase row }

/-- Changes rows one after the other. -/
def updateRows (t : Table) (cells : List (String × Value)) :
    List Row → Except Failure (List RowChange × Table)
  | [] => .ok ([], t)
  | row :: rest => do
    let new := t.changedRow cells row
    let t ← (t.removeRow row).addRow new
    let (changes, t) ← t.updateRows cells rest
    return (.updated row new :: changes, t)

def update (t : Table) (condition cells : List (String × Value)) :
    Except Failure (List RowChange × Table) := do
  t.requireColumns ((condition ++ cells).map (·.1))
  t.updateRows cells (t.rows.filter (t.holds condition))

end Table
end IndexSync.Store
