import IndexSync.Capture.Event

/-! Descriptions of capture tables. -/
namespace IndexSync

/-- One column of an entity's id: its name in the capture table, its name in the source table, and
its type in the capture table. -/
structure IdColumn where
  captureColumn : String
  sourceColumn : String
  sqlType : String
  deriving DecidableEq, Repr

def IdColumn.defaultType : String := "BIGINT"

/-- One watched entity type with its capture table and the table that its rows live in. -/
structure CaptureModel where
  entityType : EntityType
  captureTable : String
  sourceTable : String
  idColumns : List IdColumn
  eventTypeColumn : String
  keyColumn : String
  deriving DecidableEq, Repr

namespace CaptureModel

def defaultEventTypeColumn : String := "eventcase"
def defaultKeyColumn : String := "updateid"

def hasCompositeId (m : CaptureModel) : Bool := 1 < m.idColumns.length

/-- The id that the values of the id columns form: the bare value of a single column, a tuple of
several. -/
def entityId (m : CaptureModel) (values : List Value) : Except Failure Value :=
  if values.length ≠ m.idColumns.length then
    .error (.range (.idValues m.idColumns.length m.captureTable values.length))
  else if m.hasCompositeId then .ok (.tuple values)
  else match values with
    | [] => .error .noIdValue
    | v :: _ => .ok v

/-- The event that a row of the capture table holds. -/
def eventOfRow (m : CaptureModel) (key : Int) (ids : List Value) (code : Value) :
    Except Failure CaptureEvent := do
  let id ← m.entityId ids
  let kind ← EventKind.ofCode code
  return ⟨m.entityType, id, kind, key, m.captureTable⟩

/-- The columns that are selected of a capture table: the key, the ids, the code. -/
def selectedColumns (m : CaptureModel) : List String :=
  m.keyColumn :: m.idColumns.map (·.captureColumn) ++ [m.eventTypeColumn]

/-- The event that the selected values of a row form: the first is the key, the last is the code, and those
between them are the ids. -/
def eventOfSelection (m : CaptureModel) (values : List Value) : Except Failure CaptureEvent := do
  let id ← m.entityId values.tail.dropLast
  let kind ← EventKind.ofCode (values.getLastD .null)
  let key ← (values.headD .null).toInteger.mapError .conversion
  return ⟨m.entityType, id, kind, key, m.captureTable⟩

end CaptureModel
end IndexSync
