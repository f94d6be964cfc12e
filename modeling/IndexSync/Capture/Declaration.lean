import IndexSync.Catalog

/-! Declarations of watched entities, and the descriptions of capture tables built from them. -/
namespace IndexSync

/-- How a declaration names its entity. -/
inductive EntityReference
  | missing
  | path (text : String)
  | known (c : EntityClass)
  deriving Repr

/-- A watched entity as it is declared. Absent parts are faults, except for the source table, which
the entity's class may know. -/
structure Declaration where
  entity : EntityReference
  captureTable : Option String
  idColumns : List IdColumn
  sourceTable : Option String
  eventTypeColumn : Option String
  keyColumn : Option String
  deriving Repr

namespace Declaration

def nonBlank? (text : Option String) : Option String := text.bind Text.nonBlank?

/-- A part that must be there and not blank. -/
def require (text : Option String) (otherwise : DeclarationError) : Except Failure String :=
  match nonBlank? text with
  | some s => .ok s
  | none => .error (.declaration otherwise)

def entityClass (catalog : Catalog) (table : String) : EntityReference → Except Failure EntityClass
  | .missing => .error (.declaration (.noEntity table))
  | .path text =>
    if (Text.nonBlank? text).isNone then .error (.declaration (.noEntity table))
    else catalog.resolveEntity text
  | .known c => .ok c

def hasBlank (column : IdColumn) : Bool :=
  (Text.nonBlank? column.captureColumn).isNone || (Text.nonBlank? column.sourceColumn).isNone

/-- The description that a declaration gives. The first fault in the order of the checks is
reported. -/
def build (catalog : Catalog) (d : Declaration) : Except Failure CaptureModel := do
  let table ← require d.captureTable .noCaptureTable
  let c ← entityClass catalog table d.entity
  if d.idColumns.isEmpty then .error (.declaration (.noIdColumns table))
  if d.idColumns.any hasBlank then .error (.declaration (.blankIdColumn table))
  let eventTypeColumn ← require d.eventTypeColumn (.noEventTypeColumn table)
  let keyColumn ← require d.keyColumn (.noKeyColumn table)
  match (nonBlank? d.sourceTable).or c.hints.tableName? with
  | some source => return ⟨c.type, table, source, d.idColumns, eventTypeColumn, keyColumn⟩
  | none => .error (.declaration (.noSourceTable table c.type.name))

/-- The descriptions of declarations in their order, when those before them have taken the given
capture tables. -/
def buildFrom (catalog : Catalog) (taken : List String) :
    List Declaration → Except Failure (List CaptureModel)
  | [] => .ok []
  | d :: rest => do
    let m ← d.build catalog
    if m.captureTable ∈ taken then .error (.declaration (.declaredTwice m.captureTable))
    let ms ← buildFrom catalog (taken ++ [m.captureTable]) rest
    return m :: ms

def buildAll (catalog : Catalog) (ds : List Declaration) : Except Failure (List CaptureModel) :=
  buildFrom catalog [] ds

end Declaration
end IndexSync
