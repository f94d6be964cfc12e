import IndexSync.Dispatch
import IndexSync.Site

/-! Reading entities for one dispatch, and dispatches on a site. -/
namespace IndexSync

/-- Access to the current snapshots of entities, from the opening of a session until it is given up. It is
closed after that. -/
structure EntityReader (σ : Type) where
  openSession : Action σ Unit
  snapshot : EntityType → Value → Action σ (Option Entity)
  leaveSession : σ → σ
  closeSession : Action σ Unit

/-- Dispatches on a site. An outage can strike where a transaction begins, and before it is
committed. -/
def Site.surroundings (reader : EntityReader Site) (ms : Search.Mappings) :
    Surroundings Site Nat where
  openSession := reader.openSession
  snapshot := reader.snapshot
  leaveSession := reader.leaveSession
  closeSession := reader.closeSession
  begin := do
    Site.pass .beginBatch
    Site.onIndex Search.Backend.begin
  stage := fun t r => Site.onIndex (Search.Backend.stage ms t r)
  commit := fun t => do
    Site.pass .commitBatch
    Site.onIndex (Search.Backend.commit ms t)
  rollback := fun t s => { s with index := s.index.rollback t }
  report := Site.report

/-- Entities in a list. An outage can strike at every access. -/
def EntityReader.ofList (entities : Entries Identity Entity) : EntityReader Site where
  openSession := Site.pass .openSession
  snapshot := fun type id => do
    Site.pass .snapshot
    return entities.get? ⟨type, id⟩
  leaveSession := id
  closeSession := Site.pass .closeSession

/-- An entity type whose entities are the rows of a table. The table shows the columns; entities
may have attributes that are made from them. -/
structure TableMapping where
  type : EntityType
  table : Store.Table
  derived : Entries String Value → Entries String Value

namespace TableMapping

/-- A mapping whose entities have the columns as their attributes. -/
def plain (type : EntityType) (table : Store.Table) : TableMapping := ⟨type, table, fun _ => []⟩

def cellsOf (t : Store.Table) (row : Store.Row) : Entries String Value :=
  (t.columns.map (·.name)).zip row

def entity (m : TableMapping) (row : Store.Row) : Entity :=
  let cells := cellsOf m.table row
  ⟨m.type, cells ++ m.derived cells⟩

/-- The values of an id for the columns of a key, by position or by name. -/
def keyValues? (columns : List String) (id : Value) : Option (List Value) :=
  match id with
  | .tuple items | .list items | .set items =>
    if items.length = columns.length then some items else none
  | .dict entries =>
    if entries.length = columns.length then
      columns.mapM fun name => Entries.get? (Value.text name) entries
    else none
  | v => if columns.length = 1 then some [v] else none

/-- The entity of an id. An id has as many values as the key has columns. -/
def find (m : TableMapping) (id : Value) (db : Store.Database) :
    Except Failure (Option Entity) :=
  match keyValues? m.table.keyColumns id with
  | none =>
    .error (.store (.wrongKeySize (m.table.keyColumns.map (m.table.name ++ "." ++ ·))))
  | some values => do
    let t ← db.table m.table.name
    return (t.rows.find? (t.holds (m.table.keyColumns.zip values))).map m.entity

end TableMapping

namespace Site

/-- Opens a session, if no other one is open. -/
def openSession : Action Site Unit := fun s =>
  if s.sessionOpen then (.error (.state .sessionOpen), s)
  else (.ok (), { s with sessionOpen := true })

/-- Gives up the open session. From here on another one can be opened. -/
def leaveSession (s : Site) : Site := { s with sessionOpen := false }

/-- Closes the open session, for a caller whom nobody comes between. -/
def closeSession : Action Site Unit := Action.update leaveSession

/-- Reads an entity in the open session. -/
def snapshot (mapped : List TableMapping) (type : EntityType) (id : Value) :
    Action Site (Option Entity) := fun s =>
  if !s.sessionOpen then (.error (.state .sessionNotOpen), s)
  else match mapped.find? (·.type = type) with
    | none => (.error (.store .unmappedType), s)
    | some m => (m.find id s.database, s)

/-- The rows of the mapped tables as entities. To close a session that was given up changes nothing at
the site. -/
def rows (mapped : List TableMapping) : EntityReader Site :=
  ⟨openSession, snapshot mapped, leaveSession, pure ()⟩

end Site
end IndexSync
