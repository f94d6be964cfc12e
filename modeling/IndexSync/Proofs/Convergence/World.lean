import IndexSync.Proofs.Convergence.Cells
import IndexSync.Proofs.Convergence.Net
import IndexSync.Proofs.Dispatch.Steps
import IndexSync.Proofs.Poller.Access

/-!
# A database, its index and a poller between them

Writers change entities and leave rows in capture tables. The poller collects the rows and dispatches
them step by step; writers may act between any two steps, every step may fail, and the poller may be
restarted.
-/
namespace IndexSync
open Search

namespace Registry

variable (R : Registry)

/-- An entity under an id: the mapping for it is that of the type, and its documents carry the id. -/
def Fits (i : Identity) (e : Entity) : Prop :=
  ∀ m ∈ R.mappings.list, m.indexedType = i.type → R.mappings.mappingFor e.type = some m ∧
    ∀ doc, m.buildDocument e = .ok doc → R.Carries i doc

/-- A new state of one entity, or its end, with the row that is left in the capture table. -/
structure Write where
  model : CaptureModel
  id : Value
  columns : List Value
  key : Int
  entity : Option Entity
  watched : model ∈ R.poller.models
  possible : R.ids model.entityType id
  read : model.entityId columns = .ok id
  fits : ∀ e ∈ entity, R.Fits ⟨model.entityType, id⟩ e

def Write.identity {R : Registry} (w : R.Write) : Identity := ⟨w.model.entityType, w.id⟩

/-- What may happen just before one use of the capture tables. -/
structure Moment where
  writes : List R.Write
  fault : Option Failure

/-- A failure of a step, or a commit that breaks off after some changes. -/
inductive Fault
  | failure (f : Failure)
  | brokenOff (made : Nat) (f : Failure)

/-- The database with its capture tables, the index, and what is to happen while rows are collected or
deleted. It is noted of which entities a restart has brought back a deletion although they exist. -/
structure World where
  entities : Identity → Option Entity
  tables : CaptureTables
  index : Backend
  misled : Identity → Bool
  moments : List R.Moment

/-- The event that the model of its table reads in a row. -/
def eventOf (r : CaptureRow) : Option CaptureEvent :=
  (R.poller.models.find? (·.captureTable = r.table)).bind fun m =>
    (m.eventOfRow r.key r.ids r.code).toOption

/-- The kind of the last of some rows about an entity. -/
def lastKind (i : Identity) (rows : List CaptureRow) : Option EventKind :=
  (lastAbout i (rows.filterMap R.eventOf)).map (·.kind)

/-- The index shows an entity: its document, or none if there is no entity. -/
def Shows (i : Identity) (entity : Option Entity) (found : Option Document) : Prop :=
  match entity with
  | none => found = none
  | some e => ∃ m ∈ R.mappings.list, m.indexedType = i.type ∧
      ∃ doc, m.buildDocument e = .ok doc ∧ found = some doc

namespace World

variable {R : Registry}

/-- What a write does to an entity. -/
def kindOf : Option Entity → Option Entity → Option EventKind
  | none, none => none
  | none, some _ => some .insert
  | some _, some _ => some .update
  | some _, none => some .delete

def rowOf (w : R.Write) (kind : EventKind) : CaptureRow :=
  ⟨w.model.captureTable, w.key, w.columns, .int (kind.code?.getD 0)⟩

/-- Changes an entity and leaves a row, both or none. A key that is not new is refused, and what is not
there is not deleted. -/
def write (w : R.Write) (s : World R) : World R :=
  match kindOf (s.entities w.identity) w.entity with
  | none => s
  | some kind =>
    if ∀ r ∈ s.tables.written, r.table = w.model.captureTable → r.key < w.key then
      { s with
        entities := fun i => if i == w.identity then w.entity else s.entities i
        tables := s.tables.append (rowOf w kind)
        misled := fun i => if i == w.identity then false else s.misled i }
    else s

/-- Takes the next moment. When there is none, nothing happens. -/
def moment : Action (World R) Unit := fun s =>
  match s.moments with
  | [] => (.ok (), s)
  | t :: rest =>
    let s := t.writes.foldl (fun s w => s.write w) { s with moments := rest }
    match t.fault with
    | none => (.ok (), s)
    | some f => (.error f, s)

/-- The capture tables over connections that a fault can break. -/
def captures : CaptureAccess (World R) :=
  .paced moment tables fun s tables => { s with tables := tables }

/-- Fails if a fault is given. -/
def strike : Option Fault → Action (World R) Unit
  | none => pure ()
  | some (.failure f) | some (.brokenOff _ f) => Action.fail f

def onIndex {α : Type} (x : Action Backend α) : Action (World R) α := fun s =>
  let (r, index) := x s.index
  (r, { s with index := index })

def snapshot (i : Identity) : Action (World R) (Option Entity) := Action.read (·.entities i)

/-- Makes the first changes of a transaction and closes it. -/
def breakOff (ms : Mappings) (t made : Nat) (f : Failure) : Action Backend Unit := fun b =>
  if (b.transaction t).closed then (.error (.state .transactionClosed), b)
  else
    let index := (Index.applyAll ms ((b.transaction t).staged.take made) b.index).2
    (.error f, { b with index := index }.setTransaction t ⟨[], true⟩)

def commit (fault : Option Fault) (t : Nat) : Action (World R) Unit :=
  match fault with
  | none => onIndex (Backend.commit R.mappings t)
  | some (.failure f) => Action.fail f
  | some (.brokenOff made f) => onIndex (breakOff R.mappings t made f)

/-- What a step of a dispatch works with, when the given fault strikes. -/
def surroundings (fault : Option Fault) : Surroundings (World R) Nat where
  openSession := strike fault
  snapshot type id := do
    strike fault
    snapshot ⟨type, id⟩
  leaveSession := id
  closeSession := strike fault
  begin := do
    strike fault
    onIndex Backend.begin
  stage t r := do
    strike fault
    onIndex (Backend.stage R.mappings t r)
  commit := commit fault
  rollback t s := { s with index := s.index.rollback t }
  report _ s := s

/-- Notes which entities are misled by a restart: all rows that are left will be read again, and the
last one about an entity decides. -/
def mislead (s : World R) : World R :=
  { s with
    misled := fun i =>
      match R.lastKind i s.tables.rows with
      | none => s.misled i
      | some .delete => (s.entities i).isSome
      | some _ => false }

/-- The index holds the document of an entity if there is one, and else none. -/
def Agrees (s : World R) (i : Identity) : Prop :=
  R.Shows i (s.entities i) (R.cell s.index.index i)

end World

/-- A world with the cursors of its poller and the tick that is on its way. -/
structure System where
  world : World R
  cursors : Cursors
  tick : Option (Poller.Collected × Dispatch.Phase Nat)

namespace System

variable {R : Registry}

inductive Move (R : Registry)
  | write (w : R.Write)
  | begin (moments : List R.Moment)
  | advance (fault : Option Fault)
  | settle (moments : List R.Moment)
  | restart

/-- The tick that goes on with what was collected. An empty batch is not handed on. -/
def handOn (c : Poller.Collected) (s : World R) :
    (Poller.Collected × Dispatch.Phase Nat) × World R :=
  if c.events.isEmpty then ((c, .done (.ok ())), s)
  else
    let (p, s) := Dispatch.start (World.surroundings none) c.events s
    ((c, p), s)

/-- A batch that is handed on and run to its end without interruption is dispatched. -/
theorem dispatch_eq_run (c : Poller.Collected) (cursors : Cursors) (s : World R) :
    R.poller.dispatch World.captures (Dispatch.batch (World.surroundings none) R.mappings) c
        (cursors, s) =
      let (outcome, s) := Dispatch.run (World.surroundings none) R.mappings (handOn c s).1.2
        (handOn c s).2
      R.poller.settle World.captures c outcome (cursors, s) := by
  unfold Poller.dispatch handOn
  by_cases hempty : c.events.isEmpty = true
  · simp only [hempty, if_true, Dispatch.run_of_done]
  · simp only [hempty, if_false, Bool.false_eq_true, Dispatch.batch_eq_run]

def step (s : System R) : Move R → System R
  | .write w => { s with world := s.world.write w }
  | .begin moments =>
    match s.tick with
    | some _ => s
    | none =>
      match R.poller.collect World.captures (s.cursors, { s.world with moments := moments }) with
      | (.error _, cursors, world) => ⟨world, cursors, none⟩
      | (.ok c, cursors, world) =>
        let (tick, world) := handOn c world
        ⟨world, cursors, some tick⟩
  | .advance fault =>
    match s.tick with
    | none => s
    | some (c, p) =>
      let (p, world) := Dispatch.step (World.surroundings fault) R.mappings p s.world
      ⟨world, s.cursors, some (c, p)⟩
  | .settle moments =>
    match s.tick with
    | some (c, .done outcome) =>
      let (_, cursors, world) :=
        R.poller.settle World.captures c outcome (s.cursors, { s.world with moments := moments })
      ⟨world, cursors, none⟩
    | _ => s
  | .restart => ⟨s.world.mislead, [], none⟩

def run (s : System R) (moves : List (Move R)) : System R := moves.foldl step s

/-- A poller over new capture tables. -/
def start (entities : Identity → Option Entity) (index : Backend) : System R :=
  ⟨⟨entities, .empty, index, fun _ => false, []⟩, [], none⟩

end System

/-- An index shows all entities, and holds nothing else under their types. -/
structure Mirrors (entities : Identity → Option Entity) (ix : Index) : Prop where
  shows : ∀ i, R.Known i → R.Shows i (entities i) (R.cell ix i)
  only : ∀ w ∈ R.poller.models, ∀ k doc, (k, doc) ∈ ix.docs w.entityType →
    ∃ i, R.Known i ∧ i.type = w.entityType ∧ k = R.key i ∧ R.Shows i (entities i) (some doc)

end Registry
end IndexSync
