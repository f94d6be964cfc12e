import IndexSync.Capture.Merge
import IndexSync.Capture.Model
import IndexSync.Notice

/-! One tick of the poller: captured changes are collected from all capture tables in one order,
handed on as one batch, and then marked as consumed. Nothing is marked unless the whole batch has been
accepted, so that after a failure the next tick hands on the same batch again. -/
namespace IndexSync

structure Poller where
  models : List CaptureModel
  batchSize : Nat
  pageSize : Nat
  delay : Rat
  initialDelay : Rat
  name : String
  deriving Repr

/-- How a poller reaches the capture tables. A deletion is made in one transaction. -/
structure CaptureAccess (σ : Type) where
  connect : Action σ Unit
  page : CaptureModel → Option Int → Nat → Action σ (List CaptureEvent)
  delete : List (CaptureModel × List Int) → Action σ Unit
  report : Notice → σ → σ

/-- The last consumed key of each capture table. -/
abbrev Cursors := Entries String Int

namespace Poller

def defaultBatchSize : Nat := 5
def defaultName : String := "default"

/-- A setting that has to be an integer above zero. The truth values are no integers. -/
def countOf (v : Value) (otherwise : RangeError) : Except Failure Nat :=
  match v with
  | .int n => if 1 ≤ n then .ok n.toNat else .error (.range otherwise)
  | _ => .error (.range otherwise)

/-- A delay above zero. The undefined number is not below anything, and passes. -/
def checkDelay (v : Value) : Except Failure Unit :=
  match v.number?, v with
  | some n, _ => if n ≤ 0 then .error (.range .delaySetting) else .ok ()
  | none, .float (.infinite true) => .error (.range .delaySetting)
  | none, .float _ => .ok ()
  | none, v => .error (.conversion (.notNumeric v.typeName))

/-- A poller with the given settings. The first delay is that of all others unless it is given. -/
def create (models : List CaptureModel) (batchSize pageSize delay : Value)
    (initialDelay : Option Rat) (name : String) : Except Failure Poller := do
  let batchSize ← countOf batchSize .batchSizeSetting
  let pageSize ← countOf pageSize .pageSizeSetting
  checkDelay delay
  let seconds := delay.number?.getD 0
  return ⟨models, batchSize, pageSize, seconds, initialDelay.getD seconds, name⟩

/-- What a tick has collected: the events for the batch, and the keys of all rows by table, those
with unknown codes among them. -/
structure Collected where
  events : List CaptureEvent
  consumed : Entries String (List Int)
  deriving Repr

def Collected.empty : Collected := ⟨[], []⟩

def Collected.add (c : Collected) (e : CaptureEvent) : Collected where
  events := if e.kind = .unknown then c.events else c.events ++ [e]
  consumed := c.consumed.put e.captureTable ((c.consumed.get? e.captureTable).getD [] ++ [e.key])

variable {σ : Type} (access : CaptureAccess σ) (p : Poller)

def fetch : Fetch σ := fun i after n =>
  match p.models[i]? with
  | some m => access.page m after n
  | none => pure []

/-- A row with an unknown code is skipped, and reported. -/
def noticeOf (e : CaptureEvent) (s : σ) : σ :=
  if e.kind = .unknown then access.report (.skippedRow e.key e.captureTable) s else s

/-- Collects the events of at most `n` advances. -/
def gather : Nat → Collected → Action (MergeCursor × σ) Collected
  | 0, done => pure done
  | n + 1, done => fun (c, s) =>
    match MergeCursor.advance (fetch access p) (c, s) with
    | (.error f, c, s) => (.error f, c, s)
    | (.ok false, c, s) => (.ok done, c, s)
    | (.ok true, c, s) =>
      match c.current with
      | none => (.ok done, c, s)
      | some e => gather n (done.add e) (c, noticeOf access e s)

/-- Collects the next batch, over one connection. -/
def collect : Action (Cursors × σ) Collected := fun (cursors, s) =>
  match access.connect s with
  | (.error f, s) => (.error f, cursors, s)
  | (.ok _, s) =>
    match MergeCursor.create (p.models.map (·.captureTable)) p.pageSize cursors
        (some (p.batchSize : Int)) with
    | .error f => (.error f, cursors, s)
    | .ok cursor =>
      let (r, _, s) := gather access p p.batchSize .empty (cursor, s)
      (r, cursors, s)

/-- The cursors after rows of one table have been consumed. They never go back. -/
def moveCursor (cursors : Cursors) (table : String) (keys : List Int) : Cursors :=
  match keys.max? with
  | none => cursors
  | some highest => cursors.put table (max highest ((cursors.get? table).getD highest))

def moveCursors (cursors : Cursors) (consumed : Entries String (List Int)) : Cursors :=
  consumed.foldl (fun cursors (table, keys) => moveCursor cursors table keys) cursors

/-- The model of a table; of several, the last. -/
def modelOf? (table : String) : Option CaptureModel :=
  p.models.reverse.find? (·.captureTable = table)

def deletions (consumed : Entries String (List Int)) : List (CaptureModel × List Int) :=
  consumed.filterMap fun (table, keys) => (p.modelOf? table).map fun m => (m, keys)

/-- Moves the cursors and deletes the consumed rows. If the deletion fails, the rows stay behind the
cursors, and the tick goes on. -/
def markConsumed (consumed : Entries String (List Int)) : Action (Cursors × σ) Unit :=
  fun (cursors, s) =>
    if consumed.isEmpty then (.ok (), cursors, s)
    else
      let cursors := moveCursors cursors consumed
      match access.delete (p.deletions consumed) s with
      | (.ok _, s) => (.ok (), cursors, s)
      | (.error f, s) =>
        if f.isFatal then (.error f, cursors, s)
        else (.ok (), cursors, access.report (.rowsNotDeleted p.name) s)

/-- What a failure of the consumer becomes. -/
def dispatchFailure (count : Nat) (f : Failure) : Failure :=
  if f.isFatal then f else .dispatch count f.reason

/-- What follows when the consumer has answered: the count of events, once the rows are marked as
consumed. -/
def settle (c : Collected) (answer : Except Failure Unit) : Action (Cursors × σ) Nat :=
  match answer with
  | .error f => Action.fail (dispatchFailure c.events.length f)
  | .ok _ => do
    markConsumed access p c.consumed
    return c.events.length

/-- Hands a batch to the consumer. An empty one is not handed on. -/
def dispatch (consume : List CaptureEvent → Action σ Unit) (c : Collected) :
    Action (Cursors × σ) Nat := fun (cursors, s) =>
  if c.events.isEmpty then settle access p c (.ok ()) (cursors, s)
  else
    let (answer, s) := consume c.events s
    settle access p c answer (cursors, s)

/-- One tick: the count of events that were dispatched. -/
def tick (consume : List CaptureEvent → Action σ Unit) : Action (Cursors × σ) Nat := do
  let collected ← collect access p
  dispatch access p consume collected

end Poller
end IndexSync
