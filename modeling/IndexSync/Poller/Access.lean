import IndexSync.Poller.Tick
import IndexSync.Site
import IndexSync.Store.Capture

/-! The capture tables of a site. -/
namespace IndexSync.Site

def deleteAll (rows : List (CaptureModel × List Int)) (db : Store.Database) :
    Except Failure (Unit × Store.Database) := do
  return ((), ← rows.foldlM (fun db (m, keys) => db.deleteKeys m keys) db)

/-- Capture tables that are reached over connections which an outage can break. -/
def captures : CaptureAccess Site where
  connect := pass .connect
  page := fun m after n => ask (Store.Database.page m after n)
  delete := fun rows => do
    pass .beginDelete
    change (deleteAll rows)
  report := report

/-- How many captured changes wait in each capture table. -/
def pending (ms : List CaptureModel) : Action Site (Entries String Nat) := do
  pass .connect
  ask (Store.Database.counts ms)

/-- The keys of the rows in each capture table that is there. -/
def rowKeys (ms : List CaptureModel) (s : Site) : Entries String (Option (List Value)) :=
  ms.foldl (fun found m => found.put m.captureTable (s.database.keys? m)) []

end IndexSync.Site
