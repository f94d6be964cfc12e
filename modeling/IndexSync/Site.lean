import IndexSync.Notice
import IndexSync.Outage
import IndexSync.Search.Transaction
import IndexSync.Store.Setup

/-! What a synchronization works on: a database, an index, at most one session in which entities are
read, the outages that are bound to happen, and what has been reported. -/
namespace IndexSync

structure Site where
  database : Store.Database
  index : Search.Backend
  sessionOpen : Bool
  outages : Outages
  notices : List Notice

namespace Site

def ofDatabase (db : Store.Database) : Site := ⟨db, .empty, false, [], []⟩

/-- Passes a point where an outage can strike. -/
def pass (point : OutagePoint) : Action Site Unit := fun s =>
  let (r, outages) := s.outages.pass point
  (r, { s with outages := outages })

def planOutages (outages : Outages) : Action Site Unit :=
  Action.update fun s => { s with outages := outages }

/-- Forgets what has been reported and what the index has logged. -/
def forget (s : Site) : Site :=
  { s with
    notices := []
    index := { s.index with index := { s.index.index with operations := [] } } }

def report (n : Notice) (s : Site) : Site := { s with notices := s.notices ++ [n] }

/-- An action on the database. -/
def onDatabase {α : Type} (x : Action Store.Database α) : Action Site α := fun s =>
  let (r, db) := x s.database
  (r, { s with database := db })

/-- An action on the index. -/
def onIndex {α : Type} (x : Action Search.Backend α) : Action Site α := fun s =>
  let (r, index) := x s.index
  (r, { s with index := index })

/-- A question to the database. -/
def ask {α : Type} (x : Store.Database → Except Failure α) : Action Site α := fun s =>
  (x s.database, s)

/-- A change of the database that is made in full or not at all. -/
def change {α : Type} (x : Store.Database → Except Failure (α × Store.Database)) :
    Action Site α := fun s =>
  match x s.database with
  | .ok (a, db) => (.ok a, { s with database := db })
  | .error f => (.error f, s)

end Site
end IndexSync
