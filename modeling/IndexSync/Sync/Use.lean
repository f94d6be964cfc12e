import IndexSync.Sync.Create

/-! Using a synchronization: polling, dispatching by hand, and closing. -/
namespace IndexSync.Sync

/-- Actions of a synchronization at its site. -/
abbrev Act (α : Type) := Action (Sync × Site) α

def name (sync : Sync) : String := sync.settings.name

/-- Refuses what a closed synchronization no longer does. -/
def requireOpen : Act Unit := fun (sync, s) =>
  if sync.closed then (.error (.state (.syncClosed sync.name)), sync, s) else (.ok (), sync, s)

/-- Dispatches a batch to the index. -/
def update (reader : EntityReader Site) (sync : Sync) (events : List CaptureEvent) :
    Action Site Unit :=
  Dispatch.batch (Site.surroundings reader sync.mappings) sync.mappings events

/-- Starts the poller. Without one there is nothing to start. -/
def start : Act Unit := requireOpen

/-- One tick of the poller, if there is one. -/
def tick (reader : EntityReader Site) : Act Nat := fun (sync, s) =>
  match sync.poller with
  | none => (.ok 0, sync, s)
  | some p =>
    let (r, cursors, s) := p.tick Site.captures (sync.update reader) (sync.cursors, s)
    (r, { sync with cursors := cursors }, s)

/-- Runs one tick now. -/
def flush (reader : EntityReader Site) : Act Nat := do
  requireOpen
  tick reader

/-- Dispatches a batch that the caller knows of. -/
def apply (reader : EntityReader Site) (events : List CaptureEvent) : Act Unit := fun (sync, s) =>
  if sync.readsEntities then Action.onSecond (sync.update reader events) (sync, s)
  else (.error (.state (.noEntities sync.name)), sync, s)

/-- How many changes wait in each capture table. Without an engine there are none. -/
def pending : Act (Entries String Nat) := fun (sync, s) =>
  if sync.hasEngine then Action.onSecond (Site.pending sync.models) (sync, s) else (.ok [], sync, s)

/-- Applies a strategy once more, in the database of the site. -/
def setUpAgain (access : EngineAccess Site) (catalog : Catalog)
    (reference : Trigger.SourceReference) (strategy : Value) : Act Trigger.SetupReport :=
  fun (sync, s) => Action.onSecond (do
    let source ← Action.ofExcept (Trigger.resolveSource catalog reference)
    let strategy ← Action.ofExcept (Trigger.Strategy.ofValue strategy)
    Trigger.applyStrategy (access.execute Trigger.Dialect.sqlite.name) access.report source
      sync.models strategy) (sync, s)

/-- Closes the synchronization, once, and disposes of its own engine. -/
def close (dispose : Action Site Unit) : Act Unit := fun (sync, s) =>
  if sync.closed then (.ok (), sync, s)
  else
    let sync := { sync with closed := true }
    if sync.ownsEngine then Action.onSecond dispose (sync, s) else (.ok (), sync, s)

end IndexSync.Sync
