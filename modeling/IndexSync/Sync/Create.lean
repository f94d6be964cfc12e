import IndexSync.Config.Settings
import IndexSync.Poller.Access
import IndexSync.Sync.Reader
import IndexSync.Trigger.Resolution
import IndexSync.Trigger.Setup
import IndexSync.Url.Engine

/-! Putting a synchronization together from settings, mappings and declarations. Everything is checked
before the first statement runs. -/
namespace IndexSync

/-- One synchronization of an index with a database. -/
structure Sync where
  settings : Config.Settings
  models : List CaptureModel
  mappings : Search.Mappings
  hasEngine : Bool
  ownsEngine : Bool
  readsEntities : Bool
  poller : Option Poller
  closed : Bool
  cursors : Cursors

/-- What a synchronization is put together from. The engine of the caller, if there is one, is known
by its dialect. -/
structure SyncParts where
  settings : Config.Settings
  mappings : List Search.Mapping
  watched : List Declaration
  engine : Option String
  source : Option Trigger.SourceReference

/-- How engines are reached. Opening one answers its dialect. Statements run in transactions, which
are begun, and then committed or rolled back. -/
structure EngineAccess (σ : Type) where
  openEngine : Option String → Action σ String
  dispose : Action σ Unit
  begin : (dialect : String) → Action σ Unit
  run : (dialect : String) → Trigger.Statement → Action σ Unit
  commit : (dialect : String) → Action σ Unit
  rollback : (dialect : String) → Action σ Unit
  report : Notice → σ → σ

/-- Runs a statement in a transaction of its own. What fails after the beginning is rolled back, a
commit too. -/
def EngineAccess.execute {σ : Type} (access : EngineAccess σ) (dialect : String)
    (s : Trigger.Statement) : Action σ Unit := do
  access.begin dialect
  Action.onFailure (do
    access.run dialect s
    access.commit dialect) (access.rollback dialect)

namespace Sync

/-- The mappings in one registry, if they are in order. -/
def registry (parts : SyncParts) : Except Failure Search.Mappings := do
  let ms ← Search.Mappings.ofList parts.mappings
  ms.validate
  return ms

def modelsOf (catalog : Catalog) (parts : SyncParts) : Except Failure (List CaptureModel) :=
  Declaration.buildAll catalog (parts.settings.declarations ++ parts.watched)

def nonEmpty (text : Option String) : Option String := text.filter fun s => !s.isEmpty

/-- The reference to the source of triggers: the given one, or that of the settings, or the dialect
of the engine. -/
def sourceReference (parts : SyncParts) (dialect : String) : Trigger.SourceReference :=
  let fallback := Trigger.SourceReference.path
    ((nonEmpty parts.settings.triggerSource).getD dialect)
  match parts.source with
  | none => fallback
  | some (.path text) => if (nonEmpty text).isSome then .path text else fallback
  | some reference => reference

/-- The poller that the settings ask for. -/
def pollerOf (settings : Config.Settings) (models : List CaptureModel) : Except Failure Poller :=
  Poller.create models (.int settings.batchSize) (.int settings.pageSize) (.float settings.delay)
    none settings.name

/-- A synchronization that is told of changes by its caller. It reads entities where the caller
brings a reader for them, or has an engine. -/
def manual (parts : SyncParts) (brings : Bool) (ms : Search.Mappings)
    (models : List CaptureModel) : Sync :=
  ⟨parts.settings, models, ms, parts.engine.isSome, false, brings || parts.engine.isSome, none,
    false, []⟩

def polling (parts : SyncParts) (ms : Search.Mappings) (models : List CaptureModel)
    (poller : Poller) : Sync :=
  ⟨parts.settings, models, ms, true, parts.engine.isNone, true, some poller, false, []⟩

variable {σ : Type} (access : EngineAccess σ)

/-- Resolves the source of triggers, makes the poller and applies the strategy. -/
def setUp (catalog : Catalog) (parts : SyncParts) (models : List CaptureModel)
    (dialect : String) : Action σ Poller := do
  let source ← Action.ofExcept (Trigger.resolveSource catalog (sourceReference parts dialect))
  let poller ← Action.ofExcept (pollerOf parts.settings models)
  let _ ← Trigger.applyStrategy (access.execute dialect) access.report source models
    parts.settings.strategy
  return poller

/-- The setup in the engine of the caller, or in one of its own, which is disposed of if the setup
fails. -/
def setUpEngine (catalog : Catalog) (parts : SyncParts) (models : List CaptureModel) :
    Action σ Poller :=
  match parts.engine with
  | some dialect => setUp access catalog parts models dialect
  | none => do
    let dialect ← access.openEngine parts.settings.databaseUrl
    (setUp access catalog parts models dialect).onFailure access.dispose

/-- Puts a synchronization together, for a caller that brings a reader of entities or leaves them to
be read through the engine. -/
def createFor (brings : Bool) (catalog : Catalog) (parts : SyncParts) : Action σ Sync := do
  let ms ← Action.ofExcept (registry parts)
  let models ← Action.ofExcept (modelsOf catalog parts)
  if parts.settings.type = .manual then return manual parts brings ms models
  else do
    if models.isEmpty then
      Action.update (access.report (.nothingWatched parts.settings.name))
    let poller ← setUpEngine access catalog parts models
    return polling parts ms models poller

/-- Puts together a synchronization that reads its entities through the engine. -/
def create (catalog : Catalog) (parts : SyncParts) : Action σ Sync :=
  createFor access false catalog parts

end Sync

/-- The engines of a site: those of one dialect lead to its database. -/
def Site.engines (address : Option String) : EngineAccess Site where
  openEngine := fun url => Action.ofExcept ((Url.Engine.create url address).map (·.dialect))
  dispose := pure ()
  begin := fun dialect =>
    if dialect = Trigger.Dialect.sqlite.name then pure ()
    else Action.fail (Store.refused "no connection")
  run := fun _ s => Site.onDatabase (Store.Database.execute s)
  commit := fun _ => pure ()
  rollback := fun _ => pure ()
  report := Site.report

end IndexSync
