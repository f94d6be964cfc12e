import IndexSync.Capture.Event

/-! What the program reports while it goes on. -/
namespace IndexSync

inductive Severity
  | warning | error
  deriving DecidableEq, Repr

/-- The part of the program that reports. -/
inductive Component
  | updater | poller | scheduler | setup | sync
  deriving DecidableEq, Repr

def Severity.name : Severity → String
  | warning => "WARNING"
  | error => "ERROR"

/-- The name under which a part reports. -/
def Component.name : Component → String
  | updater => "triggersearch.index.updater"
  | poller => "triggersearch.events.poller"
  | scheduler => "triggersearch.events.scheduler"
  | setup => "triggersearch.triggers.strategy"
  | sync => "triggersearch.app"

inductive Notice
  | unknownEvent (type : EntityType) (id : Value) (key : Int)
  | unindexed (type : EntityType) (id : Value)
  | skippedRow (key : Int) (table : String)
  | tickAborted (poller : String)
  | rowsNotDeleted (poller : String)
  | tickStillRunning (poller : String) (timeout : Rat)
  | taskFailed
  | dropFailed (reason : String)
  | createFailed (reason statement : String)
  | nothingWatched (sync : String)
  deriving Repr

namespace Notice

def severity : Notice → Severity
  | tickAborted _ | rowsNotDeleted _ | taskFailed => .error
  | _ => .warning

def component : Notice → Component
  | unknownEvent .. | unindexed .. => .updater
  | skippedRow .. | tickAborted _ | rowsNotDeleted _ | tickStillRunning .. => .poller
  | taskFailed => .scheduler
  | dropFailed _ | createFailed .. => .setup
  | nothingWatched _ => .sync

/-- A duration with one digit after the point. -/
def tenths (seconds : Rat) : String :=
  let n := Binary64.divideEven (seconds.num.natAbs * 10) seconds.den
  toString (n / 10) ++ "." ++ toString (n % 10)

def message : Notice → String
  | unknownEvent type id key =>
    s!"unknown event type for {type.name} id={id.shown} (capture row {key}); skipping"
  | unindexed type id =>
    s!"{type.name} is not part of any index mapping; skipping id={id.shown}"
  | skippedRow key table => s!"skipping capture row {key} in {table}: unknown event type"
  | tickAborted poller =>
    s!"capture poller {poller}: tick aborted, capture rows left for the next tick"
  | rowsNotDeleted poller =>
    s!"capture poller {poller}: could not delete consumed capture rows"
  | tickStillRunning poller timeout =>
    s!"capture poller {poller}: tick still running after {tenths timeout}s"
  | taskFailed => "scheduled task raised; continuing with next run"
  | dropFailed reason =>
    s!"drop statement failed (expected if the object does not exist): {reason}"
  | createFailed reason statement =>
    s!"create statement failed (objects may already exist): {reason} ({statement})"
  | nothingWatched sync =>
    s!"search sync {sync}: no watched entities declared; the poller will stay idle"

end Notice
end IndexSync
