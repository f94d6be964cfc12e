import IndexSync.Action
import IndexSync.Notice
import IndexSync.Trigger.Plan

/-! Running a plan, each statement in a transaction of its own. A statement that fails never ends
the setup, for what it makes may be there already. -/
namespace IndexSync.Trigger

/-- How many statements ran, and the texts of those that failed. -/
structure SetupReport where
  executed : Nat
  failed : List String
  deriving DecidableEq, Repr

namespace SetupReport

def empty : SetupReport := ⟨0, []⟩

def addExecuted (r : SetupReport) : SetupReport := { r with executed := r.executed + 1 }

def addFailed (r : SetupReport) (text : String) : SetupReport :=
  { r with failed := r.failed ++ [text] }

end SetupReport

/-- What is reported of a statement that failed. -/
def failureNotice (p : PlannedStatement) (f : Failure) : Notice :=
  if p.isDrop then .dropFailed f.message else .createFailed f.message p.statement.text

variable {σ : Type}

/-- Runs a plan. `execute` runs one statement in its own transaction. -/
def runPlan (execute : Statement → Action σ Unit) (report : Notice → σ → σ) :
    List PlannedStatement → SetupReport → Action σ SetupReport
  | [], done => pure done
  | p :: rest, done => fun s =>
    match execute p.statement s with
    | (.ok _, s) => runPlan execute report rest done.addExecuted s
    | (.error f, s) =>
      if f.isFatal then (.error f, s)
      else
        runPlan execute report rest (done.addFailed p.statement.text)
          (report (failureNotice p f) s)

/-- Applies a strategy. The whole plan is made before the first statement runs. -/
def applyStrategy (execute : Statement → Action σ Unit) (report : Notice → σ → σ)
    (source : TriggerSource) (ms : List CaptureModel) (strategy : Strategy) :
    Action σ SetupReport := do
  let ps ← Action.ofExcept (planned source ms strategy)
  runPlan execute report ps .empty

end IndexSync.Trigger
