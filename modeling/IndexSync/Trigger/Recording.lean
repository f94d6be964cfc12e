import IndexSync.Trigger.Setup

/-! A setup on paper: statements are written down, and fail where a failure is foreseen. -/
namespace IndexSync.Trigger

structure Recording where
  /-- The failures that are foreseen, by the number of the transaction. -/
  failures : List (Nat × Failure)
  transactions : Nat
  statements : List String
  notices : List Notice
  deriving Repr

namespace Recording

def start (failures : List (Nat × Failure)) : Recording := ⟨failures, 0, [], []⟩

/-- Writes down a statement, unless its transaction fails. -/
def execute (s : Statement) : Action Recording Unit := fun r =>
  let next := { r with transactions := r.transactions + 1 }
  match r.failures.lookup r.transactions with
  | some f => (.error f, next)
  | none => (.ok (), { next with statements := r.statements ++ [s.text] })

def report (n : Notice) (r : Recording) : Recording := { r with notices := r.notices ++ [n] }

/-- Applies a strategy on paper. -/
def apply (source : TriggerSource) (ms : List CaptureModel) (strategy : Strategy) :
    Action Recording SetupReport :=
  applyStrategy execute report source ms strategy

end Recording
end IndexSync.Trigger
