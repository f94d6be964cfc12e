import IndexSync.Action
import IndexSync.Entries

/-! Outages that are bound to happen: where they strike, and after how many passes. -/
namespace IndexSync

/-- The points at which an outage can strike. -/
inductive OutagePoint
  | connect | consume | beginDelete
  | openSession | snapshot | closeSession
  | beginBatch | commitBatch
  deriving DecidableEq, Repr

namespace OutagePoint

def name : OutagePoint → String
  | connect => "connect"
  | consume => "consume"
  | beginDelete => "begin_delete"
  | openSession => "open"
  | snapshot => "get"
  | closeSession => "close"
  | beginBatch => "begin"
  | commitBatch => "commit"

def ofName? (name : String) : Option OutagePoint :=
  [connect, consume, beginDelete, openSession, snapshot, closeSession, beginBatch, commitBatch].find?
    (·.name = name)

end OutagePoint

/-- An outage that lets the given number of passes go well, and strikes at each later one. -/
structure PlannedOutage where
  outage : Outage
  passes : Nat
  deriving DecidableEq, Repr

/-- The planned outages, one for each point. -/
abbrev Outages := Entries OutagePoint PlannedOutage

/-- Passes a point. -/
def Outages.pass (point : OutagePoint) : Action Outages Unit := fun outages =>
  match outages.get? point with
  | none => (.ok (), outages)
  | some ⟨outage, 0⟩ => (.error (.outage outage), outages)
  | some ⟨outage, n + 1⟩ => (.ok (), outages.put point ⟨outage, n⟩)

end IndexSync
