import IndexSync.Notice
import IndexSync.Schedule.Machine

/-! Work that takes a known time and then ends in a known way. -/
namespace IndexSync.Schedule

/-- One run: how long it takes, and the outage it ends in, if it does. -/
structure TimedRun where
  duration : Rat
  outage : Option Outage
  deriving Repr

inductive RunEvent
  | started (n : Nat)
  | ended (n : Nat)
  deriving DecidableEq, Repr

/-- How many runs have begun, and what has been reported. -/
structure RunCount where
  begun : Nat
  notices : List Notice
  deriving Repr

def TimedRun.outcome (r : TimedRun) : Except Failure Nat :=
  match r.outage with
  | some o => .error (.outage o)
  | none => .ok 0

/-- The run of a number, counted from one. The last one is repeated. -/
def runAt (runs : List TimedRun) (n : Nat) : TimedRun :=
  (runs[n - 1]?).getD (runs.getLast?.getD ⟨0, none⟩)

/-- Work of which every run is given, by its number from one on. -/
def sequenced (run : Nat → TimedRun) : Work RunCount Nat RunEvent where
  begin := fun s =>
    let n := s.begun + 1
    (.lasts (run n).duration n, [.started n], { s with begun := n })
  finish := fun n s => ((run n).outcome, [.ended n], s)
  failed := fun s => { s with notices := s.notices ++ [.taskFailed] }
  stillRunning := fun _ s => s

def timedWork (runs : List TimedRun) : Work RunCount Nat RunEvent := sequenced (runAt runs)

end IndexSync.Schedule
