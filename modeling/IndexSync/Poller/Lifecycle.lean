import IndexSync.Poller.Access
import IndexSync.Schedule.Machine

/-! The poller as recurring work: its ticks run in loops that can be started and stopped, and callers
can ask for ticks of their own. The consumer takes its time. -/
namespace IndexSync.Poller
open Schedule

/-- The site of a poller with its cursors, and how many batches it has handed on. -/
structure Desk where
  cursors : Cursors
  site : Site
  dispatches : Nat

/-- What can be seen of a tick: a batch is handed on, and the consumer has dealt with it. -/
inductive TickEvent
  | handedOn (events : List CaptureEvent)
  | dealtWith (count : Nat)
  deriving Repr

/-- Settles a tick whose consumer has answered. -/
def Desk.settle (d : Desk) (p : Poller) (c : Collected) (answer : Except Failure Unit) :
    Except Failure Nat × Desk :=
  let (r, cursors, site) := Poller.settle Site.captures p c answer (d.cursors, d.site)
  (r, { d with cursors := cursors, site := site })

/-- The consumer answers, and the tick is settled. -/
def Desk.finish (d : Desk) (p : Poller) (c : Collected) : Except Failure Nat × Desk :=
  let (answer, site) := Site.pass .consume d.site
  { d with site := site }.settle p c answer

/-- The time that the consumer takes for a batch. The times are used in turn. -/
def consumerTime? (durations : List Rat) (n : Nat) : Option Rat :=
  durations[n % durations.length]?

def begin (p : Poller) (durations : List Rat) (d : Desk) :
    Progress Collected × List TickEvent × Desk :=
  let (collected, cursors, site) := collect Site.captures p (d.cursors, d.site)
  let d := { d with cursors := cursors, site := site }
  match collected with
  | .error f => (.over (.error f), [], d)
  | .ok c =>
    if c.events.isEmpty then
      let (r, d) := d.settle p c (.ok ())
      (.over r, [], d)
    else
      let time := consumerTime? durations d.dispatches
      let d := { d with dispatches := d.dispatches + 1 }
      match time with
      | some t => (.lasts t c, [.handedOn c.events], d)
      | none =>
        let (r, d) := d.finish p c
        (.over r, [.handedOn c.events, .dealtWith c.events.length], d)

def Desk.report (n : Notice) (d : Desk) : Desk := { d with site := d.site.report n }

/-- The ticks of a poller. -/
def work (p : Poller) (durations : List Rat) : Work Desk Collected TickEvent where
  begin := p.begin durations
  finish := fun c d =>
    let (r, d) := d.finish p c
    (r, [.dealtWith c.events.length], d)
  failed := Desk.report (.tickAborted p.name)
  stillRunning := fun timeout => Desk.report (.tickStillRunning p.name timeout)

/-- The plan of a poller that is asked for the given calls. -/
def plan {α : Type} (p : Poller) (durations : List Rat) (calls : List (Call Desk α)) :
    Plan Desk Collected TickEvent α :=
  ⟨p.work durations, p.initialDelay, p.delay, calls⟩

end IndexSync.Poller
