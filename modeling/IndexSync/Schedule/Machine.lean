import IndexSync.Action
import IndexSync.Schedule.Agenda

/-! Recurring work on a clock. A loop rests, works, and rests again, the rests counted from the end of
the work; callers start loops, cancel them, wait for them to end, or work themselves. Two pieces of
work never overlap, and those that have to wait go on in the order in which they came. -/
namespace IndexSync.Schedule

/-- How a piece of work begins: it is over at once, or goes on for a while. -/
inductive Progress (κ : Type)
  | over (outcome : Except Failure Nat)
  | lasts (duration : Rat) (rest : κ)

/-- The work: how it begins, how it ends, and what is reported when it fails inside a loop. What
happens is told by events. -/
structure Work (σ κ ε : Type) where
  begin : σ → Progress κ × List ε × σ
  finish : κ → σ → Except Failure Nat × List ε × σ
  failed : σ → σ
  stillRunning : Rat → σ → σ

/-- Who works: a loop, or a caller, each by number. -/
inductive Worker
  | loop (i : Nat)
  | caller (c : Nat)
  deriving DecidableEq, Repr

inductive LoopPhase
  | resting | working | over
  deriving DecidableEq, Repr

/-- A loop. Its rests are numbered, so that one that was cut short is not taken for a later one. -/
structure Loop where
  phase : LoopPhase
  rests : Nat
  cancelled : Bool
  deriving DecidableEq, Repr

/-- What is known of the loops as a whole: the one in charge, whether it is being stopped, and
whether no more requests are taken. -/
structure Control where
  handle : Option Nat
  stopping : Bool
  closed : Bool
  deriving DecidableEq, Repr

def Control.running (c : Control) : Bool := c.handle.isSome && !c.stopping

/-- What a caller can ask for. A request through a gate is refused, with the gate's failure, once the
gate is closed. -/
inductive Request (σ α : Type)
  | start (gate : Option Failure)
  | stop (timeout : Option Rat)
  | work (gate : Option Failure)
  | close (timeout : Option Rat)
  | cancel
  | wait (timeout : Option Rat)
  | perform (action : Control → Action σ α)

inductive Answer (α : Type)
  | nothing
  | truth (b : Bool)
  | count (n : Nat)
  | other (a : α)

/-- A request with the time at which it is made. The caller waits for the answer, unless the request
is left to itself. -/
structure Call (σ α : Type) where
  time : Rat
  unattended : Bool
  request : Request σ α

/-- What has been seen: an event of the work, or the answer to a caller. -/
inductive Record (ε α : Type)
  | event (e : ε)
  | answer (caller : Nat) (answer : Except Failure (Answer α))

inductive Job (κ : Type)
  | proceed
  | call (c : Nat)
  | wake (loop rest : Nat)
  | grant (w : Worker)
  | finish (w : Worker) (rest : κ)
  | conclude (loop : Nat)
  | resume (c : Nat)
  | timeout (c : Nat)

/-- The calls that are made one after the other: the next may be made, it waits for its time, or one
waits for its answer. -/
inductive Attention
  | free | asleep
  | on (c : Nat)
  deriving DecidableEq, Repr

/-- A caller that waits for the end of a loop. -/
structure Waiter where
  caller : Nat
  loop : Nat
  deriving DecidableEq, Repr

structure Machine (σ κ ε α : Type) where
  now : Rat
  agenda : Agenda (Job κ)
  loops : List Loop
  control : Control
  busy : Bool
  queue : List Worker
  waiters : List Waiter
  attention : Attention
  remaining : List (Nat × Call σ α)
  unattended : Nat
  log : List (Rat × Record ε α)
  site : σ

/-- What does not change: the work, the delays, and all calls. -/
structure Plan (σ κ ε α : Type) where
  work : Work σ κ ε
  initialDelay : Rat
  delay : Rat
  calls : List (Call σ α)

namespace Machine

variable {σ κ ε α : Type}

def create (p : Plan σ κ ε α) (site : σ) : Machine σ κ ε α :=
  ⟨0, [], [], ⟨none, false, false⟩, false, [], [], .free, p.calls.zipIdx.map fun (a, c) => (c, a),
    0, [], site⟩

def record (m : Machine σ κ ε α) (r : Record ε α) : Machine σ κ ε α :=
  { m with log := m.log ++ [(m.now, r)] }

def recordEvents (m : Machine σ κ ε α) (events : List ε) : Machine σ κ ε α :=
  { m with log := m.log ++ events.map fun e => (m.now, .event e) }

/-- The later of two times. -/
def laterOf (a b : Rat) : Rat := if a ≤ b then b else a

/-- Adds a job that is due after a while. -/
def later (m : Machine σ κ ε α) (delay : Rat) (job : Job κ) : Machine σ κ ε α :=
  { m with agenda := m.agenda.add (m.now + laterOf delay 0) job }

def loop (m : Machine σ κ ε α) (i : Nat) : Loop := (m.loops[i]?).getD ⟨.over, 0, true⟩

def setLoop (m : Machine σ κ ε α) (i : Nat) (l : Loop) : Machine σ κ ε α :=
  { m with loops := m.loops.set i l }

/-- Answers a caller. -/
def answer (m : Machine σ κ ε α) (c : Nat) (a : Except Failure (Answer α)) : Machine σ κ ε α :=
  let m := m.record (.answer c a)
  if m.attention = .on c then { m with attention := .free }
  else { m with unattended := m.unattended - 1 }

/-- Lets a loop rest. -/
def rest (m : Machine σ κ ε α) (i : Nat) (delay : Rat) : Machine σ κ ε α :=
  let l := m.loop i
  (m.setLoop i { l with phase := .resting, rests := l.rests + 1 }).later delay
    (.wake i (l.rests + 1))

/-- Ends a loop, and wakes those that wait for its end. -/
def conclude (m : Machine σ κ ε α) (i : Nat) : Machine σ κ ε α :=
  let (ended, others) := m.waiters.partition (·.loop = i)
  let m := { m.setLoop i { m.loop i with phase := .over } with waiters := others }
  ended.foldl (fun m w => m.later 0 (.resume w.caller)) m

/-- Lets the next one work, if any waits for it. -/
def release (m : Machine σ κ ε α) : Machine σ κ ε α :=
  match m.queue with
  | [] => { m with busy := false }
  | w :: rest => { m with queue := rest }.later 0 (.grant w)

variable (p : Plan σ κ ε α)

/-- What a loop does after its work: a fatal failure ends it, any other is reported. -/
def afterWork (m : Machine σ κ ε α) (i : Nat) (outcome : Except Failure Nat) :
    Machine σ κ ε α :=
  let fatal := match outcome with
    | .error f => f.isFatal
    | .ok _ => false
  if fatal then m.conclude i
  else
    let m := match outcome with
      | .error _ => { m with site := p.work.failed m.site }
      | .ok _ => m
    if (m.loop i).cancelled then m.later 0 (.conclude i) else m.rest i p.delay

/-- What follows a piece of work. -/
def workOver (m : Machine σ κ ε α) (w : Worker) (outcome : Except Failure Nat) :
    Machine σ κ ε α :=
  let m := m.release
  match w with
  | .caller c => m.answer c (outcome.map .count)
  | .loop i => m.afterWork p i outcome

def beginWork (m : Machine σ κ ε α) (w : Worker) : Machine σ κ ε α :=
  let (progress, events, site) := p.work.begin m.site
  let m := { m with busy := true, site := site }.recordEvents events
  match progress with
  | .over outcome => m.workOver p w outcome
  | .lasts duration rest => m.later duration (.finish w rest)

/-- Works now, or as soon as all who came before have worked. -/
def askForWork (m : Machine σ κ ε α) (w : Worker) : Machine σ κ ε α :=
  if m.busy then { m with queue := m.queue ++ [w] } else m.beginWork p w

/-- A loop whose rest is over. -/
def wake (m : Machine σ κ ε α) (i : Nat) : Machine σ κ ε α :=
  let l := m.loop i
  if l.cancelled then m.later 0 (.conclude i)
  else if m.control.stopping then m.rest i p.delay
  else (m.setLoop i { l with phase := .working }).askForWork p (.loop i)

/-- Starts a loop, unless one is running. -/
def start (m : Machine σ κ ε α) : Except Failure Unit × Machine σ κ ε α :=
  if m.control.running then (.ok (), m)
  else
    let m := { m with control := { m.control with stopping := false } }
    if p.initialDelay < 0 || p.delay < 0 then (.error (.range .negativeDelay), m)
    else
      let i := m.loops.length
      let m := { m with
        loops := m.loops ++ [Loop.mk .resting 0 false]
        control := { m.control with handle := some i } }
      (.ok (), m.rest i p.initialDelay)

/-- Cancels a loop. One that rests notices at once, one that works when its work is over. -/
def cancel (m : Machine σ κ ε α) (i : Nat) : Machine σ κ ε α :=
  let l := m.loop i
  let m := m.setLoop i { l with cancelled := true }
  if l.phase = .resting && !l.cancelled then m.later 0 (.wake i l.rests) else m

/-- The answer of a caller whose wait is over. -/
def waited (m : Machine σ κ ε α) (c : Nat) (ended : Bool) : Machine σ κ ε α :=
  let finished := if ended then { m with control := { m.control with handle := none } } else m
  let warned (timeout : Option Rat) : Machine σ κ ε α :=
    if ended then finished
    else { m with site := p.work.stillRunning (timeout.getD 0) m.site }
  match p.calls[c]? with
  | some ⟨_, _, .stop timeout⟩ => (warned timeout).answer c (.ok (.truth ended))
  | some ⟨_, _, .close timeout⟩ => (warned timeout).answer c (.ok (.truth m.control.closed))
  | _ => m.answer c (.ok (.truth ended))

/-- Waits for the end of a loop. -/
def waitFor (m : Machine σ κ ε α) (c i : Nat) (timeout : Option Rat) : Machine σ κ ε α :=
  if (m.loop i).phase = .over then m.waited p c true
  else
    let m := { m with waiters := m.waiters ++ [Waiter.mk c i] }
    match timeout with
    | some t => m.later t (.timeout c)
    | none => m

/-- Stops the loop in charge. Without one there is nothing to wait for. -/
def stop (m : Machine σ κ ε α) (c : Nat) (timeout : Option Rat) : Machine σ κ ε α :=
  match m.control.handle with
  | none => m.answer c (.ok (.truth true))
  | some i =>
    let m := { m with control := { m.control with stopping := true } }
    (m.cancel i).waitFor p c i timeout

/-- What a gate says. -/
def refusal? (m : Machine σ κ ε α) (gate : Option Failure) : Option Failure :=
  if m.control.closed then gate else none

def request (m : Machine σ κ ε α) (c : Nat) : Request σ α → Machine σ κ ε α
  | .start gate =>
    match m.refusal? gate with
    | some f => m.answer c (.error f)
    | none =>
      let (r, m) := m.start p
      m.answer c (r.map fun _ => .nothing)
  | .stop timeout => m.stop p c timeout
  | .work gate =>
    match m.refusal? gate with
    | some f => m.answer c (.error f)
    | none => m.askForWork p (.caller c)
  | .close timeout =>
    if m.control.closed then m.answer c (.ok (.truth true))
    else { m with control := { m.control with closed := true } }.stop p c timeout
  | .cancel =>
    let m := match m.control.handle with
      | some i => m.cancel i
      | none => m
    m.answer c (.ok (.truth true))
  | .wait timeout =>
    match m.control.handle with
    | some i => m.waitFor p c i timeout
    | none => m.answer c (.ok (.truth true))
  | .perform action =>
    let (r, site) := action m.control m.site
    { m with site := site }.answer c (r.map .other)

/-- Makes the calls whose time has come, one after the other, up to one that has to wait. -/
def makeCalls (m : Machine σ κ ε α) : List (Nat × Call σ α) → Machine σ κ ε α
  | [] => { m with remaining := [] }
  | (c, a) :: rest =>
    if m.now < a.time then
      { m with
        remaining := (c, a) :: rest
        attention := .asleep
        agenda := m.agenda.add a.time .proceed }
    else if a.unattended then
      makeCalls ({ m with unattended := m.unattended + 1 }.later 0 (.call c)) rest
    else
      let m := { m with attention := .on c }.request p c a.request
      if m.attention = .free then makeCalls m rest else { m with remaining := rest }

def doJob (m : Machine σ κ ε α) : Job κ → Machine σ κ ε α
  | .proceed => { m with attention := .free }
  | .call c =>
    match p.calls[c]? with
    | some a => m.request p c a.request
    | none => m
  | .wake i rest =>
    let l := m.loop i
    if l.phase = .resting && l.rests = rest then m.wake p i else m
  | .grant w => m.beginWork p w
  | .finish w rest =>
    let (outcome, events, site) := p.work.finish rest m.site
    ({ m with site := site }.recordEvents events).workOver p w outcome
  | .conclude i => m.conclude i
  | .resume c => m.waited p c true
  | .timeout c =>
    if m.waiters.any (·.caller = c) then
      { m with waiters := m.waiters.filter (·.caller ≠ c) }.waited p c false
    else m

/-- Whether all calls have been answered. -/
def isDone (m : Machine σ κ ε α) : Bool :=
  m.remaining.isEmpty && m.attention = .free && m.unattended = 0

/-- Makes the calls that can be made. -/
def attend (m : Machine σ κ ε α) : Machine σ κ ε α :=
  if m.attention = .free then m.makeCalls p m.remaining else m

/-- Does the job that is due next. -/
def step (m : Machine σ κ ε α) : Machine σ κ ε α :=
  match m.agenda with
  | [] => m
  | e :: rest => ({ m with now := laterOf m.now e.due, agenda := rest }.doJob p e.job).attend p

/-- At most `n` steps, up to the answer to the last call. -/
def run : Nat → Machine σ κ ε α → Machine σ κ ε α
  | 0, m => m
  | n + 1, m => if m.isDone then m else run n (m.step p)

/-- A whole run. -/
def play (steps : Nat) (site : σ) : Machine σ κ ε α :=
  run p steps ((create p site).attend p)

end Machine
end IndexSync.Schedule
