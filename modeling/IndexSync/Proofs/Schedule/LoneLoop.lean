import IndexSync.Proofs.Schedule.Timeline
import IndexSync.Proofs.Schedule.Workers

/-!
# A loop and its visitors

One loop works along a timeline. Visitors come at times of their own, cancel it or wait for its end, and
do not wait for each other. What the next job then is, and what it does, is told case by case.
-/
namespace IndexSync.Schedule

/-- Books jobs, one after the other. -/
def Agenda.addAll {J : Type} (agenda : Agenda J) (added : List (Entry J)) : Agenda J :=
  added.foldl (fun agenda e => agenda.add e.due e.job) agenda

namespace Agenda

variable {J : Type} {agenda : Agenda J} {added : List (Entry J)}

theorem addAll_perm (agenda : Agenda J) (added : List (Entry J)) :
    (agenda.addAll added).Perm (added ++ agenda) := by
  induction added generalizing agenda with
  | nil => exact .refl _
  | cons e rest ih => exact (ih _).trans (((add_perm e.due e.job agenda).append_left rest).trans List.perm_middle)

theorem IsOrdered.addAll (h : agenda.IsOrdered) (added : List (Entry J)) :
    (agenda.addAll added).IsOrdered := by
  induction added generalizing agenda with
  | nil => exact h
  | cons e rest ih => exact ih (h.add e.due e.job)

end Agenda

/-- What visitors come for. -/
inductive Ask
  | cancel
  | wait (timeout : Option Rat)
  deriving DecidableEq, Repr

structure Visit where
  time : Rat
  ask : Ask
  deriving DecidableEq, Repr

def Ask.request {σ α : Type} : Ask → Request σ α
  | .cancel => .cancel
  | .wait timeout => .wait timeout

def Visit.call {σ α : Type} (v : Visit) : Call σ α := ⟨v.time, true, v.ask.request⟩

/-- A loop along the timeline, and its visitors. -/
def Timeline.plan {α : Type} (t : Timeline) (visits : List Visit) : Plan RunCount Nat RunEvent α :=
  ⟨sequenced t.run, t.initialDelay, t.delay, visits.map (·.call)⟩

namespace Machine

variable {σ κ ε α : Type}

/-- Books jobs. -/
def book (m : Machine σ κ ε α) (added : List (Entry (Job κ))) : Machine σ κ ε α :=
  { m with agenda := m.agenda.addAll added }

/-- Answers a visitor. -/
def tell (m : Machine σ κ ε α) (c : Nat) (b : Bool) : Machine σ κ ε α :=
  { m with
    log := m.log ++ [(m.now, .answer c (.ok (.truth b)))]
    unattended := m.unattended - 1 }

/-- The visitors with their numbers, as calls. -/
def callsOf (visits : List (Nat × Visit)) : List (Nat × Call σ α) :=
  visits.map fun x => (x.1, x.2.call)

/-- Those whose time has come. -/
def called (m : Machine σ κ ε α) (visits : List (Nat × Visit)) : List (Nat × Visit) :=
  visits.takeWhile (·.2.time ≤ m.now)

/-- Those whose time has not come. -/
def ahead (m : Machine σ κ ε α) (visits : List (Nat × Visit)) : List (Nat × Visit) :=
  visits.dropWhile (·.2.time ≤ m.now)

/-- The jobs of the visitors: those who are called, and the time of the next one. -/
def callJobs (m : Machine σ κ ε α) (visits : List (Nat × Visit)) : List (Entry (Job κ)) :=
  (m.called visits).map (fun x => .mk m.now (.call x.1)) ++
    (m.ahead visits).head?.toList.map fun x => .mk x.2.time .proceed

/-- Lets the visitors come whose time has come. -/
def letIn (m : Machine σ κ ε α) (visits : List (Nat × Visit)) : Machine σ κ ε α :=
  { m with
    remaining := callsOf (m.ahead visits)
    attention := if (m.ahead visits).isEmpty then m.attention else .asleep
    unattended := m.unattended + (m.called visits).length }

theorem called_append_ahead (m : Machine σ κ ε α) (visits : List (Nat × Visit)) :
    m.called visits ++ m.ahead visits = visits :=
  List.takeWhile_append_dropWhile

theorem later_zero (m : Machine σ κ ε α) (job : Job κ) : m.later 0 job = m.book [⟨m.now, job⟩] := by
  simp [later, book, Agenda.addAll, laterOf]

theorem makeCalls_callsOf (p : Plan σ κ ε α) (m : Machine σ κ ε α) (visits : List (Nat × Visit)) :
    m.makeCalls p (callsOf visits) = (m.letIn visits).book (m.callJobs visits) := by
  induction visits generalizing m with
  | nil => rfl
  | cons x rest ih =>
    by_cases h : m.now < x.2.time
    · have later : ¬ x.2.time ≤ m.now := not_le.mpr h
      simp [callsOf, makeCalls, Visit.call, letIn, callJobs, called, ahead, h, later, book, Agenda.addAll]
    · have now : x.2.time ≤ m.now := not_lt.mp h
      have step : m.makeCalls p (callsOf (x :: rest)) =
          ({ m with unattended := m.unattended + 1 }.book [⟨m.now, .call x.1⟩]).makeCalls p
            (callsOf rest) := by
        simp only [callsOf, List.map_cons, makeCalls, Visit.call, h, if_false, if_true, later_zero]
      have called : m.called (x :: rest) = x :: m.called rest :=
        List.takeWhile_cons_of_pos (decide_eq_true now)
      have ahead : m.ahead (x :: rest) = m.ahead rest :=
        List.dropWhile_cons_of_pos (decide_eq_true now)
      have count : m.unattended + 1 + (m.called rest).length =
          m.unattended + ((m.called rest).length + 1) := by omega
      rw [step, ih]
      simp only [letIn, callJobs, called, ahead, List.length_cons, ← count]
      rfl

variable {m after : Machine RunCount Nat RunEvent α} {t : Timeline} {visits : List Visit}

/-- The jobs of one loop and its visitors. -/
inductive Fits (visits : List Visit) : Job Nat → Prop
  | proceed : Fits visits .proceed
  | call {j} : j < visits.length → Fits visits (.call j)
  | wake (r : Nat) : Fits visits (.wake 0 r)
  | finish (n : Nat) : Fits visits (.finish (.loop 0) n)
  | conclude : Fits visits (.conclude 0)
  | resume (j : Nat) : Fits visits (.resume j)
  | timeout (j : Nat) : Fits visits (.timeout j)

/-- The loop has been told to stop. -/
def markCancelled (m : Machine σ κ ε α) : Machine σ κ ε α :=
  { m with loops := [{ m.loop 0 with cancelled := true }] }

/-- A loop that is cancelled during its rest is woken. -/
def cutShort (m : Machine σ κ ε α) : List (Entry (Job κ)) :=
  if (m.loop 0).phase = .resting && !(m.loop 0).cancelled then [⟨m.now, .wake 0 (m.loop 0).rests⟩]
  else []

/-- The loop rests from now on. -/
def restNow (m : Machine σ κ ε α) : Machine σ κ ε α :=
  { m with loops := [{ m.loop 0 with phase := .resting, rests := (m.loop 0).rests + 1 }] }

/-- The loop is over, and nobody waits for it any more. -/
def closeLoop (m : Machine σ κ ε α) : Machine σ κ ε α :=
  { m with loops := [{ m.loop 0 with phase := .over }], waiters := [] }

/-- All who wait are woken. -/
def wakeAll (m : Machine σ κ ε α) : List (Entry (Job κ)) :=
  m.waiters.map fun w => ⟨m.now, .resume w.caller⟩

/-- The next run starts. -/
def startRun (m : Machine RunCount Nat RunEvent α) : Machine RunCount Nat RunEvent α :=
  { m with
    loops := [{ m.loop 0 with phase := .working }]
    busy := true
    site := { m.site with begun := m.site.begun + 1 } }.record (.event (.started (m.site.begun + 1)))

/-- A run is over, and leaves the site behind. -/
def endRun (m : Machine RunCount Nat RunEvent α) (n : Nat) (site : RunCount) :
    Machine RunCount Nat RunEvent α :=
  { m with busy := false, site := site }.record (.event (.ended n))

theorem eq_of_mem_cutShort {m : Machine σ κ ε α} {e : Entry (Job κ)} (h : e ∈ m.cutShort) :
    e = ⟨m.now, .wake 0 (m.loop 0).rests⟩ := by
  unfold cutShort at h
  split at h
  · exact List.mem_singleton.mp h
  · cases h

theorem loop_markCancelled (m : Machine σ κ ε α) :
    m.markCancelled.loop 0 = { m.loop 0 with cancelled := true } :=
  rfl

theorem loop_restNow (m : Machine σ κ ε α) :
    m.restNow.loop 0 = { m.loop 0 with phase := .resting, rests := (m.loop 0).rests + 1 } :=
  rfl

theorem loop_closeLoop (m : Machine σ κ ε α) : m.closeLoop.loop 0 = { m.loop 0 with phase := .over } :=
  rfl

theorem loop_startRun (m : Machine RunCount Nat RunEvent α) :
    m.startRun.loop 0 = { m.loop 0 with phase := .working } :=
  rfl

theorem loop_endRun (m : Machine RunCount Nat RunEvent α) (n : Nat) (site : RunCount) :
    (m.endRun n site).loop 0 = m.loop 0 :=
  rfl

/-- There is one loop, in charge, and only visitors besides. -/
structure Lone (visits : List Visit) (m : Machine RunCount Nat RunEvent α) : Prop where
  loops : m.loops = [m.loop 0]
  control : m.control = ⟨some 0, false, false⟩
  queue : m.queue = []
  idle : (m.loop 0).phase = .resting → m.busy = false
  waiters : ∀ w ∈ m.waiters, w.loop = 0
  unattended : ∀ c, m.attention ≠ .on c
  noneLeft : m.attention = .free → m.remaining = []
  remaining : ∃ ahead, m.remaining = callsOf ahead
  numbered : ∀ x ∈ m.remaining, x.1 < visits.length
  fits : ∀ e ∈ m.agenda, Fits visits e.job

/-- What a job does, and the jobs that it books. -/
inductive Turn (t : Timeline) (visits : List Visit) (m : Machine RunCount Nat RunEvent α) :
    Job Nat → Machine RunCount Nat RunEvent α → List (Entry (Job Nat)) → Prop
  | admits {ahead} (next : m.remaining = callsOf ahead) :
    Turn t visits m .proceed ({ m with attention := .free }.letIn ahead) (m.callJobs ahead)
  | cancels {j v} (asked : visits[j]? = some ⟨v, .cancel⟩) :
    Turn t visits m (.call j) (m.markCancelled.tell j true) m.cutShort
  | findsOver {j v timeout} (asked : visits[j]? = some ⟨v, .wait timeout⟩)
      (ended : (m.loop 0).phase = .over) : Turn t visits m (.call j) (m.tell j true) []
  | waits {j v timeout} (asked : visits[j]? = some ⟨v, .wait timeout⟩)
      (going : (m.loop 0).phase ≠ .over) :
    Turn t visits m (.call j) { m with waiters := m.waiters ++ [⟨j, 0⟩] }
      (timeout.toList.map fun d => ⟨m.now + laterOf d 0, .timeout j⟩)
  | ignores {r} (stale : ¬ ((m.loop 0).phase = .resting ∧ (m.loop 0).rests = r)) :
    Turn t visits m (.wake 0 r) m []
  | notices {r} (resting : (m.loop 0).phase = .resting) (current : (m.loop 0).rests = r)
      (cancelled : (m.loop 0).cancelled = true) :
    Turn t visits m (.wake 0 r) m [⟨m.now, .conclude 0⟩]
  | begins {r} (resting : (m.loop 0).phase = .resting) (current : (m.loop 0).rests = r)
      (going : (m.loop 0).cancelled = false) :
    Turn t visits m (.wake 0 r) m.startRun
      [⟨m.now + laterOf (t.run (m.site.begun + 1)).duration 0,
        .finish (.loop 0) (m.site.begun + 1)⟩]
  | rests {n site} (going : (m.loop 0).cancelled = false) (same : site.begun = m.site.begun) :
    Turn t visits m (.finish (.loop 0) n) (m.endRun n site).restNow
      [⟨m.now + laterOf t.delay 0, .wake 0 ((m.loop 0).rests + 1)⟩]
  | leaves {n site} (cancelled : (m.loop 0).cancelled = true) (same : site.begun = m.site.begun) :
    Turn t visits m (.finish (.loop 0) n) (m.endRun n site) [⟨m.now, .conclude 0⟩]
  | concludes :
    Turn t visits m (.conclude 0) m.closeLoop m.wakeAll
  | resumes {j} : Turn t visits m (.resume j) (m.tell j true) []
  | givesUp {j} (waiting : ∃ w ∈ m.waiters, w.caller = j) :
    Turn t visits m (.timeout j)
      ({ m with waiters := m.waiters.filter (·.caller ≠ j) }.tell j false) []
  | isAnswered {j} (gone : ∀ w ∈ m.waiters, w.caller ≠ j) : Turn t visits m (.timeout j) m []

theorem Lone.popped (h : Lone visits m) {e : Entry (Job Nat)} {rest : Agenda (Job Nat)}
    (head : m.agenda = e :: rest) (now : Rat) :
    Lone visits { m with now := now, agenda := rest } :=
  { h with fits := fun d hd => h.fits d (head ▸ List.mem_cons_of_mem e hd) }

theorem setLoop_zero (loops : m.loops = [m.loop 0]) (l : Loop) :
    m.setLoop 0 l = { m with loops := [l] } := by
  rw [setLoop, loops]
  rfl

theorem answer_eq_tell (unattended : ∀ c, m.attention ≠ .on c) (c : Nat) (b : Bool) :
    m.answer c (.ok (.truth b)) = m.tell c b := by
  simp [answer, record, tell, unattended c]

theorem waited_eq_tell (unattended : ∀ c, m.attention ≠ .on c) (c : Nat) (b : Bool) :
    m.waited (t.plan visits) c b = m.tell c b := by
  rw [← answer_eq_tell unattended c b]
  have calls : (t.plan visits : Plan RunCount Nat RunEvent α).calls[c]? =
    visits[c]?.map Visit.call := List.getElem?_map
  unfold waited
  cases hv : visits[c]? with
  | none => simp only [calls, hv, Option.map_none]
  | some v =>
    obtain ⟨time, ask⟩ := v
    cases ask <;> simp only [calls, hv, Option.map_some, Visit.call, Ask.request]

theorem Lone.waitFor_eq (h : Lone visits m) (c : Nat) (timeout : Option Rat) :
    m.waitFor (t.plan visits) c 0 timeout =
      if (m.loop 0).phase = .over then m.tell c true
      else { m with waiters := m.waiters ++ [Waiter.mk c 0] }.book
        (timeout.toList.map fun d => ⟨m.now + laterOf d 0, .timeout c⟩) := by
  unfold waitFor
  rw [waited_eq_tell h.unattended]
  cases timeout <;> rfl

theorem Lone.cancel_eq (h : Lone visits m) : m.cancel 0 = m.markCancelled.book m.cutShort := by
  simp only [cancel, setLoop_zero h.loops, cutShort]
  split
  · exact later_zero ..
  · rfl

theorem rest_eq (loops : m.loops = [m.loop 0]) (delay : Rat) :
    m.rest 0 delay =
      m.restNow.book [⟨m.now + laterOf delay 0, .wake 0 ((m.loop 0).rests + 1)⟩] := by
  simp only [rest, setLoop_zero loops]
  rfl

theorem Lone.conclude_eq (h : Lone visits m) : m.conclude 0 = m.closeLoop.book m.wakeAll := by
  have woken (ws : List Waiter) (n : Machine RunCount Nat RunEvent α) :
      ws.foldl (fun m w => m.later 0 (.resume w.caller)) n =
        n.book (ws.map fun w => ⟨n.now, .resume w.caller⟩) := by
    induction ws generalizing n with
    | nil => rfl
    | cons w rest ih =>
      rw [List.foldl_cons, ih, later_zero]
      rfl
  have all : m.waiters.filter (·.loop = 0) = m.waiters :=
    List.filter_eq_self.mpr fun w hw => decide_eq_true (h.waiters w hw)
  have none : m.waiters.filter (fun w => !decide (w.loop = 0)) = [] :=
    List.filter_eq_nil_iff.mpr fun w hw => by simp [h.waiters w hw]
  simp only [conclude, List.partition_eq_filter_filter, Function.comp_def]
  rw [all, none, woken, setLoop_zero h.loops]
  rfl

/-- A loop that is woken from its rest works, unless it has been cancelled. -/
theorem Lone.wake_eq (h : Lone visits m) (resting : (m.loop 0).phase = .resting) :
    m.wake (t.plan visits) 0 =
      if (m.loop 0).cancelled then m.book [⟨m.now, .conclude 0⟩]
      else m.startRun.book
        [⟨m.now + laterOf (t.run (m.site.begun + 1)).duration 0,
          .finish (.loop 0) (m.site.begun + 1)⟩] := by
  have stopping : m.control.stopping = false := by rw [h.control]
  have idle := h.idle resting
  unfold wake
  simp only [stopping, later_zero, setLoop_zero h.loops]
  split
  · rfl
  · simp only [askForWork, idle, beginWork]
    rfl

theorem release_eq (queue : m.queue = []) : m.release = { m with busy := false } := by
  unfold release
  rw [queue]

/-- After its work a loop rests, unless it has been cancelled. -/
theorem afterWork_eq (t : Timeline) (visits : List Visit) (loops : m.loops = [m.loop 0])
    {outcome : Except Failure Nat} (survived : ∀ f, outcome = .error f → f.isFatal = false) :
    ∃ site : RunCount, site.begun = m.site.begun ∧
      m.afterWork (t.plan visits) 0 outcome =
        if (m.loop 0).cancelled then { m with site := site }.book [⟨m.now, .conclude 0⟩]
        else { m with site := site }.restNow.book
          [⟨m.now + laterOf t.delay 0, .wake 0 ((m.loop 0).rests + 1)⟩] := by
  have next (site : RunCount) :
      (if (m.loop 0).cancelled then { m with site := site }.later 0 (.conclude 0)
        else { m with site := site }.rest 0 t.delay) =
        if (m.loop 0).cancelled then { m with site := site }.book [⟨m.now, .conclude 0⟩]
        else { m with site := site }.restNow.book
          [⟨m.now + laterOf t.delay 0, .wake 0 ((m.loop 0).rests + 1)⟩] := by
    rw [later_zero, rest_eq (by exact loops)]
    rfl
  cases outcome with
  | ok count => exact ⟨m.site, rfl, next m.site⟩
  | error f =>
    refine ⟨{ m.site with notices := m.site.notices ++ [.taskFailed] }, rfl, ?_⟩
    rw [← next]
    simp only [afterWork, survived f rfl]
    rfl

theorem Lone.finish_eq (proper : t.Proper) (h : Lone visits m) (n : Nat) :
    ∃ site : RunCount, site.begun = m.site.begun ∧
      m.doJob (t.plan visits) (.finish (.loop 0) n) =
        if (m.loop 0).cancelled then (m.endRun n site).book [⟨m.now, .conclude 0⟩]
        else (m.endRun n site).restNow.book
          [⟨m.now + laterOf t.delay 0, .wake 0 ((m.loop 0).rests + 1)⟩] := by
  obtain ⟨site, same, eq⟩ := afterWork_eq t visits
    (m := { m with busy := false }.record (.event (.ended n))) h.loops (proper.survived n)
  refine ⟨site, same, Eq.trans ?_ eq⟩
  have released := release_eq (m := m.record (.event (.ended n))) h.queue
  exact congrArg (fun m => m.afterWork (t.plan visits) 0 (t.run n).outcome) released

/-- What is done next, job by job. -/
theorem Lone.doJob (proper : t.Proper) (h : Lone visits m) {job : Job Nat} (fits : Fits visits job)
    (other : job ≠ .proceed) :
    ∃ core added, Turn t visits m job core added ∧ m.doJob (t.plan visits) job = core.book added ∧
      core.attention = m.attention ∧ core.remaining = m.remaining := by
  cases fits with
  | proceed => exact absurd rfl other
  | @call j hj =>
    have calls : (t.plan visits : Plan RunCount Nat RunEvent α).calls[j]? =
        some (visits[j].call) := by
      simp [Timeline.plan, hj]
    have asked : visits[j]? = some visits[j] := List.getElem?_eq_getElem hj
    have charge : m.control.handle = some 0 := by rw [h.control]
    simp only [Machine.doJob, calls]
    generalize visits[j] = v at asked
    obtain ⟨time, ask⟩ := v
    cases ask with
    | cancel =>
      refine ⟨_, _, .cancels asked, ?_, rfl, rfl⟩
      simp only [Visit.call, Ask.request, request, charge, h.cancel_eq]
      exact answer_eq_tell (by exact h.unattended) j true
    | wait timeout =>
      simp only [Visit.call, Ask.request, request, charge, h.waitFor_eq]
      by_cases ended : (m.loop 0).phase = .over
      · exact ⟨_, _, .findsOver asked ended, by rw [if_pos ended]; rfl, rfl, rfl⟩
      · exact ⟨_, _, .waits asked ended, by rw [if_neg ended], rfl, rfl⟩
  | wake r =>
    simp only [Machine.doJob, Bool.and_eq_true, decide_eq_true_eq]
    by_cases awake : (m.loop 0).phase = .resting ∧ (m.loop 0).rests = r
    · rw [if_pos awake, h.wake_eq awake.1]
      cases cancelled : (m.loop 0).cancelled with
      | true => exact ⟨_, _, .notices awake.1 awake.2 cancelled, rfl, rfl, rfl⟩
      | false => exact ⟨_, _, .begins awake.1 awake.2 cancelled, rfl, rfl, rfl⟩
    · exact ⟨_, _, .ignores awake, if_neg awake, rfl, rfl⟩
  | finish n =>
    obtain ⟨site, same, eq⟩ := h.finish_eq proper n
    rw [eq]
    cases cancelled : (m.loop 0).cancelled with
    | true => exact ⟨_, _, .leaves cancelled same, rfl, rfl, rfl⟩
    | false => exact ⟨_, _, .rests cancelled same, rfl, rfl, rfl⟩
  | conclude => exact ⟨_, _, .concludes, h.conclude_eq, rfl, rfl⟩
  | resume j => exact ⟨_, _, .resumes, waited_eq_tell h.unattended j true, rfl, rfl⟩
  | timeout j =>
    have any : m.waiters.any (·.caller = j) = true ↔ ∃ w ∈ m.waiters, w.caller = j := by simp
    simp only [Machine.doJob, any]
    by_cases waiting : ∃ w ∈ m.waiters, w.caller = j
    · refine ⟨_, _, .givesUp waiting, ?_, rfl, rfl⟩
      rw [if_pos waiting]
      exact waited_eq_tell (by exact h.unattended) j false
    · exact ⟨_, _, .isAnswered (by simpa using waiting), if_neg waiting, rfl, rfl⟩

theorem attend_eq_self {σ κ ε : Type} {p : Plan σ κ ε α} {m : Machine σ κ ε α}
    (noneLeft : m.attention = .free → m.remaining = []) : m.attend p = m := by
  unfold attend
  split
  · rename_i free
    have none := noneLeft free
    rw [none]
    exact congrArg (fun l => { m with remaining := l }) none.symm
  · rfl

variable {core : Machine RunCount Nat RunEvent α} {job : Job Nat} {added : List (Entry (Job Nat))}
  {e : Entry (Job Nat)} {rest : Agenda (Job Nat)}

/-- A step is a turn, at the time of the job that is due next. -/
theorem Lone.step (proper : t.Proper) (h : Lone visits m) (head : m.agenda = e :: rest)
    (onward : m.now ≤ e.due) :
    ∃ core added, Turn t visits { m with now := e.due, agenda := rest } e.job core added ∧
      m.step (t.plan visits) = core.book added := by
  have now : laterOf m.now e.due = e.due := if_pos onward
  have popped := h.popped head e.due
  obtain ⟨due, job⟩ := e
  simp only [Machine.step, head, now]
  by_cases clerk : job = .proceed
  · subst clerk
    obtain ⟨ahead, same⟩ := h.remaining
    refine ⟨_, _, .admits same, ?_⟩
    simp only [Machine.doJob, attend, if_true, same]
    exact makeCalls_callsOf ..
  · obtain ⟨core, added, turn, done, attention, remaining⟩ :=
      popped.doJob proper (h.fits _ (head ▸ List.mem_cons_self)) clerk
    refine ⟨core, added, turn, ?_⟩
    rw [done]
    exact attend_eq_self fun free => remaining.trans (h.noneLeft (attention.symm.trans free))

theorem Lone.book (h : Lone visits m) (fits : ∀ e ∈ added, Fits visits e.job) :
    Lone visits (m.book added) :=
  { h with
    fits := fun e he => by
      rcases List.mem_append.mp ((m.agenda.addAll_perm added).mem_iff.mp he) with he | he
      · exact fits e he
      · exact h.fits e he }

theorem Turn.lone (turn : Turn t visits m job core added) (h : Lone visits m) :
    Lone visits (core.book added) := by
  cases turn with
  | @admits visitors next =>
    have numbered : ∀ x ∈ visitors, x.1 < visits.length := fun x hx =>
      h.numbered (x.1, x.2.call) (next ▸ List.mem_map_of_mem hx)
    have split := called_append_ahead m visitors
    refine Lone.book { h with
      unattended := fun c => ?_
      noneLeft := fun free => ?_
      remaining := ⟨m.ahead visitors, rfl⟩
      numbered := ?_ } fun e he => ?_
    · simp only [letIn]
      split <;> exact Attention.noConfusion
    · cases left : m.ahead visitors with
      | nil => exact congrArg callsOf left
      | cons x rest =>
        have asleep : (m.ahead visitors).isEmpty = false := by rw [left]; rfl
        exact Attention.noConfusion ((if_neg (ne_true_of_eq_false asleep)).symm.trans free)
    · intro x hx
      obtain ⟨y, hy, rfl⟩ := List.mem_map.mp hx
      exact numbered y (split ▸ List.mem_append_right _ hy)
    · rcases List.mem_append.mp he with he | he
      · obtain ⟨x, hx, rfl⟩ := List.mem_map.mp he
        exact .call (numbered x (split ▸ List.mem_append_left _ hx))
      · obtain ⟨x, -, rfl⟩ := List.mem_map.mp he
        exact .proceed
  | cancels asked =>
    refine Lone.book { h with loops := rfl, idle := h.idle } fun e he => ?_
    cases eq_of_mem_cutShort he
    exact .wake _
  | findsOver asked ended => exact Lone.book { h with } (by simp)
  | waits asked going =>
    refine Lone.book { h with waiters := ?_ } ?_
    · simpa using fun w hw => hw.elim (h.waiters w) (by rintro rfl; rfl)
    · simpa using fun _ _ => .timeout _
  | ignores stale => exact h.book (by simp)
  | notices resting current cancelled => exact h.book (by simpa using .conclude)
  | begins resting current going =>
    exact Lone.book { h with loops := rfl, idle := fun resting => by cases resting }
      (by simpa using .finish _)
  | rests going same =>
    exact Lone.book { h with loops := rfl, idle := fun _ => rfl } (by simpa using .wake _)
  | leaves cancelled same =>
    exact Lone.book { h with idle := fun _ => rfl } (by simpa using .conclude)
  | concludes =>
    refine Lone.book { h with
      loops := rfl
      idle := fun resting => by cases resting
      waiters := fun w hw => by cases hw } fun e he => ?_
    obtain ⟨w, -, rfl⟩ := List.mem_map.mp he
    exact .resume _
  | resumes => exact Lone.book { h with } (by simp)
  | givesUp waiting =>
    exact Lone.book { h with waiters := fun w hw => h.waiters w (List.mem_filter.mp hw).1 } (by simp)
  | isAnswered gone => exact h.book (by simp)

end Machine
end IndexSync.Schedule
