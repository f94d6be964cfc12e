import IndexSync.Proofs.Schedule.Visitors
import Mathlib.Logic.Function.Iterate

/-!
# A loop with a fixed delay, from its start to its end

A loop is left alone or visited, and cancelled at some time. It starts the runs that the timeline has
before that time, each when it is due, lets the last one come to its end, and tells those who wait.
-/
namespace IndexSync.Schedule

open Machine

/-- The loop has been started, and so have the visits that come at once. -/
def Timeline.opened (α : Type) (t : Timeline) (visits : List Visit) :
    Machine RunCount Nat RunEvent α :=
  ((create (t.plan visits) ⟨0, []⟩).start (t.plan visits)).2.attend (t.plan visits)

/-- The machine after a number of steps. -/
def Timeline.after (α : Type) (t : Timeline) (visits : List Visit) (n : Nat) :
    Machine RunCount Nat RunEvent α :=
  (step (t.plan visits))^[n] (t.opened α visits)

/-- How many jobs may come of a job. -/
def Job.weight {κ : Type} : Job κ → Nat
  | .call _ => 4
  | .finish .. => 3
  | .wake .. => 2
  | .proceed | .grant _ | .conclude _ | .resume _ | .timeout _ => 1

namespace Machine

variable {α : Type} {m core : Machine RunCount Nat RunEvent α} {t : Timeline} {visits : List Visit}
  {visitors later : List (Nat × Visit)} {job : Job Nat} {added : List (Entry (Job Nat))} {K : Nat}
  {c : Rat}

/-- How many steps there may be to come, if `K` runs start. -/
def potential (K : Nat) (m : Machine RunCount Nat RunEvent α) : Nat :=
  2 * (K - m.site.begun) + (m.agenda.map (·.job.weight)).sum + 6 * m.remaining.length +
    2 * m.waiters.length

theorem weight_book (m : Machine RunCount Nat RunEvent α) (added : List (Entry (Job Nat))) :
    ((m.book added).agenda.map (·.job.weight)).sum =
      (added.map (·.job.weight)).sum + (m.agenda.map (·.job.weight)).sum := by
  rw [← List.sum_append, ← List.map_append]
  exact ((m.agenda.addAll_perm added).map _).sum_nat

theorem Standing.begun_le (h : Standing t K c m) : m.site.begun ≤ K := by
  cases h with
  | resting k r hl hb hr hj few => exact hb ▸ few
  | working k r x hl hb hr hj few => exact hb ▸ few
  | roused r job hl hb => exact hb.le
  | leaving r hl hb => exact hb.le
  | closed r hl hb => exact hb.le

/-- What a turn adds weighs less than what it takes away. -/
theorem Turn.weight_lt (turn : Turn t visits m job core added)
    (clerk : Clerk visits (m.facing job) visitors) (few : core.site.begun ≤ K) :
    2 * (K - core.site.begun) + (added.map (·.job.weight)).sum + 6 * core.remaining.length +
        2 * core.waiters.length <
      2 * (K - m.site.begun) + job.weight + 6 * m.remaining.length + 2 * m.waiters.length := by
  cases turn with
  | @admits visitors' next =>
    have same : visitors' = visitors := callsOf_injective (next.symm.trans clerk.remaining)
    subst same
    obtain ⟨-, -, shorter⟩ := clerk.head
    have all := congrArg List.length (called_append_ahead m visitors')
    have one := Option.length_toList_le (o := (m.ahead visitors').head?)
    have booked : ((m.callJobs visitors').map (·.job.weight)).sum =
        4 * (m.called visitors').length + (m.ahead visitors').head?.toList.length := by
      simp [callJobs, Job.weight, Function.comp_def, Nat.mul_comm]
    have left : (callsOf (m.ahead visitors') : List (Nat × Call RunCount α)).length =
        (m.ahead visitors').length := List.length_map _
    have before : m.remaining.length = visitors'.length := by rw [next, callsOf, List.length_map]
    rw [List.length_append] at all
    rw [booked, before]
    change 2 * (K - m.site.begun) + _ + 6 * (callsOf (m.ahead visitors')).length +
      2 * m.waiters.length < 2 * (K - m.site.begun) + 1 + 6 * visitors'.length + 2 * m.waiters.length
    rw [left]
    omega
  | cancels asked =>
    unfold cutShort
    split <;> simp [tell, markCancelled, Job.weight]
  | @waits j v timeout asked going =>
    cases timeout <;> simp [Job.weight] <;> omega
  | begins resting current going =>
    simp only [startRun, record] at few
    simp [startRun, record, Job.weight]
    omega
  | concludes =>
    have woken : (m.wakeAll.map (·.job.weight)).sum = m.waiters.length := by
      simp [wakeAll, Job.weight, Function.comp_def]
    rw [woken]
    change 2 * (K - m.site.begun) + m.waiters.length + 6 * m.remaining.length + 2 * 0 <
      2 * (K - m.site.begun) + 1 + 6 * m.remaining.length + 2 * m.waiters.length
    omega
  | @givesUp j waiting =>
    have := List.length_filter_le (fun w : Waiter => decide (w.caller ≠ j)) m.waiters
    simp only [tell, Job.weight, List.map_nil, List.sum_nil]
    omega
  | rests | leaves =>
    simp [restNow, endRun, record, Job.weight, *]
  | findsOver | ignores | notices | resumes | isAnswered =>
    simp [tell, Job.weight]

/-- With every turn less is left to do. -/
theorem Turn.potential_lt (turn : Turn t visits m job core added)
    (clerk : Clerk visits (m.facing job) visitors) (few : core.site.begun ≤ K) :
    (core.book added).potential K < (m.facing job).potential K := by
  have booked := weight_book core added
  have head : ((m.facing job).agenda.map (·.job.weight)).sum =
      job.weight + (m.agenda.map (·.job.weight)).sum := List.sum_cons
  have less := turn.weight_lt clerk few
  unfold potential
  rw [booked, head, turn.agenda_eq]
  simp only [book, facing]
  omega

/-- What is asked of a loop with a fixed delay and of its visitors: `c` is the time of the first cancel,
and `K` runs would start before it. -/
structure Visited (t : Timeline) (visits : List Visit) (K : Nat) (c : Rat) : Prop where
  proper : t.Proper
  inTurn : InTurn visits
  asked : ⟨c, .cancel⟩ ∈ visits
  first : ∀ time, ⟨time, .cancel⟩ ∈ visits → c ≤ time
  few : ∀ k, k < K ↔ t.start k < c
  apart : ∀ k, c ≠ t.start k

/-- All that holds between two steps. -/
structure Course (t : Timeline) (visits : List Visit) (K : Nat) (c : Rat)
    (visitors : List (Nat × Visit)) (m : Machine RunCount Nat RunEvent α) : Prop where
  timely : Timely m
  clerk : Clerk visits m visitors
  placed : ∀ j v, visits[j]? = some v → Placed visitors m j v
  standing : Standing t K c m
  waiting : Waiting visits (t.close c K) m

/-- A turn stays on course. -/
theorem Turn.course (turn : Turn t visits m job core added) (v : Visited t visits K c)
    (timely : Timely (m.facing job)) (early : (m.loop 0).cancelled = false → m.now ≤ c)
    (called : ∀ due j, ⟨due, .call j⟩ ∈ (m.facing job).agenda →
      ∃ v, visits[j]? = some v ∧ v.time = due)
    (placed : ∀ j v, visits[j]? = some v → Placed visitors (m.facing job) j v)
    (standing : Standing t K c (m.facing job)) (waiting : Waiting visits (t.close c K) (m.facing job))
    (clerk : Clerk visits (core.book added) later)
    (letIn : ∀ x ∈ visitors, x ∈ later ∨ ⟨m.now, .call x.1⟩ ∈ added) :
    Course t visits K c later (core.book added) := by
  have on : OnTime t K c m job := ⟨v.proper, v.few, v.apart, timely, early⟩
  have stands : Standing t K c (core.book added) := by
    refine turn.standing on (fun j time eq asked => ?_) standing
    subst eq
    obtain ⟨v', hv', now⟩ := called m.now j List.mem_cons_self
    cases asked.symm.trans hv'
    exact now ▸ v.first time (List.mem_of_getElem? asked)
  have meets : Meets visits (t.close c K) m core job :=
    { timely := timely
      called := called
      going := standing.now_le_close on
      ended := fun ended => (stands.close_le_now ended).trans turn.now_eq.le }
  have rest : Timely m :=
    ⟨(List.pairwise_cons.mp timely.ordered).2, fun e he => timely.onward e (List.mem_cons_of_mem _ he)⟩
  exact
    { timely := turn.timely rest
      clerk := clerk
      placed := fun j v hv => turn.placed letIn hv (placed j v hv)
      standing := stands
      waiting := turn.waiting meets waiting }

/-- Time passes up to the next job. -/
theorem Course.until (h : Course t visits K c visitors m) {e : Entry (Job Nat)}
    {rest : Agenda (Job Nat)} (head : m.agenda = e :: rest) :
    Course t visits K c visitors ({ m with now := e.due, agenda := rest }.facing e.job) := by
  have same : { m with now := e.due, agenda := rest }.facing e.job = { m with now := e.due } :=
    congrArg (fun agenda => { m with now := e.due, agenda := agenda }) head.symm
  have first : ∀ d ∈ m.agenda, e.due ≤ d.due := by
    have := h.timely.ordered
    rw [head] at this ⊢
    exact List.forall_mem_cons.mpr ⟨le_rfl, (List.pairwise_cons.mp this).1⟩
  rw [same]
  exact
    { timely := ⟨h.timely.ordered, first⟩
      clerk := { h.clerk with }
      placed := fun j v hv => by
        cases h.placed j v hv with
        | coming h => exact .coming h
        | called due h => exact .called due h
        | waiting w h caller waits => exact .waiting w h caller waits
        | resumed due h waits => exact .resumed due h waits
        | told time a h heeded => exact .told time a h heeded
      standing := h.standing.pass (h.timely.onward e (head ▸ List.mem_cons_self)) rfl rfl rfl (.refl _)
      waiting := { h.waiting with } }

theorem Course.early (h : Course t visits K c visitors (m.facing job)) (v : Visited t visits K c)
    (going : (m.loop 0).cancelled = false) : m.now ≤ c := by
  obtain ⟨j, hj⟩ := List.mem_iff_getElem?.mp v.asked
  exact h.clerk.early h.timely hj (h.placed j _ hj) going

/-- A step stays on course, and leaves less to do. -/
theorem Course.step (lone : Lone visits m) (h : Course t visits K c visitors m)
    (v : Visited t visits K c) (left : m.agenda ≠ []) :
    ∃ later, Lone visits (m.step (t.plan visits)) ∧
      Course t visits K c later (m.step (t.plan visits)) ∧
      (m.step (t.plan visits)).potential K < m.potential K := by
  cases head : m.agenda with
  | nil => exact absurd head left
  | cons e rest =>
    obtain ⟨core, added, turn, step⟩ :=
      lone.step v.proper head (h.timely.onward e (head ▸ List.mem_cons_self))
    have at_ := h.until head
    obtain ⟨later, clerk, letIn⟩ := turn.clerk at_.clerk
    have next := turn.course v at_.timely (at_.early v) at_.clerk.called at_.placed at_.standing
      at_.waiting clerk letIn
    have less := turn.potential_lt at_.clerk next.standing.begun_le
    have before : ({ m with now := e.due, agenda := rest }.facing e.job).potential K =
        m.potential K := by
      simp only [potential, facing, head]
    rw [step]
    exact ⟨later, turn.lone (lone.popped head e.due), next, before ▸ less⟩

theorem step_eq_self {σ κ ε : Type} {p : Plan σ κ ε α} {m : Machine σ κ ε α} (none : m.agenda = []) :
    m.step p = m := by
  simp only [step, none]

/-- The machine comes to rest. -/
theorem Course.settles (lone : Lone visits m) (h : Course t visits K c visitors m)
    (v : Visited t visits K c) :
    ∃ n later, Course t visits K c later ((Machine.step (t.plan visits))^[n] m) ∧
      ((Machine.step (t.plan visits))^[n] m).agenda = [] := by
  induction potential : m.potential K using Nat.strong_induction_on generalizing m visitors with
  | _ steps ih =>
    by_cases none : m.agenda = []
    · exact ⟨0, visitors, h, none⟩
    · obtain ⟨later, lone', h', less⟩ := h.step lone v none
      obtain ⟨n, later, settled⟩ := ih _ (potential ▸ less) lone' h' rfl
      exact ⟨n + 1, later, settled⟩

/-- All have been told when nothing is left to do. -/
theorem Course.settled (h : Course t visits K c visitors m) (none : m.agenda = []) {j : Nat}
    {v : Visit} (hv : visits[j]? = some v) : ∃ time a, (time, .answer j a) ∈ m.log := by
  have nobody : m.waiters = [] := h.waiting.closed (h.standing.settled none).1
  have proceeds := h.clerk.proceeds
  rw [none] at proceeds
  cases h.placed j v hv with
  | coming hj =>
    cases visitors with
    | nil => cases hj
    | cons x rest => cases List.nil_perm.mp proceeds
  | called due hj =>
    rw [none] at hj
    cases hj
  | waiting w hw =>
    rw [nobody] at hw
    cases hw
  | resumed due hj =>
    rw [none] at hj
    cases hj
  | told time a ha => exact ⟨time, a, ha⟩

end Machine

namespace Timeline

variable {t : Timeline} {visits : List Visit} {K : Nat} {c : Rat}

/-- The loop rests before its first run, and nobody has come yet. -/
def beginning (α : Type) (t : Timeline) (visits : List Visit) : Machine RunCount Nat RunEvent α where
  now := 0
  agenda := [⟨t.initialDelay, .wake 0 1⟩]
  loops := [⟨.resting, 1, false⟩]
  control := ⟨some 0, false, false⟩
  busy := false
  queue := []
  waiters := []
  attention := .asleep
  remaining := callsOf (roll visits)
  unattended := 0
  log := []
  site := ⟨0, []⟩

/-- The loop is started, and the first visitors are let in. -/
theorem opened_eq (proper : t.Proper) (α : Type) :
    t.opened α visits = ({ t.beginning α visits with attention := .free }.letIn (roll visits)).book
      ((t.beginning α visits).callJobs (roll visits)) := by
  have started : ((create (t.plan visits) ⟨0, []⟩).start (t.plan visits)).2 =
      { t.beginning α visits with attention := .free } := by
    have calls : (t.plan visits : Plan RunCount Nat RunEvent α).calls.zipIdx.map (fun (a, c) => (c, a)) =
        callsOf (roll visits) := by
      simp [Timeline.plan, callsOf, roll, List.zipIdx_map]
    have delay := laterOf_zero proper.initialDelay
    have early : ¬ t.initialDelay < 0 := not_lt.mpr proper.initialDelay
    have positive : ¬ t.delay < 0 := not_lt.mpr proper.delay.le
    simp only [create, calls, Machine.start, Control.running]
    simp [Timeline.plan, early, positive, rest, Machine.later, setLoop, loop, Agenda.add, beginning,
      delay]
  rw [opened, started]
  exact makeCalls_callsOf ..

theorem lone_beginning (α : Type) : Lone visits (t.beginning α visits) where
  loops := rfl
  control := rfl
  queue := rfl
  idle _ := rfl
  waiters w hw := nomatch hw
  unattended c := nofun
  noneLeft := nofun
  remaining := ⟨_, rfl⟩
  numbered x hx := by
    obtain ⟨y, hy, rfl⟩ := List.mem_map.mp hx
    exact (List.getElem?_eq_some_iff.mp (mem_roll.mp hy)).1
  fits e he := by
    cases List.mem_singleton.mp he
    exact .wake 1

/-- The loop starts on course. -/
theorem opened_course (v : Visited t visits K c) (α : Type) :
    ∃ later, Lone visits (t.opened α visits) ∧ Course t visits K c later (t.opened α visits) := by
  have known : ∀ x ∈ roll visits, visits[x.1]? = some x.2 := fun x => mem_roll.mp
  have now : ∀ x ∈ roll visits, (0 : Rat) ≤ x.2.time := fun x hx =>
    v.inTurn.nonneg x.2 (List.mem_of_getElem? (known x hx))
  have turn : Machine.Turn t visits (t.beginning α visits) .proceed
    ({ t.beginning α visits with attention := .free }.letIn (roll visits))
    ((t.beginning α visits).callJobs (roll visits)) := .admits rfl
  have clerk := Clerk.letIn (m := { t.beginning α visits with attention := .free }) known
    (sorted_roll v.inTurn.sorted) now rfl (by simp [beginning])
  rw [opened_eq v.proper]
  have timely : Timely ((t.beginning α visits).facing .proceed) := by
    refine ⟨?_, ?_⟩ <;> simp [facing, beginning, Agenda.IsOrdered, v.proper.initialDelay]
  have standing : Standing t K c ((t.beginning α visits).facing .proceed) :=
    .resting 0 1 rfl rfl rfl rfl (Nat.zero_le K) nofun
  have waiting : Waiting visits (t.close c K) ((t.beginning α visits).facing .proceed) := by
    constructor <;> simp [facing, beginning]
  refine ⟨_, turn.lone (lone_beginning α), turn.course v timely (fun _ => v.inTurn.nonneg _ v.asked)
    ?_ (fun j v hv => .coming (mem_roll.mpr hv)) standing waiting clerk
    fun x hx => mem_ahead_or_mem_callJobs _ hx⟩
  simp [facing, beginning]

/-- Whoever comes when the loop has been cancelled, and does not give up just when a run ends, learns
whether the last run has ended in time. -/
theorem lt_deadline_iff (proper : t.Proper) {w d : Rat} (late : c ≤ w) (positive : 0 < d)
    (ends : ∀ k < K, t.finish k ≠ w + d) :
    t.close c K ≠ w + d ∧ ((∀ k < K, t.finish k < w + d) ↔ t.close c K < w + d) := by
  have cancelled : c < w + d := by linarith
  have inTime (h : ∀ k < K, t.finish k < w + d) : t.close c K < w + d := by
    rcases close_eq (t := t) c K with eq | ⟨k, hk, eq⟩
    · exact eq.trans_lt cancelled
    · exact eq.trans_lt (h k hk)
  refine ⟨?_, inTime, fun h k hk => (proper.finish_le_close c hk).trans_lt h⟩
  rcases close_eq (t := t) c K with eq | ⟨k, hk, eq⟩
  · exact fun same => cancelled.ne (eq.symm.trans same)
  · exact fun same => ends k hk (eq.symm.trans same)

/-- A loop that is cancelled at time `c` for the first time starts the runs whose time is before `c`, and
no others, each when it is due, and every one of them ends before the next one starts. A visitor who waits
from then on is told that the loop has ended if all runs end before the time is up, and that it has not if
one of them ends later. -/
theorem fixed_delay (α : Type) (proper : t.Proper) (inTurn : InTurn visits)
    (asked : ⟨c, .cancel⟩ ∈ visits) (first : ∀ time, ⟨time, .cancel⟩ ∈ visits → c ≤ time)
    (apart : ∀ k, c ≠ t.start k) :
    ∃ K, (∀ k, k < K ↔ t.start k < c) ∧ (∀ i k, i < k → t.finish i < t.start k) ∧
      ∃ steps, ∀ n ≥ steps, (t.after α visits n).runs = t.log K ∧
        ∀ j w d, visits[j]? = some ⟨w, .wait (some d)⟩ → 0 < d → c ≤ w →
          (∀ k < K, t.finish k ≠ w + d) →
          ∀ a, (∃ time, (time, .answer j a) ∈ (t.after α visits n).log) ↔
            a = .ok (.truth (decide (∀ k < K, t.finish k < w + d))) := by
  obtain ⟨K, few⟩ := proper.exists_count c
  have v : Visited t visits K c := ⟨proper, inTurn, asked, first, few, apart⟩
  obtain ⟨_, lone, course⟩ := opened_course v α
  obtain ⟨steps, later, final, none⟩ := course.settles lone v
  refine ⟨K, few, fun i k => proper.finish_lt_start, steps, fun n hn => ?_⟩
  have same : t.after α visits n = (step (t.plan visits))^[steps] (t.opened α visits) := by
    obtain ⟨more, rfl⟩ := Nat.exists_eq_add_of_le' hn
    rw [after, Function.iterate_add_apply]
    exact Function.iterate_fixed (step_eq_self none) more
  rw [same]
  refine ⟨(final.standing.settled none).2, fun j w d waits positive late ends a => ?_⟩
  obtain ⟨apart, inTime⟩ := lt_deadline_iff proper late positive ends
  -- whatever the visitor is told is the truth
  have truth {time : Rat} {a : Except Failure (Answer α)}
      (told : (time, .answer j a) ∈ ((step (t.plan visits))^[steps] (t.opened α visits)).log) :
      a = .ok (.truth (decide (∀ k < K, t.finish k < w + d))) := by
    obtain ⟨v', hv', b, rfl, honest⟩ := final.waiting.told time j a told
    cases waits.symm.trans hv'
    have deadline : w + d ∈ (⟨w, .wait (some d)⟩ : Visit).deadline? :=
      congrArg (fun d => some (w + d)) (laterOf_zero positive.le)
    have honest := honest _ deadline
    refine congrArg (fun b => Except.ok (Answer.truth b)) ?_
    rw [decide_eq_decide.mpr inTime]
    cases b with
    | true => exact (decide_eq_true (lt_of_le_of_ne honest apart)).symm
    | false => exact (decide_eq_false (not_lt.mpr honest)).symm
  constructor
  · rintro ⟨time, told⟩
    exact truth told
  · rintro rfl
    obtain ⟨time, a, told⟩ := final.settled none waits
    exact ⟨time, truth told ▸ told⟩

/-- The second run takes longer, and fails. -/
def secondFails : Timeline := ⟨1, 2, runAt [⟨1, none⟩, ⟨3, some ⟨.runtime, none⟩⟩]⟩

/-- The loop is cancelled during the second run, and two visitors wait for its end. -/
theorem fixed_delay_secondFails :
    ∃ steps, ∀ n ≥ steps,
      let m := secondFails.after Unit
        [⟨5, .cancel⟩, ⟨5, .wait (some 1)⟩, ⟨6, .wait (some 3)⟩] n
      m.runs = [(1, .started 1), (2, .ended 1), (4, .started 2), (7, .ended 2)] ∧
        (∃ time, (time, .answer 1 (.ok (.truth false))) ∈ m.log) ∧
        ∃ time, (time, .answer 2 (.ok (.truth true))) ∈ m.log := by
  have either (n : Nat) : secondFails.run n = ⟨1, none⟩ ∨
      secondFails.run n = ⟨3, some ⟨.runtime, none⟩⟩ := by
    simp only [secondFails, runAt]
    rcases n - 1 with _ | _ | _
    · exact .inl rfl
    · exact .inr rfl
    · exact .inr rfl
  have proper : secondFails.Proper :=
    { initialDelay := zero_le_one
      delay := zero_lt_two
      durations := fun n => by rcases either n with run | run <;> rw [run] <;> norm_num
      survived := fun n f failed => by
        rcases either n with run | run <;> rw [run] at failed <;> cases failed
        rfl }
  have inTurn : InTurn [⟨5, .cancel⟩, ⟨5, .wait (some 1)⟩, ⟨6, .wait (some 3)⟩] :=
    ⟨by norm_num, by norm_num⟩
  have start₀ : secondFails.start 0 = 1 := rfl
  have start₁ : secondFails.start 1 = 4 := by norm_num [start, secondFails, runAt]
  have start₂ : secondFails.start 2 = 9 := by norm_num [start, secondFails, runAt]
  have finish₀ : secondFails.finish 0 = 2 := by norm_num [finish, start, secondFails, runAt]
  have finish₁ : secondFails.finish 1 = 7 := by norm_num [finish, start, secondFails, runAt]
  have apart (k : Nat) : (5 : Rat) ≠ secondFails.start k := by
    rcases k with _ | _ | k
    · norm_num [start₀]
    · norm_num [start₁]
    · have := proper.strictMono_start.monotone (Nat.le_add_left 2 k)
      rw [start₂] at this
      linarith
  obtain ⟨K, few, -, steps, final⟩ :=
    fixed_delay Unit proper inTurn List.mem_cons_self (by simp) apart
  have count : K = 2 := by
    have second : 1 < K := (few 1).mpr (by norm_num [start₁])
    have third : ¬ 2 < K := fun h => by
      have := (few 2).mp h
      norm_num [start₂] at this
    omega
  subst count
  refine ⟨steps, fun n hn => ?_⟩
  obtain ⟨runs, told⟩ := final n hn
  have all (p : Nat → Prop) : (∀ k < 2, p k) ↔ p 0 ∧ p 1 := by
    refine ⟨fun h => ⟨h 0 (by decide), h 1 (by decide)⟩, fun h k hk => ?_⟩
    obtain rfl | rfl : k = 0 ∨ k = 1 := by omega
    · exact h.1
    · exact h.2
  refine ⟨runs.trans ?_, (told 1 5 1 rfl (by norm_num) le_rfl ?_ _).mpr ?_,
    (told 2 6 3 rfl (by norm_num) (by norm_num) ?_ _).mpr ?_⟩
  · simp [log, List.range_succ, start₀, start₁, finish₀, finish₁]
  · rw [all, finish₀, finish₁]
    norm_num
  · simp only [all, finish₀, finish₁]
    norm_num
  · rw [all, finish₀, finish₁]
    norm_num
  · simp only [all, finish₀, finish₁]
    norm_num

end Timeline
end IndexSync.Schedule
