import IndexSync.Proofs.Schedule.LoneLoop

/-!
# Where the loop stands

Between two steps the loop is at some point of its timeline, which the jobs that are due tell. A loop that
has been cancelled during a rest still has the end of that rest before it, and takes no notice of it.
-/
namespace IndexSync.Schedule

/-- A job of the loop itself. -/
def Job.isOfLoop {κ : Type} : Job κ → Bool
  | .wake .. | .finish .. | .conclude _ => true
  | _ => false

namespace Machine

variable {α : Type}

section
variable {σ κ ε : Type}

/-- The machine that is about to do a job. -/
def facing (m : Machine σ κ ε α) (job : Job κ) : Machine σ κ ε α :=
  { m with agenda := ⟨m.now, job⟩ :: m.agenda }

def loopJobs (m : Machine σ κ ε α) : List (Entry (Job κ)) :=
  m.agenda.filter (·.job.isOfLoop)

/-- What is seen of the work. -/
def runs (m : Machine σ κ ε α) : List (Rat × ε) :=
  m.log.filterMap fun (time, r) => match r with
    | .event e => some (time, e)
    | .answer .. => none

theorem mem_book {m : Machine σ κ ε α} {added : List (Entry (Job κ))} {e : Entry (Job κ)} :
    e ∈ (m.book added).agenda ↔ e ∈ added ∨ e ∈ m.agenda := by
  rw [book, (m.agenda.addAll_perm added).mem_iff, List.mem_append]

theorem filter_book (m : Machine σ κ ε α) (added : List (Entry (Job κ)))
    (f : Entry (Job κ) → Bool) :
    ((m.book added).agenda.filter f).Perm (added.filter f ++ m.agenda.filter f) := by
  rw [← List.filter_append]
  exact (m.agenda.addAll_perm added).filter f

theorem loopJobs_book (m : Machine σ κ ε α) (added : List (Entry (Job κ))) :
    (m.book added).loopJobs.Perm (added.filter (·.job.isOfLoop) ++ m.loopJobs) :=
  filter_book m added _

/-- Nothing is due that has been left behind. -/
structure Timely (m : Machine σ κ ε α) : Prop where
  ordered : m.agenda.IsOrdered
  onward : ∀ e ∈ m.agenda, m.now ≤ e.due

end

variable {m core : Machine RunCount Nat RunEvent α} {t : Timeline} {visits : List Visit}
  {job : Job Nat} {added : List (Entry (Job Nat))}

theorem Turn.now_eq (turn : Turn t visits m job core added) : core.now = m.now := by
  cases turn <;> rfl

theorem Turn.agenda_eq (turn : Turn t visits m job core added) : core.agenda = m.agenda := by
  cases turn <;> rfl

theorem time_le_of_mem_called {σ κ ε : Type} {m : Machine σ κ ε α} {visitors : List (Nat × Visit)}
    {x : Nat × Visit} (h : x ∈ m.called visitors) : x.2.time ≤ m.now :=
  of_decide_eq_true (List.all_eq_true.mp List.all_takeWhile x h)

theorem lt_time_of_mem_head? {σ κ ε : Type} {m : Machine σ κ ε α} {visitors : List (Nat × Visit)}
    {x : Nat × Visit} (h : x ∈ (m.ahead visitors).head?) : m.now < x.2.time := by
  have fails := List.head?_dropWhile_not (fun x : Nat × Visit => decide (x.2.time ≤ m.now)) visitors
  rw [Option.mem_def, ahead] at h
  rw [h] at fails
  exact not_le.mp (of_decide_eq_false fails)

/-- Jobs are booked for now or later. -/
theorem Turn.now_le (turn : Turn t visits m job core added) : ∀ e ∈ added, m.now ≤ e.due := by
  have later (d : Rat) : m.now ≤ m.now + laterOf d 0 := by
    have := laterOf_zero_nonneg d
    linarith
  intro e he
  cases turn with
  | admits next =>
    rcases List.mem_append.mp he with he | he
    · obtain ⟨x, -, rfl⟩ := List.mem_map.mp he
      exact le_rfl
    · obtain ⟨x, hx, rfl⟩ := List.mem_map.mp he
      exact (lt_time_of_mem_head? (Option.mem_toList.mp hx)).le
  | cancels asked =>
    cases eq_of_mem_cutShort he
    exact le_rfl
  | waits asked going =>
    obtain ⟨d, -, rfl⟩ := List.mem_map.mp he
    exact later d
  | begins | rests =>
    cases List.mem_singleton.mp he
    exact later _
  | notices | leaves =>
    cases List.mem_singleton.mp he
    exact le_rfl
  | concludes =>
    obtain ⟨w, -, rfl⟩ := List.mem_map.mp he
    exact le_rfl
  | findsOver | ignores | resumes | givesUp | isAnswered => cases he

theorem Turn.timely (turn : Turn t visits m job core added) (h : Timely m) :
    Timely (core.book added) where
  ordered := by
    have : core.agenda.IsOrdered := turn.agenda_eq ▸ h.ordered
    exact this.addAll added
  onward e he := by
    have : (core.book added).now = m.now := turn.now_eq
    rw [this]
    rcases mem_book.mp he with he | he
    · exact turn.now_le e he
    · exact h.onward e (turn.agenda_eq ▸ he)

/-- Where the loop stands that starts `K` runs and is cancelled at time `c`. -/
inductive Standing (t : Timeline) (K : Nat) (c : Rat) (m : Machine RunCount Nat RunEvent α) : Prop
  /-- It rests before the next run. -/
  | resting (k r : Nat) (loop : m.loop 0 = ⟨.resting, r, false⟩) (begun : m.site.begun = k)
      (runs : m.runs = t.log k) (jobs : m.loopJobs = [⟨t.start k, .wake 0 r⟩]) (few : k ≤ K)
      (past : ∀ i < k, t.finish i ≤ m.now)
  /-- It works, and may have been cancelled. -/
  | working (k r : Nat) (cancelled : Bool) (loop : m.loop 0 = ⟨.working, r, cancelled⟩)
      (begun : m.site.begun = k + 1) (runs : m.runs = t.log k ++ [(t.start k, .started (k + 1))])
      (jobs : m.loopJobs = [⟨t.finish k, .finish (.loop 0) (k + 1)⟩]) (few : k < K)
      (past : cancelled = true → c ≤ m.now)
  /-- It has been cancelled during a rest. -/
  | roused (r : Nat) (job : Job Nat) (loop : m.loop 0 = ⟨.resting, r, true⟩)
      (begun : m.site.begun = K) (runs : m.runs = t.log K)
      (jobs : m.loopJobs.Perm [⟨c, job⟩, ⟨t.start K, .wake 0 r⟩])
      (next : job = .wake 0 r ∨ job = .conclude 0) (past : t.close c K = c)
  /-- Its last run is over. -/
  | leaving (r : Nat) (loop : m.loop 0 = ⟨.working, r, true⟩) (begun : m.site.begun = K)
      (runs : m.runs = t.log K) (jobs : m.loopJobs = [⟨t.close c K, .conclude 0⟩])
  /-- It is over, and at most the end of a rest is left. -/
  | closed (r : Nat) (loop : m.loop 0 = ⟨.over, r, true⟩) (begun : m.site.begun = K)
      (runs : m.runs = t.log K) (jobs : ∀ e ∈ m.loopJobs, ∃ r, e.job = .wake 0 r)
      (past : t.close c K ≤ m.now)

variable {K : Nat} {c : Rat}

/-- Time passes, and nothing is done to the loop. -/
theorem Standing.pass {after : Machine RunCount Nat RunEvent α} (h : Standing t K c m)
    (now : m.now ≤ after.now) (loop : after.loop 0 = m.loop 0) (site : after.site = m.site)
    (runs : after.runs = m.runs) (jobs : after.loopJobs.Perm m.loopJobs) : Standing t K c after := by
  cases h with
  | resting k r hl hb hr hj few past =>
    exact .resting k r (loop.trans hl) (site ▸ hb) (runs.trans hr) (List.perm_singleton.mp (hj ▸ jobs))
      few fun i hi => (past i hi).trans now
  | working k r x hl hb hr hj few past =>
    exact .working k r x (loop.trans hl) (site ▸ hb) (runs.trans hr)
      (List.perm_singleton.mp (hj ▸ jobs)) few fun hx => (past hx).trans now
  | roused r job hl hb hr hj next past =>
    exact .roused r job (loop.trans hl) (site ▸ hb) (runs.trans hr) (jobs.trans hj) next past
  | leaving r hl hb hr hj =>
    exact .leaving r (loop.trans hl) (site ▸ hb) (runs.trans hr) (List.perm_singleton.mp (hj ▸ jobs))
  | closed r hl hb hr hj past =>
    exact .closed r (loop.trans hl) (site ▸ hb) (runs.trans hr) (fun e he => hj e (jobs.mem_iff.mp he))
      (past.trans now)

theorem runs_tell (m : Machine RunCount Nat RunEvent α) (j : Nat) (b : Bool) :
    (m.tell j b).runs = m.runs := by
  simp [runs, tell]

theorem runs_record (m : Machine RunCount Nat RunEvent α) (e : RunEvent) :
    (m.record (.event e)).runs = m.runs ++ [(m.now, e)] := by
  simp [runs, record]

theorem loopJobs_facing (m : Machine RunCount Nat RunEvent α) (job : Job Nat)
    (ofLoop : job.isOfLoop = true) : (m.facing job).loopJobs = ⟨m.now, job⟩ :: m.loopJobs :=
  List.filter_cons_of_pos ofLoop

theorem loopJobs_facing_other (m : Machine RunCount Nat RunEvent α) (job : Job Nat)
    (other : job.isOfLoop = false) : (m.facing job).loopJobs = m.loopJobs :=
  List.filter_cons_of_neg (ne_true_of_eq_false other)

/-- A job of somebody else. -/
theorem Standing.aside (h : Standing t K c (m.facing job)) (other : job.isOfLoop = false)
    (now : core.now = m.now) (agenda : core.agenda = m.agenda) (loop : core.loop 0 = m.loop 0)
    (site : core.site = m.site) (runs : core.runs = m.runs)
    (others : ∀ e ∈ added, e.job.isOfLoop = false) : Standing t K c (core.book added) := by
  refine h.pass now.ge loop site runs ((loopJobs_book core added).trans ?_)
  have none : added.filter (·.job.isOfLoop) = [] :=
    List.filter_eq_nil_iff.mpr fun e he => ne_true_of_eq_false (others e he)
  rw [none, loopJobs_facing_other m job other, loopJobs, agenda, loopJobs]
  exact .refl _

theorem perm_pair {β : Type} {a b d : β} {l : List β} (h : (a :: l).Perm [b, d]) :
    a = b ∧ l = [d] ∨ a = d ∧ l = [b] := by
  rcases List.mem_cons.mp (h.mem_iff.mp List.mem_cons_self) with rfl | hd
  · exact .inl ⟨rfl, List.perm_singleton.mp (List.Perm.cons_inv h)⟩
  · cases List.mem_singleton.mp hd
    exact .inr ⟨rfl, List.perm_singleton.mp (List.Perm.cons_inv (h.trans (.swap ..)))⟩

/-- What the times say when the loop does something. -/
structure OnTime (t : Timeline) (K : Nat) (c : Rat) (m : Machine RunCount Nat RunEvent α)
    (job : Job Nat) : Prop where
  proper : t.Proper
  few : ∀ k, k < K ↔ t.start k < c
  apart : ∀ k, c ≠ t.start k
  timely : Timely (m.facing job)
  early : (m.loop 0).cancelled = false → m.now ≤ c

section
variable (on : OnTime t K c m job)
include on

theorem OnTime.now_le {e : Entry (Job Nat)} (h : e ∈ m.loopJobs) : m.now ≤ e.due :=
  on.timely.onward e (List.mem_cons_of_mem _ (List.mem_of_mem_filter h))

/-- No run starts once the loop has been cancelled. -/
theorem OnTime.lt_of_start (going : (m.loop 0).cancelled = false) {k : Nat}
    (now : m.now = t.start k) : k < K :=
  (on.few k).mpr (lt_of_le_of_ne (now ▸ on.early going) (on.apart k).symm)

theorem OnTime.le_of_le_start {k : Nat} (h : c ≤ t.start k) : K ≤ k :=
  not_lt.mp fun hk => absurd ((on.few k).mp hk) (not_lt.mpr h)

end

/-- A cancel cuts the rest short, or lets the run come to its end. -/
theorem Standing.cancels (h : Standing t K c (m.facing job)) (on : OnTime t K c m job)
    (other : job.isOfLoop = false) (called : c ≤ m.now) (j : Nat) :
    Standing t K c ((m.markCancelled.tell j true).book m.cutShort) := by
  have same := loopJobs_facing_other m job other
  cases cancelled : (m.loop 0).cancelled with
  | true =>
    have unchanged : ({ m.loop 0 with cancelled := true } : Loop) = m.loop 0 := by
      rw [← cancelled]
    have none : m.cutShort = [] := by simp [cutShort, cancelled]
    rw [none]
    exact h.aside other rfl rfl ((loop_markCancelled m).trans unchanged) rfl (runs_tell ..) (by simp)
  | false =>
    have now : m.now = c := le_antisymm (on.early cancelled) called
    cases h with
    | resting k r hl hb hr hj few past =>
      rw [same] at hj
      have due : c ≤ t.start k := now ▸ on.now_le (hj ▸ List.mem_singleton_self _)
      have all : k = K := le_antisymm few (on.le_of_le_start due)
      subst all
      have loop : m.loop 0 = ⟨.resting, r, false⟩ := hl
      refine .roused r (.wake 0 r) ?_ hb ((runs_tell ..).trans hr) ?_ (.inl rfl)
        (Timeline.close_eq_of_finish_le (now ▸ past))
      · exact (loop_markCancelled m).trans (by rw [loop])
      · have woken : m.cutShort = [⟨m.now, .wake 0 r⟩] := by rw [cutShort, loop]; rfl
        refine (loopJobs_book ..).trans ?_
        rw [woken, ← now]
        exact .of_eq (congrArg (_ :: ·) hj)
    | working k r x hl hb hr hj few past =>
      rw [same] at hj
      have loop : m.loop 0 = ⟨.working, r, x⟩ := hl
      refine .working k r true ?_ hb ((runs_tell ..).trans hr) ?_ few fun _ => called
      · exact (loop_markCancelled m).trans (by rw [loop])
      · have none : m.cutShort = [] := by rw [cutShort, loop]; rfl
        rw [none]
        exact hj
    | roused r job hl => exact absurd (hl ▸ cancelled) Bool.noConfusion
    | leaving r hl => exact absurd (hl ▸ cancelled) Bool.noConfusion
    | closed r hl => exact absurd (hl ▸ cancelled) Bool.noConfusion

/-- A wake that comes too late. -/
theorem Standing.ignores {r : Nat} (h : Standing t K c (m.facing (.wake 0 r)))
    (stale : ¬ ((m.loop 0).phase = .resting ∧ (m.loop 0).rests = r)) : Standing t K c (m.book []) := by
  have jobs := loopJobs_facing m (.wake 0 r) rfl
  have loop : (m.facing (.wake 0 r)).loop 0 = m.loop 0 := rfl
  cases h with
  | resting k r' hl hb hr hj =>
    rw [jobs] at hj
    cases congrArg Entry.job (List.cons.inj hj).1
    exact absurd ⟨by rw [← loop, hl], by rw [← loop, hl]⟩ stale
  | working k r' x hl hb hr hj =>
    rw [jobs] at hj
    cases congrArg Entry.job (List.cons.inj hj).1
  | roused r' job hl hb hr hj next =>
    rw [jobs] at hj
    have current : r' ≠ r := fun same => stale ⟨by rw [← loop, hl], by rw [← loop, hl, same]⟩
    rcases perm_pair hj with ⟨eq, -⟩ | ⟨eq, -⟩
    · rcases next with rfl | rfl <;> cases congrArg Entry.job eq
      exact absurd rfl current
    · cases congrArg Entry.job eq
      exact absurd rfl current
  | leaving r' hl hb hr hj =>
    rw [jobs] at hj
    cases congrArg Entry.job (List.cons.inj hj).1
  | closed r' hl hb hr hj past =>
    exact .closed r' hl hb hr (fun e he => hj e (jobs ▸ List.mem_cons_of_mem _ he)) past

/-- A loop that was cancelled during its rest wakes up at once. -/
theorem Standing.notices {r : Nat} (h : Standing t K c (m.facing (.wake 0 r)))
    (on : OnTime t K c m (.wake 0 r)) (resting : (m.loop 0).phase = .resting)
    (cancelled : (m.loop 0).cancelled = true) : Standing t K c (m.book [⟨m.now, .conclude 0⟩]) := by
  have jobs := loopJobs_facing m (.wake 0 r) rfl
  have loop : (m.facing (.wake 0 r)).loop 0 = m.loop 0 := rfl
  cases h with
  | roused r' job hl hb hr hj next past =>
    rw [jobs] at hj
    refine .roused r' (.conclude 0) hl hb hr ((loopJobs_book ..).trans ?_) (.inr rfl) past
    rcases perm_pair hj with ⟨eq, rest⟩ | ⟨eq, rest⟩
    · have now : m.now = c := congrArg Entry.due eq
      rw [rest, now]
      exact .refl _
    · have now : m.now = t.start K := congrArg Entry.due eq
      have due : m.now ≤ c := on.now_le (rest ▸ List.mem_singleton_self _)
      exact absurd ((on.few K).mpr (lt_of_le_of_ne (now ▸ due) (on.apart K).symm)) (lt_irrefl K)
  | resting _ _ hl =>
    rw [← loop, hl] at cancelled
    cases cancelled
  | working _ _ _ hl | leaving _ hl | closed _ hl =>
    rw [← loop, hl] at resting
    cases resting

/-- The next run starts. -/
theorem Standing.begins {r : Nat} (h : Standing t K c (m.facing (.wake 0 r)))
    (on : OnTime t K c m (.wake 0 r)) (resting : (m.loop 0).phase = .resting)
    (going : (m.loop 0).cancelled = false) :
    Standing t K c (m.startRun.book
      [⟨m.now + laterOf (t.run (m.site.begun + 1)).duration 0,
        .finish (.loop 0) (m.site.begun + 1)⟩]) := by
  have jobs := loopJobs_facing m (.wake 0 r) rfl
  have loop : (m.facing (.wake 0 r)).loop 0 = m.loop 0 := rfl
  cases h with
  | resting k r' hl hb hr hj few past =>
    rw [jobs] at hj
    obtain ⟨head, rest⟩ := List.cons.inj hj
    have now : m.now = t.start k := congrArg Entry.due head
    have begun : m.site.begun = k := hb
    have runs : m.runs = t.log k := hr
    subst begun
    refine .working m.site.begun r' false ?_ rfl ?_ ?_ (on.lt_of_start going now) Bool.noConfusion
    · exact (loop_startRun m).trans (by rw [← loop, hl])
    · rw [← now, ← runs]
      exact runs_record ..
    · have finish : m.now + laterOf (t.run (m.site.begun + 1)).duration 0 = t.finish m.site.begun := by
        rw [laterOf_zero (on.proper.durations _), now, Timeline.finish]
      rw [finish]
      exact List.perm_singleton.mp ((loopJobs_book ..).trans (.of_eq (congrArg (_ :: ·) rest)))
  | roused _ _ hl =>
    rw [← loop, hl] at going
    cases going
  | working _ _ _ hl | leaving _ hl | closed _ hl =>
    rw [← loop, hl] at resting
    cases resting

/-- A run that is over is the last one that has started. -/
theorem Standing.run_over {n : Nat} (h : Standing t K c (m.facing (.finish (.loop 0) n))) :
    ∃ k r cancelled, n = k + 1 ∧ m.now = t.finish k ∧ m.loop 0 = ⟨.working, r, cancelled⟩ ∧
      m.site.begun = k + 1 ∧ m.runs ++ [(m.now, .ended n)] = t.log (k + 1) ∧ m.loopJobs = [] ∧
      k < K ∧ (cancelled = true → c ≤ m.now) := by
  have jobs := loopJobs_facing m (.finish (.loop 0) n) rfl
  cases h with
  | working k r x hl hb hr hj few past =>
    rw [jobs] at hj
    obtain ⟨head, rest⟩ := List.cons.inj hj
    have now : m.now = t.finish k := congrArg Entry.due head
    have number : Job.finish (.loop 0) n = .finish (.loop 0) (k + 1) := congrArg Entry.job head
    have runs : m.runs = t.log k ++ [(t.start k, .started (k + 1))] := hr
    cases number
    refine ⟨k, r, x, rfl, now, hl, hb, ?_, rest, few, past⟩
    rw [runs, now, Timeline.log_succ, List.append_assoc]
    rfl
  | resting _ _ _ _ _ hj | leaving _ _ _ _ hj =>
    rw [jobs] at hj
    cases congrArg Entry.job (List.cons.inj hj).1
  | roused _ _ _ _ _ hj next =>
    rw [jobs] at hj
    rcases perm_pair hj with ⟨eq, -⟩ | ⟨eq, -⟩
    · rcases next with rfl | rfl <;> cases congrArg Entry.job eq
    · cases congrArg Entry.job eq
  | closed _ _ _ _ hj =>
    obtain ⟨_, eq⟩ := hj _ (jobs ▸ List.mem_cons_self)
    cases eq

/-- After a run the loop rests. -/
theorem Standing.rests {n : Nat} {site : RunCount}
    (h : Standing t K c (m.facing (.finish (.loop 0) n))) (proper : t.Proper)
    (going : (m.loop 0).cancelled = false) (same : site.begun = m.site.begun) :
    Standing t K c ((m.endRun n site).restNow.book
      [⟨m.now + laterOf t.delay 0, .wake 0 ((m.loop 0).rests + 1)⟩]) := by
  obtain ⟨k, r, cancelled, -, now, loop, begun, runs, jobs, few, -⟩ := h.run_over
  have start : m.now + laterOf t.delay 0 = t.start (k + 1) := by
    rw [laterOf_zero proper.delay.le, now, Timeline.start_succ]
  rw [loop] at going
  subst going
  refine .resting (k + 1) (r + 1) ?_ (same.trans begun) ((runs_record ..).trans runs) ?_ few
    fun i hi => now ▸ proper.finish_mono (Nat.lt_succ_iff.mp hi)
  · exact (loop_restNow _).trans (by rw [loop_endRun, loop])
  · rw [start, loop]
    exact List.perm_singleton.mp ((loopJobs_book ..).trans (.of_eq (congrArg (_ :: ·) jobs)))

/-- After a run a cancelled loop ends. -/
theorem Standing.leaves {n : Nat} {site : RunCount}
    (h : Standing t K c (m.facing (.finish (.loop 0) n)))
    (on : OnTime t K c m (.finish (.loop 0) n)) (cancelled : (m.loop 0).cancelled = true)
    (same : site.begun = m.site.begun) :
    Standing t K c ((m.endRun n site).book [⟨m.now, .conclude 0⟩]) := by
  obtain ⟨k, r, told, -, now, loop, begun, runs, jobs, few, past⟩ := h.run_over
  rw [loop] at cancelled
  subst cancelled
  have called : c ≤ t.finish k := now ▸ past rfl
  have last : K = k + 1 :=
    le_antisymm (on.le_of_le_start (called.trans (on.proper.finish_lt_start_succ k).le)) few
  subst last
  refine .leaving r loop (same.trans begun) ((runs_record ..).trans runs) ?_
  rw [Timeline.close_eq_finish called, ← now]
  exact List.perm_singleton.mp ((loopJobs_book ..).trans (.of_eq (congrArg (_ :: ·) jobs)))

/-- The loop ends when it should. -/
theorem Standing.concludes (h : Standing t K c (m.facing (.conclude 0))) :
    Standing t K c (m.closeLoop.book m.wakeAll) := by
  have jobs := loopJobs_facing m (.conclude 0) rfl
  have kept : ((m.closeLoop.book m.wakeAll).loopJobs).Perm m.loopJobs := by
    have none : m.wakeAll.filter (·.job.isOfLoop) = [] := by
      simp [wakeAll, List.filter_eq_nil_iff, Job.isOfLoop]
    refine (loopJobs_book ..).trans (.of_eq ?_)
    rw [none]
    rfl
  cases h with
  | roused r job hl hb hr hj next past =>
    rw [jobs] at hj
    rcases perm_pair hj with ⟨eq, rest⟩ | ⟨eq, -⟩
    · have now : m.now = c := congrArg Entry.due eq
      have loop : m.loop 0 = ⟨.resting, r, true⟩ := hl
      refine .closed r ((loop_closeLoop m).trans (by rw [loop])) hb hr (fun e he => ?_) (past.trans now.symm).le
      rw [kept.mem_iff, rest, List.mem_singleton] at he
      exact ⟨r, congrArg Entry.job he⟩
    · cases congrArg Entry.job eq
  | leaving r hl hb hr hj =>
    rw [jobs] at hj
    obtain ⟨head, rest⟩ := List.cons.inj hj
    have now : m.now = t.close c K := congrArg Entry.due head
    have loop : m.loop 0 = ⟨.working, r, true⟩ := hl
    refine .closed r ((loop_closeLoop m).trans (by rw [loop])) hb hr (fun e he => ?_) now.ge
    rw [kept.mem_iff, rest] at he
    cases he
  | resting _ _ _ _ _ hj | working _ _ _ _ _ _ hj =>
    rw [jobs] at hj
    cases congrArg Entry.job (List.cons.inj hj).1
  | closed _ _ _ _ hj =>
    obtain ⟨_, eq⟩ := hj _ (jobs ▸ List.mem_cons_self)
    cases eq

/-- The loop stays on its timeline. -/
theorem Turn.standing (turn : Turn t visits m job core added) (on : OnTime t K c m job)
    (called : ∀ j v, job = .call j → visits[j]? = some ⟨v, .cancel⟩ → c ≤ m.now)
    (h : Standing t K c (m.facing job)) : Standing t K c (core.book added) := by
  cases turn with
  | admits next =>
    refine h.aside rfl rfl rfl rfl rfl rfl fun e he => ?_
    rcases List.mem_append.mp he with he | he <;> obtain ⟨x, -, rfl⟩ := List.mem_map.mp he <;> rfl
  | cancels asked => exact h.cancels on rfl (called _ _ rfl asked) _
  | findsOver asked ended => exact h.aside rfl rfl rfl rfl rfl (runs_tell ..) (by simp)
  | waits asked going =>
    refine h.aside rfl rfl rfl rfl rfl rfl fun e he => ?_
    obtain ⟨d, -, rfl⟩ := List.mem_map.mp he
    rfl
  | ignores stale => exact h.ignores stale
  | notices resting current cancelled => exact h.notices on resting cancelled
  | begins resting current going => exact h.begins on resting going
  | rests going same => exact h.rests on.proper going same
  | leaves cancelled same => exact h.leaves on cancelled same
  | concludes => exact h.concludes
  | resumes => exact h.aside rfl rfl rfl rfl rfl (runs_tell ..) (by simp)
  | givesUp waiting => exact h.aside rfl rfl rfl rfl rfl (runs_tell ..) (by simp)
  | isAnswered gone => exact h.aside rfl rfl rfl rfl rfl rfl (by simp)

/-- A loop ends no later than it should. -/
theorem Standing.now_le_close (h : Standing t K c (m.facing job)) (on : OnTime t K c m job)
    (going : (m.loop 0).phase ≠ .over) : m.now ≤ t.close c K := by
  have due : ∀ e ∈ (m.facing job).loopJobs, m.now ≤ e.due := fun e he =>
    on.timely.onward e (List.mem_of_mem_filter he)
  cases h with
  | resting k r hl => exact (on.early (by exact hl ▸ rfl)).trans (Timeline.le_close c K)
  | working k r x hl hb hr hj few =>
    exact (due _ (hj ▸ List.mem_singleton_self _)).trans (on.proper.finish_le_close c few)
  | roused r job hl hb hr hj next past =>
    exact (due _ (hj.mem_iff.mpr List.mem_cons_self)).trans (Timeline.le_close c K)
  | leaving r hl hb hr hj => exact due _ (hj ▸ List.mem_singleton_self _)
  | closed r hl => exact absurd (hl ▸ rfl) going

theorem Standing.close_le_now (h : Standing t K c m) (ended : (m.loop 0).phase = .over) :
    t.close c K ≤ m.now := by
  cases h with
  | closed r hl hb hr hj past => exact past
  | resting _ _ hl | working _ _ _ hl | roused _ _ hl | leaving _ hl =>
    rw [hl] at ended
    cases ended

/-- A loop that has nothing more to do is over. -/
theorem Standing.settled (h : Standing t K c m) (none : m.agenda = []) :
    (m.loop 0).phase = .over ∧ m.runs = t.log K := by
  have jobs : m.loopJobs = [] := by rw [loopJobs, none, List.filter_nil]
  cases h with
  | closed r hl hb hr => exact ⟨hl ▸ rfl, hr⟩
  | resting _ _ _ _ _ hj | working _ _ _ _ _ _ hj | leaving _ _ _ _ hj =>
    rw [jobs] at hj
    cases hj
  | roused _ _ _ _ _ hj =>
    rw [jobs] at hj
    cases List.nil_perm.mp hj

end Machine
end IndexSync.Schedule
