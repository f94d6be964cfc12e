import IndexSync.Proofs.Schedule.Standing

/-!
# The visitors of a loop

Every visitor comes at the time of the visit and is told something in the end: who cancels at once, and
who waits when the loop has ended or when the time is up, whichever is first.
-/
namespace IndexSync.Schedule

/-- The visits with their numbers. -/
def roll (visits : List Visit) : List (Nat × Visit) := visits.zipIdx.map fun (v, j) => (j, v)

theorem mem_roll {visits : List Visit} {x : Nat × Visit} :
    x ∈ roll visits ↔ visits[x.1]? = some x.2 := by
  obtain ⟨j, v⟩ := x
  simp only [roll, List.mem_map, Prod.exists, Prod.mk.injEq]
  constructor
  · rintro ⟨v, j, h, rfl, rfl⟩
    exact List.mem_zipIdx_iff_getElem?.mp h
  · exact fun h => ⟨v, j, List.mem_zipIdx_iff_getElem?.mpr h, rfl, rfl⟩

theorem sorted_roll {visits : List Visit} (sorted : visits.Pairwise (·.time ≤ ·.time)) :
    (roll visits).Pairwise (·.2.time ≤ ·.2.time) := by
  have same : (roll visits).map Prod.snd = visits := by
    simp [roll, Function.comp_def]
  refine (List.pairwise_map (R := fun v w : Visit => v.time ≤ w.time)).mp ?_
  rw [same]
  exact sorted

/-- Visitors come in the order of their times, the first one not before the loop has started. -/
structure InTurn (visits : List Visit) : Prop where
  sorted : visits.Pairwise (·.time ≤ ·.time)
  nonneg : ∀ v ∈ visits, 0 ≤ v.time

def Visit.deadline? : Visit → Option Rat
  | ⟨time, .wait (some d)⟩ => some (time + Machine.laterOf d 0)
  | _ => none

theorem Visit.time_le_deadline {v : Visit} {d : Rat} (h : d ∈ v.deadline?) : v.time ≤ d := by
  obtain ⟨time, ask⟩ := v
  cases ask with
  | cancel => cases h
  | wait timeout =>
    cases timeout with
    | none => cases h
    | some timeout =>
      cases h
      have := laterOf_zero_nonneg timeout
      exact le_add_of_nonneg_right this

def Job.isProceed {κ : Type} : Job κ → Bool
  | .proceed => true
  | _ => false

theorem Job.isClerical_of_isProceed {κ : Type} {job : Job κ} (h : job.isProceed = true) :
    job.isClerical = true := by
  cases job <;> first | rfl | cases h

namespace Machine

variable {α : Type} {m core : Machine RunCount Nat RunEvent α} {t : Timeline} {visits : List Visit}
  {visitors : List (Nat × Visit)} {job : Job Nat} {added : List (Entry (Job Nat))}

theorem callsOf_injective {σ : Type} :
    Function.Injective (callsOf : List (Nat × Visit) → List (Nat × Call σ α)) := by
  refine List.map_injective_iff.mpr ?_
  rintro ⟨j, time, ask⟩ ⟨k, time', ask'⟩ same
  simp only [Visit.call, Prod.mk.injEq, Call.mk.injEq] at same
  obtain ⟨rfl, rfl, -, same⟩ := same
  cases ask <;> cases ask' <;> cases same <;> rfl

/-- Who is still to come, in order, and that the next one will be let in. -/
structure Clerk (visits : List Visit) (m : Machine RunCount Nat RunEvent α)
    (visitors : List (Nat × Visit)) : Prop where
  known : ∀ x ∈ visitors, visits[x.1]? = some x.2
  sorted : visitors.Pairwise (·.2.time ≤ ·.2.time)
  remaining : m.remaining = callsOf visitors
  proceeds : (m.agenda.filter (·.job.isProceed)).Perm
    (visitors.head?.toList.map fun x => ⟨x.2.time, .proceed⟩)
  called : ∀ due j, ⟨due, .call j⟩ ∈ m.agenda → ∃ v, visits[j]? = some v ∧ v.time = due

theorem mem_ahead_or_mem_callJobs {σ κ ε : Type} (m : Machine σ κ ε α) {x : Nat × Visit}
    (h : x ∈ visitors) : x ∈ m.ahead visitors ∨ ⟨m.now, .call x.1⟩ ∈ m.callJobs visitors := by
  rw [← called_append_ahead m visitors, List.mem_append] at h
  exact h.symm.imp_right fun h => List.mem_append_left _ (List.mem_map_of_mem h)

/-- Lets visitors in who have come in time. -/
theorem Clerk.letIn (known : ∀ x ∈ visitors, visits[x.1]? = some x.2)
    (sorted : visitors.Pairwise (·.2.time ≤ ·.2.time)) (now : ∀ x ∈ visitors, m.now ≤ x.2.time)
    (none : m.agenda.filter (·.job.isProceed) = [])
    (called : ∀ due j, ⟨due, .call j⟩ ∈ m.agenda → ∃ v, visits[j]? = some v ∧ v.time = due) :
    Clerk visits ((m.letIn visitors).book (m.callJobs visitors)) (m.ahead visitors) where
  known x hx := known x (called_append_ahead m visitors ▸ List.mem_append_right _ hx)
  sorted := sorted.sublist (List.dropWhile_sublist _)
  remaining := rfl
  proceeds := by
    have calls : ((m.called visitors).map fun x => (⟨m.now, .call x.1⟩ : Entry (Job Nat))).filter
        (·.job.isProceed) = [] := by
      refine List.filter_eq_nil_iff.mpr fun e he => ?_
      obtain ⟨x, -, rfl⟩ := List.mem_map.mp he
      exact Bool.false_ne_true
    have next : ((m.ahead visitors).head?.toList.map fun x =>
        (⟨x.2.time, .proceed⟩ : Entry (Job Nat))).filter (·.job.isProceed) =
          (m.ahead visitors).head?.toList.map fun x => ⟨x.2.time, .proceed⟩ := by
      refine List.filter_eq_self.mpr fun e he => ?_
      obtain ⟨x, -, rfl⟩ := List.mem_map.mp he
      rfl
    refine (filter_book ..).trans (.of_eq ?_)
    rw [callJobs, List.filter_append, calls, next, List.nil_append]
    exact (congrArg (_ ++ ·) none).trans (List.append_nil _)
  called due j h := by
    rcases mem_book.mp h with h | h
    · rcases List.mem_append.mp h with h | h
      · obtain ⟨x, hx, eq⟩ := List.mem_map.mp h
        cases eq
        have hm : x ∈ visitors := called_append_ahead m visitors ▸ List.mem_append_left _ hx
        exact ⟨x.2, known x hm, le_antisymm (time_le_of_mem_called hx) (now x hm)⟩
      · obtain ⟨x, -, eq⟩ := List.mem_map.mp h
        cases eq
    · exact called due j h

/-- A job of somebody else. -/
theorem Clerk.aside (h : Clerk visits (m.facing job) visitors) (other : job.isProceed = false)
    (remaining : core.remaining = m.remaining) (agenda : core.agenda = m.agenda)
    (others : ∀ e ∈ added, e.job.isClerical = false) : Clerk visits (core.book added) visitors where
  known := h.known
  sorted := h.sorted
  remaining := remaining.trans h.remaining
  proceeds := by
    have noneNew : added.filter (·.job.isProceed) = [] := by
      refine List.filter_eq_nil_iff.mpr fun e he proceeds => ?_
      exact Bool.noConfusion ((others e he).symm.trans (Job.isClerical_of_isProceed proceeds))
    have same : (m.facing job).agenda.filter (·.job.isProceed) =
        m.agenda.filter (·.job.isProceed) :=
      List.filter_cons_of_neg (ne_true_of_eq_false other)
    refine (filter_book ..).trans ?_
    rw [noneNew, agenda, List.nil_append, ← same]
    exact h.proceeds
  called due j hj := by
    rcases mem_book.mp hj with hj | hj
    · cases others _ hj
    · exact h.called due j (List.mem_cons_of_mem _ (agenda ▸ hj))

/-- What is not done by the clerk leaves those who are still to come alone. -/
theorem Turn.others (turn : Turn t visits m job core added) (other : job.isProceed = false) :
    core.remaining = m.remaining ∧ ∀ e ∈ added, e.job.isClerical = false := by
  cases turn with
  | admits next => cases other
  | cancels asked =>
    refine ⟨rfl, fun e he => ?_⟩
    cases eq_of_mem_cutShort he
    rfl
  | waits asked going =>
    refine ⟨rfl, fun e he => ?_⟩
    obtain ⟨d, -, rfl⟩ := List.mem_map.mp he
    rfl
  | begins | rests | notices | leaves =>
    refine ⟨rfl, fun e he => ?_⟩
    cases List.mem_singleton.mp he
    rfl
  | concludes =>
    refine ⟨rfl, fun e he => ?_⟩
    obtain ⟨w, -, rfl⟩ := List.mem_map.mp he
    rfl
  | findsOver | ignores | resumes | givesUp | isAnswered => exact ⟨rfl, fun e he => nomatch he⟩

/-- The next visitor is let in at the time of the visit. -/
theorem Clerk.head (h : Clerk visits (m.facing .proceed) visitors) :
    (∀ x ∈ visitors, m.now ≤ x.2.time) ∧ m.agenda.filter (·.job.isProceed) = [] ∧
      (m.ahead visitors).length < visitors.length := by
  have proceeds := h.proceeds
  have facing : (m.facing .proceed).agenda.filter (·.job.isProceed) =
      ⟨m.now, .proceed⟩ :: m.agenda.filter (·.job.isProceed) := List.filter_cons_of_pos rfl
  rw [facing] at proceeds
  cases visitors with
  | nil => cases List.perm_nil.mp proceeds
  | cons x rest =>
    obtain ⟨head, none⟩ := List.cons.inj (List.perm_singleton.mp proceeds)
    have now : m.now = x.2.time := congrArg Entry.due head
    have first : ∀ y ∈ x :: rest, m.now ≤ y.2.time := by
      rw [now]
      exact List.forall_mem_cons.mpr ⟨le_rfl, (List.pairwise_cons.mp h.sorted).1⟩
    refine ⟨first, none, ?_⟩
    have : m.ahead (x :: rest) = m.ahead rest :=
      List.dropWhile_cons_of_pos (decide_eq_true now.ge)
    rw [this]
    exact Nat.lt_succ_of_le (List.dropWhile_sublist _).length_le

theorem Turn.clerk (turn : Turn t visits m job core added)
    (h : Clerk visits (m.facing job) visitors) :
    ∃ later, Clerk visits (core.book added) later ∧
      ∀ x ∈ visitors, x ∈ later ∨ ⟨m.now, .call x.1⟩ ∈ added := by
  cases clerical : job.isProceed with
  | false =>
    obtain ⟨remaining, others⟩ := turn.others clerical
    exact ⟨visitors, h.aside clerical remaining turn.agenda_eq others, fun x hx => .inl hx⟩
  | true =>
    cases turn with
    | @admits visitors' next =>
      have same : visitors' = visitors := callsOf_injective (next.symm.trans h.remaining)
      subst same
      obtain ⟨now, none, -⟩ := h.head
      refine ⟨m.ahead visitors', ?_, fun x => mem_ahead_or_mem_callJobs m⟩
      exact Clerk.letIn (m := { m with attention := .free }) h.known h.sorted now none
        fun due j hj => h.called due j (List.mem_cons_of_mem _ hj)
    | _ => cases clerical

/-- Where a visitor is: to come, called, waiting, about to be told, or told. -/
inductive Placed (visitors : List (Nat × Visit)) (m : Machine RunCount Nat RunEvent α) (j : Nat)
    (v : Visit) : Prop
  | coming (h : (j, v) ∈ visitors)
  | called (due : Rat) (h : ⟨due, .call j⟩ ∈ m.agenda)
  | waiting (w : Waiter) (h : w ∈ m.waiters) (caller : w.caller = j) (waits : v.ask ≠ .cancel)
  | resumed (due : Rat) (h : ⟨due, .resume j⟩ ∈ m.agenda) (waits : v.ask ≠ .cancel)
  | told (time : Rat) (a : Except Failure (Answer α)) (h : (time, .answer j a) ∈ m.log)
      (heeded : v.ask = .cancel → (m.loop 0).cancelled = true)

theorem Turn.log_subset (turn : Turn t visits m job core added) : m.log ⊆ core.log := by
  cases turn with
  | cancels | findsOver | begins | rests | leaves | resumes | givesUp =>
    exact List.subset_append_left ..
  | _ => exact fun _ => id

theorem Turn.cancelled (turn : Turn t visits m job core added)
    (h : (m.loop 0).cancelled = true) : (core.loop 0).cancelled = true := by
  cases turn with
  | cancels => rfl
  | _ => exact h

theorem Turn.waiters (turn : Turn t visits m job core added) {w : Waiter} (h : w ∈ m.waiters) :
    w ∈ core.waiters ∨ ⟨m.now, .resume w.caller⟩ ∈ added ∨
      ∃ a, (m.now, .answer w.caller a) ∈ core.log := by
  cases turn with
  | waits => exact .inl (List.mem_append_left _ h)
  | concludes => exact .inr (.inl (List.mem_map_of_mem h))
  | @givesUp j waiting =>
    by_cases same : w.caller = j
    · subst same
      exact .inr (.inr ⟨_, List.mem_append_right _ (List.mem_singleton_self _)⟩)
    · exact .inl (List.mem_filter.mpr ⟨h, decide_eq_true same⟩)
  | _ => exact .inl h

/-- Nobody is forgotten. -/
theorem Turn.placed (turn : Turn t visits m job core added) {later : List (Nat × Visit)}
    (letIn : ∀ x ∈ visitors, x ∈ later ∨ ⟨m.now, .call x.1⟩ ∈ added) {j : Nat} {v : Visit}
    (known : visits[j]? = some v) (h : Placed visitors (m.facing job) j v) :
    Placed later (core.book added) j v := by
  have kept {due : Rat} {job' : Job Nat} (h : ⟨due, job'⟩ ∈ m.agenda) :
      ⟨due, job'⟩ ∈ (core.book added).agenda := mem_book.mpr (.inr (turn.agenda_eq ▸ h))
  cases h with
  | coming h =>
    rcases letIn _ h with h | h
    · exact .coming h
    · exact .called m.now (mem_book.mpr (.inl h))
  | called due h =>
    rcases List.mem_cons.mp h with eq | h
    · cases congrArg Entry.job eq
      have log {a : Except Failure (Answer α)} : (m.now, Record.answer j a) ∈ m.log ++
          [(m.now, (.answer j a : Record RunEvent α))] :=
        List.mem_append_right _ (List.mem_singleton_self _)
      cases turn with
      | cancels => exact .told m.now _ log fun _ => rfl
      | findsOver asked ended =>
        cases asked.symm.trans known
        exact .told m.now _ log nofun
      | waits asked going =>
        cases asked.symm.trans known
        exact .waiting ⟨j, 0⟩ (List.mem_append_right _ (List.mem_singleton_self _)) rfl nofun
    · exact .called due (kept h)
  | waiting w h caller waits =>
    subst caller
    rcases turn.waiters h with h | h | ⟨a, h⟩
    · exact .waiting w h rfl waits
    · exact .resumed m.now (mem_book.mpr (.inl h)) waits
    · exact .told m.now a h fun cancel => absurd cancel waits
  | resumed due h waits =>
    rcases List.mem_cons.mp h with eq | h
    · cases congrArg Entry.job eq
      cases turn with
      | resumes =>
        exact .told m.now _ (List.mem_append_right _ (List.mem_singleton_self _))
          fun cancel => absurd cancel waits
    · exact .resumed due (kept h) waits
  | told time a h heeded =>
    exact .told time a (turn.log_subset h) fun cancel => turn.cancelled (heeded cancel)

/-- Until the first cancel is made it is due, no later than at its time. -/
theorem Clerk.early (clerk : Clerk visits (m.facing job) visitors)
    (timely : Timely (m.facing job)) {j : Nat} {c : Rat} (known : visits[j]? = some ⟨c, .cancel⟩)
    (placed : Placed visitors (m.facing job) j ⟨c, .cancel⟩)
    (going : (m.loop 0).cancelled = false) : m.now ≤ c := by
  cases placed with
  | coming h =>
    cases visitors with
    | nil => cases h
    | cons x rest =>
      have next := clerk.proceeds.mem_iff.mpr (List.mem_singleton_self _)
      have due : m.now ≤ x.2.time := timely.onward _ (List.mem_of_mem_filter next)
      rcases List.mem_cons.mp h with rfl | h
      · exact due
      · exact due.trans ((List.pairwise_cons.mp clerk.sorted).1 _ h)
  | called due h =>
    obtain ⟨v, hv, time⟩ := clerk.called due j h
    cases known.symm.trans hv
    exact (timely.onward _ h).trans time.ge
  | waiting _ _ _ waits => exact absurd rfl waits
  | resumed _ _ waits => exact absurd rfl waits
  | told _ _ _ heeded => exact Bool.noConfusion (going.symm.trans (heeded rfl))

/-- What a visitor may be told of a loop that ends at `close`: whoever waits, that it has ended, if that
is not later than the deadline, and that it has not, if that is not earlier. -/
def Truthful (close : Rat) (v : Visit) (a : Except Failure (Answer α)) : Prop :=
  ∃ b, a = .ok (.truth b) ∧ ∀ d ∈ v.deadline?, if b then close ≤ d else d ≤ close

/-- Who waits, and what those have been told who no longer do. -/
structure Waiting (visits : List Visit) (close : Rat) (m : Machine RunCount Nat RunEvent α) : Prop where
  waiters : ∀ w ∈ m.waiters, ∃ v, visits[w.caller]? = some v ∧
    ∀ d ∈ v.deadline?, ⟨d, .timeout w.caller⟩ ∈ m.agenda
  deadlines : ∀ d j, ⟨d, .timeout j⟩ ∈ m.agenda → ∃ v, visits[j]? = some v ∧ v.deadline? = some d
  resumed : ∀ due j, ⟨due, .resume j⟩ ∈ m.agenda → ∃ v, visits[j]? = some v ∧
    ∀ d ∈ v.deadline?, close ≤ d
  closed : (m.loop 0).phase = .over → m.waiters = []
  told : ∀ time j a, (time, .answer j a) ∈ m.log → ∃ v, visits[j]? = some v ∧ Truthful close v a

theorem Turn.timeout_added (turn : Turn t visits m job core added) {d : Rat} {j : Nat}
    (h : ⟨d, .timeout j⟩ ∈ added) : job = .call j ∧ ∃ time timeout,
      visits[j]? = some ⟨time, .wait (some timeout)⟩ ∧ d = m.now + laterOf timeout 0 := by
  cases turn with
  | @waits j time timeout asked going =>
    obtain ⟨timeout, hd, eq⟩ := List.mem_map.mp h
    cases eq
    cases Option.mem_toList.mp hd
    exact ⟨rfl, time, timeout, asked, rfl⟩
  | cancels asked =>
    cases congrArg Entry.job (eq_of_mem_cutShort h)
  | admits next => simp [callJobs] at h
  | begins | rests | notices | leaves => cases congrArg Entry.job (List.mem_singleton.mp h)
  | concludes => simp [wakeAll] at h
  | findsOver | ignores | resumes | givesUp | isAnswered => cases h

theorem Turn.resume_added (turn : Turn t visits m job core added) {d : Rat} {j : Nat}
    (h : ⟨d, .resume j⟩ ∈ added) : (core.loop 0).phase = .over ∧ ∃ w ∈ m.waiters, w.caller = j := by
  cases turn with
  | concludes =>
    obtain ⟨w, hw, eq⟩ := List.mem_map.mp h
    cases eq
    exact ⟨rfl, w, hw, rfl⟩
  | cancels asked =>
    cases congrArg Entry.job (eq_of_mem_cutShort h)
  | admits next => simp [callJobs] at h
  | waits asked going => simp at h
  | begins | rests | notices | leaves => cases congrArg Entry.job (List.mem_singleton.mp h)
  | findsOver | ignores | resumes | givesUp | isAnswered => cases h

/-- Who waits is not told by a deadline that is not the own. -/
theorem Turn.waiter (turn : Turn t visits m job core added) {w : Waiter} (h : w ∈ core.waiters) :
    w ∈ m.waiters ∧ job ≠ .timeout w.caller ∨ job = .call w.caller ∧ ∃ time timeout,
      visits[w.caller]? = some ⟨time, .wait timeout⟩ ∧
        ∀ d ∈ timeout, ⟨m.now + laterOf d 0, .timeout w.caller⟩ ∈ added := by
  cases turn with
  | @waits j time timeout asked going =>
    rcases List.mem_append.mp h with h | h
    · exact .inl ⟨h, nofun⟩
    · cases List.mem_singleton.mp h
      exact .inr ⟨rfl, time, timeout, asked, fun d hd =>
        List.mem_map.mpr ⟨d, Option.mem_toList.mpr hd, rfl⟩⟩
  | givesUp waiting =>
    obtain ⟨hw, other⟩ := List.mem_filter.mp h
    exact .inl ⟨hw, fun eq => of_decide_eq_true other (Job.timeout.inj eq).symm⟩
  | isAnswered gone => exact .inl ⟨h, fun eq => gone w h (Job.timeout.inj eq).symm⟩
  | concludes => cases h
  | _ => exact .inl ⟨h, nofun⟩

/-- Nobody waits for a loop that is over. -/
theorem Turn.closed (turn : Turn t visits m job core added)
    (h : (m.loop 0).phase = .over → m.waiters = []) (ended : (core.loop 0).phase = .over) :
    core.waiters = [] := by
  cases turn with
  | waits asked going => exact absurd ended going
  | begins | rests => cases ended
  | concludes => rfl
  | givesUp waiting =>
    refine List.filter_eq_nil_iff.mpr fun w hw => ?_
    rw [h ended] at hw
    cases hw
  | _ => exact h ended

/-- What is told, and why. -/
theorem Turn.answer (turn : Turn t visits m job core added) {time : Rat} {j : Nat}
    {a : Except Failure (Answer α)} (h : (time, .answer j a) ∈ core.log) :
    (time, .answer j a) ∈ m.log ∨
    (job = .call j ∧ a = .ok (.truth true) ∧ ∃ v, visits[j]? = some v ∧
      (v.ask = .cancel ∨ (core.loop 0).phase = .over)) ∨
    (job = .resume j ∧ a = .ok (.truth true)) ∨
    (job = .timeout j ∧ a = .ok (.truth false) ∧ ∃ w ∈ m.waiters, w.caller = j) := by
  cases turn with
  | cancels asked =>
    rcases List.mem_append.mp h with h | h
    · exact .inl h
    · cases List.mem_singleton.mp h
      exact .inr (.inl ⟨rfl, rfl, _, asked, .inl rfl⟩)
  | findsOver asked ended =>
    rcases List.mem_append.mp h with h | h
    · exact .inl h
    · cases List.mem_singleton.mp h
      exact .inr (.inl ⟨rfl, rfl, _, asked, .inr ended⟩)
  | resumes =>
    rcases List.mem_append.mp h with h | h
    · exact .inl h
    · cases List.mem_singleton.mp h
      exact .inr (.inr (.inl ⟨rfl, rfl⟩))
  | givesUp waiting =>
    rcases List.mem_append.mp h with h | h
    · exact .inl h
    · cases List.mem_singleton.mp h
      exact .inr (.inr (.inr ⟨rfl, rfl, waiting⟩))
  | begins | rests | leaves =>
    rcases List.mem_append.mp h with h | h
    · exact .inl h
    · cases congrArg Prod.snd (List.mem_singleton.mp h)
  | _ => exact .inl h

/-- What the times say when somebody waits. -/
structure Meets (visits : List Visit) (close : Rat) (m core : Machine RunCount Nat RunEvent α)
    (job : Job Nat) : Prop where
  timely : Timely (m.facing job)
  called : ∀ due j, ⟨due, .call j⟩ ∈ (m.facing job).agenda → ∃ v, visits[j]? = some v ∧ v.time = due
  going : (m.loop 0).phase ≠ .over → m.now ≤ close
  ended : (core.loop 0).phase = .over → close ≤ m.now

/-- Nobody waits in vain, and everybody is told the truth. -/
theorem Turn.waiting (turn : Turn t visits m job core added) {close : Rat}
    (meets : Meets visits close m core job) (h : Waiting visits close (m.facing job)) :
    Waiting visits close (core.book added) where
  waiters w hw := by
    rcases turn.waiter hw with ⟨hw, other⟩ | ⟨rfl, time, timeout, asked, booked⟩
    · obtain ⟨v, hv, due⟩ := h.waiters w hw
      refine ⟨v, hv, fun d hd => mem_book.mpr (.inr (turn.agenda_eq ▸ ?_))⟩
      rcases List.mem_cons.mp (due d hd) with eq | hd
      · exact absurd (congrArg Entry.job eq).symm other
      · exact hd
    · obtain ⟨v, hv, now⟩ := meets.called m.now _ List.mem_cons_self
      cases asked.symm.trans hv
      change time = m.now at now
      subst now
      refine ⟨_, asked, fun d hd => mem_book.mpr (.inl ?_)⟩
      cases timeout with
      | none => cases hd
      | some timeout =>
        cases hd
        exact booked timeout rfl
  deadlines d j hd := by
    rcases mem_book.mp hd with new | old
    · obtain ⟨rfl, time, timeout, asked, rfl⟩ := turn.timeout_added new
      obtain ⟨v, hv, now⟩ := meets.called m.now _ List.mem_cons_self
      cases asked.symm.trans hv
      exact ⟨_, asked, congrArg (fun time => some (time + _)) now⟩
    · exact h.deadlines d j (List.mem_cons_of_mem _ (turn.agenda_eq ▸ old))
  resumed due j hd := by
    rcases mem_book.mp hd with new | old
    · obtain ⟨ended, w, hw, rfl⟩ := turn.resume_added new
      obtain ⟨v, hv, due⟩ := h.waiters w hw
      exact ⟨v, hv, fun d hd => (meets.ended ended).trans (meets.timely.onward _ (due d hd))⟩
    · exact h.resumed due j (List.mem_cons_of_mem _ (turn.agenda_eq ▸ old))
  closed := turn.closed h.closed
  told time j a ha := by
    rcases turn.answer ha with ha | ⟨rfl, rfl, v, hv, cause⟩ | ⟨rfl, rfl⟩ | ⟨rfl, rfl, w, hw, rfl⟩
    · exact h.told time j a ha
    · refine ⟨v, hv, true, rfl, fun d hd => ?_⟩
      obtain ⟨v', hv', now⟩ := meets.called m.now _ List.mem_cons_self
      cases hv.symm.trans hv'
      rcases cause with cancel | ended
      · obtain ⟨time, ask⟩ := v
        change ask = .cancel at cancel
        subst cancel
        cases hd
      · exact (meets.ended ended).trans (now ▸ Visit.time_le_deadline hd)
    · obtain ⟨v, hv, due⟩ := h.resumed m.now j List.mem_cons_self
      exact ⟨v, hv, true, rfl, due⟩
    · obtain ⟨v, hv, due⟩ := h.deadlines m.now _ List.mem_cons_self
      refine ⟨v, hv, false, rfl, fun d hd => ?_⟩
      cases hd.symm.trans due
      refine meets.going fun ended => ?_
      have none : m.waiters = [] := h.closed ended
      rw [none] at hw
      cases hw

end Machine
end IndexSync.Schedule
