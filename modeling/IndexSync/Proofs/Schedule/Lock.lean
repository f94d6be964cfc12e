import IndexSync.Proofs.Schedule.Lifecycle

/-!
# The lock

Only one may work at a time. In every state of a run the lock is held exactly if one is at work, and nobody
waits for it while it is free. A piece of work that is over gives it back, or to the next in the queue, however
it ends.
-/
namespace IndexSync.Schedule.Machine

variable {σ κ ε α : Type} {m after last : Machine σ κ ε α} {p : Plan σ κ ε α}

/-- The lock is held by the one who is at work. Nobody waits for it while it is free. -/
structure Locked (m : Machine σ κ ε α) : Prop where
  held : m.atWork.length = m.busy.toNat
  queued : m.busy = false → m.queue = []

/-- The lock is given back: it is free if nobody waits for it, and has otherwise passed to the first in the
queue. -/
structure Released (m after : Machine σ κ ε α) : Prop where
  busy : after.busy = !m.queue.isEmpty
  queue : after.queue = m.queue.tail
  atWork : after.atWork.Perm (m.queue.head?.toList ++ m.atWork)

/-- Nothing happens to the lock. -/
structure SparesLock (m after : Machine σ κ ε α) : Prop where
  busy : after.busy = m.busy
  queue : after.queue = m.queue
  atWork : after.atWork.Perm m.atWork

namespace SparesLock

theorem refl (m : Machine σ κ ε α) : SparesLock m m := ⟨rfl, rfl, .refl _⟩

theorem trans (h : SparesLock m after) (k : SparesLock after last) : SparesLock m last :=
  ⟨k.busy.trans h.busy, k.queue.trans h.queue, k.atWork.trans h.atWork⟩

theorem locked (h : SparesLock m after) (k : m.Locked) : after.Locked where
  held := by rw [h.atWork.length_eq, h.busy, k.held]
  queued free := by
    rw [h.queue]
    exact k.queued (h.busy ▸ free)

theorem released {first : Machine σ κ ε α} (h : SparesLock m after) (k : Released first m) :
    Released first after :=
  ⟨h.busy.trans k.busy, h.queue.trans k.queue, h.atWork.trans k.atWork⟩

end SparesLock

/-- Who gives the lock back to nobody leaves it free, and who gives it to the next has let that one work. -/
theorem Released.locked (h : Released m after) (alone : m.atWork = []) : after.Locked := by
  have atWork := h.atWork
  rw [alone, List.append_nil] at atWork
  refine ⟨?_, fun free => ?_⟩
  · rw [atWork.length_eq, h.busy]
    cases m.queue <;> rfl
  · rw [h.busy] at free
    rw [h.queue]
    cases hqueue : m.queue with
    | nil => rfl
    | cons w rest => simp [hqueue] at free

section
variable (p : Plan σ κ ε α) (m : Machine σ κ ε α)

theorem sparesLock_later (delay : Rat) {job : Job κ} (idle : job.worker? = none) :
    SparesLock m (m.later delay job) := by
  have atWork := atWork_later m delay job
  rw [idle] at atWork
  exact ⟨rfl, rfl, atWork⟩

theorem sparesLock_answer (c : Nat) (a : Except Failure (Answer α)) : SparesLock m (m.answer c a) := by
  simp only [answer]
  split <;> exact ⟨rfl, rfl, .refl _⟩

theorem sparesLock_rest (i : Nat) (delay : Rat) : SparesLock m (m.rest i delay) := by
  have set : SparesLock m
      (m.setLoop i { m.loop i with phase := .resting, rests := (m.loop i).rests + 1 }) :=
    ⟨rfl, rfl, .refl _⟩
  exact set.trans (sparesLock_later _ _ rfl)

theorem sparesLock_wakeAll (ended : List Waiter) :
    SparesLock m (ended.foldl (fun m v => m.later 0 (.resume v.caller)) m) := by
  induction ended generalizing m with
  | nil => exact .refl m
  | cons v rest ih => exact (sparesLock_later m 0 rfl).trans (ih _)

theorem sparesLock_conclude (i : Nat) : SparesLock m (m.conclude i) := by
  rw [conclude_eq]
  have ended : SparesLock m { m.setLoop i { m.loop i with phase := .over } with
      waiters := m.waiters.filter fun v => !decide (v.loop = i) } := ⟨rfl, rfl, .refl _⟩
  exact ended.trans (sparesLock_wakeAll _ _)

theorem sparesLock_afterWork (i : Nat) (outcome : Except Failure Nat) :
    SparesLock m (m.afterWork p i outcome) := by
  have goesOn (n : Machine σ κ ε α) :
      SparesLock n (if (n.loop i).cancelled then n.later 0 (.conclude i) else n.rest i p.delay) := by
    split
    · exact sparesLock_later n 0 rfl
    · exact sparesLock_rest n i p.delay
  unfold afterWork
  cases outcome with
  | ok n => exact goesOn m
  | error f =>
    simp only
    split
    · exact sparesLock_conclude m i
    · have reported : SparesLock m { m with site := p.work.failed m.site } := ⟨rfl, rfl, .refl _⟩
      exact reported.trans (goesOn _)

theorem sparesLock_cancel (i : Nat) : SparesLock m (m.cancel i) := by
  have set : SparesLock m (m.setLoop i { m.loop i with cancelled := true }) := ⟨rfl, rfl, .refl _⟩
  simp only [cancel]
  split
  · exact set.trans (sparesLock_later _ 0 rfl)
  · exact set

theorem sparesLock_start : SparesLock m (m.start p).2 := by
  rcases start_cases p m with h | ⟨-, h | h⟩ <;> rw [h]
  · exact .refl m
  · exact ⟨rfl, rfl, .refl _⟩
  · have started : SparesLock m m.withLoop := ⟨rfl, rfl, .refl _⟩
    exact started.trans (sparesLock_rest _ _ _)

theorem sparesLock_waited (c : Nat) (ended : Bool) : SparesLock m (m.waited p c ended) := by
  have told (site : σ) (a) : SparesLock m (({ m with site := site } : Machine σ κ ε α).answer c a) := by
    have answered := sparesLock_answer ({ m with site := site } : Machine σ κ ε α) c a
    exact ⟨answered.busy, answered.queue, answered.atWork⟩
  have finished (control : Control) (a) :
      SparesLock m (({ m with control := control } : Machine σ κ ε α).answer c a) := by
    have answered := sparesLock_answer ({ m with control := control } : Machine σ κ ε α) c a
    exact ⟨answered.busy, answered.queue, answered.atWork⟩
  simp only [waited]
  cases ended <;> split
  · exact told _ _
  · exact told _ _
  · exact sparesLock_answer ..
  · exact finished _ _
  · exact finished _ _
  · exact sparesLock_answer ..

theorem sparesLock_waitFor (c i : Nat) (timeout : Option Rat) :
    SparesLock m (m.waitFor p c i timeout) := by
  simp only [waitFor]
  split
  · exact sparesLock_waited ..
  · have waits : SparesLock m { m with waiters := m.waiters ++ [Waiter.mk c i] } := ⟨rfl, rfl, .refl _⟩
    cases timeout with
    | none => exact waits
    | some t => exact waits.trans (sparesLock_later _ t rfl)

theorem sparesLock_stop (c : Nat) (timeout : Option Rat) : SparesLock m (m.stop p c timeout) := by
  unfold stop
  split
  · exact sparesLock_answer ..
  · have stopping : SparesLock m { m with control := { m.control with stopping := true } } :=
      ⟨rfl, rfl, .refl _⟩
    exact (stopping.trans (sparesLock_cancel ..)).trans (sparesLock_waitFor ..)

end

/-- The next in the queue is let work. -/
theorem released_release (working : m.busy = true) : Released m m.release := by
  unfold release
  split
  · rename_i hqueue
    refine ⟨?_, ?_, ?_⟩ <;> rw [hqueue]
    · rfl
    · rfl
    · exact .refl _
  · rename_i w rest hqueue
    refine ⟨?_, ?_, ?_⟩ <;> rw [hqueue]
    · exact working
    · rfl
    · exact atWork_later { m with queue := rest } 0 (.grant w)

/-- A piece of work that is over gives the lock back, however it ends. -/
theorem released_workOver (working : m.busy = true) (w : Worker) (outcome : Except Failure Nat) :
    Released m (m.workOver p w outcome) := by
  have released := released_release working
  cases w with
  | caller c => exact (sparesLock_answer ..).released released
  | loop i => exact (sparesLock_afterWork ..).released released

theorem released_beginWork {w : Worker} {outcome : Except Failure Nat}
    (brief : (p.work.begin m.site).1 = .over outcome) : Released m (m.beginWork p w) := by
  unfold beginWork
  generalize p.work.begin m.site = begun at brief ⊢
  obtain ⟨progress, events, site⟩ := begun
  obtain rfl : progress = .over outcome := brief
  have released := released_workOver (p := p)
    (m := ({ m with busy := true, site := site } : Machine σ κ ε α).recordEvents events) rfl w outcome
  exact ⟨released.busy, released.queue, released.atWork⟩

theorem released_finish (working : m.busy = true) (w : Worker) (rest : κ) :
    Released m (m.doJob p (.finish w rest)) := by
  have released := released_workOver (p := p)
    (m := ({ m with site := (p.work.finish rest m.site).2.2 } : Machine σ κ ε α).recordEvents
      (p.work.finish rest m.site).2.1) working w (p.work.finish rest m.site).1
  exact ⟨released.busy, released.queue, released.atWork⟩

/-- Who is let work while nobody else is holds the lock, or has given it back. -/
theorem locked_beginWork (alone : m.atWork = []) (w : Worker) : (m.beginWork p w).Locked := by
  rcases hbegin : (p.work.begin m.site).1 with outcome | ⟨duration, rest⟩
  · exact (released_beginWork hbegin).locked alone
  · unfold beginWork
    generalize p.work.begin m.site = begun at hbegin ⊢
    obtain ⟨progress, events, site⟩ := begun
    obtain rfl : progress = .lasts duration rest := hbegin
    have working := atWork_later
      (({ m with busy := true, site := site } : Machine σ κ ε α).recordEvents events) duration
      (.finish w rest)
    refine ⟨?_, nofun⟩
    rw [working.length_eq]
    exact congrArg (·.length + 1) alone

namespace Locked

theorem alone (h : m.Locked) (free : m.busy = false) : m.atWork = [] := by
  have held := h.held
  rw [free] at held
  exact List.length_eq_zero_iff.mp held

theorem askForWork (h : m.Locked) (w : Worker) : (m.askForWork p w).Locked := by
  unfold Machine.askForWork
  split
  · rename_i working
    exact ⟨h.held, fun free => absurd free (by simp [working])⟩
  · rename_i free
    exact locked_beginWork (h.alone (by simpa using free)) w

theorem wake (h : m.Locked) (i : Nat) : (m.wake p i).Locked := by
  simp only [Machine.wake]
  split
  · exact (sparesLock_later m 0 rfl).locked h
  · split
    · exact (sparesLock_rest ..).locked h
    · have set : SparesLock m (m.setLoop i { m.loop i with phase := .working }) := ⟨rfl, rfl, .refl _⟩
      exact (set.locked h).askForWork _

theorem request (h : m.Locked) (c : Nat) (r : Request σ α) : (m.request p c r).Locked := by
  have answered (n : Machine σ κ ε α) (hn : n.Locked) (a : Except Failure (Answer α)) :
      (n.answer c a).Locked := (sparesLock_answer n c a).locked hn
  cases r with
  | start gate =>
    simp only [Machine.request]
    split
    · exact answered m h _
    · exact answered _ ((sparesLock_start p m).locked h) _
  | stop timeout => exact (sparesLock_stop ..).locked h
  | work gate =>
    simp only [Machine.request]
    split
    · exact answered m h _
    · exact h.askForWork _
  | close timeout =>
    simp only [Machine.request]
    split
    · exact answered m h _
    · have closed : SparesLock m { m with control := { m.control with closed := true } } :=
        ⟨rfl, rfl, .refl _⟩
      exact (closed.trans (sparesLock_stop ..)).locked h
  | cancel =>
    simp only [Machine.request]
    split
    · exact answered _ ((sparesLock_cancel ..).locked h) _
    · exact answered m h _
  | wait timeout =>
    simp only [Machine.request]
    split
    · exact (sparesLock_waitFor ..).locked h
    · exact answered m h _
  | perform action =>
    have acted : SparesLock m { m with site := (action m.control m.site).2 } := ⟨rfl, rfl, .refl _⟩
    exact answered _ (acted.locked h) _

theorem makeCalls (h : m.Locked) (calls : List (Nat × Call σ α)) : (m.makeCalls p calls).Locked := by
  induction calls generalizing m with
  | nil => exact ⟨h.held, h.queued⟩
  | cons call rest ih =>
    obtain ⟨c, a⟩ := call
    simp only [Machine.makeCalls]
    split
    · refine ⟨?_, h.queued⟩
      have jobs := (Agenda.perm_add a.time .proceed m.agenda).filterMap (·.worker?)
      exact jobs.length_eq.trans h.held
    · split
      · have counted : SparesLock m { m with unattended := m.unattended + 1 } := ⟨rfl, rfl, .refl _⟩
        exact ih ((counted.trans (sparesLock_later _ 0 rfl)).locked h)
      · have attends : SparesLock m { m with attention := .on c } := ⟨rfl, rfl, .refl _⟩
        have asked := (attends.locked h).request (p := p) c a.request
        split
        · exact ih asked
        · exact ⟨asked.held, asked.queued⟩

theorem attend (h : m.Locked) : (m.attend p).Locked := by
  unfold Machine.attend
  split
  · exact h.makeCalls _
  · exact h

/-- A job is taken from the agenda. If it is that of somebody at work, then nobody else is. -/
theorem take (h : m.Locked) (now : Rat) {e : Entry (Job κ)} {rest : Agenda (Job κ)}
    (agenda : m.agenda = e :: rest) :
    (e.job.worker? = none → Locked { m with now := now, agenda := rest }) ∧
      (e.job.worker? ≠ none → m.busy = true ∧ atWork { m with now := now, agenda := rest } = []) := by
  have split : m.atWork = e.job.worker?.toList ++ atWork { m with now := now, agenda := rest } := by
    simp only [atWork, jobs, agenda, List.map_cons]
    cases hw : e.job.worker? <;> simp [hw]
  have held := h.held
  rw [split] at held
  cases hw : e.job.worker? with
  | none =>
    rw [hw] at held
    exact ⟨fun _ => ⟨held, h.queued⟩, fun hne => absurd rfl hne⟩
  | some w =>
    rw [hw, List.length_append] at held
    cases hbusy : m.busy with
    | false => simp [hbusy] at held
    | true => exact ⟨fun h => absurd h (Option.some_ne_none w), fun _ => ⟨rfl, by simpa [hbusy] using held⟩⟩

theorem doJob {j : Job κ} (idle : j.worker? = none → m.Locked)
    (working : j.worker? ≠ none → m.busy = true ∧ m.atWork = []) : (m.doJob p j).Locked := by
  cases j with
  | proceed =>
    have freed : SparesLock m { m with attention := .free } := ⟨rfl, rfl, .refl _⟩
    exact freed.locked (idle rfl)
  | call c =>
    simp only [Machine.doJob]
    split
    · exact (idle rfl).request c _
    · exact idle rfl
  | wake i rest =>
    simp only [Machine.doJob]
    split
    · exact (idle rfl).wake i
    · exact idle rfl
  | grant w => exact locked_beginWork (working (Option.some_ne_none w)).2 w
  | finish w rest =>
    obtain ⟨busy, alone⟩ := working (Option.some_ne_none w)
    exact (released_finish busy w rest).locked alone
  | conclude i => exact (sparesLock_conclude m i).locked (idle rfl)
  | resume c => exact (sparesLock_waited p m c true).locked (idle rfl)
  | timeout c =>
    simp only [Machine.doJob]
    split
    · have left : SparesLock m { m with waiters := m.waiters.filter (·.caller ≠ c) } :=
        ⟨rfl, rfl, .refl _⟩
      exact (left.trans (sparesLock_waited ..)).locked (idle rfl)
    · exact idle rfl

theorem step (h : m.Locked) : (m.step p).Locked := by
  unfold Machine.step
  split
  · exact h
  · rename_i e rest agenda
    obtain ⟨idle, working⟩ := h.take (laterOf m.now e.due) agenda
    exact (doJob idle working).attend

theorem run (h : m.Locked) (n : Nat) : (m.run p n).Locked := by
  induction n generalizing m with
  | zero => exact h
  | succ n ih =>
    simp only [Machine.run]
    split
    · exact h
    · exact ih h.step

end Locked

/-- In every state of a run the lock is held exactly if one is at work. -/
theorem locked_play (p : Plan σ κ ε α) (n : Nat) (site : σ) : (play p n site).Locked := by
  have start : (create p site).Locked := ⟨rfl, fun _ => rfl⟩
  exact start.attend.run n

end IndexSync.Schedule.Machine
