import IndexSync.Schedule.Machine
import Mathlib.Data.List.Perm.Basic
import Mathlib.Tactic.Common

/-!
# Who is at work

A piece of work is asked for, waits in the queue, is granted and comes to its end. Every worker is at one
of these places at a time. What a loop does between two requests neither revives a loop that has ended nor
takes back that it was cancelled.
-/
namespace IndexSync.Schedule

namespace Job

variable {κ : Type}

/-- The worker that a job lets work. -/
def worker? : Job κ → Option Worker
  | .grant w | .finish w _ => some w
  | _ => none

/-- The call that a job makes. -/
def call? : Job κ → Option Nat
  | .call c => some c
  | _ => none

/-- A job that makes calls, rather than doing what was asked for. -/
def isClerical : Job κ → Bool
  | .proceed | .call _ => true
  | _ => false

end Job

theorem Agenda.perm_add {J : Type} (due : Rat) (job : J) (agenda : Agenda J) :
    ((agenda.add due job).map (·.job)).Perm (job :: agenda.map (·.job)) :=
  (add_perm due job agenda).map _

namespace Machine

variable {σ κ ε α : Type} {m after last : Machine σ κ ε α} {ws : List Worker}

def jobs (m : Machine σ κ ε α) : List (Job κ) := m.agenda.map (·.job)

/-- All who work or wait for it. -/
def workers (m : Machine σ κ ε α) : List Worker := m.queue ++ m.jobs.filterMap (·.worker?)

/-- Those who work, or have been let work. -/
def atWork (m : Machine σ κ ε α) : List Worker := m.jobs.filterMap (·.worker?)

/-- The calls that the agenda will make. -/
def callsAhead (m : Machine σ κ ε α) : List Nat := m.jobs.filterMap (·.call?)

/-- Between two requests: control stays where it is, no loop comes to be, and a wait is over only when
its loop is. -/
structure Ages (m after : Machine σ κ ε α) : Prop where
  control : after.control = m.control
  loops : after.loops.length = m.loops.length
  ended : ∀ i, (m.loop i).phase = .over → (after.loop i).phase = .over
  cancelled : ∀ i, (m.loop i).cancelled = true → (after.loop i).cancelled = true
  waiters : ∀ v ∈ after.waiters, v ∈ m.waiters
  resumed : ∀ c, .resume c ∈ after.jobs →
    .resume c ∈ m.jobs ∨ ∃ v ∈ m.waiters, v.caller = c ∧ (after.loop v.loop).phase = .over

/-- The calls that are still to be made are the same. -/
structure SparesCalls (m after : Machine σ κ ε α) : Prop where
  remaining : after.remaining = m.remaining
  ahead : after.callsAhead.Perm m.callsAhead

theorem SparesCalls.refl (m : Machine σ κ ε α) : SparesCalls m m := ⟨rfl, .refl _⟩

theorem SparesCalls.trans (h : SparesCalls m after) (k : SparesCalls after last) :
    SparesCalls m last :=
  ⟨k.remaining.trans h.remaining, k.ahead.trans h.ahead⟩

/-- No call is made in the meantime. -/
structure Passes (m after : Machine σ κ ε α) : Prop extends Ages m after where
  spares : SparesCalls m after

theorem Passes.refl (m : Machine σ κ ε α) : Passes m m :=
  ⟨⟨rfl, rfl, fun _ => id, fun _ => id, fun _ => id, fun _ => .inl⟩, .refl m⟩

theorem Passes.trans (h : Passes m after) (k : Passes after last) : Passes m last where
  control := k.control.trans h.control
  loops := k.loops.trans h.loops
  ended i hi := k.ended i (h.ended i hi)
  cancelled i hi := k.cancelled i (h.cancelled i hi)
  waiters v hv := h.waiters v (k.waiters v hv)
  resumed c hc := by
    rcases k.resumed c hc with hc | ⟨v, hv, rfl, hover⟩
    · rcases h.resumed c hc with hc | ⟨v, hv, rfl, hover⟩
      · exact .inl hc
      · exact .inr ⟨v, hv, rfl, k.ended _ hover⟩
    · exact .inr ⟨v, h.waiters v hv, rfl, hover⟩
  spares := h.spares.trans k.spares

/-- Loops that are at work are so once, and a loop that is about to end is not at work. -/
structure Sound (ws : List Worker) (m : Machine σ κ ε α) : Prop where
  working : ∀ i, .loop i ∈ ws → (m.loop i).phase = .working
  single : ∀ i, ws.count (.loop i) ≤ 1
  concluding : ∀ i, .conclude i ∈ m.jobs →
    i < m.loops.length ∧ (m.loop i).cancelled = true ∧ .loop i ∉ ws

theorem Sound.perm {vs : List Worker} (h : Sound ws m) (same : vs.Perm ws) : Sound vs m where
  working i hi := h.working i (same.mem_iff.mp hi)
  single i := by
    rw [same.count_eq]
    exact h.single i
  concluding i hi := by
    obtain ⟨hlt, hc, hw⟩ := h.concluding i hi
    exact ⟨hlt, hc, fun hmem => hw (same.mem_iff.mp hmem)⟩

/-- When its work is over a worker is gone. -/
theorem Sound.tail {w : Worker} (h : Sound (w :: ws) m) : Sound ws m where
  working i hi := h.working i (List.mem_cons_of_mem _ hi)
  single i := Nat.le_trans (List.Sublist.count_le _ (List.sublist_cons_self w ws)) (h.single i)
  concluding i hi := by
    obtain ⟨hlt, hc, hw⟩ := h.concluding i hi
    exact ⟨hlt, hc, fun hmem => hw (List.mem_cons_of_mem _ hmem)⟩

theorem Sound.notMem_tail {i : Nat} (h : Sound (.loop i :: ws) m) : .loop i ∉ ws := by
  intro hi
  have := h.single i
  rw [List.count_cons_self] at this
  have := List.count_pos_iff.mpr hi
  omega

/-- Callers who work are no concern of the loops. -/
theorem Sound.cons_caller (h : Sound ws m) (c : Nat) : Sound (.caller c :: ws) m where
  working i hi := h.working i (by simpa using hi)
  single i := by simpa using h.single i
  concluding i hi := by simpa using h.concluding i hi

/-- What is kept through everything that books, answers and reports. -/
structure Same (m after : Machine σ κ ε α) : Prop where
  loops : after.loops = m.loops
  control : after.control = m.control
  waiters : after.waiters = m.waiters
  queue : after.queue = m.queue
  agenda : after.agenda = m.agenda
  remaining : after.remaining = m.remaining

namespace Same

theorem jobs (h : Same m after) : after.jobs = m.jobs := by
  rw [Machine.jobs, h.agenda, Machine.jobs]

theorem loop (h : Same m after) (i : Nat) : after.loop i = m.loop i := by
  rw [Machine.loop, h.loops, Machine.loop]

theorem workers (h : Same m after) : after.workers = m.workers := by
  rw [Machine.workers, h.queue, h.jobs, Machine.workers]

theorem passes (h : Same m after) : Passes m after where
  control := h.control
  loops := by rw [h.loops]
  ended i hi := by rwa [h.loop]
  cancelled i hi := by rwa [h.loop]
  waiters v hv := by rwa [h.waiters] at hv
  resumed c hc := by
    rw [h.jobs] at hc
    exact .inl hc
  spares := ⟨h.remaining, by rw [callsAhead, h.jobs, callsAhead]⟩

theorem sound (h : Same m after) (s : Sound ws m) : Sound ws after where
  working i hi := by
    rw [h.loop]
    exact s.working i hi
  single := s.single
  concluding i hi := by
    rw [h.jobs] at hi
    rw [h.loop, h.loops]
    exact s.concluding i hi

end Same

theorem same_answer (m : Machine σ κ ε α) (c : Nat) (a : Except Failure (Answer α)) :
    Same m (m.answer c a) := by
  simp only [answer]
  split <;> exact ⟨rfl, rfl, rfl, rfl, rfl, rfl⟩

section
variable (m) (delay : Rat) (job : Job κ)

theorem jobs_later : (m.later delay job).jobs.Perm (job :: m.jobs) :=
  Agenda.perm_add ..

theorem mem_jobs_later {j : Job κ} : j ∈ (m.later delay job).jobs ↔ j = job ∨ j ∈ m.jobs := by
  rw [(jobs_later m delay job).mem_iff, List.mem_cons]

theorem atWork_later : (m.later delay job).atWork.Perm (job.worker?.toList ++ m.atWork) := by
  refine ((jobs_later m delay job).filterMap _).trans ?_
  cases hw : job.worker? <;> simp [hw, atWork]

theorem workers_later : (m.later delay job).workers.Perm (job.worker?.toList ++ m.workers) := by
  refine ((atWork_later m delay job).append_left m.queue).trans ?_
  rw [workers, atWork, ← List.append_assoc, ← List.append_assoc]
  exact List.perm_append_comm.append_right _

/-- A job that lets nobody work. -/
theorem perm_workers_later {job : Job κ} (all : ws.Perm m.workers) (idle : job.worker? = none) :
    ws.Perm (m.later delay job).workers := by
  have h := workers_later m delay job
  rw [idle] at h
  exact all.trans h.symm

end

/-- A job that resumes nobody and makes no call. -/
theorem passes_later (m : Machine σ κ ε α) (delay : Rat) {job : Job κ}
    (quiet : ∀ c, job ≠ .resume c) (clerical : job.call? = none) : Passes m (m.later delay job) where
  control := rfl
  loops := rfl
  ended _ := id
  cancelled _ := id
  waiters _ := id
  resumed c hc := by
    rcases (mem_jobs_later m delay job).mp hc with hc | hc
    · exact absurd hc.symm (quiet c)
    · exact .inl hc
  spares := by
    refine ⟨rfl, ((jobs_later m delay job).filterMap _).trans ?_⟩
    rw [List.filterMap_cons_none clerical]
    exact .refl _

theorem sound_later (h : Sound ws m) (delay : Rat) {job : Job κ}
    (ready : ∀ i, job = .conclude i →
      i < m.loops.length ∧ (m.loop i).cancelled = true ∧ .loop i ∉ ws) :
    Sound ws (m.later delay job) where
  working := h.working
  single := h.single
  concluding i hi := by
    rcases (mem_jobs_later m delay job).mp hi with hi | hi
    · exact ready i hi.symm
    · exact h.concluding i hi

theorem loop_setLoop (m : Machine σ κ ε α) (i j : Nat) (l : Loop) :
    (m.setLoop i l).loop j = if j = i ∧ i < m.loops.length then l else m.loop j := by
  unfold setLoop loop
  by_cases hj : j = i
  · subst hj
    by_cases hlt : j < m.loops.length
    · simp [hlt]
    · simp [hlt]
  · simp [hj, List.getElem?_set_ne (Ne.symm hj)]

theorem lt_of_phase_ne_over {i : Nat} (h : (m.loop i).phase ≠ .over) : i < m.loops.length := by
  by_contra hle
  rw [loop, List.getElem?_eq_none (Nat.not_lt.mp hle)] at h
  exact h rfl

theorem passes_setLoop (m : Machine σ κ ε α) (i : Nat) (l : Loop)
    (ended : (m.loop i).phase = .over → l.phase = .over)
    (cancelled : (m.loop i).cancelled = true → l.cancelled = true) : Passes m (m.setLoop i l) where
  control := rfl
  loops := List.length_set
  ended j hj := by
    rw [loop_setLoop]
    split
    · rename_i h
      exact ended (h.1 ▸ hj)
    · exact hj
  cancelled j hj := by
    rw [loop_setLoop]
    split
    · rename_i h
      exact cancelled (h.1 ▸ hj)
    · exact hj
  waiters _ := id
  resumed _ := .inl
  spares := ⟨rfl, .refl _⟩

theorem sound_setLoop (h : Sound ws m) (i : Nat) (l : Loop)
    (working : .loop i ∈ ws → l.phase = .working)
    (cancelled : (m.loop i).cancelled = true → l.cancelled = true) : Sound ws (m.setLoop i l) where
  working j hj := by
    rw [loop_setLoop]
    split
    · rename_i hi
      exact working (hi.1 ▸ hj)
    · exact h.working j hj
  single := h.single
  concluding j hj := by
    obtain ⟨hlt, hc, hw⟩ := h.concluding j hj
    refine ⟨by simpa [setLoop] using hlt, ?_, hw⟩
    rw [loop_setLoop]
    split
    · rename_i hi
      exact cancelled (hi.1 ▸ hc)
    · exact hc

/-- One stretch of a run: it passes between two requests, and its workers stay sound. -/
structure Runs (ws : List Worker) (m after : Machine σ κ ε α) : Prop where
  passes : Passes m after
  sound : Sound ws after
  workers : ws.Perm after.workers

theorem Runs.before {first : Machine σ κ ε α} (h : Runs ws m after) (k : Passes first m) :
    Runs ws first after :=
  ⟨k.trans h.passes, h.sound, h.workers⟩

theorem Runs.sound_workers (h : Runs ws m after) : Sound after.workers after :=
  h.sound.perm h.workers.symm

theorem runs_rest (h : Sound ws m) (all : ws.Perm m.workers) {i : Nat} (delay : Rat)
    (going : (m.loop i).phase ≠ .over) (free : .loop i ∉ ws) : Runs ws m (m.rest i delay) := by
  simp only [rest]
  refine ⟨(passes_setLoop m i _ (fun h => absurd h going) ?_).trans
    (passes_later _ delay (by simp) rfl),
    sound_later (sound_setLoop h i _ (fun hw => absurd hw free) ?_) delay (by simp),
    perm_workers_later _ delay all rfl⟩
  · exact id
  · exact id

/-- The end of a loop wakes those who wait for it. -/
theorem runs_wakeAll (ended : List Waiter) (h : Sound ws m) (all : ws.Perm m.workers)
    {origin : Machine σ κ ε α} (passes : Passes origin m)
    (due : ∀ v ∈ ended, v ∈ origin.waiters ∧ (m.loop v.loop).phase = .over) :
    Runs ws origin (ended.foldl (fun m v => m.later 0 (.resume v.caller)) m) := by
  induction ended generalizing m with
  | nil => exact ⟨passes, h, all⟩
  | cons v rest ih =>
    obtain ⟨hv, hover⟩ := due v List.mem_cons_self
    simp only [List.foldl_cons]
    refine ih (sound_later h 0 (by simp)) (perm_workers_later m 0 all rfl) ?_
      fun u hu => due u (List.mem_cons_of_mem _ hu)
    exact { passes with
      resumed := fun c hc => by
        rcases (mem_jobs_later m 0 _).mp hc with hc | hc
        · cases hc
          exact .inr ⟨v, hv, rfl, hover⟩
        · exact passes.resumed c hc
      spares := by
        refine ⟨passes.spares.remaining, ((jobs_later m 0 _).filterMap _).trans ?_⟩
        exact passes.spares.ahead }

theorem conclude_eq (m : Machine σ κ ε α) (i : Nat) :
    m.conclude i = (m.waiters.filter fun v => v.loop = i).foldl
      (fun m v => m.later 0 (.resume v.caller))
      { m.setLoop i { m.loop i with phase := .over } with
        waiters := m.waiters.filter fun v => !decide (v.loop = i) } := by
  rw [conclude, List.partition_eq_filter_filter]
  rfl

theorem runs_conclude (h : Sound ws m) (all : ws.Perm m.workers) {i : Nat} (free : .loop i ∉ ws) :
    Runs ws m (m.conclude i) := by
  have ended : ((m.setLoop i { m.loop i with phase := .over }).loop i).phase = .over := by
    rw [loop_setLoop]
    split
    · rfl
    · rename_i hout
      by_contra going
      exact hout ⟨rfl, lt_of_phase_ne_over going⟩
  have set := passes_setLoop m i { m.loop i with phase := .over } (fun _ => rfl) id
  have sound := sound_setLoop h i { m.loop i with phase := .over } (fun hw => absurd hw free) id
  rw [conclude_eq]
  refine runs_wakeAll _ ?_ ?_ ?_ ?_
  · exact ⟨sound.working, sound.single, sound.concluding⟩
  · exact all
  · exact { set with
      waiters := fun v hv => (List.mem_filter.mp hv).1
      spares := ⟨rfl, .refl _⟩ }
  · intro v hv
    obtain ⟨hmem, hi⟩ := List.mem_filter.mp hv
    obtain rfl : v.loop = i := by simpa using hi
    exact ⟨hmem, ended⟩

theorem runs_release (h : Sound ws m) (all : ws.Perm m.workers) : Runs ws m m.release := by
  unfold release
  split
  · rename_i hq
    exact ⟨(Same.mk rfl rfl rfl rfl rfl rfl : Same m { m with busy := false }).passes,
      (Same.mk rfl rfl rfl rfl rfl rfl : Same m { m with busy := false }).sound h, all⟩
  · rename_i w rest hq
    have sound : Sound ws ({ m with queue := rest } : Machine σ κ ε α) :=
      ⟨h.working, h.single, h.concluding⟩
    have granted : Passes _ (({ m with queue := rest } : Machine σ κ ε α).later 0 (.grant w)) :=
      passes_later _ 0 (by simp) rfl
    refine ⟨⟨⟨rfl, rfl, fun _ => id, fun _ => id, fun _ => id, granted.resumed⟩,
      ⟨rfl, granted.spares.ahead⟩⟩,
      sound_later sound 0 (by simp), ?_⟩
    refine all.trans (List.Perm.trans ?_ (workers_later { m with queue := rest } 0 (.grant w)).symm)
    simp only [workers, hq]
    exact .refl _

variable {p : Plan σ κ ε α}

theorem runs_afterWork (h : Sound ws m) (all : ws.Perm m.workers) {i : Nat}
    (outcome : Except Failure Nat) (going : (m.loop i).phase ≠ .over) (free : .loop i ∉ ws) :
    Runs ws m (m.afterWork p i outcome) := by
  have reported : Same m { m with site := p.work.failed m.site } := ⟨rfl, rfl, rfl, rfl, rfl, rfl⟩
  have goesOn (n : Machine σ κ ε α) (same : Same m n) :
      Runs ws m (if (n.loop i).cancelled then n.later 0 (.conclude i) else n.rest i p.delay) := by
    have hn := same.sound h
    have alln : ws.Perm n.workers := by rwa [same.workers]
    split
    · rename_i hc
      refine Runs.before ⟨passes_later n 0 (by simp) rfl, sound_later hn 0 ?_, ?_⟩ same.passes
      · rintro j ⟨⟩
        refine ⟨lt_of_phase_ne_over ?_, hc, free⟩
        rwa [same.loop]
      · exact perm_workers_later n 0 alln rfl
    · refine (runs_rest hn alln p.delay ?_ free).before same.passes
      rwa [same.loop]
  unfold afterWork
  cases outcome with
  | ok n => exact goesOn m ⟨rfl, rfl, rfl, rfl, rfl, rfl⟩
  | error f =>
    simp only
    split
    · exact runs_conclude h all free
    · exact goesOn _ reported

theorem runs_workOver {w : Worker} (h : Sound (w :: m.workers) m) (outcome : Except Failure Nat) :
    Runs m.workers m (m.workOver p w outcome) := by
  have released := runs_release h.tail (.refl _)
  unfold workOver
  cases w with
  | caller c =>
    have same := same_answer m.release c (outcome.map .count)
    refine ⟨released.passes.trans same.passes, same.sound released.sound, ?_⟩
    rw [same.workers]
    exact released.workers
  | loop i =>
    have hw := h.working i List.mem_cons_self
    have same : m.release.loop i = m.loop i := by
      unfold release
      split <;> rfl
    refine (runs_afterWork released.sound released.workers outcome ?_ h.notMem_tail).before
      released.passes
    rw [same, hw]
    decide

/-- A worker that works is among the workers until its work is over. -/
theorem sound_beginWork {w : Worker} (h : Sound (w :: m.workers) m) :
    Passes m (m.beginWork p w) ∧ Sound (m.beginWork p w).workers (m.beginWork p w) := by
  unfold beginWork
  obtain ⟨progress, events, site⟩ := p.work.begin m.site
  simp only
  generalize hn : ({ m with busy := true, site := site } : Machine σ κ ε α).recordEvents events = n
  have same : Same m n := by
    subst hn
    exact ⟨rfl, rfl, rfl, rfl, rfl, rfl⟩
  have sound : Sound (w :: n.workers) n := by
    rw [same.workers]
    exact same.sound h
  rcases progress with outcome | ⟨duration, rest⟩
  · have done := (runs_workOver (p := p) sound outcome).before same.passes
    exact ⟨done.passes, done.sound_workers⟩
  · refine ⟨same.passes.trans (passes_later n duration (by simp) rfl), ?_⟩
    exact (sound_later sound duration (by simp)).perm (workers_later n duration _)

theorem sound_askForWork {w : Worker} (h : Sound (w :: m.workers) m) :
    Passes m (m.askForWork p w) ∧ Sound (m.askForWork p w).workers (m.askForWork p w) := by
  unfold askForWork
  split
  · refine ⟨⟨⟨rfl, rfl, fun _ => id, fun _ => id, fun _ => id, fun _ => .inl⟩, ⟨rfl, .refl _⟩⟩, ?_⟩
    have queued : (m.queue ++ [w] ++ m.jobs.filterMap (·.worker?)).Perm (w :: m.workers) := by
      rw [List.append_assoc]
      exact List.perm_middle
    exact Sound.perm ⟨h.working, h.single, h.concluding⟩ queued
  · exact sound_beginWork h

theorem sound_wake {i : Nat} (h : Sound m.workers m) (resting : (m.loop i).phase = .resting) :
    Passes m (m.wake p i) ∧ Sound (m.wake p i).workers (m.wake p i) := by
  have going : (m.loop i).phase ≠ .over := by rw [resting]; decide
  have free : .loop i ∉ m.workers := by
    intro hw
    rw [h.working i hw] at resting
    cases resting
  simp only [wake]
  split
  · rename_i hc
    refine ⟨passes_later m 0 (by simp) rfl, ?_⟩
    refine (sound_later h 0 ?_).perm (workers_later m 0 _)
    rintro j ⟨⟩
    exact ⟨lt_of_phase_ne_over going, hc, free⟩
  · rename_i hc
    split
    · have rested := runs_rest h (.refl _) p.delay going free
      exact ⟨rested.passes, rested.sound_workers⟩
    · have set := passes_setLoop m i { m.loop i with phase := .working }
        (fun hover => absurd hover going) id
      have sound := sound_setLoop h i { m.loop i with phase := .working }
        (fun hw => absurd hw free) id
      have asked : Sound (.loop i :: m.workers) (m.setLoop i { m.loop i with phase := .working }) := by
        refine ⟨fun j hj => ?_, fun j => ?_, fun j hj => ?_⟩
        · rcases List.mem_cons.mp hj with hj | hj
          · cases hj
            rw [loop_setLoop, if_pos ⟨rfl, lt_of_phase_ne_over going⟩]
          · exact sound.working j hj
        · by_cases hj : i = j
          · subst hj
            simp [List.count_eq_zero_of_not_mem free]
          · rw [List.count_cons_of_ne (by simpa using hj)]
            exact h.single j
        · obtain ⟨-, hcancelled, hw⟩ := h.concluding j hj
          obtain ⟨hlt, hset, -⟩ := sound.concluding j hj
          refine ⟨hlt, hset, fun hmem => ?_⟩
          rcases List.mem_cons.mp hmem with hj | hj
          · cases hj
            exact hc hcancelled
          · exact hw hj
      obtain ⟨passes, done⟩ := sound_askForWork (p := p)
        (m := m.setLoop i { m.loop i with phase := .working }) asked
      exact ⟨set.trans passes, done⟩

end Machine
end IndexSync.Schedule
