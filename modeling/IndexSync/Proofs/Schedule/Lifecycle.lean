import IndexSync.Proofs.Schedule.Workers

/-!
# Loops that are started and stopped

Calls to start and to stop come in any order, and between any two jobs. A stop waits for the loop in
charge, and gives up the charge when that loop has ended. It does not look whether another loop has taken
charge by then: such a loop is forgotten, goes on, and can no longer be stopped. A start that comes before
the last loop has ended replaces it, and what that loop still does is nobody's concern.
-/
namespace IndexSync.Schedule

namespace Machine

variable {σ κ ε α : Type}

/-- A loop that has neither ended nor been cancelled. -/
def IsLive (m : Machine σ κ ε α) (i : Nat) : Prop :=
  (m.loop i).phase ≠ .over ∧ (m.loop i).cancelled = false

/-- No loop is live but the one in charge, and that one only while loops are said to run. -/
def Governed (m : Machine σ κ ε α) : Prop :=
  ∀ i, m.IsLive i → m.control.handle = some i ∧ m.control.running = true

/-- The loop in charge, unless it has ended. -/
def unended (m : Machine σ κ ε α) : List Nat :=
  m.control.handle.toList.filter fun i => (m.loop i).phase ≠ .over

/-- All is alike but for the calls that are still to be made. -/
structure Clerical (m after : Machine σ κ ε α) : Prop where
  loops : after.loops = m.loops
  control : after.control = m.control
  busy : after.busy = m.busy
  queue : after.queue = m.queue
  waiters : after.waiters = m.waiters
  site : after.site = m.site
  log : after.log = m.log
  jobs : (after.jobs.filter (!·.isClerical)).Perm (m.jobs.filter (!·.isClerical))

end Machine

/-- A machine, and what an onlooker knows of it: the calls that have been made; the stops since whose
calls nobody has started; the loops that were in charge, and had not ended, when another one was started
or when a stop that had been overtaken by a start gave up the charge; and whether nobody has started since
a stop was last told that its loop has ended. -/
structure Watch (σ κ ε α : Type) where
  machine : Machine σ κ ε α
  asked : List Nat
  undisturbed : List Nat
  superseded : List Nat
  forgotten : List Nat
  calm : Bool

/-- The call waits for the end of the loop in charge, and then gives up the charge. -/
def Plan.isStop {σ κ ε α : Type} (p : Plan σ κ ε α) (c : Nat) : Bool :=
  match p.calls[c]? with
  | some ⟨_, _, .stop _⟩ | some ⟨_, _, .close _⟩ => true
  | _ => false

namespace Watch

variable {σ κ ε α : Type} (p : Plan σ κ ε α)

def create (site : σ) : Watch σ κ ε α := ⟨.create p site, [], [], [], [], false⟩

/-- A call is made. -/
def ask (w : Watch σ κ ε α) (c : Nat) (r : Request σ α) : Watch σ κ ε α :=
  let before := w.machine
  let after := before.request p c r
  let w := { w with machine := after, asked := c :: w.asked }
  match r with
  | .start gate =>
    if (before.refusal? gate).isSome then w
    else { w with
      undisturbed := []
      calm := false
      superseded :=
        if after.control.handle = before.control.handle then w.superseded
        else before.unended ++ w.superseded }
  | .stop _ | .close _ =>
    { w with
      undisturbed := c :: w.undisturbed
      calm := w.calm || after.control.handle.isNone }
  | _ => w

/-- A job is done, which leaves the given agenda. -/
def job (w : Watch σ κ ε α) (now : Rat) (agenda : Agenda (Job κ)) (j : Job κ) : Watch σ κ ε α :=
  let before := { w.machine with now := now, agenda := agenda }
  let w := { w with machine := before.doJob p j }
  match j with
  | .resume c =>
    if p.isStop c then
      { w with
        calm := true
        forgotten := if c ∈ w.undisturbed then w.forgotten else before.unended ++ w.forgotten }
    else w
  | _ => w

/-- The states that are reached, whatever call is made next and whatever job is done next. -/
inductive Reached (p : Plan σ κ ε α) (site : σ) : Watch σ κ ε α → Prop
  | start : Reached p site (create p site)
  | ask {w c a} : Reached p site w → p.calls[c]? = some a → c ∉ w.asked →
    Reached p site (w.ask p c a.request)
  | job {w before e after} (now : Rat) : Reached p site w →
    w.machine.agenda = before ++ e :: after → e.job.isClerical = false →
    Reached p site (w.job p now (before ++ after) e.job)
  | clerk {w m} : Reached p site w → w.machine.Clerical m →
    Reached p site { w with machine := m }

end Watch

namespace Machine

variable {σ κ ε α : Type} {m after : Machine σ κ ε α} {p : Plan σ κ ε α} {i c : Nat}

theorem passes_cancel (m : Machine σ κ ε α) (i : Nat) : Passes m (m.cancel i) := by
  have set := passes_setLoop m i { m.loop i with cancelled := true } id fun _ => rfl
  simp only [cancel]
  split
  · exact set.trans (passes_later _ 0 (by simp) rfl)
  · exact set

theorem sound_cancel (h : Sound m.workers m) (i : Nat) :
    Sound (m.cancel i).workers (m.cancel i) := by
  have set := sound_setLoop h i { m.loop i with cancelled := true } (h.working i) fun _ => rfl
  simp only [cancel]
  split
  · refine (sound_later set 0 (by simp)).perm ?_
    exact (perm_workers_later _ 0 (.refl _) rfl).symm
  · exact set

theorem not_isLive_cancel (m : Machine σ κ ε α) (i : Nat) : ¬ (m.cancel i).IsLive i := by
  have set : ¬ (m.setLoop i { m.loop i with cancelled := true }).IsLive i := by
    rintro ⟨going, uncancelled⟩
    have hlt := lt_of_phase_ne_over going
    rw [loop_setLoop, if_pos ⟨rfl, by simpa [setLoop] using hlt⟩] at uncancelled
    cases uncancelled
  simp only [cancel]
  split
  · exact set
  · exact set

theorem cancel_control (m : Machine σ κ ε α) (i : Nat) (k : Control) :
    { m with control := k }.cancel i = { m.cancel i with control := k } := by
  have loop : ({ m with control := k } : Machine σ κ ε α).loop i = m.loop i := rfl
  by_cases h : ((m.loop i).phase = .resting && !(m.loop i).cancelled) = true
  · simp only [cancel, loop, h, if_true]
    rfl
  · simp only [cancel, loop, h]
    rfl

theorem waited_true (p : Plan σ κ ε α) (m : Machine σ κ ε α) (c : Nat) :
    ∃ a, m.waited p c true =
      (if p.isStop c then { m with control := { m.control with handle := none } } else m).answer
        c a := by
  cases hc : p.calls[c]? with
  | none =>
    simp only [waited, Plan.isStop, hc]
    exact ⟨_, rfl⟩
  | some a =>
    obtain ⟨time, unattended, r⟩ := a
    cases r <;> simp only [waited, Plan.isStop, hc] <;> exact ⟨_, rfl⟩

theorem same_waited_false (p : Plan σ κ ε α) (m : Machine σ κ ε α) (c : Nat) :
    Same m (m.waited p c false) := by
  have warned (site : σ) (a) : Same m (({ m with site := site } : Machine σ κ ε α).answer c a) := by
    have := same_answer ({ m with site := site } : Machine σ κ ε α) c a
    exact ⟨this.loops, this.control, this.waiters, this.queue, this.agenda, this.remaining⟩
  cases hc : p.calls[c]? with
  | none =>
    simp only [waited, hc]
    exact same_answer ..
  | some a =>
    obtain ⟨time, unattended, r⟩ := a
    cases r <;> simp only [waited, hc] <;> exact warned ..

/-- A loop that has just been started, and has not yet gone to rest. -/
def withLoop (m : Machine σ κ ε α) : Machine σ κ ε α :=
  { m with
    loops := m.loops ++ [⟨.resting, 0, false⟩]
    control := { m.control with
      handle := some m.loops.length
      stopping := false } }

theorem length_withLoop (m : Machine σ κ ε α) : m.withLoop.loops.length = m.loops.length + 1 := by
  simp [withLoop]

theorem resting_withLoop (m : Machine σ κ ε α) :
    (m.withLoop.loop m.loops.length).phase = .resting := by
  simp [withLoop, loop]

theorem loop_withLoop (m : Machine σ κ ε α) {i : Nat} (h : i ≠ m.loops.length) :
    m.withLoop.loop i = m.loop i := by
  simp only [loop, withLoop]
  by_cases hlt : i < m.loops.length
  · rw [List.getElem?_append_left hlt]
  · rw [List.getElem?_eq_none (by simp; omega), List.getElem?_eq_none (Nat.not_lt.mp hlt)]

/-- A new loop does not work yet. -/
theorem sound_withLoop (h : Sound m.workers m) : Sound m.withLoop.workers m.withLoop where
  working i hi := by
    have hlt : i < m.loops.length := by
      refine lt_of_phase_ne_over ?_
      rw [h.working i hi]
      decide
    rw [loop_withLoop m (by omega)]
    exact h.working i hi
  single := h.single
  concluding i hi := by
    obtain ⟨hlt, cancelled, free⟩ := h.concluding i hi
    rw [loop_withLoop m (by omega), length_withLoop]
    exact ⟨by omega, cancelled, free⟩

/-- A start finds loops running, finds the delays at fault, or makes a new loop. -/
theorem start_cases (p : Plan σ κ ε α) (m : Machine σ κ ε α) :
    m.start p = (.ok (), m) ∨
      m.control.running = false ∧
        (m.start p = (.error (.range .negativeDelay),
            { m with control := { m.control with stopping := false } }) ∨
          m.start p = (.ok (), m.withLoop.rest m.loops.length p.initialDelay)) := by
  unfold start
  split
  · exact .inl rfl
  · rename_i idle
    refine .inr ⟨by simpa using idle, ?_⟩
    simp only
    split
    · exact .inl rfl
    · exact .inr rfl

theorem Clerical.mem_jobs (h : m.Clerical after) {j : Job κ} (hj : j.isClerical = false) :
    j ∈ after.jobs ↔ j ∈ m.jobs := by
  have := h.jobs.mem_iff (a := j)
  simpa [hj] using this

theorem Clerical.workers (h : m.Clerical after) : after.workers.Perm m.workers := by
  have unclerical (js : List (Job κ)) :
      (js.filter (!·.isClerical)).filterMap (·.worker?) = js.filterMap (·.worker?) := by
    rw [List.filterMap_filter]
    refine List.filterMap_congr fun j _ => ?_
    cases j <;> rfl
  rw [Machine.workers, Machine.workers, h.queue, ← unclerical after.jobs, ← unclerical m.jobs]
  exact (h.jobs.filterMap _).append_left _

/-- An entry is taken from the agenda. -/
theorem passes_take {before rest : Agenda (Job κ)} {e : Entry (Job κ)} (now : Rat)
    (h : m.agenda = before ++ e :: rest) (unclerical : e.job.isClerical = false) :
    Passes m { m with now := now, agenda := before ++ rest } := by
  have jobs : m.jobs = before.map (·.job) ++ e.job :: rest.map (·.job) := by
    simp [Machine.jobs, h]
  refine ⟨⟨rfl, rfl, fun _ => id, fun _ => id, fun _ => id, fun c hc => .inl ?_⟩, rfl, ?_⟩
  · rw [jobs]
    simp only [Machine.jobs, List.map_append, List.mem_append] at hc
    rcases hc with hc | hc
    · exact List.mem_append_left _ hc
    · exact List.mem_append_right _ (List.mem_cons_of_mem _ hc)
  · have uncalled : e.job.call? = none := by
      cases hj : e.job <;> simp [hj, Job.isClerical] at unclerical <;> rfl
    simp [callsAhead, Machine.jobs, h, uncalled]

theorem sound_take {before rest : Agenda (Job κ)} {e : Entry (Job κ)} (now : Rat)
    (h : m.agenda = before ++ e :: rest) (sound : Sound m.workers m) :
    let taken : Machine σ κ ε α := { m with now := now, agenda := before ++ rest }
    Sound (e.job.worker?.toList ++ taken.workers) taken ∧
      ∀ i, e.job = .conclude i → .loop i ∉ taken.workers := by
  have jobs : m.jobs = before.map (·.job) ++ e.job :: rest.map (·.job) := by
    simp [Machine.jobs, h]
  intro taken
  have workers : m.workers.Perm (e.job.worker?.toList ++ taken.workers) := by
    have same : m.jobs.filterMap (·.worker?) =
        (before.map (·.job)).filterMap (·.worker?) ++
          (e.job.worker?.toList ++ (rest.map (·.job)).filterMap (·.worker?)) := by
      rw [jobs]
      cases hw : e.job.worker? <;> simp [hw]
    have left : taken.workers =
        (m.queue ++ (before.map (·.job)).filterMap (·.worker?)) ++
          (rest.map (·.job)).filterMap (·.worker?) := by
      simp [taken, Machine.workers, Machine.jobs]
    rw [Machine.workers, same, left, ← List.append_assoc, ← List.append_assoc, ← List.append_assoc]
    exact List.perm_append_comm.append_right _
  have kept : Sound m.workers taken := by
    refine ⟨sound.working, sound.single, fun i hi => sound.concluding i ?_⟩
    rw [jobs]
    simp only [taken, Machine.jobs, List.map_append, List.mem_append] at hi
    rcases hi with hi | hi
    · exact List.mem_append_left _ hi
    · exact List.mem_append_right _ (List.mem_cons_of_mem _ hi)
  refine ⟨kept.perm workers.symm, fun i hi hw => ?_⟩
  have due : .conclude i ∈ m.jobs := by
    rw [jobs, hi]
    exact List.mem_append_right _ List.mem_cons_self
  exact (sound.concluding i due).2.2 (workers.mem_iff.mpr (List.mem_append_right _ hw))

/-- What jobs do between two requests, apart from the end of a wait. -/
theorem passes_doJob {j : Job κ} (sound : Sound (j.worker?.toList ++ m.workers) m)
    (unclerical : j.isClerical = false) (unresumed : ∀ c, j ≠ .resume c)
    (free : ∀ i, j = .conclude i → .loop i ∉ m.workers) :
    Passes m (m.doJob p j) ∧ Sound (m.doJob p j).workers (m.doJob p j) := by
  cases j with
  | proceed => cases unclerical
  | call c => cases unclerical
  | resume c => exact absurd rfl (unresumed c)
  | wake i rest =>
    simp only [doJob]
    split
    · rename_i h
      exact sound_wake sound (by simpa using (Bool.and_eq_true_iff.mp h).1)
    · exact ⟨.refl m, sound⟩
  | grant w => exact sound_beginWork sound
  | finish w rest =>
    generalize hn : ({ m with site := (p.work.finish rest m.site).2.2 } : Machine σ κ ε α).recordEvents
      (p.work.finish rest m.site).2.1 = n
    have same : Same m n := by
      subst hn
      exact ⟨rfl, rfl, rfl, rfl, rfl, rfl⟩
    have atWork : Sound (w :: n.workers) n := by
      rw [same.workers]
      exact same.sound sound
    have done := (runs_workOver (p := p) atWork (p.work.finish rest m.site).1).before same.passes
    simp only [doJob, hn]
    exact ⟨done.passes, done.sound_workers⟩
  | conclude i =>
    have done := runs_conclude sound (.refl _) (free i rfl)
    exact ⟨done.passes, done.sound_workers⟩
  | timeout c =>
    simp only [doJob]
    split
    · generalize hn : ({ m with waiters := m.waiters.filter (·.caller ≠ c) } : Machine σ κ ε α) = n
      have dropped : Passes m n := by
        subst hn
        exact ⟨⟨rfl, rfl, fun _ => id, fun _ => id, fun v hv => (List.mem_filter.mp hv).1,
          fun _ => .inl⟩, ⟨rfl, .refl _⟩⟩
      have kept : Sound n.workers n := by
        subst hn
        exact ⟨sound.working, sound.single, sound.concluding⟩
      have same := same_waited_false p n c
      refine ⟨dropped.trans same.passes, ?_⟩
      rw [same.workers]
      exact same.sound kept
    · exact ⟨.refl m, sound⟩

end Machine

namespace Watch

open Machine

variable {σ κ ε α : Type} {w : Watch σ κ ε α} {m : Machine σ κ ε α} {p : Plan σ κ ε α}
  {site : σ} {c : Nat}

/-- What an onlooker can rely on. A loop that has not ended is in charge or has been seen to lose the
charge; only one in charge and those that were forgotten are live. -/
structure Ordered (w : Watch σ κ ε α) : Prop where
  sound : Sound w.machine.workers w.machine
  handle : ∀ i, w.machine.control.handle = some i → i < w.machine.loops.length
  forgotten : ∀ i ∈ w.forgotten, i < w.machine.loops.length ∧ w.machine.control.handle ≠ some i
  known : ∀ i, (w.machine.loop i).phase ≠ .over →
    w.machine.control.handle = some i ∨ i ∈ w.superseded ∨ i ∈ w.forgotten
  live : ∀ i, w.machine.IsLive i →
    i ∈ w.forgotten ∨ w.machine.control.handle = some i ∧ w.machine.control.stopping = false
  calm : w.calm = true → w.machine.control.handle = none
  undisturbed : ∀ c ∈ w.undisturbed, c ∈ w.asked
  waiting : ∀ v ∈ w.machine.waiters, v.caller ∈ w.asked
  resuming : ∀ c, .resume c ∈ w.machine.jobs → c ∈ w.asked
  waits : ∀ v ∈ w.machine.waiters, v.caller ∈ w.undisturbed →
    ∀ i, w.machine.control.handle = some i → i = v.loop
  resumes : ∀ c, .resume c ∈ w.machine.jobs → c ∈ w.undisturbed →
    ∀ i, w.machine.control.handle = some i → (w.machine.loop i).phase = .over

theorem ordered_create (p : Plan σ κ ε α) (site : σ) : Ordered (create p site) where
  sound := ⟨fun i hi => by simp [create, Machine.create, workers, jobs] at hi,
    fun i => by simp [create, Machine.create, workers, jobs],
    fun i hi => by simp [create, Machine.create, jobs] at hi⟩
  handle i hi := by cases hi
  forgotten i hi := by cases hi
  known i hi := absurd rfl hi
  live i hi := absurd rfl hi.1
  calm h := by cases h
  undisturbed c hc := by cases hc
  waiting v hv := by cases hv
  resuming c hc := by simp [create, Machine.create, jobs] at hc
  waits v hv := by cases hv
  resumes c hc := by simp [create, Machine.create, jobs] at hc

namespace Ordered

theorem mem_unended {i : Nat} :
    i ∈ m.unended ↔ m.control.handle = some i ∧ (m.loop i).phase ≠ .over := by
  simp [unended, Option.mem_toList]

/-- Nothing that passes between two requests is of concern. -/
theorem pass (h : Ordered w) (passes : Ages w.machine m) (sound : Sound m.workers m) :
    Ordered { w with machine := m } where
  sound := sound
  handle i hi := by
    have hlt := h.handle i (by rwa [← passes.control])
    rwa [← passes.loops] at hlt
  forgotten i hi := by
    obtain ⟨hlt, hne⟩ := h.forgotten i hi
    exact ⟨by rwa [← passes.loops] at hlt, by rwa [← passes.control] at hne⟩
  known i hi := by
    have := h.known i fun hover => hi (passes.ended i hover)
    rwa [← passes.control] at this
  live i hi := by
    have before : w.machine.IsLive i := by
      refine ⟨fun hover => hi.1 (passes.ended i hover), ?_⟩
      by_contra hc
      have := passes.cancelled i (by simpa using hc)
      rw [hi.2] at this
      cases this
    have := h.live i before
    rwa [← passes.control] at this
  calm hc := by
    have := h.calm hc
    rwa [← passes.control] at this
  undisturbed := h.undisturbed
  waiting v hv := h.waiting v (passes.waiters v hv)
  resuming c hc := by
    rcases passes.resumed c hc with hc | ⟨v, hv, rfl, -⟩
    · exact h.resuming c hc
    · exact h.waiting v hv
  waits v hv hu i hi := h.waits v (passes.waiters v hv) hu i (by rwa [← passes.control])
  resumes c hc hu i hi := by
    rw [passes.control] at hi
    rcases passes.resumed c hc with hc | ⟨v, hv, rfl, hover⟩
    · exact passes.ended i (h.resumes c hc hu i hi)
    · obtain rfl := h.waits v hv hu i hi
      exact hover

theorem same (h : Ordered w) (k : Same w.machine m) : Ordered { w with machine := m } := by
  refine h.pass k.passes.toAges ?_
  rw [k.workers]
  exact k.sound h.sound

/-- A caller who has not asked before waits for nothing. -/
theorem asks (h : Ordered w) (c : Nat) : Ordered { w with asked := c :: w.asked } :=
  { h with
    undisturbed := fun d hd => List.mem_cons_of_mem _ (h.undisturbed d hd)
    waiting := fun v hv => List.mem_cons_of_mem _ (h.waiting v hv)
    resuming := fun d hd => List.mem_cons_of_mem _ (h.resuming d hd) }

/-- A call to stop begins undisturbed. -/
theorem asksToStop (h : Ordered w) (fresh : c ∉ w.asked) :
    Ordered { w with asked := c :: w.asked, undisturbed := c :: w.undisturbed } := by
  have asks := h.asks c
  refine { asks with undisturbed := ?_, waits := ?_, resumes := ?_ }
  · intro d hd
    rcases List.mem_cons.mp hd with rfl | hd
    · exact List.mem_cons_self
    · exact List.mem_cons_of_mem _ (h.undisturbed d hd)
  · intro v hv hu
    rcases List.mem_cons.mp hu with hc | hu
    · exact absurd (hc ▸ h.waiting v hv) fresh
    · exact h.waits v hv hu
  · intro d hd hu
    rcases List.mem_cons.mp hu with rfl | hu
    · exact absurd (h.resuming d hd) fresh
    · exact h.resumes d hd hu

/-- One more waits. -/
theorem join (h : Ordered w) {v : Waiter} (asked : v.caller ∈ w.asked)
    (charge : v.caller ∈ w.undisturbed → ∀ i, w.machine.control.handle = some i → i = v.loop) :
    Ordered { w with machine := { w.machine with waiters := w.machine.waiters ++ [v] } } where
  sound := ⟨h.sound.working, h.sound.single, h.sound.concluding⟩
  handle := h.handle
  forgotten := h.forgotten
  known := h.known
  live := h.live
  calm := h.calm
  undisturbed := h.undisturbed
  waiting u hu := by
    rcases List.mem_append.mp hu with hu | hu
    · exact h.waiting u hu
    · rwa [List.mem_singleton.mp hu]
  resuming := h.resuming
  waits u hu hd := by
    rcases List.mem_append.mp hu with hu | hu
    · exact h.waits u hu hd
    · rw [List.mem_singleton.mp hu] at hd ⊢
      exact charge hd
  resumes := h.resumes

/-- The charge is given up. Unless it has ended, the loop that was in charge is forgotten. -/
theorem giveUp (h : Ordered w) (more : List Nat)
    (lost : ∀ i, w.machine.control.handle = some i → (w.machine.loop i).phase = .over ∨ i ∈ more)
    (were : ∀ i ∈ more, w.machine.control.handle = some i) :
    Ordered { w with
      machine := { w.machine with control := { w.machine.control with handle := none } }
      forgotten := more ++ w.forgotten } where
  sound := ⟨h.sound.working, h.sound.single, h.sound.concluding⟩
  handle i hi := by cases hi
  forgotten i hi := by
    refine ⟨?_, by simp⟩
    rcases List.mem_append.mp hi with hi | hi
    · exact h.handle i (were i hi)
    · exact (h.forgotten i hi).1
  known i hi := by
    rcases h.known i hi with hc | hs | hf
    · rcases lost i hc with hover | hm
      · exact absurd hover hi
      · exact .inr (.inr (List.mem_append_left _ hm))
    · exact .inr (.inl hs)
    · exact .inr (.inr (List.mem_append_right _ hf))
  live i hi := by
    rcases h.live i hi with hf | ⟨hc, -⟩
    · exact .inl (List.mem_append_right _ hf)
    · rcases lost i hc with hover | hm
      · exact absurd hover hi.1
      · exact .inl (List.mem_append_left _ hm)
  calm _ := rfl
  undisturbed := h.undisturbed
  waiting := h.waiting
  resuming := h.resuming
  waits v hv hu i hi := by cases hi
  resumes c hc hu i hi := by cases hi

/-- From now on loops are stopping, of which the one in charge has been cancelled. -/
theorem stopping (h : Ordered w) (cancelled : ∀ i, w.machine.control.handle = some i →
    ¬ w.machine.IsLive i) :
    Ordered { w with
      machine := { w.machine with control := { w.machine.control with stopping := true } } } :=
  { h with
    sound := ⟨h.sound.working, h.sound.single, h.sound.concluding⟩
    live := fun i hi => by
      rcases h.live i hi with hf | ⟨hc, -⟩
      · exact .inl hf
      · exact absurd hi (cancelled i hc) }

theorem calmed (h : Ordered w) (vacant : w.machine.control.handle = none) :
    Ordered { w with calm := true } :=
  { h with calm := fun _ => vacant }

/-- Nobody is in charge when a stop is told that its loop has ended. -/
theorem told (h : Ordered w) :
    Ordered { w with calm := w.calm || w.machine.control.handle.isNone } :=
  { h with
    calm := fun hc => by
      rcases Bool.or_eq_true_iff.mp hc with hc | hc
      · exact h.calm hc
      · exact Option.isNone_iff_eq_none.mp hc }

theorem answer (h : Ordered w) (c : Nat) (a : Except Failure (Answer α)) :
    Ordered { w with machine := w.machine.answer c a } :=
  h.same (same_answer w.machine c a)

theorem waitFor (h : Ordered w) {i : Nat} (asked : c ∈ w.asked)
    (charge : w.machine.control.handle = some i) (timeout : Option Rat) :
    Ordered { w with machine := w.machine.waitFor p c i timeout } := by
  unfold Machine.waitFor
  split
  · rename_i hover
    obtain ⟨a, ha⟩ := waited_true p w.machine c
    rw [ha]
    split
    · refine answer (h.giveUp [] ?_ (by simp)) c a
      intro j hj
      obtain rfl := Option.some.inj (charge.symm.trans hj)
      exact .inl hover
    · exact h.answer c a
  · have joined := h.join (v := ⟨c, i⟩) asked fun _ j hj => Option.some.inj (hj.symm.trans charge)
    cases timeout with
    | none => exact joined
    | some t =>
      refine joined.pass (passes_later _ t (by simp) rfl).toAges ?_
      exact (sound_later joined.sound t (by simp)).perm
        (perm_workers_later _ t (.refl _) rfl).symm

theorem stop (h : Ordered w) (asked : c ∈ w.asked) (timeout : Option Rat) :
    Ordered { w with machine := w.machine.stop p c timeout } := by
  unfold Machine.stop
  split
  · exact h.answer c _
  · rename_i i charge
    simp only [cancel_control]
    have cancelled := h.pass (passes_cancel w.machine i).toAges (sound_cancel h.sound i)
    have kept : (w.machine.cancel i).control.handle = some i := by
      rw [(passes_cancel w.machine i).control, charge]
    have stopping := cancelled.stopping fun j hj => by
      obtain rfl := Option.some.inj (kept.symm.trans hj)
      exact not_isLive_cancel w.machine i
    have same := (passes_cancel w.machine i).control
    rw [show w.machine.control = (w.machine.cancel i).control from same.symm]
    exact stopping.waitFor asked kept timeout

/-- Whoever starts takes the calm away. -/
theorem starting (h : Ordered w) : Ordered { w with undisturbed := [], calm := false } :=
  { h with
    calm := fun hc => by cases hc
    undisturbed := fun c hc => by cases hc
    waits := fun v hv hu => by cases hu
    resumes := fun c hc hu => by cases hu }

/-- A new loop takes charge. The one that was in charge is superseded unless it has ended. -/
theorem takeCharge (h : Ordered w) (idle : w.machine.control.running = false) :
    Ordered { w with
      machine := w.machine.withLoop
      undisturbed := []
      calm := false
      superseded := w.machine.unended ++ w.superseded } where
  sound := sound_withLoop h.sound
  handle i hi := by
    obtain rfl := Option.some.inj hi
    simp only [length_withLoop]
    omega
  forgotten i hi := by
    have := (h.forgotten i hi).1
    simp only [length_withLoop]
    exact ⟨by omega, fun hc => by have := Option.some.inj hc; omega⟩
  known i hi := by
    by_cases new : i = w.machine.loops.length
    · exact .inl (congrArg some new.symm)
    · rw [loop_withLoop _ new] at hi
      rcases h.known i hi with hc | hs | hf
      · exact .inr (.inl (List.mem_append_left _ (mem_unended.mpr ⟨hc, hi⟩)))
      · exact .inr (.inl (List.mem_append_right _ hs))
      · exact .inr (.inr hf)
  live i hi := by
    by_cases new : i = w.machine.loops.length
    · exact .inr ⟨congrArg some new.symm, rfl⟩
    · rw [IsLive, loop_withLoop _ new] at hi
      rcases h.live i hi with hf | ⟨hc, hs⟩
      · exact .inl hf
      · simp [Control.running, hc, hs] at idle
  calm hc := by cases hc
  undisturbed c hc := by cases hc
  waiting := h.waiting
  resuming := h.resuming
  waits v hv hu := by cases hu
  resumes c hc hu := by cases hu

theorem asksToStart (h : Ordered w) (c : Nat) (gate : Option Failure) :
    Ordered (w.ask p c (.start gate)) := by
  cases hr : w.machine.refusal? gate with
  | some f =>
    simp only [ask, request, hr]
    exact (h.asks c).answer c _
  | none =>
    have kept {m : Machine σ κ ε α} (a : Except Failure (Answer α))
        (ordered : Ordered { w with
          machine := m
          asked := c :: w.asked
          undisturbed := []
          calm := false })
        (same : m.control.handle = w.machine.control.handle) :
        Ordered { w with
          machine := m.answer c a
          asked := c :: w.asked
          undisturbed := []
          calm := false
          superseded :=
            if (m.answer c a).control.handle = w.machine.control.handle then w.superseded
            else w.machine.unended ++ w.superseded } := by
      rw [(same_answer m c a).control, if_pos same]
      exact ordered.answer c a
    have begun := (h.asks c).starting
    simp only [ask, request, hr, Option.isSome_none, Bool.false_eq_true, if_false]
    rcases start_cases p w.machine with hs | ⟨idle, hs | hs⟩
    · simp only [hs]
      exact kept _ begun rfl
    · simp only [hs]
      refine kept _ { begun with
        sound := ⟨h.sound.working, h.sound.single, h.sound.concluding⟩
        live := fun i hi => ?_ } rfl
      rcases h.live i hi with hf | ⟨hc, -⟩
      · exact .inl hf
      · exact .inr ⟨hc, rfl⟩
    · simp only [hs]
      have taken := (h.asks c).takeCharge idle
      have resting := resting_withLoop w.machine
      have rested := runs_rest taken.sound (.refl _) (i := w.machine.loops.length) p.initialDelay
        (by rw [resting]; decide) fun hw => by
          have := taken.sound.working _ hw
          rw [resting] at this
          cases this
      have new : ((w.machine.withLoop.rest w.machine.loops.length p.initialDelay).answer c
          (Except.map (fun _ => Answer.nothing) (.ok ()))).control.handle ≠
            w.machine.control.handle := by
        rw [(same_answer ..).control, rested.passes.control]
        intro hc
        exact Nat.lt_irrefl _ (h.handle _ hc.symm)
      rw [if_neg new]
      exact (taken.pass rested.passes.toAges rested.sound_workers).answer c _

theorem asksForWork (h : Ordered w) (c : Nat) (gate : Option Failure) :
    Ordered { w with machine := w.machine.request p c (.work gate) } := by
  simp only [request]
  split
  · exact h.answer c _
  · obtain ⟨passes, sound⟩ := sound_askForWork (p := p) (h.sound.cons_caller c)
    exact h.pass passes.toAges sound

theorem ask (h : Ordered w) (fresh : c ∉ w.asked) (r : Request σ α) : Ordered (w.ask p c r) := by
  cases r with
  | start gate => exact h.asksToStart c gate
  | stop timeout =>
    exact told ((h.asksToStop fresh).stop List.mem_cons_self timeout)
  | close timeout =>
    simp only [Watch.ask, request]
    split
    · exact told ((h.asksToStop fresh).answer c _)
    · have asks := h.asksToStop fresh
      have closed : Ordered { w with
          machine := { w.machine with control := { w.machine.control with closed := true } }
          asked := c :: w.asked
          undisturbed := c :: w.undisturbed } :=
        { asks with sound := ⟨asks.sound.working, asks.sound.single, asks.sound.concluding⟩ }
      exact told (closed.stop List.mem_cons_self timeout)
  | work gate => exact (h.asks c).asksForWork c gate
  | cancel =>
    have cancelled := (h.asks c)
    simp only [Watch.ask, request]
    split
    · rename_i i _
      exact (cancelled.pass (passes_cancel w.machine i).toAges (sound_cancel h.sound i)).answer c _
    · exact cancelled.answer c _
  | wait timeout =>
    simp only [Watch.ask, request]
    split
    · rename_i i charge
      exact (h.asks c).waitFor List.mem_cons_self charge timeout
    · exact (h.asks c).answer c _
  | perform action =>
    have acted : Same w.machine { w.machine with site := (action w.machine.control w.machine.site).2 } :=
      ⟨rfl, rfl, rfl, rfl, rfl, rfl⟩
    exact ((h.asks c).same acted).answer c _

variable {before rest : Agenda (Job κ)} {e : Entry (Job κ)}

/-- The end of a wait. A stop that nobody has overtaken finds that its loop is the one in charge, if there
is one. -/
theorem resume (h : Ordered w) (now : Rat) (due : Rat)
    (hagenda : w.machine.agenda = before ++ ⟨due, .resume c⟩ :: rest) :
    Ordered (w.job p now (before ++ rest) (.resume c)) := by
  have taken := h.pass (passes_take now hagenda rfl).toAges (sound_take now hagenda h.sound).1
  have resumed : .resume c ∈ w.machine.jobs := by simp [jobs, hagenda]
  obtain ⟨a, ha⟩ := waited_true p ({ w.machine with now := now, agenda := before ++ rest }) c
  simp only [job, doJob, ha]
  split
  · split
    · rename_i undisturbed
      have given := taken.giveUp [] (fun i hi => .inl (h.resumes c resumed undisturbed i hi)) (by simp)
      exact (given.calmed rfl).answer c a
    · have given := taken.giveUp (unended { w.machine with now := now, agenda := before ++ rest })
        (fun i hi => by
          by_cases ended : (w.machine.loop i).phase = .over
          · exact .inl ended
          · exact .inr (mem_unended.mpr ⟨hi, ended⟩))
        fun i hi => (mem_unended.mp hi).1
      exact (given.calmed rfl).answer c a
  · exact taken.answer c a

theorem job (h : Ordered w) (now : Rat) (hagenda : w.machine.agenda = before ++ e :: rest)
    (unclerical : e.job.isClerical = false) : Ordered (w.job p now (before ++ rest) e.job) := by
  obtain ⟨sound, free⟩ := sound_take now hagenda h.sound
  have passing (unresumed : ∀ c, e.job ≠ .resume c) :
      Ordered { w with
        machine := { w.machine with now := now, agenda := before ++ rest }.doJob p e.job } := by
    obtain ⟨passes, sound⟩ := passes_doJob (p := p) sound unclerical unresumed free
    exact h.pass ((passes_take now hagenda unclerical).trans passes).toAges sound
  obtain ⟨due, j⟩ := e
  cases j with
  | resume c => exact h.resume now due hagenda
  | _ => exact passing nofun

theorem clerk (h : Ordered w) (k : w.machine.Clerical m) : Ordered { w with machine := m } := by
  have loop (i : Nat) : m.loop i = w.machine.loop i := by
    rw [Machine.loop, k.loops, Machine.loop]
  refine h.pass ⟨k.control, by rw [k.loops], ?_, ?_, ?_, ?_⟩ ?_
  · exact fun i hi => by rwa [loop]
  · exact fun i hi => by rwa [loop]
  · exact fun v hv => by rwa [k.waiters] at hv
  · exact fun c hc => .inl ((k.mem_jobs rfl).mp hc)
  · refine Sound.perm ?_ k.workers
    refine ⟨fun i hi => ?_, h.sound.single, fun i hi => ?_⟩
    · rw [loop]
      exact h.sound.working i hi
    · rw [loop, k.loops]
      exact h.sound.concluding i ((k.mem_jobs rfl).mp hi)

end Ordered

/-- Every state that is reached is in order. -/
theorem Reached.ordered (h : Reached p site w) : Ordered w := by
  induction h with
  | start => exact ordered_create p site
  | ask _ _ fresh ih => exact ih.ask fresh _
  | job now _ hagenda unclerical ih => exact ih.job now hagenda unclerical
  | clerk _ same ih => exact ih.clerk same

/-- A live loop is the one in charge, and loops are said to run, unless the loop was forgotten. -/
theorem Ordered.inCharge (h : Ordered w) {i : Nat} (hi : w.machine.IsLive i) (kept : i ∉ w.forgotten) :
    w.machine.control.handle = some i ∧ w.machine.control.running = true := by
  rcases h.live i hi with hf | ⟨hc, hs⟩
  · exact absurd hf kept
  · exact ⟨hc, by simp [Control.running, hc, hs]⟩

/-- Loops are started and stopped in any order, overlapping calls included. Exactly if no forgotten loop
goes on, no loop is live but the one in charge while loops are said to run. Once a stop has been told that
its loop has ended, and until somebody starts again, no loop is or comes to be at work, apart from those
that were superseded before they had ended and those that were forgotten. -/
theorem lifecycle (h : Reached p site w) :
    (w.machine.Governed ↔ ∀ i ∈ w.forgotten, ¬ w.machine.IsLive i) ∧
      (∀ i, w.machine.IsLive i → i ∉ w.forgotten →
        w.machine.control.handle = some i ∧ w.machine.control.running = true) ∧
      (w.calm = true → ∀ i, i ∉ w.superseded → i ∉ w.forgotten →
        (w.machine.loop i).phase = .over ∧ .loop i ∉ w.machine.workers) := by
  have ordered := h.ordered
  refine ⟨⟨fun governed i hi live => ?_, fun quiet i live => ?_⟩,
    fun i live kept => ordered.inCharge live kept, fun calm i unsuperseded kept => ?_⟩
  · exact (ordered.forgotten i hi).2 (governed i live).1
  · exact ordered.inCharge live fun hi => quiet i hi live
  · have vacant := ordered.calm calm
    have ended : (w.machine.loop i).phase = .over := by
      by_contra going
      rcases ordered.known i going with hc | hs | hf
      · exact absurd (vacant.symm.trans hc) (by simp)
      · exact unsuperseded hs
      · exact kept hf
    refine ⟨ended, fun working => ?_⟩
    rw [ordered.sound.working i working] at ended
    cases ended

end Watch
end IndexSync.Schedule
