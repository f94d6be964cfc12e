import IndexSync.Poller.Lifecycle
import IndexSync.Proofs.Schedule.Lifecycle

/-!
# Loops on a clock

A play makes each of its calls once, at its time, and does the job that is due next. So all its states are
reached, and what holds of every state that is reached holds of every play.
-/
namespace IndexSync.Schedule

namespace Machine

variable {σ κ ε α : Type} {m : Machine σ κ ε α} {p : Plan σ κ ε α} {c : Nat}

theorem spares_waited_true (p : Plan σ κ ε α) (m : Machine σ κ ε α) (c : Nat) :
    SparesCalls m (m.waited p c true) := by
  obtain ⟨a, ha⟩ := waited_true p m c
  rw [ha]
  split
  · exact ⟨(same_answer ..).remaining, (same_answer _ c a).passes.spares.ahead⟩
  · exact (same_answer m c a).passes.spares

theorem spares_waitFor (p : Plan σ κ ε α) (m : Machine σ κ ε α) (c i : Nat) (timeout : Option Rat) :
    SparesCalls m (m.waitFor p c i timeout) := by
  unfold waitFor
  split
  · exact spares_waited_true p m c
  · cases timeout with
    | none => exact ⟨rfl, .refl _⟩
    | some t =>
      have later := (passes_later { m with waiters := m.waiters ++ [⟨c, i⟩] } t
        (show ∀ d, (Job.timeout c : Job κ) ≠ .resume d by simp) rfl).spares
      exact ⟨later.remaining, later.ahead⟩

theorem spares_stop (p : Plan σ κ ε α) (m : Machine σ κ ε α) (c : Nat) (timeout : Option Rat) :
    SparesCalls m (m.stop p c timeout) := by
  unfold stop
  split
  · exact (same_answer ..).passes.spares
  · rename_i i _
    have cancelled := (passes_cancel { m with control := { m.control with stopping := true } } i).spares
    have given : SparesCalls m
        ({ m with control := { m.control with stopping := true } } : Machine σ κ ε α) := ⟨rfl, .refl _⟩
    exact (given.trans cancelled).trans (spares_waitFor p _ c i timeout)

theorem spares_start (p : Plan σ κ ε α) (m : Machine σ κ ε α) : SparesCalls m (m.start p).2 := by
  rcases start_cases p m with hs | ⟨-, hs | hs⟩ <;> rw [hs]
  · exact .refl m
  · exact ⟨rfl, .refl _⟩
  · have later := (passes_later
      (m.withLoop.setLoop m.loops.length
        { m.withLoop.loop m.loops.length with
          phase := .resting
          rests := (m.withLoop.loop m.loops.length).rests + 1 })
      p.initialDelay (show ∀ d, (Job.wake m.loops.length
        ((m.withLoop.loop m.loops.length).rests + 1) : Job κ) ≠ .resume d by simp) rfl).spares
    exact ⟨later.remaining, later.ahead⟩

/-- A request makes no call. -/
theorem spares_request (sound : Sound m.workers m) (c : Nat) (r : Request σ α) :
    SparesCalls m (m.request p c r) := by
  have answered (n : Machine σ κ ε α) (a : Except Failure (Answer α)) : SparesCalls n (n.answer c a) :=
    (same_answer n c a).passes.spares
  cases r with
  | start gate =>
    simp only [request]
    split
    · exact answered m _
    · exact (spares_start p m).trans (answered _ _)
  | stop timeout => exact spares_stop p m c timeout
  | work gate =>
    simp only [request]
    split
    · exact answered m _
    · exact (sound_askForWork (sound.cons_caller c)).1.spares
  | close timeout =>
    simp only [request]
    split
    · exact answered m _
    · have closed : SparesCalls m
          ({ m with control := { m.control with closed := true } } : Machine σ κ ε α) := ⟨rfl, .refl _⟩
      exact closed.trans (spares_stop p _ c timeout)
  | cancel =>
    simp only [request]
    split
    · exact (passes_cancel m _).spares.trans (answered _ _)
    · exact answered m _
  | wait timeout =>
    simp only [request]
    split
    · exact spares_waitFor p m c _ timeout
    · exact answered m _
  | perform action =>
    have acted : SparesCalls m { m with site := (action m.control m.site).2 } := ⟨rfl, .refl _⟩
    exact acted.trans (answered _ _)

end Machine

namespace Watch

open Machine

variable {σ κ ε α : Type} {w : Watch σ κ ε α} {p : Plan σ κ ε α} {site : σ}

@[simp] theorem ask_machine (w : Watch σ κ ε α) (c : Nat) (r : Request σ α) :
    (w.ask p c r).machine = w.machine.request p c r := by
  cases r <;> simp only [ask]
  split <;> rfl

@[simp] theorem ask_asked (w : Watch σ κ ε α) (c : Nat) (r : Request σ α) :
    (w.ask p c r).asked = c :: w.asked := by
  cases r <;> simp only [ask]
  split <;> rfl

@[simp] theorem job_machine (w : Watch σ κ ε α) (now : Rat) (agenda : Agenda (Job κ)) (j : Job κ) :
    (w.job p now agenda j).machine = { w.machine with now := now, agenda := agenda }.doJob p j := by
  cases j <;> simp only [job]
  split <;> rfl

@[simp] theorem job_asked (w : Watch σ κ ε α) (now : Rat) (agenda : Agenda (Job κ)) (j : Job κ) :
    (w.job p now agenda j).asked = w.asked := by
  cases j <;> simp only [job]
  split <;> rfl

/-- The calls of a list and those that the agenda will make have not been made, and all are different. -/
structure Fresh (p : Plan σ κ ε α) (w : Watch σ κ ε α) (cs : List (Nat × Call σ α)) : Prop where
  nodup : (cs.map Prod.fst ++ w.machine.callsAhead).Nodup
  unasked : ∀ c ∈ cs.map Prod.fst ++ w.machine.callsAhead, c ∉ w.asked
  planned : ∀ c a, (c, a) ∈ cs → p.calls[c]? = some a

theorem Fresh.of_perm {w' : Watch σ κ ε α} {cs cs' : List (Nat × Call σ α)} (h : Fresh p w cs)
    (same : (cs'.map Prod.fst ++ w'.machine.callsAhead).Perm
      (cs.map Prod.fst ++ w.machine.callsAhead))
    (asked : w'.asked = w.asked) (planned : ∀ c a, (c, a) ∈ cs' → (c, a) ∈ cs) : Fresh p w' cs' where
  nodup := same.nodup_iff.mpr h.nodup
  unasked c hc := by
    rw [asked]
    exact h.unasked c (same.mem_iff.mp hc)
  planned c a hc := h.planned c a (planned c a hc)

/-- A call that is made is no longer to be made. -/
theorem Fresh.of_perm_cons {w' : Watch σ κ ε α} {cs cs' : List (Nat × Call σ α)} {c : Nat}
    (h : Fresh p w cs)
    (same : (c :: (cs'.map Prod.fst ++ w'.machine.callsAhead)).Perm
      (cs.map Prod.fst ++ w.machine.callsAhead))
    (asked : w'.asked ⊆ c :: w.asked) (planned : ∀ c a, (c, a) ∈ cs' → (c, a) ∈ cs) :
    Fresh p w' cs' where
  nodup := (List.nodup_cons.mp (same.nodup_iff.mpr h.nodup)).2
  unasked d hd hasked := by
    rcases List.mem_cons.mp (asked hasked) with rfl | hasked
    · exact (List.nodup_cons.mp (same.nodup_iff.mpr h.nodup)).1 hd
    · exact h.unasked d (same.mem_iff.mp (List.mem_cons_of_mem _ hd)) hasked
  planned d a hd := h.planned d a (planned d a hd)

/-- A call whose time has not come is left for later. -/
theorem reached_asleep {cs : List (Nat × Call σ α)} (h : Reached p site w) (fresh : Fresh p w cs)
    (due : Rat) : ∃ w', Reached p site w' ∧
      w'.machine = { w.machine with
        remaining := cs
        attention := .asleep
        agenda := w.machine.agenda.add due .proceed } ∧
      Fresh p w' w'.machine.remaining := by
  generalize hm : ({ w.machine with
    remaining := cs
    attention := .asleep
    agenda := w.machine.agenda.add due .proceed } : Machine σ κ ε α) = m
  have jobs : m.jobs.Perm (.proceed :: w.machine.jobs) := by
    subst hm
    exact Agenda.perm_add ..
  have remaining : m.remaining = cs := by subst hm; rfl
  refine ⟨{ w with machine := m }, h.clerk ?_, rfl, ?_⟩
  · have unclerical : (m.jobs.filter (!·.isClerical)).Perm
        (w.machine.jobs.filter (!·.isClerical)) := jobs.filter _
    subst hm
    exact ⟨rfl, rfl, rfl, rfl, rfl, rfl, rfl, unclerical⟩
  · simp only [remaining]
    exact fresh.of_perm ((jobs.filterMap _).append_left _) rfl fun _ _ => id

/-- A call that nobody waits for is put on the agenda. -/
theorem reached_callLater {c : Nat} {a : Call σ α} {rest : List (Nat × Call σ α)}
    (h : Reached p site w) (fresh : Fresh p w ((c, a) :: rest)) : ∃ w', Reached p site w' ∧
      w'.machine = { w.machine with unattended := w.machine.unattended + 1 }.later 0 (.call c) ∧
      Fresh p w' rest := by
  generalize hm : ({ w.machine with
    unattended := w.machine.unattended + 1 } : Machine σ κ ε α).later 0 (.call c) = m
  have jobs : m.jobs.Perm (.call c :: w.machine.jobs) := by
    subst hm
    exact jobs_later ..
  refine ⟨{ w with machine := m }, h.clerk ?_, rfl, ?_⟩
  · have unclerical : (m.jobs.filter (!·.isClerical)).Perm
        (w.machine.jobs.filter (!·.isClerical)) := jobs.filter _
    subst hm
    exact ⟨rfl, rfl, rfl, rfl, rfl, rfl, rfl, unclerical⟩
  · have ahead : m.callsAhead.Perm (c :: w.machine.callsAhead) := jobs.filterMap _
    refine fresh.of_perm ?_ rfl fun d b => List.mem_cons_of_mem _
    exact (ahead.append_left _).trans List.perm_middle

/-- A call that somebody waits for is made at once. -/
theorem reached_callNow {c : Nat} {a : Call σ α} {rest : List (Nat × Call σ α)}
    (h : Reached p site w) (fresh : Fresh p w ((c, a) :: rest)) : ∃ w', Reached p site w' ∧
      w'.machine = { w.machine with attention := .on c }.request p c a.request ∧ Fresh p w' rest := by
  have attends : Reached p site { w with machine := { w.machine with attention := .on c } } :=
    h.clerk ⟨rfl, rfl, rfl, rfl, rfl, rfl, rfl, .refl _⟩
  have asked := attends.ask (fresh.planned c a List.mem_cons_self)
    (fresh.unasked c List.mem_cons_self)
  have spares := spares_request (p := p) attends.ordered.sound c a.request
  refine ⟨_, asked, ask_machine .., fresh.of_perm_cons (c := c) ?_ ?_ fun d b => List.mem_cons_of_mem _⟩
  · rw [ask_machine]
    exact (spares.ahead.append_left _).cons c
  · rw [ask_asked]
    exact fun _ => id

/-- Making calls one after the other is a row of moves. -/
theorem reached_makeCalls (cs : List (Nat × Call σ α)) (h : Reached p site w) (fresh : Fresh p w cs) :
    ∃ w', Reached p site w' ∧ w'.machine = w.machine.makeCalls p cs ∧
      Fresh p w' w'.machine.remaining := by
  induction cs generalizing w with
  | nil =>
    refine ⟨{ w with machine := { w.machine with remaining := [] } }, h.clerk ?_, rfl,
      fresh.of_perm (.refl _) rfl fun _ _ => id⟩
    exact ⟨rfl, rfl, rfl, rfl, rfl, rfl, rfl, .refl _⟩
  | cons call rest ih =>
    obtain ⟨c, a⟩ := call
    simp only [makeCalls]
    split
    · exact reached_asleep h fresh a.time
    · split
      · obtain ⟨w₁, reached, machine, fresh₁⟩ := reached_callLater h fresh
        rw [← machine]
        exact ih reached fresh₁
      · obtain ⟨w₁, reached, machine, fresh₁⟩ := reached_callNow h fresh
        rw [← machine]
        split
        · exact ih reached fresh₁
        · exact ⟨{ w₁ with machine := { w₁.machine with remaining := rest } },
            reached.clerk ⟨rfl, rfl, rfl, rfl, rfl, rfl, rfl, .refl _⟩, rfl,
            fresh₁.of_perm (.refl _) rfl fun _ _ => id⟩

theorem reached_attend (h : Reached p site w) (fresh : Fresh p w w.machine.remaining) :
    ∃ w', Reached p site w' ∧ w'.machine = w.machine.attend p ∧
      Fresh p w' w'.machine.remaining := by
  unfold attend
  split
  · exact reached_makeCalls _ h fresh
  · exact ⟨w, h, rfl, fresh⟩

theorem spares_doJob {m : Machine σ κ ε α} {j : Job κ} (sound : Sound (j.worker?.toList ++ m.workers) m)
    (unclerical : j.isClerical = false) (free : ∀ i, j = .conclude i → .loop i ∉ m.workers) :
    SparesCalls m (m.doJob p j) := by
  by_cases resumes : ∃ c, j = .resume c
  · obtain ⟨c, rfl⟩ := resumes
    exact spares_waited_true p m c
  · exact (passes_doJob sound unclerical (fun c hc => resumes ⟨c, hc⟩) free).1.spares

/-- The job that is due next is done in one move, or makes a call. -/
theorem reached_step (h : Reached p site w) (fresh : Fresh p w w.machine.remaining) :
    ∃ w', Reached p site w' ∧ w'.machine = w.machine.step p ∧
      Fresh p w' w'.machine.remaining := by
  unfold Machine.step
  split
  · exact ⟨w, h, rfl, fresh⟩
  · rename_i e rest hagenda
    generalize laterOf w.machine.now e.due = now
    suffices hjob : ∃ w', Reached p site w' ∧
        w'.machine = { w.machine with now := now, agenda := rest }.doJob p e.job ∧
        Fresh p w' w'.machine.remaining by
      obtain ⟨w', reached, machine, fresh'⟩ := hjob
      obtain ⟨w'', reached, attends, fresh''⟩ := reached_attend reached fresh'
      exact ⟨w'', reached, by rw [attends, machine], fresh''⟩
    have taken (clerical : e.job.isClerical = true) :
        Reached p site { w with machine := { w.machine with now := now, agenda := rest } } := by
      refine h.clerk ⟨rfl, rfl, rfl, rfl, rfl, rfl, rfl, ?_⟩
      simp [Machine.jobs, hagenda, clerical]
    have front : w.machine.agenda = [] ++ e :: rest := hagenda
    obtain ⟨due, j⟩ := e
    cases j with
    | proceed =>
      refine ⟨_, (taken rfl).clerk (m := { w.machine with
        now := now, agenda := rest, attention := .free }) ⟨rfl, rfl, rfl, rfl, rfl, rfl, rfl, .refl _⟩,
        rfl, fresh.of_perm ?_ rfl fun _ _ => id⟩
      simp [callsAhead, Machine.jobs, hagenda, Job.call?]
    | call c =>
      have ahead : (c :: (w.machine.remaining.map Prod.fst ++
          callsAhead { w.machine with now := now, agenda := rest })).Perm
            (w.machine.remaining.map Prod.fst ++ w.machine.callsAhead) := by
        simpa [callsAhead, jobs, hagenda, Job.call?] using List.perm_middle.symm
      have due : c ∈ w.machine.remaining.map Prod.fst ++ w.machine.callsAhead :=
        ahead.mem_iff.mp List.mem_cons_self
      simp only [doJob]
      split
      · rename_i a hc
        have asked := (taken rfl).ask hc (fresh.unasked c due)
        have spares := spares_request (p := p) (taken rfl).ordered.sound c a.request
        refine ⟨_, asked, ask_machine .., fresh.of_perm_cons (c := c) ?_ ?_ fun d b hd => ?_⟩
        · rw [ask_machine, spares.remaining]
          exact ((spares.ahead.append_left _).cons c).trans ahead
        · rw [ask_asked]
          exact fun _ => id
        · rwa [ask_machine, spares.remaining] at hd
      · exact ⟨_, taken rfl, rfl, fresh.of_perm_cons ahead (List.subset_cons_self ..) fun _ _ => id⟩
    | _ =>
      have moved := h.job now front rfl
      obtain ⟨sound, free⟩ := sound_take now front h.ordered.sound
      have spares := (passes_take now front rfl).spares.trans
        (spares_doJob (p := p) sound rfl free)
      refine ⟨_, moved, job_machine .., fresh.of_perm ?_ (job_asked ..) fun d b hd => ?_⟩
      · rw [job_machine, spares.remaining]
        exact spares.ahead.append_left _
      · rwa [job_machine, spares.remaining] at hd

theorem reached_run (n : Nat) (h : Reached p site w) (fresh : Fresh p w w.machine.remaining) :
    ∃ w', Reached p site w' ∧ w'.machine = w.machine.run p n := by
  induction n generalizing w with
  | zero => exact ⟨w, h, rfl⟩
  | succ n ih =>
    simp only [run]
    split
    · exact ⟨w, h, rfl⟩
    · obtain ⟨w', reached, machine, fresh'⟩ := reached_step h fresh
      rw [← machine]
      exact ih reached fresh'

theorem fresh_create (p : Plan σ κ ε α) (site : σ) :
    Fresh p (create p site) (create p site).machine.remaining := by
  refine ⟨?_, fun c _ => List.not_mem_nil, fun c a hc => ?_⟩
  · simp only [create, Machine.create, callsAhead, jobs, List.map_nil, List.filterMap_nil,
      List.append_nil, List.map_map]
    change (p.calls.zipIdx.map Prod.snd).Nodup
    rw [List.zipIdx_map_snd]
    exact List.nodup_range'
  · obtain ⟨⟨b, d⟩, hb, hca⟩ := List.mem_map.mp hc
    cases hca
    exact List.mem_zipIdx_iff_getElem?.mp hb

/-- Every state of a play is reached. -/
theorem reached_play (p : Plan σ κ ε α) (n : Nat) (site : σ) :
    ∃ w, Reached p site w ∧ w.machine = play p n site := by
  obtain ⟨w, reached, machine, fresh⟩ := reached_attend .start (fresh_create p site)
  obtain ⟨w', reached, machine'⟩ := reached_run n reached fresh
  exact ⟨w', reached, by rw [machine', machine]; rfl⟩

end Watch
end IndexSync.Schedule

namespace IndexSync.Poller
open Schedule

def orders : CaptureModel :=
  ⟨.root "shop" "Order", "orders", "order", [⟨"id", "id", "BIGINT"⟩], "eventcase", "updateid"⟩

/-- A shop in which one order waits, and whose consumer takes four seconds for a batch. -/
def waitingOrder : Desk where
  cursors := []
  site := .ofDatabase ⟨[{
    name := "orders"
    columns := [⟨"updateid", .integer, false⟩, ⟨"id", .integer, false⟩, ⟨"eventcase", .integer, false⟩]
    keyColumns := ["updateid"]
    numbering := .neverAgain
    largest := 1
    rows := [[.int 1, .int 7, .int (-3)]] }], []⟩
  dispatches := 0

def shopPlan (calls : List (Call Desk Unit)) : Plan Desk Collected TickEvent Unit :=
  plan ⟨[orders], 5, 50, 1, 1, "shop"⟩ [4] calls

/-- While a stop waits for the tick of the first loop, somebody starts a second one. -/
def overtaken : Plan Desk Collected TickEvent Unit :=
  shopPlan [⟨0, false, .start none⟩, ⟨2, true, .stop none⟩, ⟨3, false, .start none⟩]

/-- When the stop has given up the charge, the second loop goes on. -/
theorem secondLoop_live :
    (Machine.play overtaken 12 waitingOrder).control = ⟨none, false, false⟩ ∧
      (Machine.play overtaken 12 waitingOrder).loop 1 = ⟨.resting, 2, false⟩ := by
  decide +kernel

/-- Loops can be live that nobody is in charge of. -/
theorem not_governed :
    ¬ ∀ (p : Poller) (durations : List Rat) (calls : List (Call Desk Unit)) (n : Nat) (d : Desk),
      (Machine.play (p.plan durations calls) n d).Governed := by
  intro governed
  obtain ⟨vacant, resting⟩ := secondLoop_live
  have live : (Machine.play overtaken 12 waitingOrder).IsLive 1 := by
    rw [Machine.IsLive, resting]
    decide
  have charge := (governed _ _ _ 12 waitingOrder 1 live).1
  rw [show plan _ _ _ = overtaken from rfl, vacant] at charge
  cases charge

/-- The second loop is forgotten, and is live. -/
theorem secondLoop_forgotten : ∃ w, Watch.Reached overtaken waitingOrder w ∧
    ∃ i ∈ w.forgotten, w.machine.IsLive i := by
  obtain ⟨w, reached, machine⟩ := Watch.reached_play overtaken 12 waitingOrder
  obtain ⟨vacant, resting⟩ := secondLoop_live
  refine ⟨w, reached, ?_⟩
  by_contra none
  have unforgotten : ∀ i ∈ w.forgotten, ¬ w.machine.IsLive i := fun i hi live => none ⟨i, hi, live⟩
  have live : w.machine.IsLive 1 := by
    rw [machine, Machine.IsLive, resting]
    decide
  have charge := ((Watch.lifecycle reached).1.mpr unforgotten 1 live).1
  rw [machine, vacant] at charge
  cases charge

/-- A stop gives up waiting for the first loop, and the second loop is started and stopped: that stop is
told that all is over, while the first loop is still at work. -/
example :
    let m := Machine.play (shopPlan [⟨0, false, .start none⟩, ⟨2, false, .stop (some (1 / 2))⟩,
      ⟨3, false, .start none⟩, ⟨7 / 2, false, .stop none⟩]) 12 waitingOrder
    m.control.handle = none ∧ m.isDone = true ∧ .loop 0 ∈ m.workers := by
  decide +kernel

end IndexSync.Poller
