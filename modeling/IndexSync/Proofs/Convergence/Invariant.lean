import IndexSync.Proofs.Convergence.Dispatched

/-!
# What the whole system keeps

Through writes, ticks that go well or fail, and restarts: the index shows what is expected of every
entity of which no row is ahead of the cursors.
-/
namespace IndexSync
namespace Registry
open Search Dispatch

variable {R : Registry}

namespace World

variable {s t : World R} {cursors : Cursors} {i : Identity}

theorem Sane.onIndex (sane : s.Sane) {b : Backend} (keeps : s.Keeps cursors b) :
    Sane { s with index := b } :=
  ⟨sane.recorded, sane.fits, keeps.tidy, sane.misled⟩

theorem Tracked.onIndex (tracked : s.Tracked cursors i) (hi : R.Known i) {b : Backend}
    (keeps : s.Keeps cursors b) : Tracked { s with index := b } cursors i := by
  have same : ahead { s with index := b } cursors i = s.ahead cursors i := rfl
  unfold Tracked at tracked ⊢
  rw [same]
  cases hahead : s.ahead cursors i with
  | none =>
    rw [hahead] at tracked
    exact (keeps.cells i hi hahead).symm ▸ tracked
  | some kind =>
    rw [hahead] at tracked
    cases kind <;> exact tracked

/-- A dispatch that went well has left nothing of its batch to do. -/
theorem Tracked.settled {c : Poller.Collected} (sane : s.Sane) (collects : s.Collects cursors c)
    (hi : R.Known i) (tracked : s.Tracked cursors i)
    (right : R.Mentioned c.events i →
      s.Right (Poller.moveCursors cursors c.consumed) i (R.cell s.index.index i)) :
    s.Tracked (Poller.moveCursors cursors c.consumed) i := by
  have hahead := collects.ahead sane hi
  unfold Tracked at tracked ⊢
  cases hmoved : s.ahead (Poller.moveCursors cursors c.consumed) i with
  | some kind =>
    rw [hmoved] at hahead
    rw [hahead] at tracked
    exact tracked
  | none =>
    rw [hmoved, Option.none_or] at hahead
    cases hlast : lastAbout i c.events with
    | some e => exact right ⟨hi, by rw [hlast]; rfl⟩ hmoved
    | none =>
      rw [hahead, hlast] at tracked
      exact tracked

/-- Deleted rows were not ahead of the moved cursors. -/
theorem ahead_delete {c : Poller.Collected} (collects : s.Collects cursors c) (i : Identity) :
    ahead { s with tables := s.tables.delete (R.poller.deletions c.consumed) }
      (Poller.moveCursors cursors c.consumed) i =
      s.ahead (Poller.moveCursors cursors c.consumed) i := by
  obtain ⟨handed, rfl, -⟩ := collects
  unfold ahead CaptureTables.beyond CaptureTables.delete
  rw [List.filter_filter]
  congr 1
  apply List.filter_congr
  intro r _
  cases hdelete : CaptureTables.deletes
      (R.poller.deletions (Poller.collected handed).consumed) r with
  | false => simp
  | true =>
    obtain ⟨keys, hmem, hkey⟩ := Poller.consumed_of_deletes hdelete
    obtain ⟨m, hm, hle⟩ := Poller.consumed_le_moved cursors hmem hkey
    simp [hm, Int.not_lt.mpr hle]

/-- After a restart all rows that are left are ahead. -/
theorem Tracked.mislead (tracked : s.Tracked cursors i) : s.mislead.Tracked [] i := by
  have hrows : s.mislead.ahead [] i = R.lastKind i s.tables.rows := by
    rw [ahead, CaptureTables.beyond_nil]
    rfl
  unfold Tracked
  rw [hrows]
  cases hlast : R.lastKind i s.tables.rows with
  | none =>
    have hquiet : s.ahead cursors i = none := by
      rw [ahead, lastKind_eq_none]
      exact fun r hr => lastKind_eq_none.mp hlast r (CaptureTables.mem_beyond.mp hr).1
    -- No row is left about the entity, so it stands as it stood before.
    have hexpected : s.mislead.expected i = s.expected i := by
      simp [expected, World.mislead, hlast]
    rw [Tracked, hquiet] at tracked
    rw [hexpected]
    exact tracked
  | some kind =>
    cases kind with
    | delete =>
      cases hentity : s.entities i <;> simp [expected, World.mislead, hlast, hentity]
    | _ => simp [expected, World.mislead, hlast]

theorem Sane.mislead (sane : s.Sane) : s.mislead.Sane := by
  refine ⟨sane.recorded, sane.fits, sane.tidy, fun i hi => ?_⟩
  simp only [World.mislead] at hi ⊢
  split at hi
  · exact sane.misled i hi
  · exact hi
  · cases hi

end World

namespace System

/-- The index shows what is expected of all known entities, and the tick that is on its way has work
to do for those that its batch mentions. -/
structure Invariant (s : System R) : Prop where
  sane : s.world.Sane
  reached : s.world.Reached s.cursors
  tracked : ∀ i, R.Known i → s.world.Tracked s.cursors i
  tick : ∀ c p, s.tick = some (c, p) → s.world.Collects s.cursors c ∧
    s.world.OnWay (Poller.moveCursors s.cursors c.consumed) c.events p

variable {s : System R}

theorem invariant_start {entities : Identity → Option Entity} {index : Backend}
    (fits : ∀ i, R.Known i → ∀ e ∈ entities i, R.Fits i e)
    (mirrors : R.Mirrors entities index.index) : (start entities index : System R).Invariant := by
  refine ⟨⟨fun r hr => absurd hr List.not_mem_nil, fits, ?_, nofun⟩, nofun, ?_, nofun⟩
  · intro w hw k doc hmem
    obtain ⟨i, hi, ht, rfl, hshows⟩ := mirrors.only w hw k doc hmem
    refine ⟨i, hi, ht, rfl, fun m hm hmt => ?_⟩
    cases he : entities i with
    | none =>
      rw [he] at hshows
      cases hshows
    | some e =>
      rw [he] at hshows
      obtain ⟨n, hn, hnt, doc', hdoc, hsame⟩ := hshows
      cases hsame
      exact (fits i hi e he n hn hnt).2 doc hdoc m hm hmt
  · exact fun i hi => mirrors.shows i hi

/-- Writers keep the invariant. -/
theorem Invariant.later (h : s.Invariant) {w : World R} (later : World.Later s.world w) :
    Invariant { s with world := w } where
  sane := later.sane h.sane
  reached := h.reached.grows later.grows
  tracked i hi := (h.tracked i hi).later later hi h.reached
  tick c p hc := by
    obtain ⟨collects, onWay⟩ := h.tick c p hc
    exact ⟨collects.later later, onWay.later later (collects.reached h.reached)⟩

theorem Invariant.dropTick (h : s.Invariant) : Invariant { s with tick := none } :=
  ⟨h.sane, h.reached, h.tracked, nofun⟩

/-- A batch that is handed on has a net change for each entity that it mentions. -/
theorem handOn_spec {w : World R} {cursors : Cursors} {c : Poller.Collected} (sane : w.Sane)
    (collects : w.Collects cursors c) : ∃ p, handOn c w = ((c, p), w) ∧
      w.OnWay (Poller.moveCursors cursors c.consumed) c.events p := by
  have unmentioned (h : c.events = []) (i : Identity) : ¬ R.Mentioned c.events i := by
    rintro ⟨-, hlast⟩
    rw [h] at hlast
    cases hlast
  unfold handOn
  by_cases hempty : c.events.isEmpty = true
  · rw [if_pos hempty]
    exact ⟨_, rfl, fun i hi => absurd hi (unmentioned (List.isEmpty_iff.mp hempty) i)⟩
  · rw [if_neg hempty]
    obtain ⟨hok, nets⟩ := nets_collapse (collects.sound sane)
    unfold Dispatch.start
    generalize NetBatch.collapse c.events = batch at hok nets
    obtain ⟨outcome, net⟩ := batch
    simp only at hok nets
    subst hok
    simp only [nets.quiet, List.foldl_nil]
    by_cases hnone : net.changes.isEmpty = true
    · rw [if_pos hnone]
      refine ⟨_, rfl, fun i hi => absurd hi (unmentioned ?_ i)⟩
      refine List.eq_nil_iff_forall_not_mem.mpr fun e he => ?_
      obtain ⟨kind, hk⟩ := nets.complete e he
      rw [List.isEmpty_iff.mp hnone] at hk
      cases hk
    · rw [if_neg hnone]
      exact ⟨_, rfl, net, nets, rfl⟩

/-- Beginning a tick collects a batch and hands it on, or fails. -/
theorem begin_cases (s : System R) (moments : List R.Moment) :
    s.step (.begin moments) = s ∨ ∃ w, World.Later s.world w ∧
      (s.step (.begin moments) = ⟨w, s.cursors, none⟩ ∨ ∃ c, w.Collects s.cursors c ∧
        s.step (.begin moments) = ⟨(handOn c w).2, s.cursors, some (handOn c w).1⟩) := by
  cases ht : s.tick with
  | some tick => exact .inl (by simp only [step, ht])
  | none =>
    right
    cases hcollect : R.poller.collect World.captures
        (s.cursors, { s.world with moments := moments }) with
    | mk outcome after =>
    obtain ⟨cursors, w⟩ := after
    obtain ⟨rfl, later, hdone⟩ := Poller.collect_spec World.captures_lawful hcollect
    refine ⟨w, (World.later_moments s.world moments).trans later, ?_⟩
    simp only [step, ht, hcollect]
    cases outcome with
    | error f => exact .inl rfl
    | ok c => exact .inr ⟨c, hdone c rfl, rfl⟩

theorem invariant_begin (h : s.Invariant) (moments : List R.Moment) :
    (s.step (.begin moments)).Invariant := by
  rcases begin_cases s moments with hs | ⟨w, later, hs | ⟨c, collects, hs⟩⟩
  · rw [hs]
    exact h
  · rw [hs]
    exact (h.later later).dropTick
  · have hw := h.later later
    obtain ⟨p, hp, onWay⟩ := handOn_spec hw.sane collects
    rw [hs, hp]
    refine ⟨hw.sane, hw.reached, hw.tracked, ?_⟩
    rintro c p ⟨⟩
    exact ⟨collects, onWay⟩

theorem invariant_advance (h : s.Invariant) (fault : Option Fault) :
    (s.step (.advance fault)).Invariant := by
  cases ht : s.tick with
  | none =>
    simp only [step, ht]
    exact h
  | some tick =>
    obtain ⟨c, p⟩ := tick
    obtain ⟨collects, onWay⟩ := h.tick c p ht
    obtain ⟨b, hstate, keeps, onWay'⟩ :=
      World.advance_spec fault h.sane collects h.tracked rfl onWay
    simp only [step, ht]
    rw [hstate]
    refine ⟨h.sane.onIndex keeps, h.reached, fun i hi => (h.tracked i hi).onIndex hi keeps, ?_⟩
    rintro c p ⟨⟩
    exact ⟨collects, onWay'⟩

/-- The rows of a batch that has been dispatched are consumed. -/
theorem invariant_consumed (h : s.Invariant) {c : Poller.Collected}
    (htick : s.tick = some (c, .done (.ok ()))) :
    Invariant ⟨s.world, Poller.moveCursors s.cursors c.consumed, none⟩ := by
  obtain ⟨collects, onWay⟩ := h.tick c _ htick
  exact ⟨h.sane, collects.reached h.reached,
    fun i hi => (h.tracked i hi).settled h.sane collects hi (onWay i), nofun⟩

/-- Settling a tick drops it, or moves the cursors and then deletes the consumed rows or leaves
them. -/
theorem settle_cases (s : System R) (moments : List R.Moment) :
    s.step (.settle moments) = s ∨ ∃ w, World.Later s.world w ∧
      (s.step (.settle moments) = ⟨w, s.cursors, none⟩ ∨
        ∃ c, s.tick = some (c, .done (.ok ())) ∧
          (s.step (.settle moments) = ⟨{ w with
              tables := w.tables.delete (R.poller.deletions c.consumed) },
              Poller.moveCursors s.cursors c.consumed, none⟩ ∨
            s.step (.settle moments) = ⟨w, Poller.moveCursors s.cursors c.consumed, none⟩)) := by
  obtain ⟨world, cursors, tick⟩ := s
  cases tick with
  | none => exact .inl rfl
  | some tick =>
    obtain ⟨c, p⟩ := tick
    cases p with
    | done outcome =>
      right
      have hmoments := World.later_moments world moments
      cases outcome with
      | error f => exact ⟨_, hmoments, .inl rfl⟩
      | ok u =>
        obtain ⟨w, later, hmarked⟩ := Poller.markConsumed_cases World.Later.refl World.Later.trans
          World.moment_later R.poller c.consumed cursors { world with moments := moments }
        have hsettled := Poller.settle_state World.captures R.poller c u
          (cursors, { world with moments := moments })
        refine ⟨w, hmoments.trans later, .inr ⟨c, rfl, ?_⟩⟩
        simp only [step]
        generalize R.poller.settle World.captures c (.ok u)
          (cursors, { world with moments := moments }) = settled at hsettled ⊢
        obtain ⟨answer, after⟩ := settled
        simp only at hsettled
        rcases hmarked with hmarked | hmarked
        · obtain rfl := hsettled.trans hmarked
          exact .inl rfl
        · obtain rfl := hsettled.trans hmarked
          exact .inr rfl
    | _ => exact .inl rfl

theorem invariant_settle (h : s.Invariant) (moments : List R.Moment) :
    (s.step (.settle moments)).Invariant := by
  rcases settle_cases s moments with hs | ⟨w, later, hs | ⟨c, htick, hs | hs⟩⟩
  · rw [hs]
    exact h
  · rw [hs]
    exact (h.later later).dropTick
  · -- The deletion takes only rows that the cursors have passed, and nothing that is ahead.
    have hw := h.later later
    have collects := (hw.tick c _ htick).1
    have consumed := invariant_consumed hw htick
    rw [hs]
    refine ⟨⟨consumed.sane.recorded, consumed.sane.fits, consumed.sane.tidy, consumed.sane.misled⟩,
      consumed.reached, fun i hi => ?_, nofun⟩
    have tracked := consumed.tracked i hi
    unfold World.Tracked at tracked ⊢
    rw [World.ahead_delete collects]
    exact tracked
  · rw [hs]
    exact invariant_consumed (h.later later) htick

theorem invariant_step (h : s.Invariant) (move : Move R) : (s.step move).Invariant := by
  cases move with
  | write w => exact h.later (World.write_later w s.world)
  | begin moments => exact invariant_begin h moments
  | advance fault => exact invariant_advance h fault
  | settle moments => exact invariant_settle h moments
  | restart => exact ⟨h.sane.mislead, nofun, fun i hi => (h.tracked i hi).mislead, nofun⟩

theorem invariant_run (h : s.Invariant) (moves : List (Move R)) : (s.run moves).Invariant := by
  induction moves generalizing s with
  | nil => exact h
  | cons move rest ih => exact ih (invariant_step h move)

/-- A row about an entity waits in the table of its type, after the cursor. -/
def Waits (s : System R) (i : Identity) : Prop :=
  ∃ m ∈ R.poller.models, ∃ r ∈ s.world.tables.rows, r.table = m.captureTable ∧
    (∀ k ∈ s.cursors.get? m.captureTable, k < r.key) ∧ ∃ e, m.Reads r e ∧ e.identity = i

theorem ahead_of_not_waits (h : s.Invariant) {i : Identity} (hi : R.Known i) (quiet : ¬ s.Waits i) :
    s.world.ahead s.cursors i = none := by
  refine lastKind_eq_none.mpr fun r hr e he => ?_
  rw [Bool.eq_false_iff]
  intro hsame
  obtain ⟨m, hm, htable, hread⟩ := reads_of_eventOf he
  obtain ⟨hrow, hbeyond⟩ := CaptureTables.mem_beyond.mp hr
  have hsound := h.sane.recorded.sound hrow hm htable hread
  exact quiet ⟨m, hm, r, hrow, htable.symm, htable ▸ hbeyond, e, hread,
    (hsound.2.same_iff hi).mp hsame⟩

theorem Invariant.agrees_iff (h : s.Invariant) {i : Identity} (hi : R.Known i)
    (quiet : ¬ s.Waits i) : s.world.Agrees i ↔ s.world.misled i = false := by
  have tracked := h.tracked i hi
  rw [World.Tracked, ahead_of_not_waits h hi quiet] at tracked
  cases hmisled : s.world.misled i with
  | false =>
    rw [World.expected, hmisled] at tracked
    exact iff_of_true tracked rfl
  | true =>
    rw [World.expected, hmisled] at tracked
    obtain ⟨e, he⟩ := Option.isSome_iff_exists.mp (h.sane.misled i hmisled)
    refine iff_of_false ?_ (by simp)
    rw [World.Agrees, he, show R.cell s.world.index.index i = none from tracked]
    rintro ⟨m, -, -, doc, -, hfound⟩
    cases hfound

end System
end Registry
end IndexSync
