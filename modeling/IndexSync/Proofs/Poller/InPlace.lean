import IndexSync.Proofs.Poller.Moved
import IndexSync.Proofs.Poller.TickByTick
import IndexSync.Proofs.Poller.Undisturbed
import IndexSync.Proofs.Schedule.Lock
import IndexSync.Poller.Lifecycle

/-!
# Failed ticks

A tick that fails before its batch has been accepted leaves everything in place: the cursors, the rows and the
lock are what they were, so that the next tick that nothing disturbs hands on what the failed one would have
handed on. When a batch has been accepted the cursors move before the rows are deleted. If the deletion fails then,
the rows of all tables stay behind their cursors, and the tick goes on, unless the failure is fatal.
-/
namespace IndexSync.Poller

open Schedule

variable {σ ρ : Type} {access : CaptureAccess σ} {rows : σ → ρ} {pages : Pages ρ} {calm : σ → Prop}
  {p : Poller} {consume : List CaptureEvent → Action σ Unit} {cursors : Cursors} {s : σ}

/-- A tick has failed and left everything in place. In a calm state with the same rows the next tick, whoever
consumes, goes on with what was planned for the failed one. -/
structure LeftInPlace (access : CaptureAccess σ) (rows : σ → ρ) (pages : Pages ρ) (calm : σ → Prop)
    (p : Poller) (cursors : Cursors) (s : σ) (f : Failure) (after : Except Failure Nat × Cursors × σ) :
    Prop where
  fails : after.1 = .error f
  unmoved : after.2.1 = cursors
  kept : rows after.2.2 = rows s
  again : ∀ (consume : List CaptureEvent → Action σ Unit) (s' : σ), calm s' → rows s' = rows after.2.2 →
    ∃ t, calm t ∧ rows t = rows s ∧ tick access p consume (after.2.1, s') =
      (Action.ofExcept (planned pages p cursors (rows s)) >>= dispatch access p consume) (cursors, t)

/-- A tick could not delete what it has consumed. All rows are still there, behind the cursors of their
tables. -/
structure LeftBehind (rows : σ → ρ) (cursors : Cursors) (s : σ) (c : Collected) (f : Failure)
    (after : Except Failure Nat × Cursors × σ) : Prop where
  outcome : after.1 = if f.isFatal then .error f else .ok c.events.length
  kept : rows after.2.2 = rows s
  moved : ∀ table,
    after.2.1.get? table = raised (cursors.get? table) ((c.consumed.get? table).getD [])

/-- The ticks of a poller give the lock back. In every state of a run it is held exactly if a tick is at work,
and a tick that fails, at once or in the end, leaves it to the next in the queue, if there is one. -/
structure FreesLock (p : Poller) : Prop where
  held : ∀ (α : Type) (durations : List Rat) (calls : List (Call Desk α)) (n : Nat) (desk : Desk),
    (Machine.play (p.plan durations calls) n desk).Locked
  atOnce : ∀ (α : Type) (durations : List Rat) (calls : List (Call Desk α))
    (m : Machine Desk Collected TickEvent α) (w : Worker) (f : Failure),
    (p.begin durations m.site).1 = .over (.error f) →
      Machine.Released m (m.beginWork (p.plan durations calls) w)
  inTheEnd : ∀ (α : Type) (durations : List Rat) (calls : List (Call Desk α))
    (m : Machine Desk Collected TickEvent α) (w : Worker) (c : Collected) (f : Failure),
    m.busy = true → (m.site.finish p c).1 = .error f →
      Machine.Released m (m.doJob (p.plan durations calls) (.finish w c))

theorem freesLock (p : Poller) : p.FreesLock where
  held _ _ _ n desk := Machine.locked_play _ n desk
  atOnce _ _ _ _ _ _ fails := Machine.released_beginWork fails
  inTheEnd _ _ _ _ w c _ working _ := Machine.released_finish working w c

/-- In a calm state a tick goes on with what is planned. -/
theorem tick_planned (shows : access.Shows rows pages calm) (p : Poller)
    (consume : List CaptureEvent → Action σ Unit) (cursors : Cursors) (hcalm : calm s) :
    ∃ t, calm t ∧ rows t = rows s ∧ tick access p consume (cursors, s) =
      (Action.ofExcept (planned pages p cursors (rows s)) >>= dispatch access p consume) (cursors, t) := by
  obtain ⟨hcursors, hrows, stays, same⟩ := collect_mirrored (p := p) shows cursors s
  refine ⟨_, stays hcalm, hrows, ?_⟩
  rw [same (.inl hcalm)]
  simp only [tick, Action.bind_apply]
  generalize collect access p (cursors, s) = answer at hcursors ⊢
  obtain ⟨outcome, cursors', t⟩ := answer
  obtain rfl : cursors' = cursors := hcursors
  cases outcome <;> rfl

/-- A failed tick that has kept its cursors and the rows has left everything in place. -/
theorem leftInPlace_of_kept (shows : access.Shows rows pages calm) {f : Failure}
    {after : Except Failure Nat × Cursors × σ} (fails : after.1 = .error f)
    (unmoved : after.2.1 = cursors) (kept : rows after.2.2 = rows s) :
    LeftInPlace access rows pages calm p cursors s f after where
  fails := fails
  unmoved := unmoved
  kept := kept
  again consume s' hcalm same := by
    have next := tick_planned shows p consume cursors hcalm
    rw [same.trans kept] at next
    rwa [unmoved]

theorem gather_distinct {n : Nat} {done c : Collected} {cursor : MergeCursor}
    (h : (done.consumed.map (·.1)).Nodup) (gathered : (gather access p n done (cursor, s)).1 = .ok c) :
    (c.consumed.map (·.1)).Nodup := by
  induction n generalizing done cursor s with
  | zero =>
    cases gathered
    exact h
  | succ n ih =>
    simp only [gather] at gathered
    split at gathered
    · cases gathered
    · cases gathered
      exact h
    · split at gathered
      · cases gathered
        exact h
      · exact ih (Collected.distinct_add h _) gathered

theorem collect_distinct {c : Collected} (collected : (collect access p (cursors, s)).1 = .ok c) :
    (c.consumed.map (·.1)).Nodup := by
  simp only [collect] at collected
  split at collected
  · cases collected
  · split at collected
    · cases collected
    · have none : (Collected.empty.consumed.map (·.1)).Nodup := List.nodup_nil
      exact gather_distinct none collected

/-- The cursors move whether or not the rows can be deleted. -/
theorem leftBehind_of_undeleted (shows : access.Shows rows pages calm) {c : Collected} {f : Failure} {t : σ}
    (distinct : (c.consumed.map (·.1)).Nodup) (some_consumed : c.consumed ≠ []) (hrows : rows t = rows s)
    (fails : (access.delete (p.deletions c.consumed) t).1 = .error f) :
    LeftBehind rows cursors s c f (settle access p c (.ok ()) (cursors, t)) := by
  have undeleted := shows.undeleted _ t f fails
  have moved := moveCursors_get? distinct cursors
  have consumed : c.consumed.isEmpty = false := by simpa using some_consumed
  simp only [settle, Action.bind_apply, markConsumed, consumed, Bool.false_eq_true, if_false]
  generalize access.delete (p.deletions c.consumed) t = answer at fails undeleted ⊢
  obtain ⟨outcome, t'⟩ := answer
  obtain rfl : outcome = .error f := fails
  simp only at undeleted ⊢
  by_cases fatal : f.isFatal = true
  · simp only [fatal, if_true]
    exact ⟨by simp [fatal], undeleted.trans hrows, moved⟩
  · simp only [fatal]
    exact ⟨by simp [fatal], (shows.reporting _ t').trans (undeleted.trans hrows), moved⟩

/-- A tick that fails to collect, or whose consumer fails without touching the rows, leaves everything in place.
One that cannot delete what the consumer has accepted leaves it behind the cursors. However it fails, the lock is
given back. -/
theorem failed_tick_in_place (shows : access.Shows rows pages calm) (p : Poller)
    (consume : List CaptureEvent → Action σ Unit) (cursors : Cursors) (s : σ) :
    let collected := collect access p (cursors, s)
    let after := tick access p consume (cursors, s)
    (∀ f, collected.1 = .error f → LeftInPlace access rows pages calm p cursors s f after) ∧
    (∀ c, collected.1 = .ok c →
      let answer := offer consume c.events collected.2.2
      rows answer.2 = rows collected.2.2 →
        planned pages p cursors (rows s) = .ok c ∧
        (∀ f, answer.1 = .error f → LeftInPlace access rows pages calm p cursors s
          (if f.isFatal then f else .dispatch c.events.length f.reason) after) ∧
        (∀ f, answer.1 = .ok () → c.consumed ≠ [] →
          (access.delete (p.deletions c.consumed) answer.2).1 = .error f →
            LeftBehind rows cursors s c f after)) ∧
    p.FreesLock := by
  obtain ⟨hcursors, hrows, -, same⟩ := collect_mirrored (p := p) shows cursors s
  have distinct : ∀ c, (collect access p (cursors, s)).1 = .ok c → (c.consumed.map (·.1)).Nodup :=
    fun _ => collect_distinct
  simp only [tick, Action.bind_apply]
  generalize collect access p (cursors, s) = collected at hcursors hrows same distinct ⊢
  obtain ⟨outcome, cursors', t⟩ := collected
  obtain rfl : cursors' = cursors := hcursors
  refine ⟨?_, ?_, p.freesLock⟩
  · rintro f rfl
    exact leftInPlace_of_kept shows rfl rfl hrows
  · rintro c rfl kept
    simp only [dispatch_eq] at kept ⊢
    refine ⟨same (.inr ⟨c, rfl⟩), fun f refused => ?_, fun f accepted some_consumed fails => ?_⟩
    · rw [refused]
      exact leftInPlace_of_kept shows rfl rfl (kept.trans hrows)
    · rw [accepted]
      exact leftBehind_of_undeleted shows (distinct c rfl) some_consumed (kept.trans hrows) fails

/-- The two rows that the clerk takes first. -/
def firstBatch : Collected where
  events := [⟨.root "shop" "Order", .int 7, .insert, 1, "orders"⟩,
    ⟨.root "shop" "Item", .int 8, .delete, 2, "items"⟩]
  consumed := [("orders", [1]), ("items", [2])]

/-- The stock with an outage at one point. -/
def broken (point : OutagePoint) (kind : OutageKind) : Site :=
  { Site.ofDatabase stock with outages := [(point, ⟨⟨kind, some "lost"⟩, 0⟩)] }

theorem collect_broken (point : OutagePoint) (kind : OutageKind) (connects : point ≠ .connect) :
    collect Site.captures clerk ([], broken point kind) = (.ok firstBatch, [], broken point kind) := by
  have passed : Site.pass .connect (broken point kind) = (.ok (), broken point kind) := by
    cases point <;> first | exact absurd rfl connects | rfl
  have legible : clerk.Legible ([], broken point kind) := legible_stock
  have waiting : clerk.waiting ([], broken point kind) = clerk.waiting ([], .ofDatabase stock) := rfl
  rw [collect_eq (by decide) legible.readable (congrArg Prod.fst passed), gathered, found, due, waiting, waiting_stock,
    passed]
  rfl

/-- A connection or a consumer that cannot be reached leaves everything in place. Rows that cannot be deleted stay
behind their cursors. -/
theorem failed_tick_in_place_clerk :
    LeftInPlace Site.captures (·.database) Store.Database.page Site.Connects clerk []
        (broken .connect .fatal) (.outage ⟨.fatal, some "lost"⟩)
        (clerk.tick Site.captures (fun _ => Site.pass .consume) ([], broken .connect .fatal)) ∧
      LeftInPlace Site.captures (·.database) Store.Database.page Site.Connects clerk []
        (broken .consume .connection) (.dispatch 2 "lost")
        (clerk.tick Site.captures (fun _ => Site.pass .consume) ([], broken .consume .connection)) ∧
      LeftBehind (·.database) [] (broken .beginDelete .connection) firstBatch (.outage ⟨.connection, some "lost"⟩)
        (clerk.tick Site.captures (fun _ => Site.pass .consume) ([], broken .beginDelete .connection)) := by
  have ticks (point : OutagePoint) (kind : OutageKind) := failed_tick_in_place Site.captures_shows clerk
    (fun _ => Site.pass .consume) [] (broken point kind)
  obtain ⟨connecting, -, -⟩ := ticks .connect .fatal
  obtain ⟨-, consuming, -⟩ := ticks .consume .connection
  obtain ⟨-, deleting, -⟩ := ticks .beginDelete .connection
  rw [collect_broken _ _ (by decide)] at consuming deleting
  obtain ⟨-, refused, -⟩ := consuming firstBatch rfl rfl
  obtain ⟨-, -, undeleted⟩ := deleting firstBatch rfl rfl
  exact ⟨connecting _ rfl, refused _ rfl, undeleted _ rfl (by decide) rfl⟩

/-- A tick does not always go on after a deletion that has failed: a fatal failure comes through. -/
theorem deletion_fatal :
    (collect Site.captures clerk ([], broken .beginDelete .fatal)).1 = .ok firstBatch ∧
      Site.pass .consume (broken .beginDelete .fatal) = (.ok (), broken .beginDelete .fatal) ∧
      (Site.captures.delete (clerk.deletions firstBatch.consumed) (broken .beginDelete .fatal)).1 ≠ .ok () ∧
      ¬ ∃ n, (clerk.tick Site.captures (fun _ => Site.pass .consume) ([], broken .beginDelete .fatal)).1 =
        .ok n := by
  have collects := collect_broken .beginDelete .fatal (by decide)
  have fails : (Site.captures.delete (clerk.deletions firstBatch.consumed) (broken .beginDelete .fatal)).1 =
      .error (.outage ⟨.fatal, some "lost"⟩) := rfl
  have left : LeftBehind (·.database) [] (broken .beginDelete .fatal) firstBatch _
      (settle Site.captures clerk firstBatch (.ok ()) ([], broken .beginDelete .fatal)) :=
    leftBehind_of_undeleted Site.captures_shows (by decide) (by decide) rfl fails
  refine ⟨congrArg Prod.fst collects, rfl, by simp [fails], ?_⟩
  rintro ⟨n, goesOn⟩
  simp only [tick, Action.bind_apply, collects, dispatch_eq] at goesOn
  cases left.outcome.symm.trans goesOn

end IndexSync.Poller
