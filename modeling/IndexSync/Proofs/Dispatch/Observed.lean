import IndexSync.Proofs.Dispatch.Steps

/-!
# Dispatches that are observed

Surroundings may keep notes beside the state that a dispatch works on. If every use of them goes as it would
without the notes, then so does every batch.
-/
namespace IndexSync

variable {ρ σ τ : Type}

/-- An outcome without the notes beside the state. -/
def withoutNotes {α : Type} : α × ρ × σ → α × σ := fun (a, _, s) => (a, s)

/-- Surroundings that go as the given ones do, whatever they note. -/
structure Surroundings.Observes (noting : Surroundings (ρ × σ) τ) (world : Surroundings σ τ) :
    Prop where
  openSession : ∀ l s, withoutNotes (noting.openSession (l, s)) = world.openSession s
  snapshot : ∀ type id l s, withoutNotes (noting.snapshot type id (l, s)) = world.snapshot type id s
  leaveSession : ∀ l s, (noting.leaveSession (l, s)).2 = world.leaveSession s
  closeSession : ∀ l s, withoutNotes (noting.closeSession (l, s)) = world.closeSession s
  begin : ∀ l s, withoutNotes (noting.begin (l, s)) = world.begin s
  stage : ∀ t r l s, withoutNotes (noting.stage t r (l, s)) = world.stage t r s
  commit : ∀ t l s, withoutNotes (noting.commit t (l, s)) = world.commit t s
  rollback : ∀ t l s, (noting.rollback t (l, s)).2 = world.rollback t s
  report : ∀ n l s, (noting.report n (l, s)).2 = world.report n s

namespace Dispatch

variable {noting : Surroundings (ρ × σ) τ} {world : Surroundings σ τ}
  (observes : noting.Observes world) (ms : Search.Mappings) (l : ρ) (s : σ)
include observes

theorem perform_observed (t : τ) (task : Task) :
    withoutNotes (perform noting ms t task (l, s)) = perform world ms t task s := by
  have staging (r : Search.Request) :
      withoutNotes ((do noting.stage t r; return [] : Action (ρ × σ) (List Task)) (l, s)) =
        (do world.stage t r; return [] : Action σ (List Task)) s := by
    simp only [Action.bind_apply, ← observes.stage t r l s]
    rcases noting.stage t r (l, s) with ⟨_ | _, l', s'⟩ <;> rfl
  cases task with
  | settle i kind =>
    simp only [perform]
    split
    · simp only [Action.bind_apply, Action.update, ← observes.report _ l s]
      rfl
    · split
      · simp only [Action.bind_apply, ← observes.snapshot i.type i.id l s]
        rcases noting.snapshot i.type i.id (l, s) with ⟨_ | _, l', s'⟩ <;> rfl
      · rfl
  | stage r => exact staging r
  | delete m i =>
    simp only [perform]
    rcases deleteRequest m i with _ | _ | r
    · rfl
    · rfl
    · exact staging r

/-- A step goes as it would without the notes. -/
theorem step_observed (p : Phase τ) : withoutNotes (step noting ms p (l, s)) = step world ms p s := by
  cases p with
  | opening net =>
    simp only [step, ← observes.openSession l s]
    rcases noting.openSession (l, s) with ⟨_ | _, l', s'⟩ <;> rfl
  | beginning net =>
    simp only [step, ← observes.begin l s]
    rcases noting.begin (l, s) with ⟨_ | _, l', s'⟩ <;> rfl
  | working t tasks =>
    cases tasks with
    | nil => rfl
    | cons task rest =>
      simp only [step, ← perform_observed observes ms l s t task]
      rcases perform noting ms t task (l, s) with ⟨_ | _, l', s'⟩ <;> rfl
  | committing t =>
    simp only [step, ← observes.commit t l s]
    rcases noting.commit t (l, s) with ⟨_ | _, l', s'⟩ <;> rfl
  | undoing t f => exact congrArg (Prod.mk _) (observes.rollback t l s)
  | leaving outcome => exact congrArg (Prod.mk _) (observes.leaveSession l s)
  | closing outcome =>
    simp only [step, ← observes.closeSession l s]
    rcases noting.closeSession (l, s) with ⟨_ | _, l', s'⟩ <;> rfl
  | done outcome => rfl

theorem run_observed (p : Phase τ) : withoutNotes (run noting ms p (l, s)) = run world ms p s := by
  induction p, s using run.induct world ms generalizing l with
  | case1 p s outcome hp =>
    obtain rfl : p = .done outcome := by
      cases p <;> simp_all [Phase.outcome?]
    rw [run_of_done, run_of_done]
    rfl
  | case2 p s going next ih =>
    have same := step_observed observes ms l s p
    rw [run_step world ms p s, run_step noting ms p (l, s)]
    generalize step noting ms p (l, s) = stepped at same ⊢
    obtain ⟨p', l', s'⟩ := stepped
    obtain rfl : p' = next.1 := congrArg Prod.fst same
    obtain rfl : s' = next.2 := congrArg Prod.snd same
    exact ih l'

theorem start_observed (events : List CaptureEvent) :
    withoutNotes (start noting events (l, s)) = start world events s := by
  have reported (notices : List Notice) (l : ρ) (s : σ) :
      (notices.foldl (fun s n => noting.report n s) (l, s)).2 =
        notices.foldl (fun s n => world.report n s) s := by
    induction notices generalizing l s with
    | nil => rfl
    | cons n rest ih =>
      rw [List.foldl_cons, List.foldl_cons, ← observes.report n l s]
      exact ih _ _
  unfold start
  obtain ⟨outcome, net⟩ := NetBatch.collapse events
  cases outcome with
  | error f => exact congrArg (Prod.mk _) (reported net.notices l s)
  | ok u =>
    simp only
    split <;> exact congrArg (Prod.mk _) (reported net.notices l s)

/-- A batch is dispatched as it would be without the notes. -/
theorem batch_observed (events : List CaptureEvent) :
    withoutNotes (batch noting ms events (l, s)) = batch world ms events s := by
  have same := start_observed observes l s events
  rw [batch_eq_run, batch_eq_run, ← same]
  exact run_observed observes ms _ _ _

end Dispatch
end IndexSync
