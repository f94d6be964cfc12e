import IndexSync.Proofs.Dispatch.Observed

/-!
# Answers on record

While a batch is dispatched, every answer about an entity is put on record. The record has no part in the
dispatch. It is complete when the transaction comes to its commit.
-/
namespace IndexSync

/-- An answer about an entity, with what was asked for. -/
abbrev Answered := Identity × Except Failure (Option Entity)

namespace Surroundings

variable {σ τ : Type}

/-- The surroundings with a list of all answers about entities. -/
def recorded (world : Surroundings σ τ) : Surroundings (List Answered × σ) τ where
  openSession := Action.onSecond world.openSession
  snapshot type id := fun (record, s) =>
    let (answer, s) := world.snapshot type id s
    (answer, record ++ [(⟨type, id⟩, answer)], s)
  leaveSession := fun (record, s) => (record, world.leaveSession s)
  closeSession := Action.onSecond world.closeSession
  begin := Action.onSecond world.begin
  stage t r := Action.onSecond (world.stage t r)
  commit t := Action.onSecond (world.commit t)
  rollback t := fun (record, s) => (record, world.rollback t s)
  report n := fun (record, s) => (record, world.report n s)

variable (world : Surroundings σ τ) (record : List Answered) (s : σ)

@[simp] theorem recorded_openSession : world.recorded.openSession (record, s) =
    ((world.openSession s).1, record, (world.openSession s).2) := rfl

@[simp] theorem recorded_snapshot (type : EntityType) (id : Value) :
    world.recorded.snapshot type id (record, s) = ((world.snapshot type id s).1,
      record ++ [(⟨type, id⟩, (world.snapshot type id s).1)], (world.snapshot type id s).2) := rfl

@[simp] theorem recorded_closeSession : world.recorded.closeSession (record, s) =
    ((world.closeSession s).1, record, (world.closeSession s).2) := rfl

@[simp] theorem recorded_begin : world.recorded.begin (record, s) =
    ((world.begin s).1, record, (world.begin s).2) := rfl

@[simp] theorem recorded_stage (t : τ) (r : Search.Request) : world.recorded.stage t r (record, s) =
    ((world.stage t r s).1, record, (world.stage t r s).2) := rfl

@[simp] theorem recorded_commit (t : τ) : world.recorded.commit t (record, s) =
    ((world.commit t s).1, record, (world.commit t s).2) := rfl

theorem recorded_observes : world.recorded.Observes world :=
  ⟨fun _ _ => rfl, fun _ _ _ _ => rfl, fun _ _ => rfl, fun _ _ => rfl, fun _ _ => rfl, fun _ _ _ _ => rfl,
    fun _ _ _ => rfl, fun _ _ _ => rfl, fun _ _ _ => rfl⟩

end Surroundings

namespace Dispatch

variable {σ τ : Type} (world : Surroundings σ τ) (ms : Search.Mappings) (record : List Answered) (s : σ)

/-- An entity that is there now is asked for, if documents hold ids of its type. -/
def asksFor (ms : Search.Mappings) (i : Identity) (kind : EventKind) : Bool :=
  !(ms.containing i.type).isEmpty && (kind = .insert || kind = .update)

/-- The answers that a task is given. -/
def answersTo : Task → List Answered
  | .settle i kind => if asksFor ms i kind then [(i, (world.snapshot i.type i.id s).1)] else []
  | _ => []

/-- The answers that a step is given. -/
def answersAt : Phase τ → List Answered
  | .working _ (task :: _) => answersTo world ms s task
  | _ => []

theorem perform_recorded (t : τ) (task : Task) :
    perform world.recorded ms t task (record, s) =
      ((perform world ms t task s).1, record ++ answersTo world ms s task,
        (perform world ms t task s).2) := by
  cases task with
  | settle i kind =>
    simp only [perform, answersTo, asksFor]
    by_cases hempty : (ms.containing i.type).isEmpty = true
    · simp only [hempty, if_true, Bool.not_true, Bool.false_and, Bool.false_eq_true, if_false,
        List.append_nil]
      rfl
    · rw [Bool.not_eq_true] at hempty
      simp only [hempty, Bool.false_eq_true, if_false, Bool.not_false, Bool.true_and]
      split
      · simp only [Action.bind_apply, Surroundings.recorded_snapshot]
        cases world.snapshot i.type i.id s with
        | mk r s => cases r <;> rfl
      · rw [List.append_nil]
        rfl
  | stage request =>
    simp only [perform, answersTo, Action.bind_apply, Surroundings.recorded_stage, List.append_nil]
    cases world.stage t request s with
    | mk r s => cases r <;> rfl
  | delete m i =>
    simp only [perform, answersTo, Action.bind_apply, List.append_nil]
    cases deleteRequest m i with
    | error f => rfl
    | ok request =>
      cases request with
      | none => rfl
      | some r =>
        simp only [Action.ofExcept, Action.pure, Action.bind_apply, Surroundings.recorded_stage]
        cases world.stage t r s with
        | mk r s => cases r <;> rfl

/-- A step goes on as it would without the record, and puts its answers there. -/
theorem step_recorded (p : Phase τ) :
    step world.recorded ms p (record, s) =
      ((step world ms p s).1, record ++ answersAt world ms s p, (step world ms p s).2) := by
  cases p with
  | opening net =>
    simp only [step, answersAt, Surroundings.recorded_openSession, List.append_nil]
    cases world.openSession s with
    | mk r s => cases r <;> rfl
  | beginning net =>
    simp only [step, answersAt, Surroundings.recorded_begin, List.append_nil]
    cases world.begin s with
    | mk r s => cases r <;> rfl
  | working t tasks =>
    cases tasks with
    | nil => simp only [step, answersAt, List.append_nil]
    | cons task rest =>
      simp only [step, answersAt, perform_recorded]
      cases perform world ms t task s with
      | mk r s => cases r <;> rfl
  | committing t =>
    simp only [step, answersAt, Surroundings.recorded_commit, List.append_nil]
    cases world.commit t s with
    | mk r s => cases r <;> rfl
  | undoing t f => simp only [step, answersAt, List.append_nil]; rfl
  | leaving outcome => simp only [step, answersAt, List.append_nil]; rfl
  | closing outcome =>
    simp only [step, answersAt, Surroundings.recorded_closeSession, List.append_nil]
    cases world.closeSession s with
    | mk r s => cases r <;> rfl
  | done outcome => simp only [step, answersAt, List.append_nil]

theorem commitPoint_of_done (outcome : Except Failure Unit) :
    commitPoint world ms (.done outcome) s = none := by
  rw [commitPoint]
  · rfl
  · rintro t ⟨⟩

/-- The transaction that comes to its commit is the one that would without the record. -/
theorem commitPoint_recorded (p : Phase τ) :
    (commitPoint world.recorded ms p (record, s)).map (fun (t, _, s) => (t, s)) =
      commitPoint world ms p s := by
  induction p, s using commitPoint.induct world ms generalizing record with
  | case1 s t =>
    rw [commitPoint, commitPoint]
    rfl
  | case2 s p notCommit outcome hp =>
    obtain rfl : p = .done outcome := by
      cases p <;> simp_all [Phase.outcome?]
    rw [commitPoint_of_done, commitPoint_of_done]
    rfl
  | case3 s p notCommit going ih =>
    rw [commitPoint_step world ms s notCommit going, commitPoint_step _ ms _ notCommit going,
      step_recorded]
    exact ih _

theorem start_recorded (events : List CaptureEvent) :
    start world.recorded events (record, s) =
      ((start world events s).1, record, (start world events s).2) := by
  have reported (notices : List Notice) (s : σ) :
      notices.foldl (fun s n => world.recorded.report n s) (record, s) =
        (record, notices.foldl (fun s n => world.report n s) s) := by
    induction notices generalizing s with
    | nil => rfl
    | cons n rest ih => exact ih (world.report n s)
  unfold start
  obtain ⟨outcome, net⟩ := NetBatch.collapse events
  cases outcome with
  | error f =>
    simp only [reported]
  | ok u =>
    simp only [reported]
    split <;> rfl

/-- A batch is dispatched as it would be without the record. -/
theorem batch_recorded (events : List CaptureEvent) :
    (batch world.recorded ms events (record, s)).1 = (batch world ms events s).1 ∧
      (batch world.recorded ms events (record, s)).2.2 = (batch world ms events s).2 := by
  have same := batch_observed world.recorded_observes ms record s events
  exact ⟨congrArg Prod.fst same, congrArg Prod.snd same⟩

/-- After the commit nothing is asked for. -/
theorem run_committing_recorded (t : τ) :
    (run world.recorded ms (.committing t) (record, s)).2.1 = record := by
  have leaving (outcome : Except Failure Unit) (s : σ) :
      (run world.recorded ms (.leaving outcome) (record, s)).2.1 = record := by
    rw [run_step, step_recorded, step, run_step, step_recorded, step]
    simp only [answersAt, List.append_nil]
    cases world.closeSession (world.leaveSession s) with
    | mk r s => cases r <;> rw [run_of_done]
  rw [run_step, step_recorded, step]
  cases world.commit t s with
  | mk r s =>
    cases r with
    | ok u =>
      simp only [answersAt, List.append_nil]
      exact leaving _ s
    | error f =>
      simp only [answersAt, List.append_nil]
      rw [run_step, step_recorded, step]
      simp only [answersAt, List.append_nil]
      exact leaving _ _

end Dispatch
end IndexSync
