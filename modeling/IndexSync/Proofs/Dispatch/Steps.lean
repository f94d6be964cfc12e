import IndexSync.Dispatch
import Mathlib.Tactic.Common

/-!
# A dispatch as a row of steps

A batch starts at a phase and goes on by single steps to its end. It comes to the commit of its
transaction at most once; what it leaves behind is decided there.
-/
namespace IndexSync.Dispatch

variable {σ τ : Type} (world : Surroundings σ τ) (ms : Search.Mappings)

/-- Where the dispatch of a batch starts. A batch that comes to nothing is done at once. -/
def start (events : List CaptureEvent) (s : σ) : Phase τ × σ :=
  let (outcome, net) := NetBatch.collapse events
  let s := net.notices.foldl (fun s n => world.report n s) s
  match outcome with
  | .error f => (.done (.error f), s)
  | .ok _ => if net.changes.isEmpty then (.done (.ok ()), s) else (.opening net.changes, s)

theorem run_of_done (outcome : Except Failure Unit) (s : σ) :
    run world ms (.done outcome) s = (outcome, s) := by
  rw [run]
  simp [Phase.outcome?]

theorem run_step (p : Phase τ) (s : σ) :
    run world ms p s = run world ms (step world ms p s).1 (step world ms p s).2 := by
  cases hp : p.outcome? with
  | none =>
    rw [run]
    split
    · exact absurd (hp.symm.trans ‹_›) (by simp)
    · rfl
  | some outcome =>
    cases p <;> simp only [Phase.outcome?, reduceCtorEq] at hp
    rfl

theorem batch_eq_run (events : List CaptureEvent) (s : σ) :
    batch world ms events s = run world ms (start world events s).1 (start world events s).2 := by
  unfold batch start
  obtain ⟨outcome, net⟩ := NetBatch.collapse events
  cases outcome with
  | error f => exact (run_of_done ..).symm
  | ok u =>
    by_cases h : net.changes.isEmpty
    · simp only [h, if_true]
      exact (run_of_done ..).symm
    · simp only [h, if_false, Bool.false_eq_true]

/-- The transaction that a dispatch comes to commit, with the state at that point. -/
def commitPoint (p : Phase τ) (s : σ) : Option (τ × σ) :=
  match p with
  | .committing t => some (t, s)
  | p => match _h : p.outcome? with
    | some _ => none
    | none => commitPoint (step world ms p s).1 (step world ms p s).2
termination_by p.left ms
decreasing_by exact left_step_lt world ms p s _h

theorem commitPoint_step {p : Phase τ} (s : σ) (notCommit : ∀ t, p ≠ .committing t)
    (going : p.outcome? = none) :
    commitPoint world ms p s =
      commitPoint world ms (step world ms p s).1 (step world ms p s).2 := by
  rw [commitPoint]
  · split
    · exact absurd (going.symm.trans ‹_›) (by simp)
    · rfl
  · exact notCommit

/-- Some steps in a row. -/
def steps : Nat → Phase τ × σ → Phase τ × σ
  | 0, at_ => at_
  | n + 1, (p, s) => steps n (step world ms p s)

/-- The phases that follow the commit. -/
def Phase.isPast : Phase τ → Bool
  | .undoing .. | .leaving _ | .closing _ | .done _ => true
  | _ => false

theorem isPast_step {p : Phase τ} (s : σ) (h : p.isPast) : (step world ms p s).1.isPast := by
  cases p with
  | undoing t f => rfl
  | leaving outcome => rfl
  | closing outcome =>
    simp only [step]
    split <;> rfl
  | done outcome => rfl
  | _ => cases h

theorem isPast_steps (n : Nat) {p : Phase τ} (s : σ) (h : p.isPast) :
    (steps world ms n (p, s)).1.isPast := by
  induction n generalizing p s with
  | zero => exact h
  | succ n ih => exact ih _ (isPast_step world ms s h)

theorem isPast_step_committing (t : τ) (s : σ) : (step world ms (.committing t) s).1.isPast := by
  simp only [step]
  split <;> rfl

/-- The commit that some steps lead to is the one that the dispatch comes to, for no phase after a
commit is a commit again. -/
theorem commitPoint_of_steps {n : Nat} {at_ : Phase τ × σ} {t : τ} {s : σ}
    (h : steps world ms n at_ = (.committing t, s)) :
    commitPoint world ms at_.1 at_.2 = some (t, s) := by
  induction n generalizing at_ with
  | zero =>
    obtain rfl : at_ = (.committing t, s) := h
    rw [commitPoint]
  | succ n ih =>
    obtain ⟨p, s⟩ := at_
    have early : ¬ (step world ms p s).1.isPast := by
      intro past
      have := isPast_steps world ms n (step world ms p s).2 past
      rw [show steps world ms n _ = steps world ms (n + 1) (p, s) from rfl, h] at this
      cases this
    rw [commitPoint_step world ms s]
    · exact ih h
    · rintro t rfl
      exact early (isPast_step_committing world ms t s)
    · cases p with
      | done outcome => exact absurd rfl early
      | _ => rfl

/-- What holds at a phase and is kept by every step until the commit holds at the commit; if there
is none, it holds at the end. -/
theorem commitPoint_induction {Kept : Phase τ → σ → Prop}
    (kept : ∀ p s, (∀ t, p ≠ .committing t) → Kept p s →
      Kept (step world ms p s).1 (step world ms p s).2)
    (p : Phase τ) (s : σ) (h : Kept p s) :
    match commitPoint world ms p s with
    | some (t, s') => Kept (.committing t) s' ∧ run world ms p s = run world ms (.committing t) s'
    | none => ∃ outcome s', Kept (.done outcome) s' ∧ run world ms p s = (outcome, s') := by
  induction p, s using commitPoint.induct world ms with
  | case1 s t =>
    rw [commitPoint]
    exact ⟨h, rfl⟩
  | case2 s p notCommit outcome hp =>
    obtain rfl : p = .done outcome := by
      cases p <;> simp_all [Phase.outcome?]
    rw [commitPoint]
    exact ⟨outcome, s, h, run_of_done ..⟩
    · exact fun t ht => notCommit t ht
  | case3 s p notCommit going ih =>
    rw [commitPoint_step world ms s notCommit going, run_step world ms p s]
    exact ih (kept p s notCommit h)

end IndexSync.Dispatch
