import IndexSync.Schedule.Timed
import Mathlib.Algebra.Order.Archimedean.Basic
import Mathlib.Data.Rat.Floor
import Mathlib.Order.Monotone.Basic
import Mathlib.Tactic.Linarith

/-!
# The timeline of a loop

Every run starts a fixed delay after the one before it has ended, whatever has come of that one. So a
loop that is left alone starts its runs at times that are known beforehand, and only finitely many of
them before any given time.
-/
namespace IndexSync.Schedule

open Machine (laterOf)

theorem laterOf_zero {d : Rat} (h : 0 ≤ d) : laterOf d 0 = d := by
  unfold laterOf
  split
  · linarith
  · rfl

theorem laterOf_zero_nonneg (d : Rat) : 0 ≤ laterOf d 0 := by
  unfold laterOf
  split <;> linarith

structure Timeline where
  initialDelay : Rat
  delay : Rat
  run : Nat → TimedRun

namespace Timeline

variable (t : Timeline)

/-- When a run starts that has `k` runs before it. -/
def start : Nat → Rat
  | 0 => t.initialDelay
  | k + 1 => start k + (t.run (k + 1)).duration + t.delay

/-- When a run is over that has `k` runs before it. -/
def finish (k : Nat) : Rat := t.start k + (t.run (k + 1)).duration

/-- What is seen of the first `k` runs. -/
def log (k : Nat) : List (Rat × RunEvent) :=
  (List.range k).flatMap fun i => [(t.start i, .started (i + 1)), (t.finish i, .ended (i + 1))]

/-- When a loop ends that is cancelled at time `c` and has started `k` runs. -/
def close (c : Rat) : Nat → Rat
  | 0 => c
  | k + 1 => laterOf c (t.finish k)

/-- The delays and durations are such as there are, and the runs fail, if they do, in ways that a loop
survives. -/
structure Proper (t : Timeline) : Prop where
  initialDelay : 0 ≤ t.initialDelay
  delay : 0 < t.delay
  durations : ∀ n, 0 ≤ (t.run n).duration
  survived : ∀ n f, (t.run n).outcome = .error f → f.isFatal = false

variable {t}

theorem log_succ (k : Nat) :
    t.log (k + 1) = t.log k ++ [(t.start k, .started (k + 1)), (t.finish k, .ended (k + 1))] := by
  simp [log, List.range_succ]

theorem start_succ (k : Nat) : t.start (k + 1) = t.finish k + t.delay := rfl

section
variable (proper : t.Proper)
include proper

theorem Proper.start_le_finish (k : Nat) : t.start k ≤ t.finish k := by
  have := proper.durations (k + 1)
  unfold finish
  linarith

theorem Proper.finish_lt_start_succ (k : Nat) : t.finish k < t.start (k + 1) := by
  have := proper.delay
  rw [start_succ]
  linarith

theorem Proper.strictMono_start : StrictMono t.start :=
  strictMono_nat_of_lt_succ fun k =>
    (proper.start_le_finish k).trans_lt (proper.finish_lt_start_succ k)

/-- No two runs overlap. -/
theorem Proper.finish_lt_start {i k : Nat} (h : i < k) : t.finish i < t.start k :=
  (proper.finish_lt_start_succ i).trans_le (proper.strictMono_start.monotone h)

theorem Proper.finish_mono : Monotone t.finish :=
  monotone_nat_of_le_succ fun k =>
    (proper.finish_lt_start_succ k).le.trans (proper.start_le_finish (k + 1))

theorem Proper.mul_delay_le_start (k : Nat) : k * t.delay ≤ t.start k := by
  induction k with
  | zero => simpa [start] using proper.initialDelay
  | succ k ih =>
    have := proper.start_le_finish k
    rw [start_succ, Nat.cast_succ]
    linarith

/-- The runs that start before a given time are the first ones, up to some number. -/
theorem Proper.exists_count (c : Rat) : ∃ n, ∀ k, k < n ↔ t.start k < c := by
  have reached : ∃ n, ¬ t.start n < c := by
    obtain ⟨n, hn⟩ := Archimedean.arch c proper.delay
    refine ⟨n, not_lt.mpr (hn.trans ?_)⟩
    simpa using proper.mul_delay_le_start n
  refine ⟨Nat.find reached, fun k => ⟨fun h => not_not.mp (Nat.find_min reached h), fun h => ?_⟩⟩
  by_contra hle
  have := proper.strictMono_start.monotone (not_lt.mp hle)
  exact Nat.find_spec reached (this.trans_lt h)

end

theorem le_close (c : Rat) (k : Nat) : c ≤ t.close c k := by
  cases k with
  | zero => exact le_rfl
  | succ k =>
    simp only [close, laterOf]
    split
    · assumption
    · exact le_rfl

theorem Proper.finish_le_close (proper : t.Proper) (c : Rat) {i k : Nat} (h : i < k) :
    t.finish i ≤ t.close c k := by
  cases k with
  | zero => exact absurd h (Nat.not_lt_zero i)
  | succ k =>
    have := proper.finish_mono (Nat.lt_succ_iff.mp h)
    simp only [close, laterOf]
    split
    · exact this
    · linarith

/-- The loop ends when it is cancelled, or with its last run. -/
theorem close_eq (c : Rat) (k : Nat) : t.close c k = c ∨ ∃ i < k, t.close c k = t.finish i := by
  cases k with
  | zero => exact .inl rfl
  | succ k =>
    simp only [close, laterOf]
    split
    · exact .inr ⟨k, Nat.lt_succ_self k, rfl⟩
    · exact .inl rfl

/-- A loop that is cancelled after its last run ends at once. -/
theorem close_eq_of_finish_le {c : Rat} {k : Nat} (h : ∀ i < k, t.finish i ≤ c) :
    t.close c k = c := by
  rcases close_eq c k with eq | ⟨i, hi, eq⟩
  · exact eq
  · exact le_antisymm (eq ▸ h i hi) (le_close c k)

/-- A loop that is cancelled during its last run ends with it. -/
theorem close_eq_finish {c : Rat} {k : Nat} (h : c ≤ t.finish k) :
    t.close c (k + 1) = t.finish k := if_pos h

end Timeline
end IndexSync.Schedule
