import IndexSync.Poller.Tick
import IndexSync.Proofs.Poller.CaptureTables

/-!
# Capture tables that others write to

Something may happen just before each use of the tables: rows are written, or a connection breaks.
-/
namespace IndexSync

variable {σ : Type}

/-- Access to capture tables that others write to at any time: each call ends in a later state, where
the tables have grown. A page shows the tables as they are at the end of the call. -/
structure CaptureAccess.Lawful (access : CaptureAccess σ) (view : σ → CaptureTables)
    (Later : σ → σ → Prop) : Prop where
  refl : ∀ s, Later s s
  trans : ∀ {s t u}, Later s t → Later t u → Later s u
  grows : ∀ {s t}, Later s t → (view s).Grows (view t)
  connect : ∀ s, Later s (access.connect s).2
  page : ∀ m key n s, Later s (access.page m key n s).2
  read : ∀ m key n s events, (access.page m key n s).1 = .ok events →
    (view (access.page m key n s).2).page m key n = .ok events
  report : ∀ n s, Later s (access.report n s)

/-- The page that tables within a state show. -/
def CaptureAccess.shown (view : σ → CaptureTables) (m : CaptureModel) (key : Option Int) (n : Nat) :
    Action σ (List CaptureEvent) :=
  fun s => ((view s).page m key n, s)

/-- Tables within a state, where something happens before each use. A deletion opens its transaction
first and then runs; a failure undoes it. -/
def CaptureAccess.paced (pause : Action σ Unit) (view : σ → CaptureTables)
    (put : σ → CaptureTables → σ) : CaptureAccess σ where
  connect := pause
  page m key n := do
    pause
    shown view m key n
  delete doomed := do
    pause
    pause
    Action.update fun s => put s ((view s).delete doomed)
  report _ s := s

namespace CaptureAccess

variable {pause : Action σ Unit} {view : σ → CaptureTables} {put : σ → CaptureTables → σ}
  {Later : σ → σ → Prop}

theorem paced_lawful (refl : ∀ s, Later s s)
    (trans : ∀ {s t u}, Later s t → Later t u → Later s u)
    (grows : ∀ {s t}, Later s t → (view s).Grows (view t))
    (later : ∀ s, Later s (pause s).2) : (paced pause view put).Lawful view Later where
  refl := refl
  trans := trans
  grows := grows
  connect := later
  page m key n s := by
    have := later s
    simp only [paced, Action.bind_apply]
    generalize pause s = paused at this ⊢
    obtain ⟨outcome, after⟩ := paused
    cases outcome <;> exact this
  read m key n s events h := by
    simp only [paced, Action.bind_apply] at h ⊢
    generalize pause s = paused at h ⊢
    obtain ⟨outcome, after⟩ := paused
    cases outcome with
    | error f => cases h
    | ok u => exact h
  report _ s := refl s

/-- A deletion is made in full or not at all. -/
theorem paced_delete (trans : ∀ {s t u}, Later s t → Later t u → Later s u)
    (later : ∀ s, Later s (pause s).2) (doomed : List (CaptureModel × List Int)) (s : σ) :
    ∃ t, Later s t ∧
      ((paced pause view put).delete doomed s = (.ok (), put t ((view t).delete doomed)) ∨
        ∃ f, (paced pause view put).delete doomed s = (.error f, t)) := by
  have hopen := later s
  simp only [paced, Action.bind_apply]
  generalize pause s = opened at hopen ⊢
  obtain ⟨outcome, s₁⟩ := opened
  cases outcome with
  | error f => exact ⟨s₁, hopen, .inr ⟨f, rfl⟩⟩
  | ok u =>
    have hrun := later s₁
    simp only
    generalize pause s₁ = ran at hrun ⊢
    obtain ⟨outcome, s₂⟩ := ran
    cases outcome with
    | error f => exact ⟨s₂, trans hopen hrun, .inr ⟨f, rfl⟩⟩
    | ok u => exact ⟨s₂, trans hopen hrun, .inl rfl⟩

end CaptureAccess
end IndexSync
