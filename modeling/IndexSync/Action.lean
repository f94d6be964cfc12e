import IndexSync.Failure

/-! Actions that may fail and keep what they have done: the state after a failure is the state at
the point of the failure. -/
namespace IndexSync

/-- An action on a state. -/
def Action (σ α : Type) : Type := σ → Except Failure α × σ

namespace Action

variable {σ α β : Type}

def pure (a : α) : Action σ α := fun s => (.ok a, s)

def fail (f : Failure) : Action σ α := fun s => (.error f, s)

def bind (x : Action σ α) (next : α → Action σ β) : Action σ β := fun s =>
  match x s with
  | (.ok a, s) => next a s
  | (.error f, s) => (.error f, s)

instance : Monad (Action σ) where
  pure := pure
  bind := bind

/-- The outcome of an action as a value; the action no longer fails. -/
def attempt (x : Action σ α) : Action σ (Except Failure α) := fun s =>
  let (outcome, s) := x s
  (.ok outcome, s)

def ofExcept : Except Failure α → Action σ α
  | .ok a => pure a
  | .error f => fail f

/-- An action on the first part of a state. -/
def onFirst {ρ : Type} (x : Action σ α) : Action (σ × ρ) α := fun (s, t) =>
  let (r, s) := x s
  (r, s, t)

/-- An action on the second part of a state. -/
def onSecond {ρ : Type} (x : Action σ α) : Action (ρ × σ) α := fun (t, s) =>
  let (r, s) := x s
  (r, t, s)

def update (f : σ → σ) : Action σ Unit := fun s => (.ok (), f s)

def read (f : σ → α) : Action σ α := fun s => (.ok (f s), s)

/-- Runs a second action whatever the outcome of the first. A failure of the second is the one
that remains. -/
def andFinally (x : Action σ α) (last : Action σ Unit) : Action σ α := fun s =>
  let (outcome, s) := x s
  match last s with
  | (.ok _, s) => (outcome, s)
  | (.error f, s) => (.error f, s)

/-- Runs a second action only if the first fails. A failure of the second is the one that remains. -/
def onFailure (x : Action σ α) (cleanup : Action σ Unit) : Action σ α := fun s =>
  match x s with
  | (.ok a, s) => (.ok a, s)
  | (.error f, s) =>
    match cleanup s with
    | (.ok _, s) => (.error f, s)
    | (.error g, s) => (.error g, s)

@[simp] theorem pure_apply (a : α) (s : σ) : (Pure.pure a : Action σ α) s = (.ok a, s) := rfl

@[simp] theorem bind_apply (x : Action σ α) (next : α → Action σ β) (s : σ) :
    (x >>= next) s = match x s with
      | (.ok a, s) => next a s
      | (.error f, s) => (.error f, s) := rfl

@[simp] theorem fail_apply (f : Failure) (s : σ) : (fail f : Action σ α) s = (.error f, s) := rfl

instance : LawfulMonad (Action σ) := LawfulMonad.mk' (Action σ)
  (fun x => by
    funext s
    simp only [Functor.map]
    unfold bind
    cases x s with
    | mk r s => cases r <;> rfl)
  (fun _ _ => rfl)
  (fun x f g => by
    funext s
    simp only [Bind.bind]
    unfold bind
    cases x s with
    | mk r s => cases r <;> rfl)

end Action
end IndexSync
