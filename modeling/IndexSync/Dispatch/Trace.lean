import IndexSync.Dispatch

/-! Dispatches that are watched: every use of the surroundings is written down. -/
namespace IndexSync

/-- One use of the surroundings. Opening counts once it has gone well; all other uses count when they
are tried. -/
inductive Use
  | opened
  | asked (identity : Identity)
  | closed
  | begun
  | staged (request : Search.Request)
  | committed
  | rolledBack
  deriving Repr

def Use.identity? : Use → Option Identity
  | asked identity => some identity
  | _ => none

def Use.isOpened : Use → Bool
  | opened => true
  | _ => false

def Use.isClosed : Use → Bool
  | closed => true
  | _ => false

def Use.isRolledBack : Use → Bool
  | rolledBack => true
  | _ => false

namespace Surroundings

variable {σ τ : Type}

def note (u : Use) : Action (List Use × σ) Unit :=
  Action.update fun (uses, s) => (uses ++ [u], s)

/-- The surroundings with a list of all uses. -/
def watched (world : Surroundings σ τ) : Surroundings (List Use × σ) τ where
  openSession := do
    Action.onSecond world.openSession
    note .opened
  snapshot := fun type id => do
    note (.asked ⟨type, id⟩)
    Action.onSecond (world.snapshot type id)
  leaveSession := fun (uses, s) => (uses, world.leaveSession s)
  closeSession := do
    note .closed
    Action.onSecond world.closeSession
  begin := do
    note .begun
    Action.onSecond world.begin
  stage := fun t r => do
    note (.staged r)
    Action.onSecond (world.stage t r)
  commit := fun t => do
    note .committed
    Action.onSecond (world.commit t)
  rollback := fun t (uses, s) => (uses ++ [.rolledBack], world.rollback t s)
  report := fun n (uses, s) => (uses, world.report n s)

end Surroundings
end IndexSync
