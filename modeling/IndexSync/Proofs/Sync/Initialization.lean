import IndexSync.Proofs.Outcome
import IndexSync.Shipped
import IndexSync.Sync.Create

/-!
# Putting a synchronization together, or leaving no trace

What is asked of engines is written down. When the parts of a synchronization do not go together, no
statement has run and an engine that was opened is disposed of; when they do, each statement of the plan
has had a transaction of its own.
-/
namespace IndexSync

open Trigger

/-- What engines are asked for. An engine is opened once it is there. -/
inductive EngineEvent
  | opened (dialect : String)
  | disposed
  | began
  | ran (s : Statement)
  | committed
  | rolledBack
  deriving DecidableEq

namespace EngineEvent

/-- What the transaction for one statement leaves in a record: it may not begin, the statement may fail,
and so may the commit. -/
inductive Transaction (s : Statement) : List EngineEvent → Prop
  | refused : Transaction s [began]
  | kept : Transaction s [began, ran s, committed]
  | undone : Transaction s [began, ran s, rolledBack]
  | uncommitted : Transaction s [began, ran s, committed, rolledBack]

/-- How a setup comes to an engine of the dialect: the caller has one, or one is opened. -/
inductive Engine : Option String → String → List EngineEvent → Prop
  | given (dialect : String) : Engine (some dialect) dialect []
  | own (dialect : String) : Engine none dialect [opened dialect]

end EngineEvent

open EngineEvent

variable {σ α : Type}

/-- Writes down an event, and goes on. -/
def noted (e : EngineEvent) (x : Action σ α) : Action (List EngineEvent × σ) α := fun (record, s) =>
  let (r, s) := x s
  (r, record ++ [e], s)

/-- Access to engines with a record of what they are asked for. -/
def EngineAccess.recorded (access : EngineAccess σ) : EngineAccess (List EngineEvent × σ) where
  openEngine url := do
    let dialect ← Action.onSecond (access.openEngine url)
    noted (.opened dialect) (pure dialect)
  dispose := noted .disposed access.dispose
  begin dialect := noted .began (access.begin dialect)
  run dialect s := noted (.ran s) (access.run dialect s)
  commit dialect := noted .committed (access.commit dialect)
  rollback dialect := noted .rolledBack (access.rollback dialect)
  report n := fun (record, s) => (record, access.report n s)

namespace EngineAccess

end EngineAccess

open EngineAccess

namespace Sync

/-- What a failure leaves in the record before any statement has run: an engine that was opened is disposed of
once, and an engine of the caller never. -/
inductive NoTrace : Option String → List EngineEvent → Prop
  | given (dialect : String) : NoTrace (some dialect) []
  | unopened : NoTrace none []
  | disposed (dialect : String) : NoTrace none [.opened dialect, .disposed]

theorem NoTrace.untouched : (engine : Option String) → NoTrace engine []
  | some dialect => .given dialect
  | none => .unopened

variable {access : EngineAccess σ}

end Sync
end IndexSync
