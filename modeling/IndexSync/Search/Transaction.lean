import IndexSync.Action
import IndexSync.Search.Index

/-! Transactions on the index. Changes are staged while a transaction is open, and made together
when it is committed. -/
namespace IndexSync.Search

/-- What a batch asks a transaction to do. -/
inductive Request
  | index (entity : Entity)
  | update (entity : Entity)
  | delete (type : EntityType) (field : String) (value : Value)
  deriving Repr

structure Transaction where
  staged : List Change
  closed : Bool
  deriving Repr

namespace Transaction

def fresh : Transaction := ⟨[], false⟩

/-- The change that writes an entity's document, or none for a type outside the index. The
document is built at once, while the entity is at hand. -/
def writeChange (ms : Mappings) (renew : Bool) (e : Entity) : Except Failure (Option Change) :=
  match ms.mappingFor e.type with
  | none => .ok none
  | some m => do
    let doc ← m.buildDocument e
    let key ← m.ownIdField.indexValue ((doc.get? m.ownIdField.name).getD .null)
    return some (.write renew m.indexedType m.ownIdField.name key doc)

def requestChange (ms : Mappings) : Request → Except Failure (Option Change)
  | .index e => writeChange ms false e
  | .update e => writeChange ms true e
  | .delete type field value => .ok (some (.delete type field value))

def stage (ms : Mappings) (t : Transaction) (r : Request) : Except Failure Transaction :=
  if t.closed then .error (.state .transactionClosed)
  else do
    match ← requestChange ms r with
    | some change => return { t with staged := t.staged ++ [change] }
    | none => return t

end Transaction

/-- The index with its transactions, each known by its number. -/
structure Backend where
  index : Index
  transactions : List Transaction
  deriving Repr

namespace Backend

def empty : Backend := ⟨.empty, []⟩

def begin : Action Backend Nat := fun b =>
  (.ok b.transactions.length, { b with transactions := b.transactions ++ [.fresh] })

def transaction (b : Backend) (id : Nat) : Transaction :=
  (b.transactions[id]?).getD ⟨[], true⟩

def setTransaction (b : Backend) (id : Nat) (t : Transaction) : Backend :=
  { b with transactions := b.transactions.set id t }

def stage (ms : Mappings) (id : Nat) (r : Request) : Action Backend Unit := fun b =>
  match (b.transaction id).stage ms r with
  | .ok t => (.ok (), b.setTransaction id t)
  | .error f => (.error f, b)

/-- Closes the transaction and makes its changes. -/
def commit (ms : Mappings) (id : Nat) : Action Backend Unit := fun b =>
  let t := b.transaction id
  if t.closed then (.error (.state .transactionClosed), b)
  else
    let (outcome, index) := Index.applyAll ms t.staged b.index
    (outcome, { b with index := index }.setTransaction id ⟨[], true⟩)

/-- Closes the transaction and forgets its changes. A closed one stays as it is. -/
def rollback (id : Nat) (b : Backend) : Backend :=
  if (b.transaction id).closed then b else b.setTransaction id ⟨[], true⟩

end Backend
end IndexSync.Search
