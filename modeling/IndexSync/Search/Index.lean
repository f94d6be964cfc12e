import IndexSync.Search.Mapping

/-! The index in memory: documents by type and key, and the log of all changes made to them. -/
namespace IndexSync.Search

/-- What a change does: a new document, a new version of a document, or a deletion. -/
inductive ChangeKind
  | index | update | delete
  deriving DecidableEq, Repr

def ChangeKind.name : ChangeKind → String
  | index => "index"
  | update => "update"
  | delete => "delete"

/-- One entry of the log: the kind of change, the indexed type, and the field and value that
select the documents. -/
structure Operation where
  kind : ChangeKind
  type : EntityType
  field : String
  value : Value
  deriving Repr

/-- A change that waits for its transaction to be committed. -/
inductive Change
  | write (renew : Bool) (type : EntityType) (field : String) (key : Value) (document : Document)
  | delete (type : EntityType) (field : String) (value : Value)
  deriving Repr

def Change.operation : Change → Operation
  | write renew type field key _ => ⟨if renew then .update else .index, type, field, key⟩
  | delete type field value => ⟨.delete, type, field, value⟩

structure Index where
  documents : Entries EntityType (Entries Value Document)
  operations : List Operation
  deriving Repr

namespace Index

def empty : Index := ⟨[], []⟩

/-- The documents of one type by key. -/
def docs (ix : Index) (type : EntityType) : Entries Value Document :=
  (ix.documents.get? type).getD []

def setDocs (ix : Index) (type : EntityType) (docs : Entries Value Document) : Index :=
  { ix with documents := ix.documents.put type docs }

def log (ix : Index) (op : Operation) : Index :=
  { ix with operations := ix.operations ++ [op] }

/-- The values that a stored field stands for: the members of a list or set, or the value. -/
def candidates : Value → List Value
  | .list items | .set items => items
  | v => [v]

/-- Whether one of the values, as the field encodes it, is the given one. The first that is ends
the search. -/
def anyMatches (field : Option IdField) (value : Value) : List Value → Except Failure Bool
  | [] => .ok false
  | v :: vs => do
    let encoded ← match field with
      | some f => f.indexValue v
      | none => .ok v
    if encoded == value then return true else anyMatches field value vs

/-- Whether a document is selected by a field and a value. -/
def selects (m : Mapping) (field : String) (value : Value) (doc : Document) :
    Except Failure Bool :=
  match doc.get? field with
  | none => .ok false
  | some stored => anyMatches (m.idFieldNamed field) value (candidates stored)

/-- The documents that are not selected. -/
def unselected (m : Mapping) (field : String) (value : Value) :
    Entries Value Document → Except Failure (Entries Value Document)
  | [] => .ok []
  | (key, doc) :: rest => do
    let doomed ← selects m field value doc
    let kept ← unselected m field value rest
    return if doomed then kept else (key, doc) :: kept

/-- Makes one change. A deletion under a type without mapping does nothing. -/
def apply (ms : Mappings) (ix : Index) (change : Change) : Except Failure Index :=
  match change with
  | .write _ type _ key doc => do
    key.requireKey
    return (ix.setDocs type ((ix.docs type).put key doc)).log change.operation
  | .delete type field value =>
    match ms.mappingFor type with
    | none => .ok ix
    | some m => do
      let kept ← unselected m field value (ix.docs type)
      return (ix.setDocs type kept).log change.operation

/-- Makes changes in order. One that fails ends the work; those before it stay. -/
def applyAll (ms : Mappings) : List Change → Index → Except Failure Unit × Index
  | [], ix => (.ok (), ix)
  | change :: rest, ix =>
    match ix.apply ms change with
    | .ok ix => applyAll ms rest ix
    | .error f => (.error f, ix)

def list (ix : Index) (type : EntityType) : List Document := (ix.docs type).values

def get? (ix : Index) (type : EntityType) (key : Value) : Except Failure (Option Document) := do
  key.requireKey
  return (ix.docs type).get? key

def count (ix : Index) (type : EntityType) : Nat := (ix.docs type).length

end Index
end IndexSync.Search
