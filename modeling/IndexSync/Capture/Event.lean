import IndexSync.Entity
import IndexSync.Value.Conversion

/-! Captured changes. -/
namespace IndexSync

/-- What happened to an entity; `unknown` stands for a code that no trigger writes. -/
inductive EventKind
  | insert | update | delete | unknown
  deriving DecidableEq, Repr, Inhabited

namespace EventKind

/-- The kinds that triggers are written for. -/
def captured : List EventKind := [insert, update, delete]

/-- The code in a capture row. It is negative, so that it never meets an id. -/
def code? : EventKind → Option Int
  | insert => some (-3)
  | update => some (-2)
  | delete => some (-1)
  | unknown => none

def name : EventKind → String
  | insert => "INSERT"
  | update => "UPDATE"
  | delete => "DELETE"
  | unknown => "UNKNOWN"

def lowerName : EventKind → String
  | insert => "insert"
  | update => "update"
  | delete => "delete"
  | unknown => "unknown"

def ofInteger (n : Int) : EventKind :=
  (captured.find? (·.code? = some n)).getD unknown

/-- The kind of a raw code. A value that is no integer is an unknown code, save an infinite number,
which cannot be cut to an integer at all. -/
def ofCode (v : Value) : Except Failure EventKind :=
  match v.toInteger with
  | .ok n => .ok (ofInteger n)
  | .error .infiniteNumber => .error (.conversion .infiniteNumber)
  | .error _ => .ok unknown

end EventKind

/-- One captured change: a row read from a capture table. -/
structure CaptureEvent where
  entityType : EntityType
  entityId : Value
  kind : EventKind
  key : Int
  captureTable : String
  deriving Repr

/-- Which entity an event is about. -/
structure Identity where
  type : EntityType
  id : Value
  deriving Repr

/-- Identities are the same when their types are and their ids are the same value. -/
instance : BEq Identity := ⟨fun a b => a.type == b.type && a.id == b.id⟩

def CaptureEvent.identity (e : CaptureEvent) : Identity := ⟨e.entityType, e.entityId⟩

end IndexSync
