import IndexSync.Entries
import IndexSync.Failure
import IndexSync.Value

/-! Entities and their types. A type may have several bases, so its ancestors stand in the order in which
they are searched. -/
namespace IndexSync

/-- Refuses a value that cannot be a key. -/
def Value.requireKey (v : Value) : Except Failure Unit :=
  match v.unhashablePart? with
  | some part => .error (.unhashable part)
  | none => .ok ()

/-- A type of entities, with all its ancestors in the order of search. The name is the one inside the
module, with the names of enclosing types before it. -/
structure EntityType where
  module : String
  name : String
  ancestors : List EntityType
  deriving Repr, Inhabited

namespace EntityType

mutual

def decEq : (t u : EntityType) → Decidable (t = u)
  | ⟨m, n, ts⟩, ⟨m', n', us⟩ =>
    if named : m = m' ∧ n = n' then
      match decEqAll ts us with
      | isTrue same => isTrue (by rw [named.1, named.2, same])
      | isFalse other => isFalse fun same => other (EntityType.mk.inj same).2.2
    else isFalse fun same => named ⟨(EntityType.mk.inj same).1, (EntityType.mk.inj same).2.1⟩

def decEqAll : (ts us : List EntityType) → Decidable (ts = us)
  | [], [] => isTrue rfl
  | [], _ :: _ => isFalse nofun
  | _ :: _, [] => isFalse nofun
  | t :: ts, u :: us =>
    match decEq t u, decEqAll ts us with
    | isTrue first, isTrue rest => isTrue (by rw [first, rest])
    | isFalse other, _ => isFalse fun same => other (List.cons.inj same).1
    | _, isFalse other => isFalse fun same => other (List.cons.inj same).2

end

instance : DecidableEq EntityType := decEq

def fullName (t : EntityType) : String := t.module ++ "." ++ t.name

/-- The type and its ancestors, in the order of search. -/
def lineage (t : EntityType) : List EntityType := t :: t.ancestors

/-- A type without a base. -/
def root (module name : String) : EntityType := ⟨module, name, []⟩

/-- A type with one base. -/
def derived (base : EntityType) (module name : String) : EntityType := ⟨module, name, base.lineage⟩

@[simp] theorem head?_lineage (t : EntityType) : t.lineage.head? = some t := rfl

end EntityType

/-- A snapshot of one entity. -/
structure Entity where
  type : EntityType
  attributes : Entries String Value
  deriving Repr

def Entity.attribute (e : Entity) (name : String) : Except Failure Value :=
  match e.attributes.get? name with
  | some v => .ok v
  | none => .error (.noAttribute e.type.name name)

/-- A document of the index: values by field. -/
abbrev Document := Entries String Value

end IndexSync
