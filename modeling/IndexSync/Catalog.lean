import IndexSync.Capture.Model
import IndexSync.Text.Blank
import IndexSync.Text.Split
import IndexSync.Trigger.Source

/-! What can be reached by name: the classes of entities and of trigger sources in their modules. -/
namespace IndexSync

/-- What a class says about its table: the name of its table object and the table name it
declares. Either may be anything. -/
structure TableHints where
  tableObject : Option Value
  declared : Option Value
  deriving Repr

/-- A usable table name: a text with something in it. -/
def TableHints.usable? : Option Value → Option String
  | some (.text name) => if name.isEmpty then none else some name
  | _ => none

def TableHints.tableName? (h : TableHints) : Option String :=
  (usable? h.tableObject).or (usable? h.declared)

structure EntityClass where
  type : EntityType
  hints : TableHints
  deriving Repr

/-- What a name can stand for. -/
inductive Member
  | entity (c : EntityClass)
  | source (c : EntityClass) (source : TriggerSource)
  /-- A class of sources that fails to make one. -/
  | unmakable (c : EntityClass) (failure : Failure)
  /-- A name that fails when it is looked up. -/
  | failing (failure : Failure)
  | other

def Member.class? : Member → Option EntityClass
  | entity c | source c _ | unmakable c _ => some c
  | failing _ | other => none

def Member.failure? : Member → Option Failure
  | failing f => some f
  | _ => none

/-- Members by module and by the path of names inside it, and the modules that fail when they are
imported. -/
structure Catalog where
  modules : List (String × List (List String × Member))
  failing : List (String × Failure) := []

namespace Catalog

/-- The member under a path. -/
def member? (catalog : Catalog) (module : String) (path : List String) : Option Member :=
  (catalog.modules.lookup module).bind (·.lookup path)

/-- The failure that is met on the way to a path: that of the module, or of a name on the path. -/
def obstacle? (catalog : Catalog) (module : String) (path : List String) : Option Failure :=
  (catalog.failing.lookup module).or
    ((List.range (path.length + 1)).findSome? fun n =>
      (catalog.member? module (path.take n)).bind (·.failure?))

/-- Looks up a path. A module name that starts with a dot is relative to nothing. A failure to find an
attribute is a failure to find the path. -/
def find? (catalog : Catalog) (module : String) (path : List String) :
    Except Failure (Option Member) :=
  if module.startsWith "." then .error .relativeReference
  else
    match catalog.obstacle? module path with
    | some f => if f.isAttribute then .ok none else .error f
    | none => .ok (catalog.member? module path)

/-- The module and the path of names that a reference gives: a colon stands between them, or else
the last dot. -/
def splitReference? (reference : String) : Option (String × String) :=
  (Text.cutText? ":" reference).or (Text.cutLastText? '.' reference)

/-- The class that `package.module:Class` or `package.module.Class` refers to. -/
def resolveEntity (catalog : Catalog) (reference : String) : Except Failure EntityClass :=
  match splitReference? (Text.trim reference) with
  | none => .error (.reference (.malformed reference))
  | some (module, path) =>
    if module.isEmpty || path.isEmpty then .error (.reference (.malformed reference))
    else do
      match ← catalog.find? module (Text.splitText "." path) with
      | none => .error (.reference (.unresolved reference))
      | some member =>
        match member.class? with
        | some c => return c
        | none => .error (.reference (.notAClass reference))

end Catalog
end IndexSync
