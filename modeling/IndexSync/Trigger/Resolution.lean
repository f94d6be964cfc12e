import IndexSync.Catalog
import IndexSync.Text.Lower

/-! Trigger sources by reference. -/
namespace IndexSync.Trigger

/-- A reference to a source: a dialect or import path, a class, or a source that is at hand. A
path may be absent. -/
inductive SourceReference
  | path (text : Option String)
  | known (m : Member)
  | instance (source : TriggerSource)

/-- The sources that have names of their own. -/
def shippedSources : List (String × TriggerSource) :=
  [("postgresql", .postgresql), ("postgres", .postgresql), ("mysql", .mysql),
    ("mariadb", .mysql), ("sqlite", .sqlite)]

/-- The source that a member makes. -/
def sourceOf (otherwise : TriggerError) : Member → Except Failure TriggerSource
  | .source _ source => .ok source
  | .unmakable _ f => .error f
  | _ => .error (.trigger otherwise)

/-- The member that an import path names. -/
def findMember (catalog : Catalog) (name : String) : Except Failure (Option Member) :=
  match Catalog.splitReference? name with
  | none => .ok none
  | some (module, path) =>
    if module.isEmpty || path.isEmpty then .ok none
    else do
      match ← catalog.find? module [path] with
      | some member => return some member
      | none => .error (.trigger (.sourceNotFound name))

def resolvePath (catalog : Catalog) (text : Option String) : Except Failure TriggerSource :=
  match text.bind Text.nonBlank? with
  | none => .error (.trigger .noSource)
  | some name =>
    match shippedSources.lookup (Text.lower name) with
    | some source => .ok source
    | none => do
      match ← findMember catalog name with
      | some member => sourceOf (.notASourceClass name) member
      | none => .error (.trigger (.notASourceClass name))

/-- The source that a reference stands for. -/
def resolveSource (catalog : Catalog) : SourceReference → Except Failure TriggerSource
  | .path text => resolvePath catalog text
  | .known m => sourceOf (.notASource ((m.class?.map (·.type.name)).getD "")) m
  | .instance source => .ok source

end IndexSync.Trigger
