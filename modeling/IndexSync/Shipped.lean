import IndexSync.Catalog

/-! The classes that can be reached by name without any module of the caller's. -/
namespace IndexSync.Catalog

def bareClass (module name : String) : EntityClass := ⟨.root module name, ⟨none, none⟩⟩

def classMember (module name : String) : List String × Member :=
  ([name], .entity (bareClass module name))

def sourceMember (module : String) (s : TriggerSource) : List String × Member :=
  ([s.className], .source (bareClass module s.className) s)

def sourcesModule : String := "triggersearch.triggers.dialects"
def eventsModule : String := "triggersearch.events.types"
def abstractModule : String := "triggersearch.triggers.base"
def failuresModule : String := "triggersearch.exceptions"

def sourceMembers : List (List String × Member) :=
  [TriggerSource.postgresql, .mysql, .sqlite].map (sourceMember sourcesModule)

def eventMembers : List (List String × Member) :=
  ["CaptureEvent", "EventType"].map (classMember eventsModule)

def abstractMember : List String × Member :=
  (["TriggerSQLSource"], .unmakable (bareClass abstractModule "TriggerSQLSource") .abstractSource)

/-- A member that is no class. -/
def plainMember (name : String) : List String × Member := ([name], .other)

def shipped : Catalog where
  modules := [
    ("triggersearch", eventMembers),
    ("triggersearch.events", plainMember "build_event_models" :: eventMembers),
    (eventsModule, eventMembers),
    (failuresModule, [classMember failuresModule "DispatchError"]),
    ("triggersearch.triggers", abstractMember :: sourceMembers),
    (abstractModule, [abstractMember]),
    (sourcesModule, sourceMembers),
    ("triggersearch.triggers.strategy", [plainMember "plan_statements"])]

/-- The catalog with one more module. -/
def withModule (catalog : Catalog) (name : String) (members : List (List String × Member)) :
    Catalog :=
  { catalog with modules := (name, members) :: catalog.modules }

end IndexSync.Catalog
