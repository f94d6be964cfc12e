import IndexSync.Entity
import IndexSync.Search.Encoder

/-! Which documents the index holds: for each indexed type, the entity types whose changes touch its
documents and the fields that hold their ids. -/
namespace IndexSync.Search

/-- The documents of one indexed type. Without a document builder the named attributes are
copied. -/
structure Mapping where
  indexedType : EntityType
  idFields : Entries EntityType IdField
  fields : List String
  document : Option (Entity → Except Failure Document)
  name : String
  /-- The indexed type itself has an id field. -/
  mapped : (idFields.get? indexedType).isSome

namespace Mapping

/-- A mapping with an empty name is called after its type. -/
def create (indexedType : EntityType) (idFields : Entries EntityType IdField)
    (fields : List String) (document : Option (Entity → Except Failure Document))
    (name : String) : Except Failure Mapping :=
  if h : (idFields.get? indexedType).isSome then
    .ok ⟨indexedType, idFields, fields, document,
      if name.isEmpty then indexedType.name else name, h⟩
  else .error (.mapping (.noOwnField indexedType.name))

def ownIdField (m : Mapping) : IdField :=
  (m.idFields.get? m.indexedType).get m.mapped

def idFieldFor (m : Mapping) (type : EntityType) : Option IdField :=
  m.idFields.get? type

def copyFields (names : List String) (e : Entity) : Except Failure Document :=
  names.foldlM (fun doc name => do return doc.put name (← e.attribute name)) []

/-- A document builder that reads attributes, each into a field of its own name. -/
def builderOf (fields : List (String × String)) (e : Entity) : Except Failure Document :=
  fields.foldlM (fun doc (field, name) => do return doc.put field (← e.attribute name)) []

/-- The document of an entity. It always holds the own id field. -/
def buildDocument (m : Mapping) (e : Entity) : Except Failure Document := do
  let doc ← match m.document with
    | some build => build e
    | none => copyFields m.fields e
  if doc.has m.ownIdField.name then return doc
  else return doc.put m.ownIdField.name (← e.attribute m.ownIdField.name)

/-- The first id field of that name. -/
def idFieldNamed (m : Mapping) (name : String) : Option IdField :=
  m.idFields.values.find? (·.name = name)

end Mapping

/-- The mappings of an index in the order of registration, one for each indexed type. -/
structure Mappings where
  list : List Mapping
  distinct : (list.map (·.indexedType)).Nodup

namespace Mappings

def empty : Mappings := ⟨[], List.nodup_nil⟩

def add (ms : Mappings) (m : Mapping) : Except Failure Mappings :=
  if h : m.indexedType ∈ ms.list.map (·.indexedType) then
    .error (.mapping (.mappedTwice m.indexedType.name))
  else .ok ⟨ms.list ++ [m], by
    simpa [List.nodup_append, ms.distinct] using fun a ha he => h (List.mem_map.2 ⟨a, ha, he⟩)⟩

def ofList (list : List Mapping) : Except Failure Mappings :=
  list.foldlM add empty

def find? (ms : Mappings) (type : EntityType) : Option Mapping :=
  ms.list.find? (·.indexedType = type)

/-- The mapping of the type, or of its nearest ancestor that has one. -/
def mappingFor (ms : Mappings) (type : EntityType) : Option Mapping :=
  type.lineage.findSome? ms.find?

/-- The mappings whose documents hold ids of the type. -/
def containing (ms : Mappings) (type : EntityType) : List Mapping :=
  ms.list.filter (·.idFields.has type)

def unencoded (m : Mapping) : Option MappingError :=
  m.idFields.findSome? fun (type, field) =>
    if field.type = .string && field.encoder.isNone then
      some (.unencodedFieldOf m.name field.name type.name)
    else none

/-- Refuses fields of texts that have no encoder. -/
def validate (ms : Mappings) : Except Failure Unit :=
  match ms.list.findSome? unencoded with
  | some e => .error (.mapping e)
  | none => .ok ()

end Mappings
end IndexSync.Search
