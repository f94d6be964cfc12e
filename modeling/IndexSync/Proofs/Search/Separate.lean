import IndexSync.Proofs.Search.Changes

/-!
# Mappings that keep to themselves

Each indexed type has the ids of its own entities only, and no indexed type descends from another. A
change of an entity is then about one mapping, and its documents are found by the id that they hold.
-/
namespace IndexSync
open Search

namespace EntityType

theorem self_mem_lineage (t : EntityType) : t ∈ t.lineage := List.mem_cons_self

end EntityType

namespace Search

/-- Mappings of unrelated types, each with the id field of its own type only. -/
structure Mappings.Separate (ms : Mappings) : Prop where
  own : ∀ m ∈ ms.list, ∃ field, m.idFields = [(m.indexedType, field)]
  unrelated : ∀ m ∈ ms.list, ∀ n ∈ ms.list, m.indexedType ∈ n.indexedType.lineage → m = n

namespace Mappings.Separate

variable {ms : Mappings} {m : Mapping}

theorem idFields_eq (h : ms.Separate) (hm : m ∈ ms.list) :
    m.idFields = [(m.indexedType, m.ownIdField)] := by
  obtain ⟨field, hf⟩ := h.own m hm
  have : m.idFields.get? m.indexedType = some field := by simp [hf, Entries.get?]
  rw [hf, Mapping.ownIdField]
  simp [this]

theorem idFieldFor_own (h : ms.Separate) (hm : m ∈ ms.list) :
    m.idFieldFor m.indexedType = some m.ownIdField := by
  rw [Mapping.idFieldFor, h.idFields_eq hm]
  simp [Entries.get?]

theorem idFieldNamed_own (h : ms.Separate) (hm : m ∈ ms.list) :
    m.idFieldNamed m.ownIdField.name = some m.ownIdField := by
  simp [Mapping.idFieldNamed, h.idFields_eq hm, Entries.values]

/-- The mappings that hold ids of a type are those of the type. -/
theorem containing_eq_filter (h : ms.Separate) (type : EntityType) :
    ms.containing type = ms.list.filter fun m => m.indexedType = type := by
  apply List.filter_congr
  intro m hm
  rw [h.idFields_eq hm]
  by_cases ht : m.indexedType = type <;> simp [Entries.has, Entries.get?, ht]

/-- Only the mapping of a type holds ids of the type. -/
theorem containing_eq (h : ms.Separate) (hm : m ∈ ms.list) : ms.containing m.indexedType = [m] := by
  rw [h.containing_eq_filter]
  exact filter_type_eq ms.distinct hm

end Mappings.Separate

/-- A document holds an id of the own type that is encoded as its key. -/
def Mapping.Files (m : Mapping) (key : Value) (doc : Document) (id : Value) : Prop :=
  doc.get? m.ownIdField.name = some id ∧ id.requireKey = .ok () ∧
    m.ownIdField.indexValue id = .ok key

namespace Index

variable {ms : Mappings} {m : Mapping} {key id : Value} {doc : Document}

theorem candidates_of_hashable (h : id.requireKey = .ok ()) : candidates id = [id] := by
  unfold Value.requireKey at h
  cases id <;> first
    | rfl
    | simp [Value.unhashablePart?] at h

/-- Documents are selected by the own field as their keys are by the key. -/
theorem selects_own (named : m.idFieldNamed m.ownIdField.name = some m.ownIdField)
    (files : m.Files key doc id) (v : Value) : selects m m.ownIdField.name v doc = .ok (key == v) := by
  obtain ⟨holds, hashable, encodes⟩ := files
  simp only [selects, holds, named, candidates_of_hashable hashable, anyMatches, encodes]
  cases hv : key == v <;> simp only [bind, Except.bind, hv] <;> rfl

/-- A deletion by the own field takes away what is kept under the key, if the documents hold ids that are
encoded as values that tell their keys apart from it. -/
theorem unselected_own (named : m.idFieldNamed m.ownIdField.name = some m.ownIdField)
    {docs : Entries Value Document} {v : Value} (files : ∀ k doc, (k, doc) ∈ docs →
      ∃ id encoded, m.Files encoded doc id ∧ (encoded == v) = (k == v)) :
    unselected m m.ownIdField.name v docs = .ok (docs.erase v) := by
  induction docs with
  | nil => rfl
  | cons e rest ih =>
    obtain ⟨k, doc⟩ := e
    obtain ⟨id, encoded, hfiles, same⟩ := files k doc List.mem_cons_self
    simp only [unselected, selects_own named hfiles, same,
      ih fun k doc hm => files k doc (List.mem_cons_of_mem _ hm)]
    cases hv : k == v <;> simp [bind, Except.bind, Entries.erase, hv] <;> rfl

/-- A deletion that is made leaves what it does not select. -/
theorem apply_delete (hm : m ∈ ms.list) {ix : Index} {field : String} {v : Value}
    {kept : Entries Value Document} (h : unselected m field v (ix.docs m.indexedType) = .ok kept) :
    ix.apply ms (.delete m.indexedType field v) =
      .ok ((ix.setDocs m.indexedType kept).log (Change.delete m.indexedType field v).operation) := by
  simp only [apply, Mappings.mappingFor_of_mem hm, h]
  rfl

end Index

/-- An encoded id is a text, or the id itself. -/
theorem IdField.indexValue_cases {f : IdField} {id v : Value} (h : f.indexValue id = .ok v) :
    (∃ text, v = .text text) ∨ v = id := by
  unfold indexValue at h
  split at h
  · rename_i encoder _
    cases he : encoder.toIndex id with
    | error e => simp [he, Except.map] at h
    | ok text =>
      simp only [he, Except.map] at h
      cases h
      exact .inl ⟨text, rfl⟩
  · split at h
    · cases h
    · cases h
      exact .inr rfl

theorem IdField.indexValue_hashable {f : IdField} {id v : Value} (hid : id.requireKey = .ok ())
    (h : f.indexValue id = .ok v) : v.requireKey = .ok () := by
  rcases indexValue_cases h with ⟨text, rfl⟩ | rfl
  · rfl
  · exact hid

end Search
end IndexSync
