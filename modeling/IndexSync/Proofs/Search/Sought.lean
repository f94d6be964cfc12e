import IndexSync.Capture.Event
import IndexSync.Proofs.Search.Documents
import IndexSync.Proofs.Search.Separate

/-!
# The documents that the deletion of an entity finds

The deletion of an entity is asked of every mapping that lists the type of the entity. It looks in the field
of that type for the id as that field encodes it. What is stored there is encoded by the first id field of
that name, which can be the field of another type.
-/
namespace IndexSync.Search

namespace Mappings

variable {ms : Mappings} {m n : Mapping}

theorem mem_of_mappingFor {type : EntityType} (h : ms.mappingFor type = some m) : m ∈ ms.list := by
  obtain ⟨t, -, ht⟩ := List.exists_of_findSome?_eq_some h
  exact List.mem_of_find?_eq_some ht

theorem eq_of_indexedType (hm : m ∈ ms.list) (hn : n ∈ ms.list)
    (same : m.indexedType = n.indexedType) : m = n := by
  have found := find?_of_mem hm
  rw [same, find?_of_mem hn] at found
  exact (Option.some.inj found).symm

/-- One of the deletions of an entity. -/
def Seeks (ms : Mappings) (i : Identity) (c : Change) : Prop :=
  ∃ m ∈ ms.list, ∃ field value, m.idFieldFor i.type = some field ∧
    field.indexValue i.id = .ok value ∧ c = .delete m.indexedType field.name value

end Mappings

namespace Mapping

/-- The deletion of an entity takes a document of this mapping away. -/
def Finds (m : Mapping) (i : Identity) (doc : Document) : Prop :=
  ∃ field value, m.idFieldFor i.type = some field ∧ field.indexValue i.id = .ok value ∧
    Index.selects m field.name value doc = .ok true

/-- The id of an entity is sought in the own id field, and the first field of that name encodes it
alike. -/
def Traces (m : Mapping) (i : Identity) : Prop :=
  ∃ field value first encoded, m.idFieldFor i.type = some field ∧
    field.indexValue i.id = .ok value ∧ field.name = m.ownIdField.name ∧
    m.idFieldNamed m.ownIdField.name = some first ∧ first.indexValue i.id = .ok encoded ∧
    (encoded == value) = true

theorem Traces.finds {m : Mapping} {i : Identity} {doc : Document} (traces : m.Traces i)
    (hid : i.id.Hashable) (holds : doc.get? m.ownIdField.name = some i.id) : m.Finds i doc := by
  obtain ⟨field, value, first, encoded, hfield, hvalue, hname, hfirst, hencoded, same⟩ := traces
  refine ⟨field, value, hfield, hvalue, ?_⟩
  simp only [Index.selects, hname, holds, hfirst, Index.candidates_of_hashable hid,
    Index.anyMatches, hencoded, bind, Except.bind, same, if_true]
  rfl

/-- A type that is listed under the own id field is traced, unless another field of that name comes
first. -/
theorem traces_of_own_field {m : Mapping} {i : Identity} {value : Value}
    (listed : m.idFieldFor i.type = some m.ownIdField)
    (first : m.idFieldNamed m.ownIdField.name = some m.ownIdField)
    (hvalue : m.ownIdField.indexValue i.id = .ok value) (self : (value == value) = true) :
    m.Traces i :=
  ⟨_, _, _, _, listed, hvalue, rfl, first, hvalue, self⟩

end Mapping

/-- The document that is written for an entity, if any, is taken away by its deletion. -/
def Mappings.TakesBack (ms : Mappings) (i : Identity) (e : Entity) : Prop :=
  ∀ m doc, ms.containing i.type ≠ [] → ms.mappingFor e.type = some m →
    m.buildDocument e = .ok doc → m.Finds i doc

namespace Mappings

variable {ms : Mappings} {m : Mapping} {i : Identity} {e : Entity}

/-- Nothing has to be taken back where nothing is written. -/
theorem takesBack_of_unmapped (h : ms.containing i.type = [] ∨ ms.mappingFor e.type = none) :
    ms.TakesBack i e := by
  intro m doc listed hm _
  rcases h with h | h
  · exact absurd h listed
  · rw [h] at hm
    cases hm

/-- What is written is one document. -/
theorem takesBack_iff {doc : Document} (listed : ms.containing i.type ≠ [])
    (hm : ms.mappingFor e.type = some m) (hdoc : m.buildDocument e = .ok doc) :
    ms.TakesBack i e ↔ m.Finds i doc := by
  constructor
  · exact fun takes => takes m doc listed hm hdoc
  · intro found n other _ hn hother
    cases hm.symm.trans hn
    cases hdoc.symm.trans hother
    exact found

theorem takesBack_of_traces (hid : i.id.Hashable)
    (traces : ∀ m, ms.mappingFor e.type = some m → m.Traces i ∧
      ∀ doc, m.buildDocument e = .ok doc → doc.get? m.ownIdField.name = some i.id) :
    ms.TakesBack i e := fun m doc _ hm hdoc =>
  (traces m hm).1.finds hid ((traces m hm).2 doc hdoc)

end Mappings

namespace Index

variable {ms : Mappings} {m : Mapping} {i : Identity} {ix after : Index} {changes : List Change}

theorem selected_iff {field : String} {value : Value} {doc : Document} :
    selected m field value doc = true ↔ selects m field value doc = .ok true := by
  unfold selected
  cases selects m field value doc <;> simp

/-- The first document of an index is the only one. -/
theorem docs_write {renew : Bool} {t : EntityType} {field : String} {key : Value} {doc : Document}
    (nothing : ∀ type, ix.docs type = [])
    (h : applyAll ms [.write renew t field key doc] ix = (.ok (), after)) (type : EntityType) :
    after.docs type = if t = type then [(key, doc)] else [] := by
  simp only [applyAll, apply] at h
  cases hkey : key.requireKey with
  | error f =>
    rw [hkey] at h
    cases h
  | ok u =>
    rw [hkey] at h
    cases h
    change (ix.setDocs t _).docs type = _
    rw [docs_setDocs, nothing t, nothing type]
    rfl

theorem docs_delete {t : EntityType} {field : String} {value : Value}
    (h : ix.apply ms (.delete t field value) = .ok after) (type : EntityType) :
    after.docs type =
      (ix.docs type).filter fun e => (Change.delete t field value).spares ms type e.2 := by
  simp only [apply] at h
  cases hm : ms.mappingFor t with
  | none =>
    rw [hm] at h
    cases h
    simp [Change.spares, hm]
  | some m =>
    rw [hm] at h
    obtain ⟨kept, hkept, h⟩ := ok_of_bind h
    cases h
    change (ix.setDocs t kept).docs type = _
    rw [docs_setDocs, unselected_eq_filter hkept, Change.spares_delete type hm]
    by_cases ht : t = type
    · subst ht
      simp
    · simp [ht]

/-- Deletions leave the documents that each of them spares. -/
theorem docs_deletions (deletions : ∀ c ∈ changes, ms.Seeks i c)
    (h : applyAll ms changes ix = (.ok (), after)) (type : EntityType) :
    after.docs type = (ix.docs type).filter fun e => changes.all (·.spares ms type e.2) := by
  induction changes generalizing ix with
  | nil =>
    cases h
    simp
  | cons c rest ih =>
    rw [List.forall_mem_cons] at deletions
    obtain ⟨n, -, field, value, -, -, rfl⟩ := deletions.1
    simp only [applyAll] at h
    split at h
    · rename_i next made
      rw [ih deletions.2 h, docs_delete made, List.filter_filter]
      simp only [List.all_cons, Bool.and_comm]
    · cases h

/-- The deletions of an entity spare a document that none of them finds. -/
theorem spared_iff (hm : m ∈ ms.list) (sought : ∀ c, c ∈ changes ↔ ms.Seeks i c) {doc : Document} :
    changes.all (·.spares ms m.indexedType doc) = true ↔ ¬ m.Finds i doc := by
  rw [List.all_eq_true]
  constructor
  · rintro spared ⟨field, value, hfield, hvalue, found⟩
    have spares := spared _ ((sought _).mpr ⟨m, hm, field, value, hfield, hvalue, rfl⟩)
    rw [Change.spares_delete _ (Mappings.mappingFor_of_mem hm)] at spares
    simp [selected_iff.mpr found] at spares
  · intro unfound c hc
    obtain ⟨n, hn, field, value, hfield, hvalue, rfl⟩ := (sought c).mp hc
    rw [Change.spares_delete _ (Mappings.mappingFor_of_mem hn)]
    by_cases same : n.indexedType = m.indexedType
    · obtain rfl := Mappings.eq_of_indexedType hn hm same
      have missed : ¬ selected n field.name value doc = true := fun found =>
        unfound ⟨field, value, hfield, hvalue, selected_iff.mp found⟩
      simp [missed]
    · simp [same]

end Index
end IndexSync.Search
