import IndexSync.Proofs.Search.Sought

/-!
# Which documents the deletion of an entity takes away

If the id fields of a mapping have different names, what a document holds is encoded by the field that the
entity is sought in. A deletion that is made has looked at every document that was there, so that it has
found those that hold the id, and no others.
-/
namespace IndexSync.Search

/-- A document holds, in this field, what is encoded as the value: the stored value, or a member of it if
it is a list or a set. -/
def IdField.Matches (field : IdField) (value : Value) (doc : Document) : Prop :=
  ∃ stored candidate encoded, doc.get? field.name = some stored ∧
    candidate ∈ Index.candidates stored ∧ field.indexValue candidate = .ok encoded ∧
    (encoded == value) = true

namespace Mapping

/-- A document holds the id of an entity, in the field that the mapping has for its type. -/
def Holds (m : Mapping) (i : Identity) (doc : Document) : Prop :=
  ∃ field value, m.idFieldFor i.type = some field ∧ field.indexValue i.id = .ok value ∧
    field.Matches value doc

/-- The deletion of an entity among the documents of a mapping, by the field that holds its id. -/
def Deletion (m : Mapping) (i : Identity) (c : Change) : Prop :=
  ∃ field value, m.idFieldFor i.type = some field ∧ field.indexValue i.id = .ok value ∧
    c = .delete m.indexedType field.name value

/-- The id fields have different names. -/
def NamesApart (m : Mapping) : Prop := (m.idFields.values.map (·.name)).Nodup

variable {m : Mapping} {i : Identity} {field : IdField}

/-- A field with a name of its own is the one of that name. -/
theorem NamesApart.idFieldNamed (apart : m.NamesApart) (h : m.idFieldFor i.type = some field) :
    m.idFieldNamed field.name = some field := by
  obtain ⟨type, -, hmem⟩ := Entries.mem_of_get? h
  have hfield : field ∈ m.idFields.values := List.mem_map_of_mem hmem
  unfold NamesApart at apart
  unfold Mapping.idFieldNamed
  generalize m.idFields.values = fields at apart hfield
  induction fields with
  | nil => cases hfield
  | cons first rest ih =>
    rw [List.map_cons, List.nodup_cons] at apart
    rcases List.mem_cons.mp hfield with rfl | hrest
    · simp
    · have hne : first.name ≠ field.name := fun same =>
        apart.1 (same ▸ List.mem_map_of_mem hrest)
      rw [List.find?_cons_of_neg (by simpa using hne)]
      exact ih apart.2 hrest

/-- A mapping that has a document which holds an id lists the type. -/
theorem Holds.listed {doc : Document} (h : m.Holds i doc) : m.idFields.has i.type = true := by
  obtain ⟨field, value, hfield, -⟩ := h
  rw [Entries.has, show m.idFields.get? i.type = some field from hfield]
  rfl

end Mapping

namespace Index

variable {ms : Mappings} {m : Mapping} {field : IdField} {value key : Value} {doc : Document}
  {ix after : Index} {type : EntityType} {i : Identity}

/-- A search that does not fail finds a value if there is one. -/
theorem anyMatches_iff {candidates : List Value} {found : Bool}
    (h : anyMatches (some field) value candidates = .ok found) :
    found = true ↔ ∃ candidate ∈ candidates, ∃ encoded, field.indexValue candidate = .ok encoded ∧
      (encoded == value) = true := by
  induction candidates with
  | nil =>
    cases h
    simp
  | cons first rest ih =>
    simp only [anyMatches] at h
    obtain ⟨encoded, hencoded, h⟩ := ok_of_bind h
    rw [List.exists_mem_cons_iff]
    by_cases same : (encoded == value) = true
    · rw [if_pos same] at h
      cases h
      exact iff_of_true rfl (.inl ⟨encoded, hencoded, same⟩)
    · rw [if_neg same] at h
      rw [ih h]
      refine (or_iff_right ?_).symm
      rintro ⟨other, hother, hsame⟩
      cases hencoded.symm.trans hother
      exact same hsame

theorem selects_iff (named : m.idFieldNamed field.name = some field) {found : Bool}
    (h : selects m field.name value doc = .ok found) : found = true ↔ field.Matches value doc := by
  simp only [selects, named] at h
  simp only [IdField.Matches]
  cases hstored : doc.get? field.name with
  | none =>
    rw [hstored] at h
    cases h
    simp
  | some stored =>
    rw [hstored] at h
    rw [anyMatches_iff h]
    simp

/-- A deletion that is made has looked at every document. -/
theorem selects_of_unselected {docs kept : Entries Value Document} {name : String}
    (h : unselected m name value docs = .ok kept) {k : Value} (hmem : (k, doc) ∈ docs) :
    ∃ found, selects m name value doc = .ok found := by
  induction docs generalizing kept with
  | nil => cases hmem
  | cons first rest ih =>
    obtain ⟨l, d⟩ := first
    simp only [unselected] at h
    obtain ⟨doomed, hdoomed, h⟩ := ok_of_bind h
    obtain ⟨others, hothers, -⟩ := ok_of_bind h
    rcases List.mem_cons.mp hmem with heq | hrest
    · cases heq
      exact ⟨doomed, hdoomed⟩
    · exact ih hothers hrest

/-- A deletion takes the documents of its mapping away that match, and leaves the others. -/
theorem get?_of_delete (lawful : ix.Lawful) (hm : m ∈ ms.list)
    (named : m.idFieldNamed field.name = some field)
    (h : ix.apply ms (.delete m.indexedType field.name value) = .ok after) (hkey : key.Hashable) :
    (after.docs type).get? key = some doc ↔
      (ix.docs type).get? key = some doc ∧ (m.indexedType = type → ¬ field.Matches value doc) := by
  have hmapping := Mappings.mappingFor_of_mem hm
  have looked : ∀ k, (k, doc) ∈ ix.docs m.indexedType →
      ∃ found, selects m field.name value doc = .ok found := by
    simp only [apply, hmapping] at h
    obtain ⟨kept, hkept, -⟩ := ok_of_bind h
    exact fun k => selects_of_unselected hkept
  rw [(apply_spec lawful h).2 type key hkey, Change.act, Change.written?, Option.none_or,
    Change.spares_delete type hmapping, Option.filter_eq_some_iff]
  refine and_congr_right fun there => ?_
  by_cases ht : m.indexedType = type
  · subst ht
    obtain ⟨k, -, hmem⟩ := Entries.mem_of_get? there
    obtain ⟨found, hfound⟩ := looked k hmem
    have matching := selects_iff named hfound
    cases found <;> simp_all [selected]
  · simp [ht]

/-- The deletions of an entity take away the documents that hold its id. -/
theorem get?_of_deletions {mapped : List Mapping} {changes : List Change} (lawful : ix.Lawful)
    (hmapped : ∀ n ∈ mapped, n ∈ ms.list ∧ n.NamesApart)
    (each : List.Forall₂ (·.Deletion i) mapped changes)
    (h : applyAll ms changes ix = (.ok (), after)) (hkey : key.Hashable) :
    (after.docs type).get? key = some doc ↔
      (ix.docs type).get? key = some doc ∧ ∀ n ∈ mapped, n.indexedType = type → ¬ n.Holds i doc := by
  induction each generalizing ix with
  | nil =>
    cases h
    simp
  | @cons n c rest others first _ ih =>
    rw [List.forall_mem_cons] at hmapped
    obtain ⟨field, value, hfield, hvalue, rfl⟩ := first
    simp only [applyAll] at h
    split at h
    · rename_i next made
      have one : (next.docs type).get? key = some doc ↔ (ix.docs type).get? key = some doc ∧
          (n.indexedType = type → ¬ field.Matches value doc) :=
        get?_of_delete lawful hmapped.1.1 (hmapped.1.2.idFieldNamed hfield) made hkey
      have holds : n.Holds i doc ↔ field.Matches value doc := by
        constructor
        · rintro ⟨other, sought, hother, hsought, found⟩
          cases hfield.symm.trans hother
          cases hvalue.symm.trans hsought
          exact found
        · exact fun found => ⟨field, value, hfield, hvalue, found⟩
      rw [ih (apply_spec lawful made).1 hmapped.2 h, one, List.forall_mem_cons, holds, and_assoc]
    · cases h

/-- A change leaves the documents of other types alone. -/
theorem docs_of_apply {change : Change} (h : ix.apply ms change = .ok after)
    (apart : change.operation.type ≠ type) : after.docs type = ix.docs type := by
  cases change with
  | write renew t name k d =>
    simp only [apply] at h
    obtain ⟨u, -, h⟩ := ok_of_bind h
    cases h
    change (ix.setDocs t _).docs type = _
    rw [docs_setDocs, if_neg (show ¬ t = type from apart)]
  | delete t name v =>
    rw [docs_delete h]
    refine List.filter_eq_self.mpr fun e _ => ?_
    have apart : t ≠ type := apart
    cases hm : ms.mappingFor t <;> simp [Change.spares, hm, apart]

theorem docs_of_applyAll {changes : List Change} (h : applyAll ms changes ix = (.ok (), after))
    (apart : ∀ change ∈ changes, change.operation.type ≠ type) :
    after.docs type = ix.docs type := by
  induction changes generalizing ix with
  | nil =>
    cases h
    rfl
  | cons change rest ih =>
    rw [List.forall_mem_cons] at apart
    simp only [applyAll] at h
    split at h
    · rename_i next made
      rw [ih h apart.2, docs_of_apply made apart.1]
    · cases h

end Index
end IndexSync.Search
