import IndexSync.Proofs.Convergence.Registry

/-!
# Changes of single entities

In an index whose documents all stand under the keys of their entities, a change that is made for one
entity sets the document of that entity and of no other, and cannot fail.
-/
namespace IndexSync
open Search

/-- The type and the key that a change is about. -/
def Search.Change.target : Change → EntityType × Value
  | .write _ type _ key _ => (type, key)
  | .delete type _ value => (type, value)

/-- The document that a change leaves. -/
def Search.Change.result : Change → Option Document
  | .write _ _ _ _ doc => some doc
  | .delete .. => none

namespace Registry

variable (R : Registry)

/-- The document of an entity in the index. -/
def cell (ix : Index) (i : Identity) : Option Document := (ix.docs i.type).get? (R.key i)

/-- A document with the id of the entity in its own field. -/
def Carries (i : Identity) (doc : Document) : Prop :=
  ∀ m ∈ R.mappings.list, m.indexedType = i.type → doc.get? m.ownIdField.name = some i.id

/-- The keys of some documents are those of known entities of a type. -/
def Keyed (type : EntityType) (docs : Entries Value Document) : Prop :=
  ∀ k doc, (k, doc) ∈ docs → ∃ i, R.Known i ∧ i.type = type ∧ k = R.key i ∧ R.Carries i doc

/-- All documents of watched types are kept under the keys of their entities. -/
def Tidy (ix : Index) : Prop := ∀ w ∈ R.poller.models, R.Keyed w.entityType (ix.docs w.entityType)

/-- A change that sets the document of one entity, or takes it away. -/
inductive Sets (i : Identity) : Change → Option Document → Prop
  | write {m : Mapping} {renew : Bool} {doc : Document} (mem : m ∈ R.mappings.list)
    (type : m.indexedType = i.type) (carries : R.Carries i doc) :
    Sets i (.write renew m.indexedType m.ownIdField.name (R.key i) doc) (some doc)
  | delete {m : Mapping} (mem : m ∈ R.mappings.list) (type : m.indexedType = i.type) :
    Sets i (.delete m.indexedType m.ownIdField.name (R.key i)) none

variable {R} {i j : Identity} {type : EntityType} {docs : Entries Value Document}

theorem Keyed.put (h : R.Keyed type docs) (hi : R.Known i) (ht : i.type = type) {doc : Document}
    (hc : R.Carries i doc) : R.Keyed type (docs.put (R.key i) doc) := by
  intro k b hm
  rcases Entries.mem_put hm with hold | ⟨rfl, rfl | ⟨hk, c, hold⟩⟩
  · exact h k b hold
  · exact ⟨i, hi, ht, rfl, hc⟩
  · obtain ⟨j, hj, hjt, rfl, -⟩ := h k c hold
    obtain rfl := (hj.key_same_iff hi (hjt.trans ht.symm)).mp hk
    exact ⟨j, hj, hjt, rfl, hc⟩

theorem Keyed.erase (h : R.Keyed type docs) (v : Value) : R.Keyed type (docs.erase v) :=
  fun k doc hm => h k doc (List.mem_filter.mp hm).1

theorem Known.key_differs (hi : R.Known i) (hj : R.Known j) (ht : i.type = j.type) (hne : i ≠ j) :
    (R.key i == R.key j) = false :=
  Bool.eq_false_iff.mpr fun hk => hne ((hi.key_same_iff hj ht).mp hk)

theorem Keyed.apart (h : R.Keyed type docs) (hi : R.Known i) (hj : R.Known j)
    (ht : i.type = type) (htj : j.type = type) (hne : i ≠ j) :
    ∀ e ∈ docs, (e.1 == R.key i) = true → (e.1 == R.key j) = false := by
  rintro ⟨k, doc⟩ hm hk
  obtain ⟨l, hl, hlt, rfl, -⟩ := h k doc hm
  obtain rfl := (hl.key_same_iff hi (hlt.trans ht.symm)).mp hk
  exact hi.key_differs hj (ht.trans htj.symm) hne

theorem Known.files {m : Mapping} (hm : m ∈ R.mappings.list) (hi : R.Known i)
    (ht : m.indexedType = i.type) {doc : Document} (hc : R.Carries i doc) :
    m.Files (R.key i) doc i.id :=
  ⟨hc m hm ht, R.hashable _ _ hi.2, indexValue_key hm hi ht⟩

theorem unselected_eq {m : Mapping} (hm : m ∈ R.mappings.list) (h : R.Keyed m.indexedType docs)
    (v : Value) : Index.unselected m m.ownIdField.name v docs = .ok (docs.erase v) := by
  refine Index.unselected_own (R.separate.idFieldNamed_own hm) fun k doc hmem => ?_
  obtain ⟨i, hi, hit, rfl, hc⟩ := h k doc hmem
  exact ⟨i.id, R.key i, hi.files hm hit.symm hc, rfl⟩

theorem Tidy.keyed {ix : Index} (tidy : R.Tidy ix) (hi : R.Known i) :
    R.Keyed i.type (ix.docs i.type) := by
  obtain ⟨⟨w, hw, ht⟩, -⟩ := hi
  exact ht ▸ tidy w hw

/-- New documents of one type leave the documents of all other types alone. -/
theorem Tidy.setDocs {ix : Index} (tidy : R.Tidy ix) (h : R.Keyed type docs) (op : Operation) :
    R.Tidy ((ix.setDocs type docs).log op) := by
  intro w hw
  change R.Keyed w.entityType ((ix.setDocs type docs).docs w.entityType)
  rw [Index.docs_setDocs]
  split
  · rename_i ht
    exact ht ▸ h
  · exact tidy w hw

theorem cell_setDocs (ix : Index) (op : Operation) :
    R.cell ((ix.setDocs type docs).log op) j =
      if type = j.type then docs.get? (R.key j) else R.cell ix j := by
  change ((ix.setDocs type docs).docs j.type).get? (R.key j) = _
  rw [Index.docs_setDocs]
  split <;> rfl

/-- A change for one entity is made, and sets the document of that entity alone. -/
theorem Sets.apply_spec {change : Change} {d : Option Document} {ix : Index}
    (h : R.Sets i change d) (hi : R.Known i) (tidy : R.Tidy ix) :
    ∃ after, ix.apply R.mappings change = .ok after ∧ R.Tidy after ∧ R.cell after i = d ∧
      ∀ j, R.Known j → i ≠ j → R.cell after j = R.cell ix j := by
  have keyed := tidy.keyed hi
  cases h with
  | @write m renew doc hm ht carries =>
    refine ⟨(ix.setDocs i.type ((ix.docs i.type).put (R.key i) doc)).log
      (Change.write renew m.indexedType m.ownIdField.name (R.key i) doc).operation, ?_, ?_, ?_, ?_⟩
    · simp only [Index.apply, hi.key_hashable, ht]
      rfl
    · exact tidy.setDocs (keyed.put hi rfl carries) _
    · rw [cell_setDocs, if_pos rfl]
      exact Entries.get?_put_same ((hi.key_same_iff hi rfl).mpr rfl) ..
    · intro j hj hne
      rw [cell_setDocs]
      split
      · rename_i htj
        rw [cell, ← htj]
        exact Entries.get?_put_apart (hi.key_differs hj htj hne)
          (keyed.apart hi hj rfl htj.symm hne) _
      · rfl
  | @delete m hm ht =>
    refine ⟨(ix.setDocs i.type ((ix.docs i.type).erase (R.key i))).log
      (Change.delete m.indexedType m.ownIdField.name (R.key i)).operation, ?_, ?_, ?_, ?_⟩
    · rw [Index.apply_delete hm (unselected_eq hm (ht ▸ keyed) _), ht]
    · exact tidy.setDocs (keyed.erase _) _
    · rw [cell_setDocs, if_pos rfl]
      exact Entries.get?_erase_self ..
    · intro j hj hne
      rw [cell_setDocs]
      split
      · rename_i htj
        rw [cell, ← htj]
        exact Entries.get?_erase_apart (keyed.apart hi hj rfl htj.symm hne)
      · rfl

theorem Sets.target_eq {change : Change} {d : Option Document} (h : R.Sets i change d) :
    change.target = (i.type, R.key i) := by
  cases h with
  | write _ ht _ => rw [← ht]; rfl
  | delete _ ht => rw [← ht]; rfl

theorem Sets.result_eq {change : Change} {d : Option Document} (h : R.Sets i change d) :
    change.result = d := by
  cases h <;> rfl

theorem Sets.unique {change : Change} {d d' : Option Document} (h : R.Sets i change d)
    (h' : R.Sets j change d') (hi : R.Known i) (hj : R.Known j) : i = j := by
  obtain ⟨ht, hk⟩ := Prod.mk.inj (h.target_eq.symm.trans h'.target_eq)
  refine (hi.key_same_iff hj ht).mp ?_
  rw [← hk]
  exact (hi.key_same_iff hi rfl).mpr rfl

/-- Changes that each set the document of one entity are all made. What was right for an entity stays
right, and what was not becomes right with a change for it, if all changes for it are right. -/
theorem applyAll_sets (changes : List Change) {ix : Index} (tidy : R.Tidy ix)
    (sets : ∀ change ∈ changes, ∃ i d, R.Known i ∧ R.Sets i change d) :
    (Index.applyAll R.mappings changes ix).1 = .ok () ∧
      R.Tidy (Index.applyAll R.mappings changes ix).2 ∧
      ∀ i, R.Known i → ∀ Right : Option Document → Prop,
        (∀ change ∈ changes, ∀ d, R.Sets i change d → Right d) →
        (Right (R.cell ix i) ∨ ∃ change ∈ changes, ∃ d, R.Sets i change d) →
        Right (R.cell (Index.applyAll R.mappings changes ix).2 i) := by
  induction changes generalizing ix with
  | nil =>
    refine ⟨rfl, tidy, fun i _ Right _ hr => ?_⟩
    rcases hr with hr | ⟨change, hm, -⟩
    · exact hr
    · cases hm
  | cons change rest ih =>
    obtain ⟨i, d, hi, hset⟩ := sets change List.mem_cons_self
    obtain ⟨next, happly, tidy', hcell, hothers⟩ := hset.apply_spec hi tidy
    obtain ⟨hok, htidy, hright⟩ := ih tidy' fun c hc => sets c (List.mem_cons_of_mem _ hc)
    simp only [Index.applyAll, happly]
    refine ⟨hok, htidy, fun j hj Right all hr => ?_⟩
    refine hright j hj Right (fun c hc => all c (List.mem_cons_of_mem _ hc)) ?_
    by_cases hij : i = j
    · subst hij
      exact .inl (hcell ▸ all change List.mem_cons_self d hset)
    · rw [hothers j hj hij]
      rcases hr with hr | ⟨c, hc, d', hd'⟩
      · exact .inl hr
      · rcases List.mem_cons.mp hc with rfl | hc
        · exact absurd (hset.unique hd' hi hj) hij
        · exact .inr ⟨c, hc, d', hd'⟩

end Registry
end IndexSync
