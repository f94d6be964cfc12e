import IndexSync.Proofs.Search.Documents
import IndexSync.Proofs.Search.Separate

/-!
# Documents under the ids that they hold

Where mappings keep to themselves, a change that is made for an id sets the document under the encoded
id, or takes it away, and no other.
-/
namespace IndexSync
namespace Search

/-- The document of each mapped type is kept under the encoded id that it holds. -/
def Index.Filed (ms : Mappings) (ix : Index) : Prop :=
  ∀ m ∈ ms.list, ∀ k doc, (k, doc) ∈ ix.docs m.indexedType →
    ∃ id, id.isPlain ∧ m.Files k doc id

variable {ms : Mappings} {m : Mapping} {ix : Index}

theorem IdField.indexValue_isPlain {f : IdField} {id k : Value} (hid : id.isPlain)
    (h : f.indexValue id = .ok k) : k.isPlain := by
  rcases indexValue_cases h with ⟨text, rfl⟩ | rfl
  · rfl
  · exact hid

/-- New documents of a mapped type that are filed leave the others filed. -/
theorem Index.Filed.setDocs (filed : ix.Filed ms) (separate : ms.Separate) (hm : m ∈ ms.list)
    {docs : Entries Value Document}
    (hdocs : ∀ k doc, (k, doc) ∈ docs → ∃ id, id.isPlain ∧ m.Files k doc id) (op : Operation) :
    ((ix.setDocs m.indexedType docs).log op).Filed ms := by
  intro n hn k doc hmem
  change (k, doc) ∈ (ix.setDocs m.indexedType docs).docs n.indexedType at hmem
  rw [docs_setDocs] at hmem
  split at hmem
  · rename_i htype
    obtain rfl : m = n :=
      separate.unrelated m hm n hn (htype ▸ EntityType.self_mem_lineage m.indexedType)
    exact hdocs k doc hmem
  · exact filed n hn k doc hmem

theorem Index.filed_empty (ms : Mappings) : Index.empty.Filed ms :=
  fun _ _ _ _ h => absurd h List.not_mem_nil

/-- A change that sets the document under one key of a mapping, or takes it away. -/
inductive Mapping.Sets (m : Mapping) (k : Value) : Change → Option Document → Prop
  | write {renew : Bool} {doc : Document} {id : Value} (plain : id.isPlain)
      (files : m.Files k doc id) :
      Sets m k (.write renew m.indexedType m.ownIdField.name k doc) (some doc)
  | delete (plain : k.isPlain) : Sets m k (.delete m.indexedType m.ownIdField.name k) none

/-- Such a change is made, and sets the document under that key alone. -/
theorem Mapping.Sets.apply_spec {k : Value} {c : Change} {d : Option Document}
    (h : m.Sets k c d) (separate : ms.Separate) (hm : m ∈ ms.list) (lawful : ix.Lawful)
    (filed : ix.Filed ms) :
    ∃ after, ix.apply ms c = .ok after ∧ after.Lawful ∧ after.Filed ms ∧
      ∀ type key, key.Hashable → (after.docs type).get? key =
        if m.indexedType = type ∧ (k == key) = true then d else (ix.docs type).get? key := by
  have docsOf (docs : Entries Value Document) (op : Operation) (type : EntityType) :
      ((ix.setDocs m.indexedType docs).log op).docs type =
        if m.indexedType = type then docs else ix.docs type := Index.docs_setDocs ..
  cases h with
  | @write renew doc id plain files =>
    have hplain : k.isPlain := IdField.indexValue_isPlain plain files.2.2
    have hk : k.Hashable := Value.hashable_of_isPlain hplain
    have made : ix.apply ms (.write renew m.indexedType m.ownIdField.name k doc) =
        .ok ((ix.setDocs m.indexedType ((ix.docs m.indexedType).put k doc)).log
          (Change.write renew m.indexedType m.ownIdField.name k doc).operation) := by
      have hkey : k.requireKey = .ok () := hk
      rw [Index.apply, hkey]
      rfl
    refine ⟨_, made, (Index.apply_spec lawful made).1, ?_, fun type key hkey => ?_⟩
    · refine filed.setDocs separate hm (fun l d hmem => ?_) _
      rcases Entries.mem_put hmem with hold | ⟨rfl, rfl | ⟨hl, old, hold⟩⟩
      · exact filed m hm l d hold
      · exact ⟨id, plain, files⟩
      · obtain ⟨other, hother, hfiles⟩ := filed m hm l old hold
        have hlplain : l.isPlain := IdField.indexValue_isPlain hother hfiles.2.2
        obtain rfl := (Value.beq_iff_eq_of_isPlain hlplain hplain).mp hl
        exact ⟨id, plain, files⟩
    · rw [docsOf]
      by_cases ht : m.indexedType = type
      · subst ht
        simp only [if_true, (lawful _).get?_put hk hkey, true_and]
      · simp only [ht, if_false, false_and]
  | delete plain =>
    have hk : k.Hashable := Value.hashable_of_isPlain plain
    have kept := Index.unselected_own (separate.idFieldNamed_own hm) (v := k) fun l d hmem => by
      obtain ⟨id, -, files⟩ := filed m hm l d hmem
      exact ⟨id, l, files, rfl⟩
    have made := Index.apply_delete hm kept
    refine ⟨_, made, (Index.apply_spec lawful made).1, ?_, fun type key hkey => ?_⟩
    · exact filed.setDocs separate hm
        (fun l d hmem => filed m hm l d (List.mem_filter.mp hmem).1) _
    · rw [docsOf]
      by_cases ht : m.indexedType = type
      · subst ht
        simp only [if_true, (lawful _).get?_erase hk hkey, true_and]
      · simp only [ht, if_false, false_and]

end Search

end IndexSync
