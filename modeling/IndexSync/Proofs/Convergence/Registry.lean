import IndexSync.Poller.Tick
import IndexSync.Proofs.Search.Separate

/-!
# Types that are watched and indexed one by one

Each indexed type has the ids of its own entities only and a capture table of its own, no indexed type
descends from another, and the ids of different entities are encoded differently.
-/
namespace IndexSync
open Search

/-- A poller with the mappings that it works for, and the ids that entities can have. -/
structure Registry where
  poller : Poller
  mappings : Mappings
  ids : EntityType → Value → Prop
  own : ∀ m ∈ mappings.list, ∃ field, m.idFields = [(m.indexedType, field)]
  unrelated : ∀ m ∈ mappings.list, ∀ n ∈ mappings.list,
    m.indexedType ∈ n.indexedType.lineage → m = n
  mapped : ∀ w ∈ poller.models, ∃ m ∈ mappings.list, m.indexedType = w.entityType
  tables : (poller.models.map (·.captureTable)).Nodup
  types : (poller.models.map (·.entityType)).Nodup
  same : ∀ type a b, ids type a → ids type b → ((a == b) = true ↔ a = b)
  hashable : ∀ type a, ids type a → a.requireKey = .ok ()
  encoded : ∀ m ∈ mappings.list, ∀ a, ids m.indexedType a → ∃ v, m.ownIdField.indexValue a = .ok v
  injective : ∀ m ∈ mappings.list, ∀ a b v w, ids m.indexedType a → ids m.indexedType b →
    m.ownIdField.indexValue a = .ok v → m.ownIdField.indexValue b = .ok w →
    ((v == w) = true ↔ a = b)

namespace Registry

variable (R : Registry)

/-- An entity of a watched type, there or not, by an id that it can have. -/
def Known (i : Identity) : Prop := (∃ w ∈ R.poller.models, w.entityType = i.type) ∧ R.ids i.type i.id

/-- The key under which the document of an entity is kept. -/
def key (i : Identity) : Value :=
  match R.mappings.find? i.type with
  | some m => (m.ownIdField.indexValue i.id).toOption.getD .null
  | none => .null

variable {R} {i j : Identity}

theorem Known.same_iff (hi : R.Known i) (hj : R.Known j) : (i == j) = true ↔ i = j := by
  obtain ⟨t, a⟩ := i
  obtain ⟨u, b⟩ := j
  change (t == u && a == b) = true ↔ _
  rw [Bool.and_eq_true, beq_iff_eq, Identity.mk.injEq]
  constructor
  · rintro ⟨rfl, hab⟩
    exact ⟨rfl, (R.same t a b hi.2 hj.2).mp hab⟩
  · rintro ⟨rfl, rfl⟩
    exact ⟨rfl, (R.same t a a hi.2 hi.2).mpr rfl⟩

theorem Known.mapping (hi : R.Known i) : ∃ m ∈ R.mappings.list, m.indexedType = i.type := by
  obtain ⟨⟨w, hw, ht⟩, -⟩ := hi
  obtain ⟨m, hm, hmt⟩ := R.mapped w hw
  exact ⟨m, hm, hmt.trans ht⟩

theorem separate (R : Registry) : R.mappings.Separate := ⟨R.own, R.unrelated⟩

theorem indexValue_key {m : Mapping} (hm : m ∈ R.mappings.list) (hi : R.Known i)
    (ht : m.indexedType = i.type) : m.ownIdField.indexValue i.id = .ok (R.key i) := by
  obtain ⟨v, hv⟩ := R.encoded m hm i.id (ht ▸ hi.2)
  unfold key
  rw [← ht, Mappings.find?_of_mem hm]
  simp [hv, Except.toOption]

/-- Keys of one type are the same only if they are keys of one entity. -/
theorem Known.key_same_iff (hi : R.Known i) (hj : R.Known j) (ht : i.type = j.type) :
    (R.key i == R.key j) = true ↔ i = j := by
  obtain ⟨m, hm, hmt⟩ := hi.mapping
  have hinj := R.injective m hm i.id j.id _ _ (hmt ▸ hi.2) (hmt.trans ht ▸ hj.2)
    (indexValue_key hm hi hmt) (indexValue_key hm hj (hmt.trans ht))
  rw [hinj]
  obtain ⟨t, a⟩ := i
  obtain ⟨u, b⟩ := j
  simp only at ht
  simp [ht]

theorem Known.key_hashable (hi : R.Known i) : (R.key i).requireKey = .ok () := by
  obtain ⟨m, hm, hmt⟩ := hi.mapping
  exact IdField.indexValue_hashable (R.hashable _ _ hi.2) (indexValue_key hm hi hmt)

end Registry
end IndexSync
