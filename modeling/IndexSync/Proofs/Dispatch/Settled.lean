import IndexSync.Proofs.Dispatch.Planned
import IndexSync.Proofs.Search.Filed

/-!
# What a net change makes of a document

With mappings that keep to themselves, and answers that are right about them, a net change leads to one
change at most. It sets the document of its entity or takes it away.
-/
namespace IndexSync
open Search

/-- Answers that are right about mapped types: for a plain id there is no entity, or one whose mapping is
that of the type and whose document holds the id in its own field. -/
def Faithful (ms : Mappings) (answers : Identity → Option Entity) : Prop :=
  ∀ m ∈ ms.list, ∀ id : Value, id.isPlain → ∀ e, answers ⟨m.indexedType, id⟩ = some e →
    ms.mappingFor e.type = some m ∧
      ∃ doc, m.buildDocument e = .ok doc ∧ doc.get? m.ownIdField.name = some id

/-- Answers are right if every entity derives from no other mapped type than the one it is asked for by. -/
theorem faithful_of_alone {ms : Mappings} {answers : Identity → Option Entity}
    (h : ∀ m ∈ ms.list, ∀ id : Value, id.isPlain → ∀ e, answers ⟨m.indexedType, id⟩ = some e →
      m.indexedType ∈ e.type.lineage ∧ (∀ n ∈ ms.list, n.indexedType ∈ e.type.lineage → n = m) ∧
        ∃ doc, m.buildDocument e = .ok doc ∧ doc.get? m.ownIdField.name = some id) :
    Faithful ms answers := by
  intro m hm id plain e he
  obtain ⟨is, alone, holds⟩ := h m hm id plain e he
  exact ⟨Mappings.mappingFor_of_alone hm is alone, holds⟩

namespace Dispatch

variable {ms : Mappings} {answers : Identity → Option Entity} {i : Identity} {kind : EventKind}
  {changes : List Change}

/-- The document that an entity is to have after an event. -/
def shown (ms : Mappings) (answers : Identity → Option Entity) (i : Identity) (kind : EventKind) :
    Option Document :=
  if kind = .insert || kind = .update then
    (answers i).bind fun e => (ms.mappingFor e.type).bind fun m => (m.buildDocument e).toOption
  else none

/-- The document of an entity is kept under a key of a type. -/
def keyed (ms : Mappings) (type : EntityType) (key : Value) (i : Identity) : Bool :=
  match ms.find? i.type with
  | none => false
  | some m =>
    match m.ownIdField.indexValue i.id with
    | .ok k => decide (i.type = type) && k == key
    | .error _ => false

/-- What a net change makes of the document under a key. -/
def settled (ms : Mappings) (answers : Identity → Option Entity) (type : EntityType) (key : Value)
    (old : Option Document) (change : Identity × EventKind) : Option Document :=
  if keyed ms type key change.1 then shown ms answers change.1 change.2 else old

/-- The id of an entity can be encoded, if its type is mapped. -/
def Encodable (ms : Mappings) (i : Identity) : Prop :=
  ∀ m ∈ ms.list, m.indexedType = i.type → ∃ k, m.ownIdField.indexValue i.id = .ok k

theorem asks_delete {m : Mapping} (separate : ms.Separate) (hm : m ∈ ms.list)
    (ht : m.indexedType = i.type) (hid : i.id.isPlain) :
    (∀ k, m.ownIdField.indexValue i.id = .ok k →
        ∃ c, Asks ms (.delete m i) (some c) ∧ m.Sets k c none) ∧
      ∀ c, Asks ms (.delete m i) c → ∃ k, m.ownIdField.indexValue i.id = .ok k := by
  have hrequest : deleteRequest m i =
      (m.ownIdField.indexValue i.id).map fun k =>
        some (.delete m.indexedType m.ownIdField.name k) := by
    simp only [deleteRequest, ← ht, separate.idFieldFor_own hm]
    cases m.ownIdField.indexValue i.id <;> rfl
  constructor
  · intro k hk
    rw [hk] at hrequest
    exact ⟨_, .delete hrequest rfl, .delete (IdField.indexValue_isPlain hid hk)⟩
  · intro c asks
    cases hk : m.ownIdField.indexValue i.id with
    | ok k => exact ⟨k, rfl⟩
    | error f =>
      rw [hk] at hrequest
      cases asks with
      | skip request => cases hrequest.symm.trans request
      | delete request => cases hrequest.symm.trans request

theorem asks_stage {m : Mapping} (faithful : Faithful ms answers)
    (hm : m ∈ ms.list) (ht : m.indexedType = i.type) (hid : i.id.isPlain) {e : Entity}
    (he : answers i = some e) (kind : EventKind) :
    ∃ doc, ((ms.mappingFor e.type).bind fun m => (m.buildDocument e).toOption) = some doc ∧
      (∀ k, m.ownIdField.indexValue i.id = .ok k →
        ∃ c, Asks ms (.stage (if kind = .insert then .index e else .update e)) (some c) ∧
          m.Sets k c (some doc)) ∧
      ∀ c, Asks ms (.stage (if kind = .insert then .index e else .update e)) c →
        ∃ k, m.ownIdField.indexValue i.id = .ok k := by
  obtain ⟨type, id⟩ := i
  obtain rfl : m.indexedType = type := ht
  obtain ⟨hmapping, doc, hdoc, holds⟩ := faithful m hm id hid e he
  have hwrite (renew : Bool) : Transaction.writeChange ms renew e =
      (m.ownIdField.indexValue id).map fun k =>
        some (.write renew m.indexedType m.ownIdField.name k doc) := by
    simp only [Transaction.writeChange, hmapping, hdoc, bind, Except.bind, holds, Option.getD_some]
    cases m.ownIdField.indexValue id <;> rfl
  have hrequest : ∃ renew,
      Transaction.requestChange ms (if kind = .insert then .index e else .update e) =
        Transaction.writeChange ms renew e := by
    split
    · exact ⟨false, rfl⟩
    · exact ⟨true, rfl⟩
  obtain ⟨renew, hrequest⟩ := hrequest
  rw [hwrite] at hrequest
  refine ⟨doc, ?_, fun k hk => ?_, fun c asks => ?_⟩
  · rw [hmapping, Option.bind_some, hdoc]
    rfl
  · rw [show m.ownIdField.indexValue id = .ok k from hk] at hrequest
    exact ⟨_, .stage hrequest, .write hid ⟨holds, Value.hashable_of_isPlain hid, hk⟩⟩
  · cases hk : m.ownIdField.indexValue id with
    | ok k => exact ⟨k, rfl⟩
    | error f =>
      rw [hk] at hrequest
      cases asks with
      | stage change => cases hrequest.symm.trans change

/-- A net change of a mapped type comes to one task, which sets the document of the entity if its id can
be encoded. -/
theorem follow_spec {m : Mapping} (separate : ms.Separate) (faithful : Faithful ms answers)
    (hm : m ∈ ms.list) (ht : m.indexedType = i.type) (hid : i.id.isPlain) (kind : EventKind) :
    ∃ task, follow ms i kind (answers i) = [task] ∧ (∀ j other, task ≠ .settle j other) ∧
      (∀ k, m.ownIdField.indexValue i.id = .ok k →
        ∃ c, Asks ms task (some c) ∧ m.Sets k c (shown ms answers i kind)) ∧
      ∀ c, Asks ms task c → ∃ k, m.ownIdField.indexValue i.id = .ok k := by
  have hcontaining : ms.containing i.type = [m] := ht ▸ separate.containing_eq hm
  have hdeletions : deletions ms i = [.delete m i] := by rw [deletions, hcontaining]; rfl
  simp only [follow, hcontaining, List.isEmpty_cons, Bool.false_eq_true, if_false, shown]
  split
  · cases he : answers i with
    | none => exact ⟨_, hdeletions, by simp, asks_delete separate hm ht hid⟩
    | some e =>
      obtain ⟨doc, hdoc, hasks⟩ := asks_stage faithful hm ht hid he kind
      rw [Option.bind_some, hdoc]
      exact ⟨_, rfl, by simp, hasks⟩
  · exact ⟨_, hdeletions, by simp, asks_delete separate hm ht hid⟩

theorem follow_unmapped (separate : ms.Separate) (unmapped : ∀ m ∈ ms.list, m.indexedType ≠ i.type)
    (kind : EventKind) : follow ms i kind (answers i) = [] := by
  have hcontaining : ms.containing i.type = [] := by
    rw [separate.containing_eq_filter, List.filter_eq_nil_iff]
    intro m hm
    simpa using unmapped m hm
  rw [follow, hcontaining]
  rfl

/-- A net change for an id that can be encoded leads to a change. -/
theorem exists_leads_settle (separate : ms.Separate) (faithful : Faithful ms answers)
    (hid : i.id.isPlain) (encodable : Encodable ms i) (kind : EventKind) :
    ∃ changes, Leads ms answers [.settle i kind] changes := by
  by_cases mapped : ∃ m ∈ ms.list, m.indexedType = i.type
  · obtain ⟨m, hm, ht⟩ := mapped
    obtain ⟨k, hk⟩ := encodable m hm ht
    obtain ⟨task, hfollow, -, hsets, -⟩ := follow_spec separate faithful hm ht hid kind
    obtain ⟨c, asks, -⟩ := hsets k hk
    refine ⟨[c], leads_settle_iff.mpr ?_⟩
    rw [hfollow]
    exact leads_ask asks
  · have unmapped : ∀ m ∈ ms.list, m.indexedType ≠ i.type := fun m hm ht => mapped ⟨m, hm, ht⟩
    refine ⟨[], leads_settle_iff.mpr ?_⟩
    rw [follow_unmapped separate unmapped]
    exact .nil

/-- A net change is made, and settles the document under each key. -/
theorem applyAll_settle (separate : ms.Separate) (faithful : Faithful ms answers)
    (hid : i.id.isPlain) (h : Leads ms answers [.settle i kind] changes) {ix : Index}
    (lawful : ix.Lawful) (filed : ix.Filed ms) :
    Encodable ms i ∧ ∃ after, Index.applyAll ms changes ix = (.ok (), after) ∧ after.Lawful ∧
      after.Filed ms ∧ ∀ type key, key.Hashable → (after.docs type).get? key =
        settled ms answers type key ((ix.docs type).get? key) (i, kind) := by
  have all := leads_settle_iff.mp h
  by_cases mapped : ∃ m ∈ ms.list, m.indexedType = i.type
  · obtain ⟨m, hm, ht⟩ := mapped
    obtain ⟨task, hfollow, hask, hsets, hencodes⟩ :=
      follow_spec separate faithful hm ht hid kind
    rw [hfollow] at all
    obtain ⟨c, asks, rfl⟩ := all.of_ask hask
    obtain ⟨k, hk⟩ := hencodes c asks
    obtain ⟨made, asks', sets⟩ := hsets k hk
    obtain rfl := asks.unique asks'
    obtain ⟨after, happly, lawful', filed', hafter⟩ :=
      sets.apply_spec separate hm lawful filed
    have encodable : Encodable ms i := by
      intro n hn htn
      obtain rfl : m = n :=
        separate.unrelated m hm n hn (htn ▸ ht ▸ EntityType.self_mem_lineage m.indexedType)
      exact ⟨k, hk⟩
    refine ⟨encodable, after, ?_, lawful', filed', fun type key hkey => ?_⟩
    · rw [Option.toList_some, Index.applyAll, happly]
      rfl
    · have hkeyed : keyed ms type key i = (decide (i.type = type) && k == key) := by
        rw [keyed, ← ht, Mappings.find?_of_mem hm]
        simp only [hk]
      rw [hafter type key hkey, settled, hkeyed, ← ht]
      by_cases htype : m.indexedType = type <;> simp [htype]
  · have unmapped : ∀ m ∈ ms.list, m.indexedType ≠ i.type := fun m hm ht => mapped ⟨m, hm, ht⟩
    rw [follow_unmapped separate unmapped] at all
    cases all
    refine ⟨fun m hm ht => absurd ht (unmapped m hm), ix, rfl, lawful, filed, fun type key _ => ?_⟩
    have hfind : ms.find? i.type = none := by
      rw [Mappings.find?, List.find?_eq_none]
      intro m hm
      simpa using unmapped m hm
    rw [settled, keyed, hfind]
    rfl

theorem exists_leads_settling {net : Entries Identity EventKind} (separate : ms.Separate)
    (faithful : Faithful ms answers) (plain : ∀ e ∈ net, e.1.id.isPlain)
    (encodable : ∀ e ∈ net, Encodable ms e.1) : ∃ changes, Leads ms answers (settling net) changes := by
  induction net with
  | nil => exact ⟨[], .nil⟩
  | cons entry rest ih =>
    rw [List.forall_mem_cons] at plain encodable
    obtain ⟨first, hfirst⟩ :=
      exists_leads_settle separate faithful plain.1 encodable.1 entry.2
    obtain ⟨others, hothers⟩ := ih plain.2 encodable.2
    exact ⟨first ++ others, hfirst.append hothers⟩

/-- Net changes are made one after the other. -/
theorem applyAll_settling {net : Entries Identity EventKind} (separate : ms.Separate)
    (faithful : Faithful ms answers) (plain : ∀ e ∈ net, e.1.id.isPlain)
    (h : Leads ms answers (settling net) changes) {ix : Index} (lawful : ix.Lawful)
    (filed : ix.Filed ms) :
    (∀ e ∈ net, Encodable ms e.1) ∧
      ∃ after, Index.applyAll ms changes ix = (.ok (), after) ∧ after.Lawful ∧ after.Filed ms ∧
        ∀ type key, key.Hashable → (after.docs type).get? key =
          net.foldl (settled ms answers type key) ((ix.docs type).get? key) := by
  induction net generalizing changes ix with
  | nil =>
    cases h
    exact ⟨by simp, ix, rfl, lawful, filed, fun _ _ _ => rfl⟩
  | cons entry rest ih =>
    rw [List.forall_mem_cons] at plain
    obtain ⟨first, others, rfl, hfirst, hothers⟩ :=
      Leads.split (show Leads ms answers ([.settle entry.1 entry.2] ++ settling rest) changes from h)
    obtain ⟨encodable, between, hmade, lawful', filed', hbetween⟩ :=
      applyAll_settle separate faithful plain.1 hfirst lawful filed
    obtain ⟨encodable', after, hmade', lawful'', filed'', hafter⟩ :=
      ih plain.2 hothers lawful' filed'
    refine ⟨List.forall_mem_cons.mpr ⟨encodable, encodable'⟩, after, ?_, lawful'', filed'',
      fun type key hkey => ?_⟩
    · rw [Index.applyAll_append hmade]
      exact hmade'
    · rw [hafter type key hkey, hbetween type key hkey]
      rfl

end Dispatch
end IndexSync
