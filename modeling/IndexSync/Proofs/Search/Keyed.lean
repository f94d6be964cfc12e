import IndexSync.Proofs.Search.Serial
import IndexSync.Proofs.Search.Sought
import Mathlib.Data.List.Permutation

/-!
# Documents under their own keys

A document is kept under the key that was found when it was staged. Whatever transactions do, in whatever
order, and whether their commits go through or break off, the id that it holds is encoded as that key. So there
is one document for each encoded id, and a deletion by the own id field meets that document.
-/
namespace IndexSync.Search

namespace Mapping

variable {m : Mapping} {key k : Value} {doc : Document} {id : Value}

/-- A document holds an id of the own type that is encoded as this key, or as a value that is the same. -/
def Belongs (m : Mapping) (key : Value) (doc : Document) : Prop :=
  ∃ id encoded, m.Files encoded doc id ∧ (encoded == key) = true

theorem Files.hashable (h : m.Files key doc id) : key.Hashable := IdField.indexValue_hashable h.2.1 h.2.2

/-- An id is encoded in one way. -/
theorem Belongs.same (h : m.Belongs key doc) (h' : m.Belongs k doc) (hkey : key.Hashable) (hk : k.Hashable) :
    (key == k) = true := by
  obtain ⟨id, encoded, files, same⟩ := h
  obtain ⟨id', encoded', files', same'⟩ := h'
  cases files.1.symm.trans files'.1
  cases files.2.2.symm.trans files'.2.2
  rwa [← Value.beq_congr files.hashable hkey hk same]

theorem Belongs.congr (h : m.Belongs key doc) (hkey : key.Hashable) (hk : k.Hashable)
    (same : (key == k) = true) : m.Belongs k doc := by
  obtain ⟨id, encoded, files, hencoded⟩ := h
  exact ⟨id, encoded, files, Value.beq_trans files.hashable hkey hk hencoded same⟩

/-- Nothing but the own id field has its name. -/
def OwnNameAlone (m : Mapping) : Prop :=
  ∀ field ∈ m.idFields.values, field.name = m.ownIdField.name → field = m.ownIdField

theorem ownIdField_mem (m : Mapping) : m.ownIdField ∈ m.idFields.values := by
  obtain ⟨type, -, hmem⟩ := Entries.mem_of_get? (Option.some_get m.mapped).symm
  exact List.mem_map_of_mem hmem

theorem OwnNameAlone.idFieldNamed (alone : m.OwnNameAlone) :
    m.idFieldNamed m.ownIdField.name = some m.ownIdField := by
  cases hfound : m.idFieldNamed m.ownIdField.name with
  | none =>
    have missing := List.find?_eq_none.mp hfound _ m.ownIdField_mem
    simp at missing
  | some field =>
    rw [alone field (List.mem_of_find?_eq_some hfound) (by simpa using List.find?_some hfound)]

/-- A document that is built holds a value in the own id field. -/
theorem own_of_buildDocument {e : Entity} (h : m.buildDocument e = .ok doc) :
    ∃ id, doc.get? m.ownIdField.name = some id := by
  have filled {built : Document} (h : (if built.has m.ownIdField.name then (.ok built : Except Failure Document)
      else (e.attribute m.ownIdField.name).bind fun v => .ok (built.put m.ownIdField.name v)) = .ok doc) :
      ∃ id, doc.get? m.ownIdField.name = some id := by
    split at h
    · rename_i there
      cases h
      exact Option.isSome_iff_exists.mp there
    · obtain ⟨v, -, h⟩ := ok_of_bind h
      cases h
      exact ⟨v, Entries.get?_put_self ..⟩
  unfold buildDocument at h
  cases hbuilder : m.document with
  | none =>
    rw [hbuilder] at h
    obtain ⟨built, -, h⟩ := ok_of_bind h
    exact filled h
  | some build =>
    rw [hbuilder] at h
    obtain ⟨built, -, h⟩ := ok_of_bind h
    exact filled h

end Mapping

/-- What is written for an entity holds an id. -/
def Request.Identified (ms : Mappings) : Request → Prop
  | .index e | .update e => ∀ m doc id, ms.mappingFor e.type = some m → m.buildDocument e = .ok doc →
      doc.get? m.ownIdField.name = some id → id.isId
  | .delete .. => True

/-- A document is written under the key that belongs to it. -/
def Change.Keyed (ms : Mappings) : Change → Prop
  | .write _ type _ key doc => ∃ m ∈ ms.list, type = m.indexedType ∧ key.Hashable ∧ m.Belongs key doc
  | .delete .. => True

theorem Transaction.keyed_of_request {ms : Mappings} {r : Request} (identified : r.Identified ms) {c : Change}
    (h : requestChange ms r = .ok (some c)) : c.Keyed ms := by
  have write {renew : Bool} {e : Entity} (identified : (Request.index e).Identified ms)
      (h : writeChange ms renew e = .ok (some c)) : c.Keyed ms := by
    obtain ⟨m, doc, key, hm, hdoc, hkey, rfl⟩ := writeChange_eq_some h
    obtain ⟨id, hid⟩ := Mapping.own_of_buildDocument hdoc
    have isId := identified m doc id hm hdoc hid
    rw [hid, Option.getD_some] at hkey
    have files : m.Files key doc id := ⟨hid, Value.hashable_of_isId isId, hkey⟩
    have self : (key == key) = true := by
      rcases IdField.indexValue_cases hkey with ⟨text, rfl⟩ | rfl
      · exact Value.beq_self_of_isId rfl
      · exact Value.beq_self_of_isId isId
    exact ⟨m, Mappings.mem_of_mappingFor hm, rfl, files.hashable, id, key, files, self⟩
  cases r with
  | index e => exact write identified h
  | update e => exact write identified h
  | delete type field value =>
    cases h
    trivial

namespace Index

variable {ms : Mappings} {m : Mapping} {ix after : Index} {c : Change} {key k : Value} {doc : Document}

/-- The documents of each mapped type are kept under the keys that belong to them, and no two keys are the
same. -/
structure Keyed (ms : Mappings) (ix : Index) : Prop where
  lawful : ix.Lawful
  belongs : ∀ m ∈ ms.list, ∀ k doc, (k, doc) ∈ ix.docs m.indexedType → m.Belongs k doc

theorem keyed_empty (ms : Mappings) : empty.Keyed ms :=
  ⟨lawful_empty, fun _ _ _ _ h => absurd h List.not_mem_nil⟩

/-- A change that is made keeps every document under its key. -/
theorem Keyed.apply (h : ix.Keyed ms) (hc : c.Keyed ms) (made : ix.apply ms c = .ok after) :
    after.Keyed ms := by
  refine ⟨(apply_spec h.lawful made).1, fun m hm k doc hmem => ?_⟩
  cases c with
  | write renew type field key d =>
    obtain ⟨n, hn, rfl, hkey, belongs⟩ := hc
    simp only [Index.apply] at made
    obtain ⟨u, -, made⟩ := ok_of_bind made
    cases made
    change (k, doc) ∈ (ix.setDocs n.indexedType _).docs m.indexedType at hmem
    rw [docs_setDocs] at hmem
    split at hmem
    case isFalse => exact h.belongs m hm k doc hmem
    case isTrue same =>
      obtain rfl := Mappings.eq_of_indexedType hn hm same
      rcases Entries.mem_put hmem with hold | ⟨rfl, rfl | ⟨hk, old, hold⟩⟩
      · exact h.belongs n hn k doc hold
      · exact belongs
      · -- the entry keeps its key, which is the same as the new one
        have hhash := (h.lawful n.indexedType).hashable _ hold
        exact belongs.congr hkey hhash (Value.beq_comm hhash hkey ▸ hk)
  | delete type field value =>
    rw [docs_delete made] at hmem
    exact h.belongs m hm k doc (List.mem_filter.mp hmem).1

/-- Changes keep every document under its key, also if one of them fails. -/
theorem Keyed.applyAll {changes : List Change} (h : ix.Keyed ms) (hc : ∀ c ∈ changes, c.Keyed ms) :
    (applyAll ms changes ix).2.Keyed ms := by
  induction changes generalizing ix with
  | nil => exact h
  | cons c rest ih =>
    rw [List.forall_mem_cons] at hc
    simp only [Index.applyAll]
    split
    · rename_i next made
      exact ih (h.apply hc.1 made) hc.2
    · exact h

/-- The documents of a mapping as their readers find them, one for each encoded id. -/
structure OneEach (m : Mapping) (ix : Index) : Prop where
  /-- A document is kept under the key that the id in it is encoded as. -/
  kept : ∀ k doc, (k, doc) ∈ ix.docs m.indexedType → m.Belongs k doc
  /-- No two keys in use are the same. -/
  apart : (ix.docs m.indexedType).Pairwise fun a b => (a.1 == b.1) = false
  /-- Under a key is the document that belongs there, if there is one. -/
  found : ∀ key doc, key.Hashable → (ix.get? m.indexedType key = .ok (some doc) ↔
    doc ∈ ix.list m.indexedType ∧ m.Belongs key doc)
  /-- No two documents belong under one key. -/
  one : (ix.list m.indexedType).Pairwise fun a b =>
    ∀ key, key.Hashable → m.Belongs key a → ¬ m.Belongs key b
  /-- As many documents are counted as there are. -/
  counted : ix.count m.indexedType = (ix.list m.indexedType).length

theorem get?_of_hashable (ix : Index) (type : EntityType) (hkey : key.Hashable) :
    ix.get? type key = .ok ((ix.docs type).get? key) := by
  rw [get?, show key.requireKey = .ok () from hkey]
  rfl

theorem Keyed.oneEach (h : ix.Keyed ms) (hm : m ∈ ms.list) : ix.OneEach m := by
  have belongs := h.belongs m hm
  obtain ⟨hashable, apart⟩ := h.lawful m.indexedType
  refine ⟨belongs, apart, fun key doc hkey => ?_, ?_, (List.length_map _).symm⟩
  · rw [get?_of_hashable ix _ hkey, Except.ok.injEq]
    constructor
    · intro hget
      obtain ⟨k, hk, hmem⟩ := Entries.mem_of_get? hget
      exact ⟨List.mem_map_of_mem hmem, (belongs k doc hmem).congr (hashable _ hmem) hkey hk⟩
    · rintro ⟨hlist, hbelongs⟩
      obtain ⟨⟨k, d⟩, hmem, rfl⟩ := List.mem_map.mp hlist
      have same := (belongs k d hmem).same hbelongs (hashable _ hmem) hkey
      exact (h.lawful m.indexedType).get?_of_mem hmem hkey same
  · refine List.pairwise_map.mpr (apart.imp_of_mem fun {a b} ha hb differ key hkey hforA hforB => ?_)
    have hka := (belongs a.1 a.2 ha).same hforA (hashable a ha) hkey
    have hkb := hforB.same (belongs b.1 b.2 hb) hkey (hashable b hb)
    rw [Value.beq_trans (hashable a ha) hkey (hashable b hb) hka hkb] at differ
    cases differ

/-- A deletion by the own id field takes away what is under the key. -/
theorem Keyed.delete (h : ix.Keyed ms) (hm : m ∈ ms.list) (alone : m.OwnNameAlone) (hkey : key.Hashable) :
    ix.apply ms (.delete m.indexedType m.ownIdField.name key) =
      .ok ((ix.setDocs m.indexedType ((ix.docs m.indexedType).erase key)).log
        (Change.delete m.indexedType m.ownIdField.name key).operation) := by
  refine apply_delete hm (unselected_own alone.idFieldNamed fun k doc hmem => ?_)
  obtain ⟨id, encoded, files, same⟩ := h.belongs m hm k doc hmem
  exact ⟨id, encoded, files,
    Value.beq_congr files.hashable ((h.lawful m.indexedType).hashable _ hmem) hkey same⟩

end Index

namespace Backend

variable {ms : Mappings} {cs : List Call}

theorem mem_of_since {id : Nat} {life : List Call} (h : since id cs = some life) {c : Call} (hc : c ∈ life) :
    c ∈ cs := by
  fun_induction since id cs with
  | case1 => cases h
  | case2 first rest hbegin =>
    cases h
    exact List.mem_cons_of_mem _ hc
  | case3 first rest hbegin id ih => exact List.mem_cons_of_mem _ (ih h)
  | case4 id first rest hbegin ih => exact List.mem_cons_of_mem _ (ih h)

/-- What a transaction makes was staged in it. -/
theorem exists_request_of_mem_changesOf {id : Nat} {c : Change} (h : c ∈ changesOf ms id cs) :
    ∃ r, .stage id r ∈ cs ∧ Transaction.requestChange ms r = .ok (some c) := by
  obtain ⟨call, hcall, hc⟩ := List.mem_flatMap.mp h
  have there : call ∈ cs := by
    cases hs : since id cs with
    | none =>
      rw [hs] at hcall
      cases hcall
    | some life =>
      rw [hs] at hcall
      exact mem_of_since hs ((List.takeWhile_prefix _).subset hcall)
  cases call with
  | stage i r =>
    simp only [Call.changes] at hc
    split at hc
    · rename_i change hr
      split at hc
      · rename_i hi
        cases hi
        exact ⟨r, there, by rw [hr, Option.mem_toList.mp hc]⟩
      · cases hc
    · cases hc
  | _ => cases hc

/-- What all changes of transactions keep is kept by any calls. -/
theorem serial_induction {P : Index → Prop} {ix : Index} (first : P ix)
    (next : ∀ ix id, P ix → P (Index.applyAll ms (changesOf ms id cs) ix).2) : P (serial ms cs ix) := by
  unfold serial
  generalize committed cs = ids
  induction ids generalizing ix with
  | nil => exact first
  | cons id ids ih => exact ih (next ix id first)

theorem keyed_afterCalls (identified : ∀ id r, .stage id r ∈ cs → r.Identified ms) :
    (afterCalls ms .empty cs).index.Keyed ms := by
  rw [show Backend.empty = ⟨.empty, []⟩ from rfl, (follows_afterCalls ms .empty cs).index]
  refine serial_induction (Index.keyed_empty ms) fun ix id keyed => keyed.applyAll fun c hc => ?_
  obtain ⟨r, hr, made⟩ := exists_request_of_mem_changesOf hc
  exact Transaction.keyed_of_request (identified id r hr) made

/-- A transaction of one deletion. -/
def deleteOne (ms : Mappings) (type : EntityType) (field : String) (value : Value) : Action Backend Unit := do
  let id ← begin
  stage ms id (.delete type field value)
  commit ms id

theorem deleteOne_eq {b : Backend} {type : EntityType} {field : String} {value : Value} {after : Index}
    (made : b.index.apply ms (.delete type field value) = .ok after) :
    deleteOne ms type field value b = (.ok (), ⟨after, b.transactions ++ [⟨[], true⟩]⟩) := by
  have opened : ((begin b).2.transaction b.transactions.length).closed = false := by
    rw [transaction_begin]
    rfl
  have staged : stage ms b.transactions.length (.delete type field value) (begin b).2 =
      (.ok (), ⟨b.index, b.transactions ++ [⟨[.delete type field value], false⟩]⟩) := by
    rw [stage_of_request opened rfl, transaction_begin]
    simp [setTransaction, begin, Transaction.fresh]
  have committed : commit ms b.transactions.length
      ⟨b.index, b.transactions ++ [⟨[.delete type field value], false⟩]⟩ =
        (.ok (), ⟨after, b.transactions ++ [⟨[], true⟩]⟩) := by
    simp [commit, transaction, setTransaction, Index.applyAll, made]
  change (stage ms b.transactions.length (.delete type field value) >>= fun _ =>
    commit ms b.transactions.length) (begin b).2 = _
  rw [Action.bind_apply, staged]
  exact committed

/-- Documents sit under their own keys. After any calls on any number of transactions that write documents with
ids, failed commits among them, the documents of each mapping are kept one for each encoded id. If nothing else
has the name of the own id field, a deletion by it takes away the document under that key, and no other. -/
theorem oneEach_afterCalls (ms : Mappings) (cs : List Call)
    (identified : ∀ id r, .stage id r ∈ cs → r.Identified ms) :
    let b := afterCalls ms .empty cs
    ∀ m ∈ ms.list, b.index.OneEach m ∧
      (m.OwnNameAlone → ∀ key, key.Hashable →
        ∃ after, deleteOne ms m.indexedType m.ownIdField.name key b = (.ok (), after) ∧
          (∀ type, after.index.docs type =
            if m.indexedType = type then (b.index.docs type).erase key else b.index.docs type) ∧
          ∀ k, k.Hashable → after.index.get? m.indexedType k =
            if (key == k) = true then .ok none else b.index.get? m.indexedType k) := by
  intro b m hm
  have keyed : b.index.Keyed ms := keyed_afterCalls identified
  refine ⟨keyed.oneEach hm, fun alone key hkey => ⟨_, deleteOne_eq (keyed.delete hm alone hkey), ?_, ?_⟩⟩
  · intro type
    change (b.index.setDocs m.indexedType _).docs type = _
    rw [Index.docs_setDocs]
    split
    · rename_i same
      rw [same]
    · rfl
  · intro k hk
    rw [Index.get?_of_hashable _ _ hk, Index.get?_of_hashable _ _ hk]
    change Except.ok (((b.index.setDocs m.indexedType _).docs m.indexedType).get? k) = _
    rw [Index.docs_setDocs, if_pos rfl, (keyed.lawful m.indexedType).get?_erase hkey hk]
    split <;> rfl

/-! Parcels of land, some of them with an owner. -/

def parcel : EntityType := .root "register" "Parcel"

def parcels : Mapping where
  indexedType := parcel
  idFields := [(parcel, ⟨"number", .long, none⟩),
    (.root "register" "Owner", ⟨"owner", .string, some Encoder.integer.codec⟩)]
  fields := ["number", "owner"]
  document := none
  name := "Parcel"
  mapped := rfl

def parcelRegister : Mappings := ⟨[parcels], by simp⟩

/-- A parcel without an owner. -/
def parcelOf (number : Value) : Entity := ⟨parcel, [("number", number), ("owner", .null)]⟩

/-- The first parcel is written twice, under keys that are the same. The last commit breaks off after the second
parcel, which no owner can be read from. -/
def parcelCalls : List Call :=
  [.begin, .begin, .begin,
    .stage 1 (.index (parcelOf (.bool true))), .stage 0 (.update (parcelOf (.int 1))), .commit 1, .commit 0,
    .stage 2 (.index (parcelOf (.int 2))), .stage 2 (.delete parcel "owner" (.text "7")),
    .stage 2 (.index (parcelOf (.int 3))), .commit 2]

theorem identified_parcelOf {n : Value} (isId : n.isId) :
    (Request.index (parcelOf n)).Identified parcelRegister := by
  intro m doc id hm hdoc hid
  cases hm
  cases hdoc
  cases hid
  exact isId

theorem firstParcel_deleted :
    (∀ id r, .stage id r ∈ parcelCalls → r.Identified parcelRegister) ∧ parcels ∈ parcelRegister.list ∧
      parcels.OwnNameAlone ∧ (Value.int 1).Hashable ∧
      (afterCalls parcelRegister .empty parcelCalls).index.docs parcel =
        [(.bool true, [("number", .int 1), ("owner", .null)]), (.int 2, [("number", .int 2), ("owner", .null)])] ∧
      ∃ after, deleteOne parcelRegister parcel "number" (.int 1)
          (afterCalls parcelRegister .empty parcelCalls) = (.ok (), after) ∧
        after.index.get? parcel (.bool true) = .ok none := by
  have identified : ∀ id r, .stage id r ∈ parcelCalls → r.Identified parcelRegister := by
    intro id r hr
    simp only [parcelCalls, List.mem_cons, List.not_mem_nil, or_false, reduceCtorEq, false_or,
      Call.stage.injEq] at hr
    rcases hr with ⟨-, rfl⟩ | ⟨-, rfl⟩ | ⟨-, rfl⟩ | ⟨-, rfl⟩ | ⟨-, rfl⟩
    · exact identified_parcelOf rfl
    · exact identified_parcelOf (n := .int 1) rfl
    · exact identified_parcelOf rfl
    · trivial
    · exact identified_parcelOf rfl
  have there : parcels ∈ parcelRegister.list := List.mem_singleton_self _
  have alone : parcels.OwnNameAlone := by
    intro field hfield same
    simp only [parcels, Entries.values, List.map_cons, List.map_nil, List.mem_cons, List.not_mem_nil,
      or_false] at hfield
    rcases hfield with rfl | rfl
    · rfl
    · exact absurd same (by decide)
  have hashable : (Value.int 1).Hashable := rfl
  obtain ⟨after, deleted, -, gone⟩ :=
    (oneEach_afterCalls parcelRegister parcelCalls identified parcels there).2 alone (.int 1) hashable
  refine ⟨identified, there, alone, hashable, by cbv, after, deleted, (gone (.bool true) rfl).trans ?_⟩
  rw [show (Value.int 1 == Value.bool true) = true by cbv, if_pos rfl]

end Backend
end IndexSync.Search
