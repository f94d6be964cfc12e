import IndexSync.Proofs.Entries
import IndexSync.Proofs.Outcome
import IndexSync.Search.Transaction

/-!
# Changes of the index

Every change that is made is logged, so that a commit which breaks off after some changes can be told
from one that made none.
-/
namespace IndexSync.Search

namespace Mappings

theorem filter_type_eq {list : List Mapping} (distinct : (list.map (·.indexedType)).Nodup)
    {m : Mapping} (h : m ∈ list) :
    list.filter (fun n => n.indexedType = m.indexedType) = [m] := by
  induction list with
  | nil => exact absurd h List.not_mem_nil
  | cons first rest ih =>
    rw [List.map_cons, List.nodup_cons] at distinct
    rcases List.mem_cons.mp h with rfl | hm
    · rw [List.filter_cons_of_pos (by simp), List.filter_eq_nil_iff.mpr]
      intro n hn
      have hne : n.indexedType ≠ m.indexedType := fun he =>
        distinct.1 (he ▸ List.mem_map_of_mem hn)
      simpa using hne
    · have hne : first.indexedType ≠ m.indexedType := fun he =>
        distinct.1 (he ▸ List.mem_map_of_mem hm)
      rw [List.filter_cons_of_neg (by simpa using hne)]
      exact ih distinct.2 hm

theorem find?_of_mem {ms : Mappings} {m : Mapping} (h : m ∈ ms.list) :
    ms.find? m.indexedType = some m := by
  rw [find?, ← List.head?_filter, filter_type_eq ms.distinct h]
  rfl

/-- A type with a mapping of its own uses no mapping of an ancestor. -/
theorem mappingFor_of_mem {ms : Mappings} {m : Mapping} (h : m ∈ ms.list) :
    ms.mappingFor m.indexedType = some m := by
  rw [mappingFor, EntityType.lineage, List.findSome?_cons, find?_of_mem h]

/-- A type that derives from one mapped type alone uses its mapping. -/
theorem mappingFor_of_alone {ms : Mappings} {m : Mapping} (h : m ∈ ms.list) {type : EntityType}
    (is : m.indexedType ∈ type.lineage)
    (alone : ∀ n ∈ ms.list, n.indexedType ∈ type.lineage → n = m) : ms.mappingFor type = some m := by
  have found : (ms.mappingFor type).isSome := by
    rw [mappingFor, List.isSome_findSome?, List.any_eq_true]
    exact ⟨m.indexedType, is, by rw [find?_of_mem h]; rfl⟩
  obtain ⟨n, hn⟩ := Option.isSome_iff_exists.mp found
  obtain ⟨t, ht, here⟩ := List.exists_of_findSome?_eq_some hn
  have listed := List.mem_of_find?_eq_some here
  have same : n.indexedType = t := by simpa using List.find?_some here
  rw [hn, alone n listed (same ▸ ht)]

end Mappings

/-- A deletion is made only under a type with a mapping. -/
def Change.Mapped (ms : Mappings) : Change → Prop
  | .write .. => True
  | .delete type .. => (ms.mappingFor type).isSome

def Request.Mapped (ms : Mappings) : Request → Prop
  | .delete type .. => (ms.mappingFor type).isSome
  | _ => True

/-- A write is of the document that the mapping of an entity's type builds, under the encoded id that the
document holds. -/
theorem Transaction.writeChange_eq_some {ms : Mappings} {renew : Bool} {e : Entity} {change : Change}
    (h : writeChange ms renew e = .ok (some change)) :
    ∃ m doc key, ms.mappingFor e.type = some m ∧ m.buildDocument e = .ok doc ∧
      m.ownIdField.indexValue ((doc.get? m.ownIdField.name).getD .null) = .ok key ∧
      change = .write renew m.indexedType m.ownIdField.name key doc := by
  unfold writeChange at h
  cases hm : ms.mappingFor e.type with
  | none =>
    rw [hm] at h
    cases h
  | some m =>
    rw [hm] at h
    obtain ⟨doc, hdoc, h⟩ := ok_of_bind h
    obtain ⟨key, hkey, h⟩ := ok_of_bind h
    cases h
    exact ⟨m, doc, key, rfl, hdoc, hkey, rfl⟩

namespace Index

variable {ms : Mappings} {ix : Index}

theorem docs_setDocs (ix : Index) (t u : EntityType) (docs : Entries Value Document) :
    (ix.setDocs t docs).docs u = if t = u then docs else ix.docs u := by
  unfold Index.docs Index.setDocs
  by_cases h : t = u
  · subst h
    simp [Entries.get?_put_self]
  · simp [h, Entries.get?_put_of_ne (by simpa using h : (t == u) = false)]

theorem apply_operations {change : Change} {after : Index} (mapped : change.Mapped ms)
    (h : ix.apply ms change = .ok after) :
    after.operations = ix.operations ++ [change.operation] := by
  cases change with
  | write renew type field key doc =>
    simp only [apply] at h
    obtain ⟨u, -, h⟩ := ok_of_bind h
    cases h
    rfl
  | delete type field value =>
    obtain ⟨m, hm⟩ := Option.isSome_iff_exists.mp mapped
    simp only [apply, hm] at h
    obtain ⟨kept, -, h⟩ := ok_of_bind h
    cases h
    rfl

/-- The changes that are made stand first; if some are left, the first of these failed. -/
theorem applyAll_split (ms : Mappings) (changes : List Change) (ix : Index) :
    ∃ made left, changes = made ++ left ∧
      applyAll ms made ix = (.ok (), (applyAll ms changes ix).2) ∧
      match (applyAll ms changes ix).1 with
      | .ok _ => left = []
      | .error f => ∃ change rest, left = change :: rest ∧
          (applyAll ms changes ix).2.apply ms change = .error f := by
  induction changes generalizing ix with
  | nil => exact ⟨[], [], rfl, rfl, rfl⟩
  | cons change rest ih =>
    cases h : ix.apply ms change with
    | error f =>
      refine ⟨[], change :: rest, rfl, ?_, ?_⟩
      · simp [applyAll, h]
      · simp only [applyAll, h]
        exact ⟨change, rest, rfl, h⟩
    | ok next =>
      obtain ⟨made, left, split, all, last⟩ := ih next
      refine ⟨change :: made, left, by rw [split]; rfl, ?_, ?_⟩
      · simpa only [applyAll, h] using all
      · simpa only [applyAll, h] using last

theorem applyAll_operations {changes : List Change} {after : Index}
    (mapped : ∀ change ∈ changes, change.Mapped ms)
    (h : applyAll ms changes ix = (.ok (), after)) :
    after.operations = ix.operations ++ changes.map Change.operation := by
  induction changes generalizing ix with
  | nil =>
    cases h
    simp
  | cons change rest ih =>
    rw [List.forall_mem_cons] at mapped
    simp only [applyAll] at h
    split at h
    · rename_i next made
      rw [ih mapped.2 h, apply_operations mapped.1 made]
      simp
    · cases h

theorem applyAll_append {made : List Change} {between : Index}
    (h : applyAll ms made ix = (.ok (), between)) (rest : List Change) :
    applyAll ms (made ++ rest) ix = applyAll ms rest between := by
  induction made generalizing ix with
  | nil =>
    cases h
    rfl
  | cons change made ih =>
    simp only [List.cons_append, applyAll] at h ⊢
    cases hc : ix.apply ms change with
    | error f => simp [hc] at h
    | ok next =>
      simp only [hc] at h
      exact ih h

/-- Changes that are all made are made one part after the other. -/
theorem applyAll_parts {made rest : List Change} {after : Index}
    (h : applyAll ms (made ++ rest) ix = (.ok (), after)) :
    ∃ between, applyAll ms made ix = (.ok (), between) ∧
      applyAll ms rest between = (.ok (), after) := by
  induction made generalizing ix with
  | nil => exact ⟨ix, rfl, h⟩
  | cons change made ih =>
    simp only [List.cons_append, applyAll] at h ⊢
    cases hc : ix.apply ms change with
    | error f => simp [hc] at h
    | ok next =>
      simp only [hc] at h
      exact ih h

end Index

namespace Backend

variable {ms : Mappings} {b : Backend} {id : Nat}

theorem lt_of_open (h : (b.transaction id).closed = false) : id < b.transactions.length := by
  by_contra hle
  simp [transaction, List.getElem?_eq_none (Nat.not_lt.mp hle)] at h

theorem transaction_set (h : id < b.transactions.length) (t : Transaction) :
    (b.setTransaction id t).transaction id = t := by
  simp [transaction, setTransaction, h]

/-- An open transaction whose deletions are under types with mappings. -/
structure Staging (ms : Mappings) (b : Backend) (id : Nat) : Prop where
  opened : (b.transaction id).closed = false
  mapped : ∀ change ∈ (b.transaction id).staged, change.Mapped ms

theorem transaction_begin (b : Backend) :
    (begin b).2.transaction b.transactions.length = .fresh := by
  simp [begin, transaction]

theorem staging_begin (b : Backend) : Staging ms (begin b).2 b.transactions.length := by
  refine ⟨?_, ?_⟩
  · rw [transaction_begin]
    rfl
  · simp [transaction_begin, Transaction.fresh]

theorem requestChange_mapped {r : Request} (mapped : r.Mapped ms) {change : Change}
    (h : Transaction.requestChange ms r = .ok (some change)) : change.Mapped ms := by
  have write : ∀ renew e, Transaction.writeChange ms renew e = .ok (some change) →
      change.Mapped ms := by
    intro renew e h
    obtain ⟨m, doc, key, -, -, -, rfl⟩ := Transaction.writeChange_eq_some h
    trivial
  cases r with
  | index e => exact write false e h
  | update e => exact write true e h
  | delete type field value =>
    cases h
    exact mapped

/-- An open transaction takes in the change that a request asks for. -/
theorem stage_of_request (opened : (b.transaction id).closed = false) {r : Request}
    {change : Option Change} (h : Transaction.requestChange ms r = .ok change) :
    stage ms id r b = (.ok (), b.setTransaction id
      ⟨(b.transaction id).staged ++ change.toList, false⟩) := by
  generalize ht : b.transaction id = t at opened
  obtain ⟨staged, closed⟩ := t
  obtain rfl : closed = false := opened
  unfold stage
  rw [ht]
  simp only [Transaction.stage, Bool.false_eq_true, if_false, h]
  cases change with
  | none =>
    rw [Option.toList_none, List.append_nil]
    rfl
  | some change => rfl

theorem stage_cases (ms : Mappings) (opened : (b.transaction id).closed = false) (r : Request) :
    (∃ f, stage ms id r b = (.error f, b)) ∨
      ∃ change, Transaction.requestChange ms r = .ok change ∧
        stage ms id r b = (.ok (), b.setTransaction id
          ⟨(b.transaction id).staged ++ change.toList, false⟩) := by
  cases hr : Transaction.requestChange ms r with
  | ok change => exact .inr ⟨change, rfl, stage_of_request opened hr⟩
  | error f =>
    refine .inl ⟨f, ?_⟩
    simp only [stage, Transaction.stage, opened, Bool.false_eq_true, if_false, hr]
    rfl

theorem stage_spec {r : Request} (staging : Staging ms b id) (mapped : r.Mapped ms) :
    (stage ms id r b).2.index = b.index ∧ Staging ms (stage ms id r b).2 id := by
  rcases stage_cases ms staging.opened r with ⟨f, h⟩ | ⟨change, hc, h⟩
  · rw [h]
    exact ⟨rfl, staging⟩
  · rw [h]
    refine ⟨rfl, ?_, ?_⟩
    · rw [transaction_set (lt_of_open staging.opened)]
    · rw [transaction_set (lt_of_open staging.opened)]
      simp only [List.mem_append, Option.mem_toList]
      rintro c (hold | hnew)
      · exact staging.mapped c hold
      · exact requestChange_mapped mapped (hnew ▸ hc)

theorem index_rollback (id : Nat) (b : Backend) : (b.rollback id).index = b.index := by
  unfold rollback
  split <;> rfl

theorem commit_of_open (h : (b.transaction id).closed = false) :
    commit ms id b = ((Index.applyAll ms (b.transaction id).staged b.index).1,
      { b with index := (Index.applyAll ms (b.transaction id).staged b.index).2 }.setTransaction id
        ⟨[], true⟩) := by
  simp [commit, h]

end Backend
end IndexSync.Search
