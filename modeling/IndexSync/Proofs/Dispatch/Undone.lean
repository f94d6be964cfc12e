import IndexSync.Proofs.Dispatch.Collapse
import IndexSync.Proofs.Dispatch.Redelivery
import IndexSync.Proofs.Search.Sought

/-!
# An insertion that is taken back

An entity is inserted into an empty index and then deleted. The class of the fetched instance decides which
mapping writes the document, and the declared type which mappings look for it. The document is taken away
exactly if the one that wrote it lists the declared type too, and finds it by the field of that type.
-/
namespace IndexSync
open Search

namespace NetBatch

/-- A batch of one event comes to that event. -/
theorem collapse_single {a : CaptureEvent} (h : (collapse [a]).1 = .ok ()) (known : a.kind ≠ .unknown) :
    (collapse [a]).2.changes = [(a.identity, a.kind)] := by
  have hrecognised : recognised [a] = [a] := List.filter_cons_of_pos (by simpa using known)
  rw [collapse_of_ok h, hrecognised]
  change [(a.identity, merged none a.kind)] = _
  rw [merged, Option.isSome_none, Bool.and_false, if_neg Bool.false_ne_true]

end NetBatch

namespace Dispatch

variable {reader later : EntityReader Site} {ms : Mappings} {held heldLater : Store.Database → Prop}
  {answers answersLater : Identity → Option Entity} {i : Identity} {e : Entity} {m : Mapping}
  {changes : List Change} {s r : Site} {a b : CaptureEvent}

/-- A batch of one event makes the changes that this event leads to. -/
theorem Commits.single (unchanging : reader.Unchanging held answers) (hs : held s.database)
    (known : a.kind ≠ .unknown) (h : Commits reader ms [a] s) :
    Leads ms answers [.settle a.identity a.kind] (stagedOf reader ms [a] s) ∧
      Index.applyAll ms (stagedOf reader ms [a] s) s.index.index =
        (.ok (), (batch (Site.surroundings reader ms) ms [a] s).2.index.index) := by
  obtain ⟨leads, made⟩ := h.spec unchanging hs
  rw [NetBatch.collapse_single h.collapse_ok known] at leads
  exact ⟨leads, made⟩

/-- An id that a batch with its insertion or deletion commits can be a key. -/
theorem Commits.hashable_single (known : a.kind ≠ .unknown) (h : Commits reader ms [a] s) :
    a.identity.Hashable :=
  NetBatch.hashable_of_addAll h.collapse_ok a (List.mem_filter.mpr ⟨List.mem_singleton_self a, by simpa⟩)

/-- A deletion leads to all deletions of the entity. -/
theorem mem_of_leads_delete (h : Leads ms answers [.settle i .delete] changes) (c : Change) :
    c ∈ changes ↔ ms.Seeks i c := by
  have all : Leads ms answers (deletions ms i) changes := by
    have followed := leads_settle_iff.mp h
    unfold follow at followed
    split at followed
    · rename_i unlisted
      rw [deletions, List.isEmpty_iff.mp unlisted]
      exact followed
    · exact followed
  rw [mem_of_leads_deletions all c]
  constructor
  · rintro ⟨m, hm, rest⟩
    exact ⟨m, (List.mem_filter.mp hm).1, rest⟩
  · rintro ⟨m, hm, field, value, hfield, rest⟩
    have listed : m.idFields.has i.type = true := by
      rw [Entries.has, show m.idFields.get? i.type = some field from hfield]
      rfl
    exact ⟨m, List.mem_filter.mpr ⟨hm, listed⟩, field, value, hfield, rest⟩

/-- An insertion leads to a write of the document of the entity, if its type is listed and its class has a
mapping. -/
theorem leads_insert (h : Leads ms answers [.settle i .insert] changes) (he : answers i = some e) :
    (changes = [] ∧ (ms.containing i.type = [] ∨ ms.mappingFor e.type = none)) ∨
      ∃ m doc key, ms.containing i.type ≠ [] ∧ ms.mappingFor e.type = some m ∧
        m.buildDocument e = .ok doc ∧
        changes = [.write false m.indexedType m.ownIdField.name key doc] := by
  have followed := leads_settle_iff.mp h
  rw [follow, he] at followed
  split at followed
  · rename_i unlisted
    cases followed
    exact .inl ⟨rfl, .inl (List.isEmpty_iff.mp unlisted)⟩
  · rename_i listed
    obtain ⟨c, asks, rfl⟩ := Leads.of_ask followed (by simp)
    cases asks with
    | stage change =>
      have change : Transaction.writeChange ms false e = .ok c := change
      cases c with
      | none =>
        refine .inl ⟨rfl, .inr ?_⟩
        unfold Transaction.writeChange at change
        split at change
        · assumption
        · obtain ⟨doc, -, change⟩ := ok_of_bind change
          obtain ⟨key, -, change⟩ := ok_of_bind change
          cases change
      | some c =>
        obtain ⟨m, doc, key, hm, hdoc, -, rfl⟩ := Transaction.writeChange_eq_some change
        refine .inr ⟨m, doc, key, ?_, hm, hdoc, rfl⟩
        rwa [Ne, ← List.isEmpty_iff]

/-- The insertion of an entity into an empty index leaves its document alone, if its type is listed and its
class has a mapping, and nothing otherwise. -/
theorem docs_inserted (unchanging : reader.Unchanging held answers) (hs : held s.database)
    (inserted : a.kind = .insert) (he : answers a.identity = some e)
    (nothing : ∀ type, s.index.index.docs type = []) (h : Commits reader ms [a] s) :
    ((∀ type, (batch (Site.surroundings reader ms) ms [a] s).2.index.index.docs type = []) ∧
        (ms.containing a.identity.type = [] ∨ ms.mappingFor e.type = none)) ∨
      ∃ m doc key, ms.containing a.identity.type ≠ [] ∧ ms.mappingFor e.type = some m ∧
        m.buildDocument e = .ok doc ∧
        ∀ type, (batch (Site.surroundings reader ms) ms [a] s).2.index.index.docs type =
          if m.indexedType = type then [(key, doc)] else [] := by
  obtain ⟨leads, made⟩ := h.single unchanging hs (by simp [inserted])
  rw [inserted] at leads
  generalize (batch (Site.surroundings reader ms) ms [a] s).2.index.index = ix at made ⊢
  rcases leads_insert leads he with ⟨hnone, unmapped⟩ | ⟨m, doc, key, listed, hm, hdoc, hwrite⟩
  · rw [hnone] at made
    cases made
    exact .inl ⟨nothing, unmapped⟩
  · rw [hwrite] at made
    exact .inr ⟨m, doc, key, listed, hm, hdoc, Index.docs_write nothing made⟩

/-- The deletion of an entity takes away the documents of a mapping that it finds, and leaves the others. -/
theorem docs_deleted (unchanging : reader.Unchanging held answers) (hs : held s.database)
    (deleted : a.kind = .delete) (h : Commits reader ms [a] s) :
    ∃ spared : EntityType → Document → Bool,
      (∀ type, (batch (Site.surroundings reader ms) ms [a] s).2.index.index.docs type =
        (s.index.index.docs type).filter fun e => spared type e.2) ∧
      ∀ m ∈ ms.list, ∀ doc, spared m.indexedType doc = true ↔ ¬ m.Finds a.identity doc := by
  obtain ⟨leads, made⟩ := h.single unchanging hs (by simp [deleted])
  rw [deleted] at leads
  have sought := mem_of_leads_delete leads
  exact ⟨fun type doc => (stagedOf reader ms [a] s).all (·.spares ms type doc),
    Index.docs_deletions (fun c hc => (sought c).mp hc) made, fun m hm _ => Index.spared_iff hm sought⟩

/-- Delete undoes write where the lookups agree. When an entity is inserted into an empty index and then
deleted, no document is left exactly if the one that was written is found by the field of the declared type.
This is so if the document holds the id of the entity in its own id field, its mapping lists the declared type
under that name, and the first id field of the name encodes the id as the field of the declared type does. -/
theorem undone (unchanging : reader.Unchanging held answers)
    (unchangingLater : later.Unchanging heldLater answersLater) (ms : Mappings)
    (ha : a.identity = i) (inserted : a.kind = .insert) (he : answers i = some e)
    (hs : held s.database) (nothing : ∀ type, s.index.index.docs type = [])
    (written : Commits reader ms [a] s)
    (hb : b.identity = i) (deleted : b.kind = .delete) (hr : heldLater r.database)
    (received : r.index.index = (batch (Site.surroundings reader ms) ms [a] s).2.index.index)
    (gone : Commits later ms [b] r) :
    ((∀ type, (batch (Site.surroundings later ms) ms [b] r).2.index.index.docs type = []) ↔
        ms.TakesBack i e) ∧
      ((∀ m, ms.mappingFor e.type = some m → m.Traces i ∧
          ∀ doc, m.buildDocument e = .ok doc → doc.get? m.ownIdField.name = some i.id) →
        ∀ type, (batch (Site.surroundings later ms) ms [b] r).2.index.index.docs type = []) := by
  subst ha
  obtain ⟨spared, left, hspared⟩ := docs_deleted unchangingLater hr deleted gone
  rw [hb] at hspared
  rw [received] at left
  have main : (∀ type, (batch (Site.surroundings later ms) ms [b] r).2.index.index.docs type = []) ↔
      ms.TakesBack a.identity e := by
    simp only [left]
    rcases docs_inserted unchanging hs inserted he nothing written with
      ⟨empty, unmapped⟩ | ⟨m, doc, key, listed, hm, hdoc, docs⟩
    · exact iff_of_true (fun type => by rw [empty type, List.filter_nil])
        (Mappings.takesBack_of_unmapped unmapped)
    · rw [Mappings.takesBack_iff listed hm hdoc]
      have spares := hspared m (Mappings.mem_of_mappingFor hm) doc
      constructor
      · intro empty
        by_contra missed
        have here := empty m.indexedType
        rw [docs, if_pos rfl, List.filter_cons, if_pos (spares.mpr missed)] at here
        cases here
      · intro found type
        rw [docs type]
        split
        · rename_i same
          subst same
          rw [List.filter_cons, if_neg fun h => spares.mp h found, List.filter_nil]
        · exact List.filter_nil
  have hid : a.identity.Hashable := written.hashable_single (by simp [inserted])
  exact ⟨main, fun traces => main.mpr (Mappings.takesBack_of_traces hid traces)⟩

def animal : EntityType := .root "zoo" "Animal"

def dog : EntityType := .derived animal "zoo" "Dog"

/-- A register of animals, with the types whose ids its documents are found by. -/
def animals (listed : Entries EntityType IdField) : Mapping where
  indexedType := animal
  idFields := (animal, ⟨"id", .long, none⟩) :: listed
  fields := ["id"]
  document := none
  name := "Animal"
  mapped := rfl

/-- A register of houses. Its documents hold the number of the dog. -/
def kennels : Mapping where
  indexedType := house
  idFields := [(house, ⟨"id", .long, none⟩), (dog, ⟨"dog", .long, none⟩)]
  fields := ["id", "dog"]
  document := none
  name := "House"
  mapped := rfl

/-- The animals and the houses. The register of animals may list dogs. -/
def zoo (listed : Entries EntityType IdField) : Mappings :=
  ⟨[animals listed, kennels], by simp [animals, kennels, show animal ≠ house by decide]⟩

def firstDog : Entity := ⟨dog, [("id", .int 1)]⟩

def bought : CaptureEvent := ⟨dog, .int 1, .insert, 1, "dogs"⟩

def lost : CaptureEvent := ⟨dog, .int 1, .delete, 2, "dogs"⟩

/-- The site when the first dog has been written. -/
def withDog (listed : Entries EntityType IdField) : Site :=
  (batch (Site.surroundings (.ofList [(⟨dog, .int 1⟩, firstDog)]) (zoo listed)) (zoo listed) [bought]
    unbuilt).2

/-- Dogs are listed under the id field of the animals. -/
def listsDogs : Entries EntityType IdField := [(dog, ⟨"id", .long, none⟩)]

/-- A dog that the register of animals lists is written to it, and taken out of it again. -/
theorem undone_firstDog :
    (withDog listsDogs).index.index.docs animal = [(.int 1, [("id", .int 1)])] ∧
      (batch (Site.surroundings (.ofList []) (zoo listsDogs)) (zoo listsDogs) [lost]
        (withDog listsDogs)).2.index.index.docs animal = [] := by
  have written : Commits (.ofList [(⟨dog, .int 1⟩, firstDog)]) (zoo listsDogs) [bought] unbuilt :=
    commits_of_ok (by cbv)
  have gone : Commits (.ofList []) (zoo listsDogs) [lost] (withDog listsDogs) :=
    commits_of_ok (by cbv)
  have traces : (animals listsDogs).Traces ⟨dog, .int 1⟩ :=
    Mapping.traces_of_own_field rfl rfl rfl (by cbv)
  have cleared := (undone (a := bought) (b := lost) (i := ⟨dog, .int 1⟩) (e := firstDog)
    (EntityReader.ofList_unchanging _) (EntityReader.ofList_unchanging _) (zoo listsDogs) rfl rfl
    (by cbv) trivial (fun _ => rfl) written rfl rfl trivial rfl gone).2
  refine ⟨by cbv, cleared (fun m hm => ?_) animal⟩
  have hmapping : (zoo listsDogs).mappingFor dog = some (animals listsDogs) := rfl
  cases hmapping.symm.trans hm
  refine ⟨traces, fun doc hdoc => ?_⟩
  cases hdoc
  rfl

/-- A deletion does not always undo a write: a dog that the register of animals does not list stays in it,
for the houses list dogs. -/
theorem not_undone :
    ¬ ∀ (before after : Entries Identity Entity) (ms : Mappings) (i : Identity) (e : Entity)
      (a b : CaptureEvent) (s : Site),
      (Mappings.ofList ms.list).map (·.list) = .ok ms.list → ms.validate = .ok () →
      before.get? i = some e → i.type ∈ e.type.lineage →
      (∀ m, ms.mappingFor e.type = some m → ∀ doc, m.buildDocument e = .ok doc →
        doc.get? m.ownIdField.name = some i.id) →
      a.identity = i → a.kind = .insert → (∀ type, s.index.index.docs type = []) →
      Commits (.ofList before) ms [a] s → b.identity = i → b.kind = .delete →
      Commits (.ofList after) ms [b]
        (batch (Site.surroundings (.ofList before) ms) ms [a] s).2 →
      ∀ type, (batch (Site.surroundings (.ofList after) ms) ms [b]
        (batch (Site.surroundings (.ofList before) ms) ms [a] s).2).2.index.index.docs type = [] := by
  intro h
  have holds : ∀ m, (zoo []).mappingFor dog = some m → ∀ doc, m.buildDocument firstDog = .ok doc →
      doc.get? m.ownIdField.name = some (.int 1) := by
    intro m hm doc hdoc
    have hmapping : (zoo []).mappingFor dog = some (animals []) := rfl
    cases hmapping.symm.trans hm
    cases hdoc
    rfl
  have cleared := h [(⟨dog, .int 1⟩, firstDog)] [] (zoo []) ⟨dog, .int 1⟩ firstDog bought lost unbuilt
    (by cbv) (by cbv) (by cbv) (EntityType.self_mem_lineage dog) holds rfl rfl (fun _ => rfl)
    (commits_of_ok (by cbv)) rfl rfl (commits_of_ok (by cbv)) animal
  have left : (batch (Site.surroundings (.ofList []) (zoo [])) (zoo []) [lost]
      (withDog [])).2.index.index.docs animal = [(.int 1, [("id", .int 1)])] := by cbv
  rw [withDog] at left
  rw [left] at cleared
  cases cleared

end Dispatch
end IndexSync
