import IndexSync.Proofs.Dispatch.Lasts
import IndexSync.Proofs.Dispatch.Turns
import IndexSync.Proofs.Dispatch.Undone
import IndexSync.Proofs.Search.Matching

/-!
# What a batch writes into the log

The log of the index grows by what the turns of a batch stage: nothing, one document, or a deletion for
each mapping that lists the type. No turn stages two changes of one mapping.
-/
namespace IndexSync
open Search

namespace NetBatch

/-- A net change is an insertion, an update or a deletion. -/
theorem known_of_mem_net {events : List CaptureEvent} {i : Identity} {kind : EventKind}
    (h : ∀ e ∈ events, e.kind ≠ .unknown) (hmem : (i, kind) ∈ net events) : kind ≠ .unknown := by
  induction events using List.reverseRecOn with
  | nil => cases hmem
  | append_singleton events e ih =>
    rw [net_concat, mem_put] at hmem
    rcases hmem with ⟨hold, -⟩ | ⟨-, rfl⟩
    · exact ih (fun x hx => h x (List.mem_append_left _ hx)) hold
    · unfold merged
      split
      · rintro ⟨⟩
      · exact h e (by simp)

/-- No two net changes are about one entity. -/
theorem net_pairwise (events : List CaptureEvent) :
    (net events).Pairwise fun a b => (a.1 == b.1) = false := by
  induction events using List.reverseRecOn with
  | nil => exact .nil
  | append_singleton events e ih =>
    rw [net_concat, put, List.pairwise_append]
    refine ⟨ih.sublist List.filter_sublist, List.pairwise_singleton _ _, fun a ha b hb => ?_⟩
    rw [List.mem_singleton.mp hb]
    simpa using (List.mem_filter.mp ha).2

end NetBatch

namespace Dispatch

/-- The entity is gone: it has been deleted, or it is not found. -/
def Turn.Gone (ms : Mappings) (turn : Turn) : Prop :=
  turn.kind = .delete ∨ turn.asks ms ∧ turn.answer = none

/-- The changes that a turn stages. -/
inductive Turn.Stages (ms : Mappings) (turn : Turn) : List Change → Prop
  /-- No document holds ids of the type. -/
  | unlisted (unlisted : ms.containing turn.identity.type = []) : Stages ms turn []
  /-- The class of the entity has no mapping. -/
  | unmapped {e : Entity} (asked : turn.asks ms) (found : turn.answer = some e)
      (unmapped : ms.mappingFor e.type = none) : Stages ms turn []
  /-- The document of the entity is written under the id that it holds. -/
  | written {e : Entity} {m : Mapping} {doc : Document} {key : Value} (asked : turn.asks ms)
      (found : turn.answer = some e) (mapped : ms.mappingFor e.type = some m)
      (built : m.buildDocument e = .ok doc)
      (encoded : m.ownIdField.indexValue ((doc.get? m.ownIdField.name).getD .null) = .ok key) :
      Stages ms turn [.write (turn.kind = .update) m.indexedType m.ownIdField.name key doc]
  /-- The entity is deleted wherever its type is listed, in the order of registration. -/
  | deleted {changes : List Change} (gone : turn.Gone ms)
      (each : List.Forall₂ (·.Deletion turn.identity) (ms.containing turn.identity.type) changes) :
      Stages ms turn changes

variable {reader : EntityReader Site} {ms : Mappings} {answers : Identity → Option Entity}
  {turn : Turn} {changes : List Change} {i : Identity}

/-- The deletions of an entity, one for each of the mappings that list its type. -/
theorem forall₂_of_leads_deletions {mapped : List Mapping}
    (h : Leads ms answers (mapped.map (.delete · i)) changes)
    (listed : ∀ m ∈ mapped, m.idFields.has i.type) :
    List.Forall₂ (·.Deletion i) mapped changes := by
  induction mapped generalizing changes with
  | nil =>
    cases h
    exact .nil
  | cons m rest ih =>
    rw [List.forall_mem_cons] at listed
    cases h with
    | ask asks others =>
      rcases asks.of_delete with ⟨hfield, -⟩ | ⟨field, value, hfield, hvalue, rfl⟩
      · have listed := listed.1
        rw [Entries.has, show m.idFields.get? i.type = none from hfield] at listed
        cases listed
      · exact .cons ⟨field, value, hfield, hvalue, rfl⟩ (ih others listed.2)

/-- What is staged for an entity that is there is its document, if its class has a mapping. -/
theorem Turn.stages_of_writeChange {e : Entity} {c : Option Change} (asked : turn.asks ms)
    (found : turn.answer = some e)
    (h : Transaction.writeChange ms (turn.kind = .update) e = .ok c) : turn.Stages ms c.toList := by
  cases hm : ms.mappingFor e.type with
  | none =>
    simp only [Transaction.writeChange, hm] at h
    cases h
    exact .unmapped asked found hm
  | some m =>
    simp only [Transaction.writeChange, hm] at h
    obtain ⟨doc, built, h⟩ := ok_of_bind h
    obtain ⟨key, encoded, h⟩ := ok_of_bind h
    cases h
    exact .written asked found hm built encoded

theorem Turn.Makes.stages (h : turn.Makes ms changes) (known : turn.kind ≠ .unknown) :
    turn.Stages ms changes := by
  have deletes (hdel : Leads ms (fun _ => turn.answer) (deletions ms turn.identity) changes) :
      List.Forall₂ (·.Deletion turn.identity) (ms.containing turn.identity.type) changes :=
    forall₂_of_leads_deletions hdel fun m hm => (List.mem_filter.mp hm).2
  have followed := leads_settle_iff.mp h
  unfold follow at followed
  split at followed
  · rename_i unlisted
    cases followed
    exact .unlisted (List.isEmpty_iff.mp unlisted)
  · rename_i listed
    split at followed
    · rename_i hkind
      have asked : turn.asks ms := by simp [asks, asksFor, listed, hkind]
      cases found : turn.answer with
      | none =>
        rw [found] at followed deletes
        exact .deleted (.inr ⟨asked, found⟩) (deletes followed)
      | some e =>
        rw [found] at followed
        obtain ⟨c, staged, rfl⟩ := Leads.of_ask followed (by simp)
        cases staged with
        | stage change =>
          refine Turn.stages_of_writeChange asked found ?_
          rcases (by simpa using hkind : turn.kind = .insert ∨ turn.kind = .update) with hk | hk <;>
            simpa [hk, Transaction.requestChange] using change
    · rename_i hkind
      refine .deleted (.inl ?_) (deletes followed)
      cases hk : turn.kind <;> simp_all

theorem types_of_deletions {mapped : List Mapping} (h : List.Forall₂ (·.Deletion i) mapped changes) :
    changes.map (·.operation.type) = mapped.map (·.indexedType) := by
  induction h with
  | nil => rfl
  | cons first _ ih =>
    obtain ⟨field, value, -, -, rfl⟩ := first
    rw [List.map_cons, List.map_cons, ih]
    rfl

/-- The mappings that a turn stages changes of are different. -/
theorem Turn.Stages.nodup (h : turn.Stages ms changes) :
    (changes.map (·.operation.type)).Nodup := by
  cases h with
  | unlisted => exact List.nodup_nil
  | unmapped => exact List.nodup_nil
  | written => exact List.nodup_singleton _
  | deleted gone each =>
    rw [types_of_deletions each]
    exact ms.distinct.sublist (List.filter_sublist.map _)

variable {events : List CaptureEvent} {s : Site}

/-- The turns of a batch that commits, with what each of them stages. -/
theorem Commits.stages (spares : reader.SparesIndex) (h : Commits reader ms events s) :
    ∃ turns parts, turns.map Turn.change = (NetBatch.collapse events).2.changes ∧
      (batch (Site.surroundings reader ms).recorded ms events ([], s)).2.1 = answersOf ms turns ∧
      List.Forall₂ (Turn.Stages ms) turns parts ∧
      (∀ change ∈ parts.flatten, change.Mapped ms) ∧
      Index.applyAll ms parts.flatten s.index.index =
        (.ok (), (batch (Site.surroundings reader ms) ms events s).2.index.index) := by
  obtain ⟨turns, parts, hnet, hrecord, makes, rest⟩ := h.turns spares
  refine ⟨turns, parts, hnet, hrecord, ?_, rest⟩
  have known : ∀ turn ∈ turns, turn.kind ≠ .unknown := by
    intro turn hturn
    have hmem : turn.change ∈ (NetBatch.collapse events).2.changes :=
      hnet ▸ List.mem_map_of_mem hturn
    rw [NetBatch.collapse_of_ok h.collapse_ok] at hmem
    exact NetBatch.known_of_mem_net (fun e he => by simpa using (List.mem_filter.mp he).2) hmem
  clear hnet hrecord rest
  induction makes with
  | nil => exact .nil
  | cons first _ ih =>
    rw [List.forall_mem_cons] at known
    exact .cons (first.stages known.1) (ih known.2)

/-- The log grows by what the net changes of a batch stage, one after the other. What the provider is asked
for are the entities of listed types that are inserted or updated, once each and in this order, and its
answers are the ones that are followed. No net change causes two operations on one mapping, and no two net
changes are about one entity. -/
theorem logged_in_order (spares : reader.SparesIndex) (h : Commits reader ms events s) :
    ∃ (turns : List Turn) (parts : List (List Change)),
      turns.map Turn.change = (NetBatch.collapse events).2.changes ∧
      List.Forall₂ (Turn.Stages ms) turns parts ∧
      (batch (Site.surroundings reader ms) ms events s).2.index.index.operations =
        s.index.index.operations ++ parts.flatten.map Change.operation ∧
      (batch (Site.surroundings reader ms).recorded ms events ([], s)).2.1 = answersOf ms turns ∧
      (batch (Site.surroundings reader ms).recorded ms events ([], s)).2.1.map Prod.fst =
        ((NetBatch.collapse events).2.changes.filter fun (i, kind) => asksFor ms i kind).map Prod.fst ∧
      (∀ part ∈ parts, (part.map (·.operation.type)).Nodup) ∧
      (NetBatch.collapse events).2.changes.Pairwise fun a b => (a.1 == b.1) = false := by
  obtain ⟨turns, parts, hnet, hrecord, stages, mapped, made⟩ := h.stages spares
  refine ⟨turns, parts, hnet, stages, Index.applyAll_operations mapped made, hrecord, ?_, ?_, ?_⟩
  · rw [hrecord, ← hnet, answersOf, List.filter_map, List.map_map, List.map_map]
    rfl
  · intro part hpart
    obtain ⟨turn, -, staged⟩ := exists_left_of_forall₂ stages hpart
    exact staged.nodup
  · rw [NetBatch.collapse_of_ok h.collapse_ok]
    exact NetBatch.net_pairwise _

/-- A dog is bought, another one is lost, and an owner moves, of whom no document knows. -/
def dogsAndOwner : List CaptureEvent :=
  [bought, ⟨dog, .int 2, .delete, 2, "dogs"⟩, ⟨owner, .int 7, .update, 1, "owners"⟩]

/-- The second dog is sought among the animals and in the houses. Only the first one is asked for. -/
theorem logged_dogsAndOwner :
    ∃ (turns : List Turn) (parts : List (List Change)),
      turns.map Turn.change =
        [(⟨dog, .int 1⟩, .insert), (⟨dog, .int 2⟩, .delete), (⟨owner, .int 7⟩, .update)] ∧
      List.Forall₂ (Turn.Stages (zoo listsDogs)) turns parts ∧
      parts.flatten.map Change.operation = [⟨.index, animal, "id", .int 1⟩,
        ⟨.delete, animal, "id", .int 2⟩, ⟨.delete, house, "dog", .int 2⟩] ∧
      (answersOf (zoo listsDogs) turns).map Prod.fst = [⟨dog, .int 1⟩] := by
  have commits : Commits (.ofList [(⟨dog, .int 1⟩, firstDog)]) (zoo listsDogs) dogsAndOwner unbuilt :=
    commits_of_ok (by cbv)
  obtain ⟨turns, parts, hnet, stages, hlog, hrecord, hasked, -⟩ :=
    logged_in_order (EntityReader.ofList_sparesIndex _) commits
  refine ⟨turns, parts, hnet.trans (by cbv), stages, hlog.symm.trans (by cbv), ?_⟩
  rw [← hrecord, hasked]
  cbv

end Dispatch
end IndexSync
