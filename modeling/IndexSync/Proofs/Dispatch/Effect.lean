import IndexSync.Proofs.Dispatch.Logged
import IndexSync.Proofs.Dispatch.Reordering

/-!
# What a batch makes of the documents

The last turn that writes under a key decides what is there, unless an entity that is gone after it is one
whose id the document holds. Where no turn writes, the old document stays, unless it holds the id of an entity
that is gone.
-/
namespace IndexSync.Dispatch
open Search

namespace Turn

/-- The turn writes a document of the mapping under a key: the one of the entity that is there now. -/
def Writes (ms : Mappings) (turn : Turn) (m : Mapping) (key : Value) (doc : Document) : Prop :=
  turn.asks ms ∧ ∃ e own, turn.answer = some e ∧ ms.mappingFor e.type = some m ∧
    m.buildDocument e = .ok doc ∧
    m.ownIdField.indexValue ((doc.get? m.ownIdField.name).getD .null) = .ok own ∧
    (own == key) = true

/-- The entity is gone, and a document of the mapping holds its id. -/
def Deletes (ms : Mappings) (turn : Turn) (m : Mapping) (doc : Document) : Prop :=
  turn.Gone ms ∧ m.Holds turn.identity doc

end Turn

/-- What turns make of the documents of an index. -/
structure Effect (ms : Mappings) (turns : List Turn) (old new : Index) : Prop where
  /-- The last document that is written under a key is there, unless it is deleted later. -/
  written : ∀ m ∈ ms.list, ∀ key, key.Hashable → ∀ before turn after doc,
    turns = before ++ turn :: after → turn.Writes ms m key doc →
    (∀ later ∈ after, ∀ other, ¬ later.Writes ms m key other) →
    ∀ d, (new.docs m.indexedType).get? key = some d ↔
      d = doc ∧ ∀ later ∈ after, ¬ later.Deletes ms m doc
  /-- Where nothing is written, the old document is there, unless it is deleted. -/
  unwritten : ∀ m ∈ ms.list, ∀ key, key.Hashable →
    (∀ turn ∈ turns, ∀ doc, ¬ turn.Writes ms m key doc) →
    ∀ d, (new.docs m.indexedType).get? key = some d ↔
      (old.docs m.indexedType).get? key = some d ∧ ∀ turn ∈ turns, ¬ turn.Deletes ms m d
  /-- Types without a mapping keep their documents. -/
  others : ∀ type, (∀ m ∈ ms.list, m.indexedType ≠ type) → new.docs type = old.docs type

variable {reader : EntityReader Site} {ms : Mappings} {m : Mapping} {turn : Turn} {turns : List Turn}
  {part : List Change} {parts : List (List Change)} {ix next : Index} {key : Value} {doc d : Document}
  {events : List CaptureEvent} {s : Site}

namespace Turn

/-- A turn asks for entities of listed types. -/
theorem listed_of_asks (h : turn.asks ms) : ms.containing turn.identity.type ≠ [] := by
  intro unlisted
  simp [asks, asksFor, unlisted] at h

theorem mem_containing_of_holds (hm : m ∈ ms.list) (h : m.Holds turn.identity doc) :
    m ∈ ms.containing turn.identity.type :=
  List.mem_filter.mpr ⟨hm, h.listed⟩

/-- An entity that is there is not gone. -/
theorem not_gone {e : Entity} (asked : turn.asks ms) (found : turn.answer = some e) :
    ¬ turn.Gone ms := by
  rintro (deleted | ⟨-, missing⟩)
  · simp [asks, asksFor, deleted] at asked
  · cases missing.symm.trans found

theorem Writes.not_gone (h : turn.Writes ms m key doc) : ¬ turn.Gone ms := by
  obtain ⟨asked, e, own, found, -⟩ := h
  exact Turn.not_gone asked found

/-- A document that a turn writes is there when the turn is over. -/
theorem Stages.get?_of_writes (h : turn.Stages ms part) (lawful : ix.Lawful)
    (made : Index.applyAll ms part ix = (.ok (), next)) (hkey : key.Hashable)
    (writes : turn.Writes ms m key doc) : (next.docs m.indexedType).get? key = some doc := by
  have present := writes.not_gone
  obtain ⟨asked, e, own, found, mapped, built, encoded, same⟩ := writes
  cases h with
  | unlisted unlisted => exact absurd unlisted (listed_of_asks asked)
  | unmapped _ found' unmapped =>
    cases found.symm.trans found'
    cases mapped.symm.trans unmapped
  | written _ found' mapped' built' encoded' =>
    cases found.symm.trans found'
    cases mapped.symm.trans mapped'
    cases built.symm.trans built'
    cases encoded.symm.trans encoded'
    rw [(Index.applyAll_spec lawful made).2 _ _ hkey]
    simp [Change.actAll, Change.act, Change.written?, same]
  | deleted gone => exact absurd gone present

/-- Where a turn writes nothing, a document stays unless the turn deletes it. -/
theorem Stages.get?_of_not_writes (h : turn.Stages ms part) (lawful : ix.Lawful)
    (names : ∀ n ∈ ms.list, n.NamesApart) (made : Index.applyAll ms part ix = (.ok (), next))
    (hm : m ∈ ms.list) (hkey : key.Hashable) (unwritten : ∀ doc, ¬ turn.Writes ms m key doc) :
    (next.docs m.indexedType).get? key = some d ↔
      (ix.docs m.indexedType).get? key = some d ∧ ¬ turn.Deletes ms m d := by
  cases h with
  | unlisted unlisted =>
    cases made
    refine (and_iff_left ?_).symm
    rintro ⟨-, holds⟩
    have listed := mem_containing_of_holds hm holds
    rw [unlisted] at listed
    cases listed
  | unmapped asked found =>
    cases made
    exact (and_iff_left fun deletes => Turn.not_gone asked found deletes.1).symm
  | @written e n doc own asked found mapped built encoded =>
    let write := Change.write (turn.kind = .update) n.indexedType n.ownIdField.name own doc
    have spared : ∀ d, [write].all (·.spares ms m.indexedType d) = true := fun _ => rfl
    have elsewhere : write.written? m.indexedType key = none := by
      rw [Option.eq_none_iff_forall_ne_some]
      intro other hother
      obtain ⟨renew, field, k, heq, same⟩ := Change.written?_eq_some.mp hother
      obtain ⟨-, htype, -, rfl, rfl⟩ := Change.write.inj heq
      obtain rfl := Mappings.eq_of_indexedType (Mappings.mem_of_mappingFor mapped) hm htype
      exact unwritten doc ⟨asked, e, _, found, mapped, built, encoded, same⟩
    rw [(Index.applyAll_spec lawful made).2 _ _ hkey,
      Change.actAll_of_unwritten (List.forall_mem_singleton.mpr elsewhere),
      Change.filter_spared spared]
    exact (and_iff_left fun deletes => Turn.not_gone asked found deletes.1).symm
  | deleted gone each =>
    have hmapped : ∀ n ∈ ms.containing turn.identity.type, n ∈ ms.list ∧ n.NamesApart := fun n hn =>
      have hlist := (List.mem_filter.mp hn).1
      ⟨hlist, names n hlist⟩
    rw [Index.get?_of_deletions lawful hmapped each made hkey]
    refine and_congr_right fun _ => ?_
    constructor
    · rintro spared ⟨-, holds⟩
      exact spared m (mem_containing_of_holds hm holds) rfl holds
    · intro spared n hn htype holds
      obtain rfl := Mappings.eq_of_indexedType (hmapped n hn).1 hm htype
      exact spared ⟨gone, holds⟩

/-- A turn changes documents of types with mappings. -/
theorem Stages.type_mem (h : turn.Stages ms part) {change : Change} (hc : change ∈ part) :
    ∃ n ∈ ms.list, n.indexedType = change.operation.type := by
  cases h with
  | unlisted => cases hc
  | unmapped => cases hc
  | written _ _ mapped =>
    cases List.mem_singleton.mp hc
    exact ⟨_, Mappings.mem_of_mappingFor mapped, rfl⟩
  | deleted gone each =>
    obtain ⟨n, hn, field, value, -, -, rfl⟩ := exists_left_of_forall₂ each hc
    exact ⟨n, (List.mem_filter.mp hn).1, rfl⟩

end Turn

/-- Turns that do not write under a key leave its document, unless one of them deletes it. -/
theorem get?_of_unwritten (names : ∀ n ∈ ms.list, n.NamesApart) (hm : m ∈ ms.list)
    (hkey : key.Hashable) (lawful : ix.Lawful) (stages : List.Forall₂ (Turn.Stages ms) turns parts)
    (made : Index.applyAll ms parts.flatten ix = (.ok (), next))
    (unwritten : ∀ turn ∈ turns, ∀ doc, ¬ turn.Writes ms m key doc) :
    (next.docs m.indexedType).get? key = some d ↔
      (ix.docs m.indexedType).get? key = some d ∧ ∀ turn ∈ turns, ¬ turn.Deletes ms m d := by
  induction stages generalizing ix with
  | nil =>
    cases made
    simp
  | cons first _ ih =>
    rw [List.forall_mem_cons] at unwritten
    rw [List.flatten_cons] at made
    obtain ⟨between, hfirst, hrest⟩ := Index.applyAll_parts made
    rw [ih (Index.applyAll_spec lawful hfirst).1 hrest unwritten.2,
      first.get?_of_not_writes lawful names hfirst hm hkey unwritten.1, List.forall_mem_cons, and_assoc]

/-- The last turn that writes under a key decides, unless its document is deleted later. -/
theorem get?_of_written (names : ∀ n ∈ ms.list, n.NamesApart) (hm : m ∈ ms.list)
    (hkey : key.Hashable) (lawful : ix.Lawful) {before after : List Turn}
    (stages : List.Forall₂ (Turn.Stages ms) (before ++ turn :: after) parts)
    (made : Index.applyAll ms parts.flatten ix = (.ok (), next)) (writes : turn.Writes ms m key doc)
    (last : ∀ later ∈ after, ∀ other, ¬ later.Writes ms m key other) :
    (next.docs m.indexedType).get? key = some d ↔
      d = doc ∧ ∀ later ∈ after, ¬ later.Deletes ms m doc := by
  induction before generalizing ix parts with
  | nil =>
    cases stages with
    | cons first rest =>
      rw [List.flatten_cons] at made
      obtain ⟨between, hfirst, hrest⟩ := Index.applyAll_parts made
      rw [get?_of_unwritten names hm hkey (Index.applyAll_spec lawful hfirst).1 rest hrest last,
        first.get?_of_writes lawful hfirst hkey writes, Option.some.injEq]
      constructor
      · rintro ⟨rfl, spared⟩
        exact ⟨rfl, spared⟩
      · rintro ⟨rfl, spared⟩
        exact ⟨rfl, spared⟩
  | cons early before ih =>
    cases stages with
    | cons first rest =>
      rw [List.flatten_cons] at made
      obtain ⟨between, hfirst, hrest⟩ := Index.applyAll_parts made
      exact ih (Index.applyAll_spec lawful hfirst).1 rest hrest

theorem effect_of_stages (names : ∀ n ∈ ms.list, n.NamesApart) (lawful : ix.Lawful)
    (stages : List.Forall₂ (Turn.Stages ms) turns parts)
    (made : Index.applyAll ms parts.flatten ix = (.ok (), next)) : Effect ms turns ix next where
  written m hm key hkey before turn after doc hturns writes last d :=
    get?_of_written names hm hkey lawful (hturns ▸ stages) made writes last
  unwritten m hm key hkey unwritten d := get?_of_unwritten names hm hkey lawful stages made unwritten
  others type apart := by
    refine Index.docs_of_applyAll made fun change hc same => ?_
    obtain ⟨part, hpart, hc⟩ := List.mem_flatten.mp hc
    obtain ⟨turn, -, staged⟩ := exists_left_of_forall₂ stages hpart
    obtain ⟨n, hn, htype⟩ := staged.type_mem hc
    exact apart n hn (htype.trans same)

/-- What a batch that commits makes of the documents, if the id fields of each mapping have different names.
Its turns follow the net changes in their order, with the answers that were given when it was dispatched. -/
theorem committed_effect (spares : reader.SparesIndex) (ms : Mappings)
    (names : ∀ m ∈ ms.list, m.NamesApart) (lawful : s.index.index.Lawful)
    (h : Commits reader ms events s) :
    ∃ turns, turns.map Turn.change = (NetBatch.collapse events).2.changes ∧
      (batch (Site.surroundings reader ms).recorded ms events ([], s)).2.1 = answersOf ms turns ∧
      Effect ms turns s.index.index
        (batch (Site.surroundings reader ms) ms events s).2.index.index := by
  obtain ⟨turns, parts, hnet, hrecord, stages, -, made⟩ := h.stages spares
  exact ⟨turns, hnet, hrecord, effect_of_stages names lawful stages made⟩

/-- The second house is written, and the first one goes with its owner. -/
theorem committed_effect_twoChanges :
    (∀ m ∈ register.list, m.NamesApart) ∧ owned.index.index.Lawful ∧
      Commits (.ofList sold) register twoChanges owned ∧
      (batch (Site.surroundings (.ofList sold) register) register twoChanges
        owned).2.index.index.docs house = [(.int 2, [("id", .int 2), ("owner", .int 8)])] ∧
      ∃ turns, turns.map Turn.change = [(⟨house, .int 2⟩, .insert), (⟨owner, .int 7⟩, .delete)] ∧
        answersOf register turns =
          [(⟨house, .int 2⟩, .ok (some ⟨house, [("id", .int 2), ("owner", .int 8)]⟩))] ∧
        Effect register turns owned.index.index
          (batch (Site.surroundings (.ofList sold) register) register twoChanges
            owned).2.index.index := by
  have names : ∀ m ∈ register.list, m.NamesApart := by
    simp [register, houses, Mapping.NamesApart, Entries.values]
  have commits : Commits (.ofList sold) register twoChanges owned := commits_of_ok (by cbv)
  obtain ⟨turns, hnet, hrecord, effect⟩ :=
    committed_effect (EntityReader.ofList_sparesIndex sold) register names owned_lawful commits
  exact ⟨names, owned_lawful, commits, by cbv, turns, hnet.trans (by cbv),
    hrecord.symm.trans (by cbv), effect⟩

end IndexSync.Dispatch
