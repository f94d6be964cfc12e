import IndexSync.Proofs.Dispatch.Collapse
import IndexSync.Proofs.Dispatch.Planned
import IndexSync.Proofs.Search.Documents

/-!
# Batches in another order

Events about different entities come from different tables, and nothing is known of their order. It does
not matter as long as no document that is written is also deleted, and no two entities write one key: what
is left under a key then depends on which changes are made, and not on their order.
-/
namespace IndexSync
open Search

namespace Dispatch

variable {reader : EntityReader Site} {ms : Mappings} {held : Store.Database → Prop}
  {answers : Identity → Option Entity} {events others : List CaptureEvent} {s : Site}
  {i : Identity} {kind : EventKind} {c : Change} {changes : List Change}

/-- A batch issues a change for an entity. -/
def Issues (ms : Mappings) (answers : Identity → Option Entity) (events : List CaptureEvent)
    (i : Identity) (c : Change) : Prop :=
  ∃ kind changes, (i, kind) ∈ NetBatch.net (NetBatch.recognised events) ∧
    Leads ms answers [.settle i kind] changes ∧ c ∈ changes

/-- No document that the batch writes is taken away by a deletion that it issues: what is alive does not
hold the ids of what is deleted. -/
def LivesOn (ms : Mappings) (answers : Identity → Option Entity) (events : List CaptureEvent) : Prop :=
  ∀ i j renew type field key doc c, Issues ms answers events i (.write renew type field key doc) →
    Issues ms answers events j c → c.spares ms type doc = true

/-- Different entities do not write the same key of one type. -/
def KeepsApart (ms : Mappings) (answers : Identity → Option Entity) (events : List CaptureEvent) : Prop :=
  ∀ i j renew again type field field' key key' doc doc',
    Issues ms answers events i (.write renew type field key doc) →
    Issues ms answers events j (.write again type field' key' doc') → (key == key') = true →
      i = j ∨ (i == j) = true

theorem Leads.mem_iff {net : Entries Identity EventKind} (h : Leads ms answers (settling net) changes) :
    c ∈ changes ↔ ∃ i kind some, (i, kind) ∈ net ∧ Leads ms answers [.settle i kind] some ∧
      c ∈ some := by
  induction net generalizing changes with
  | nil =>
    cases h
    simp
  | cons entry rest ih =>
    obtain ⟨j, k⟩ := entry
    obtain ⟨first, second, rfl, hfirst, hsecond⟩ :=
      Leads.split (show Leads ms answers ([.settle j k] ++ settling rest) changes from h)
    rw [List.mem_append, ih hsecond]
    constructor
    · rintro (hc | ⟨i, kind, some, hmem, hsome, hc⟩)
      · exact ⟨j, k, first, List.mem_cons_self, hfirst, hc⟩
      · exact ⟨i, kind, some, List.mem_cons_of_mem _ hmem, hsome, hc⟩
    · rintro ⟨i, kind, some, hmem, hsome, hc⟩
      rcases List.mem_cons.mp hmem with heq | hmem
      · cases heq
        exact .inl (hfirst.unique hsome ▸ hc)
      · exact .inr ⟨i, kind, some, hmem, hsome, hc⟩

/-- What a batch has staged when it commits are the changes that it issues. -/
theorem Commits.mem_staged_iff (unchanging : reader.Unchanging held answers) (hs : held s.database)
    (h : Commits reader ms events s) :
    c ∈ stagedOf reader ms events s ↔ ∃ i, Issues ms answers events i c := by
  have leads := (h.spec unchanging hs).1
  rw [NetBatch.collapse_of_ok h.collapse_ok] at leads
  rw [leads.mem_iff]
  rfl

theorem leads_deletions {mapped : List Mapping}
    (h : Leads ms answers (mapped.map (.delete · i)) changes) {renew : Bool} {type : EntityType}
    {field : String} {key : Value} {doc : Document} :
    .write renew type field key doc ∉ changes := by
  intro hc
  obtain ⟨m, -, f, value, -, -, heq⟩ := (mem_of_leads_deletions h _).mp hc
  cases heq

/-- Only an entity that exists is written, and what is written is its document. -/
theorem document_of_write (h : Leads ms answers [.settle i kind] changes) {renew : Bool}
    {type : EntityType} {field : String} {key : Value} {doc : Document}
    (hc : .write renew type field key doc ∈ changes) :
    ∃ e m, answers i = some e ∧ ms.mappingFor e.type = some m ∧ m.buildDocument e = .ok doc := by
  have all := leads_settle_iff.mp h
  unfold follow at all
  split at all
  · cases all
    cases hc
  · split at all
    · cases he : answers i with
      | none =>
        rw [he] at all
        exact absurd hc (leads_deletions all)
      | some e =>
        rw [he] at all
        obtain ⟨c, asks, rfl⟩ := Leads.of_ask all (by simp)
        rw [Option.mem_toList] at hc
        subst hc
        cases asks with
        | stage change =>
          have written : ∃ again, Transaction.writeChange ms again e =
              .ok (some (.write renew type field key doc)) := by
            split at change
            · exact ⟨false, change⟩
            · exact ⟨true, change⟩
          obtain ⟨again, hwrite⟩ := written
          obtain ⟨m, d, k, hm, hd, -, heq⟩ := Transaction.writeChange_eq_some hwrite
          cases heq
          exact ⟨e, m, rfl, hm, hd⟩
    · exact absurd hc (leads_deletions all)

/-- An entity is written with one document only. -/
theorem Issues.document_eq {renew again : Bool} {type type' : EntityType} {field field' : String}
    {key key' : Value} {doc doc' : Document}
    (h : Issues ms answers events i (.write renew type field key doc))
    (h' : Issues ms answers others i (.write again type' field' key' doc')) : doc = doc' := by
  obtain ⟨kind, changes, -, leads, hc⟩ := h
  obtain ⟨kind', changes', -, leads', hc'⟩ := h'
  obtain ⟨e, m, he, hm, hdoc⟩ := document_of_write leads hc
  obtain ⟨e', m', he', hm', hdoc'⟩ := document_of_write leads' hc'
  obtain rfl := Option.some.inj (he.symm.trans he')
  obtain rfl := Option.some.inj (hm.symm.trans hm')
  exact Except.ok.inj (hdoc.symm.trans hdoc')

/-- An entity that changes are issued for is named in one way. -/
theorem Issues.eq_of_same {j : Identity} {d : Change}
    (hids : ∀ e ∈ NetBatch.recognised events, e.identity.Hashable)
    (h : Issues ms answers events i c) (h' : Issues ms answers events j d) (same : (i == j) = true) :
    i = j := by
  obtain ⟨kind, changes, hmem, -⟩ := h
  obtain ⟨kind', changes', hmem', -⟩ := h'
  exact NetBatch.eq_of_mem_net hids hmem hmem' same

theorem issues_of_reordered (perm : events.Perm others)
    (orders : ∀ i : Identity,
      events.filter (·.identity == i) = others.filter (·.identity == i))
    (h : ∀ e ∈ NetBatch.recognised events, e.identity.Hashable) :
    Issues ms answers events i c ↔ Issues ms answers others i c := by
  have orders' (i : Identity) : (NetBatch.recognised events).filter (·.identity == i) =
      (NetBatch.recognised others).filter (·.identity == i) := by
    unfold NetBatch.recognised
    rw [List.filter_comm, orders i, List.filter_comm]
  have left (kind : EventKind) : (i, kind) ∈ NetBatch.net (NetBatch.recognised events) ↔
      (i, kind) ∈ NetBatch.net (NetBatch.recognised others) :=
    NetBatch.mem_net_of_reordered (perm.filter _) orders' h
  simp only [Issues, left]

/-- Where no document that is written is taken away, and no two entities write one key, what is left under
a key depends on which changes are issued alone. -/
theorem actAll_of_issued {first second : List Change} {type : EntityType} {key : Value}
    {old : Option Document} (hkey : key.Hashable)
    (hids : ∀ e ∈ NetBatch.recognised events, e.identity.Hashable)
    (hfirst : ∀ c, c ∈ first ↔ ∃ i, Issues ms answers events i c)
    (hsecond : ∀ c, c ∈ second ↔ ∃ i, Issues ms answers events i c)
    (hashable : ∀ renew type field k doc, .write renew type field k doc ∈ first → k.Hashable)
    (live : LivesOn ms answers events) (apart : KeepsApart ms answers events) :
    Change.actAll ms type key first old = Change.actAll ms type key second old := by
  have same (c : Change) : c ∈ first ↔ c ∈ second := (hfirst c).trans (hsecond c).symm
  by_cases written : ∃ c ∈ first, ∃ doc, c.written? type key = some doc
  · obtain ⟨c, hc, doc, hdoc⟩ := written
    have only : ∀ c' ∈ first, ∀ d, c'.written? type key = some d → d = doc := by
      intro c' hc' d hd
      obtain ⟨renew, field, k, rfl, hk⟩ := Change.written?_eq_some.mp hdoc
      obtain ⟨again, field', k', rfl, hk'⟩ := Change.written?_eq_some.mp hd
      obtain ⟨i, hi⟩ := (hfirst _).mp hc
      obtain ⟨j, hj⟩ := (hfirst _).mp hc'
      have hh := hashable _ _ _ _ _ hc
      have hh' := hashable _ _ _ _ _ hc'
      have hkk : (k' == k) = true := by
        rw [Value.beq_congr hh' hkey hh hk', Value.beq_comm hkey hh]
        exact hk
      obtain rfl : j = i :=
        (apart _ _ _ _ _ _ _ _ _ _ _ hj hi hkk).elim id (hj.eq_of_same hids hi)
      exact hj.document_eq hi
    have spared : ∀ c' ∈ first, c'.spares ms type doc = true := by
      intro c' hc'
      obtain ⟨renew, field, k, rfl, -⟩ := Change.written?_eq_some.mp hdoc
      obtain ⟨i, hi⟩ := (hfirst _).mp hc
      obtain ⟨j, hj⟩ := (hfirst _).mp hc'
      exact live _ _ _ _ _ _ _ _ hi hj
    rw [Change.actAll_of_only ⟨c, hc, hdoc⟩ only spared,
      Change.actAll_of_only ⟨c, (same c).mp hc, hdoc⟩ (fun c' hc' => only c' ((same c').mpr hc'))
        (fun c' hc' => spared c' ((same c').mpr hc'))]
  · have unwritten : ∀ c ∈ first, c.written? type key = none := by
      intro c hc
      rw [Option.eq_none_iff_forall_ne_some]
      exact fun doc hdoc => written ⟨c, hc, doc, hdoc⟩
    rw [Change.actAll_of_unwritten unwritten,
      Change.actAll_of_unwritten fun c hc => unwritten c ((same c).mpr hc)]
    congr 1
    funext doc
    rw [Bool.eq_iff_iff, List.all_eq_true, List.all_eq_true]
    simp only [same]

/-- Cross-table order does not matter. Two batches of the same events, with those about each entity in
one order, leave the same documents if both commit. -/
theorem reordered (unchanging : reader.Unchanging held answers) (ms : Mappings)
    {events others : List CaptureEvent} (hs : held s.database) (lawful : s.index.index.Lawful)
    (perm : events.Perm others)
    (orders : ∀ i : Identity,
      events.filter (·.identity == i) = others.filter (·.identity == i))
    (live : LivesOn ms answers events) (apart : KeepsApart ms answers events)
    (first : Commits reader ms events s) (second : Commits reader ms others s) :
    (batch (Site.surroundings reader ms) ms events s).2.index.index.Agrees
      (batch (Site.surroundings reader ms) ms others s).2.index.index := by
  have hmade := (first.spec unchanging hs).2
  have hmade' := (second.spec unchanging hs).2
  obtain ⟨-, hindex⟩ := Index.applyAll_spec lawful hmade
  obtain ⟨-, hindex'⟩ := Index.applyAll_spec lawful hmade'
  have hids := NetBatch.hashable_of_addAll first.collapse_ok
  rw [Index.agrees_iff]
  intro type key hkey
  rw [hindex type key hkey, hindex' type key hkey]
  refine actAll_of_issued hkey hids (fun c => first.mem_staged_iff unchanging hs) (fun c => ?_) ?_ live apart
  · rw [second.mem_staged_iff unchanging hs]
    simp only [issues_of_reordered perm orders hids]
  · intro renew type field k doc hc
    exact Index.hashable_of_applyAll hmade hc

/-- The register with one house, which belongs to the seventh owner. -/
def owned : Site :=
  { ownerless with
    index := ⟨⟨[(house, [(.int 1, [("id", .int 1), ("owner", .int 7)])])],
      [⟨.index, house, "id", .int 1⟩]⟩, []⟩ }

/-- The second house belongs to the eighth owner. -/
def sold : Entries Identity Entity :=
  [(⟨house, .int 2⟩, ⟨house, [("id", .int 2), ("owner", .int 8)]⟩)]

def soldDocument : Change :=
  .write false house "id" (.int 2) [("id", .int 2), ("owner", .int 8)]

theorem owned_lawful : owned.index.index.Lawful := by
  have made : Index.empty.apply register
      (.write false house "id" (.int 1) [("id", .int 1), ("owner", .int 7)]) =
      .ok owned.index.index := by cbv
  exact (Index.apply_spec Index.lawful_empty made).1

theorem stagedOf_sold : stagedOf (.ofList sold) register twoChanges owned =
    [soldDocument, seventhOwner] := by
  have hsteps : steps (Site.surroundings (.ofList sold) register) register 7
      (start (Site.surroundings (.ofList sold) register) twoChanges owned) =
      (.committing 0, { owned with
        index := ⟨owned.index.index, [⟨[soldDocument, seventhOwner], false⟩]⟩ }) := by cbv
  rw [stagedOf, commitOf, commitPoint_of_steps _ _ hsteps]
  rfl

/-- The house is built before the owner is gone, or after. -/
theorem reordered_twoChanges :
    (batch (Site.surroundings (.ofList sold) register) register twoChanges
        owned).2.index.index.Agrees
      (batch (Site.surroundings (.ofList sold) register) register twoChanges.reverse
        owned).2.index.index := by
  have unchanging := EntityReader.ofList_unchanging sold
  have first : Commits (.ofList sold) register twoChanges owned := commits_of_ok (by cbv)
  have second : Commits (.ofList sold) register twoChanges.reverse owned := commits_of_ok (by cbv)
  have hnet : NetBatch.net (NetBatch.recognised twoChanges) =
      [(⟨house, .int 2⟩, .insert), (⟨owner, .int 7⟩, .delete)] := by cbv
  have issued {i : Identity} {c : Change} (h : Issues register (sold.get? ·) twoChanges i c) :
      c = soldDocument ∨ c = seventhOwner := by
    have hc := (first.mem_staged_iff unchanging trivial).mpr ⟨i, h⟩
    simpa [stagedOf_sold] using hc
  have gone : sold.get? ⟨owner, .int 7⟩ = none := by cbv
  have written {i : Identity} {renew : Bool} {type : EntityType} {field : String} {key : Value}
      {doc : Document}
      (h : Issues register (sold.get? ·) twoChanges i (.write renew type field key doc)) :
      i = ⟨house, .int 2⟩ := by
    obtain ⟨kind, changes, hmem, leads, hc⟩ := h
    obtain ⟨e, m, he, -, -⟩ := document_of_write leads hc
    rw [hnet] at hmem
    rcases List.mem_cons.mp hmem with heq | hmem
    · cases heq
      rfl
    · cases List.mem_singleton.mp hmem
      cases gone.symm.trans he
  have live : LivesOn register (sold.get? ·) twoChanges := by
    intro i j renew type field key doc c hi hj
    rcases issued hi with hw | hw <;> cases hw
    rcases issued hj with rfl | rfl <;> cbv
  have apart : KeepsApart register (sold.get? ·) twoChanges := by
    intro i j renew again type field field' key key' doc doc' hi hj _
    exact .inl ((written hi).trans (written hj).symm)
  have orders : ∀ i : Identity, twoChanges.filter (·.identity == i) =
      twoChanges.reverse.filter (·.identity == i) := by
    intro i
    have other : ((⟨house, .int 2⟩ : Identity) == i) = false ∨
        ((⟨owner, .int 7⟩ : Identity) == i) = false := by
      by_cases ht : house = i.type
      · right
        change (owner == i.type && _) = false
        rw [← ht]
        rfl
      · left
        change (house == i.type && _) = false
        rw [beq_eq_false_iff_ne.mpr ht, Bool.false_and]
    rcases other with h | h <;> simp [twoChanges, CaptureEvent.identity, List.filter_cons, h]
  exact reordered unchanging register trivial owned_lawful
    (List.reverse_perm twoChanges).symm orders live apart first second

end Dispatch
end IndexSync
