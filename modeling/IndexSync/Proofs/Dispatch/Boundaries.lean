import IndexSync.Proofs.Dispatch.Collapse
import IndexSync.Proofs.Dispatch.Progress
import IndexSync.Proofs.Dispatch.Settled

/-!
# Where batches are cut

With mappings that keep to themselves and ids that are told apart, every event sets the document under
one key, or takes it away. The last event about a key decides, whichever batch it is in and whatever the
batch was collapsed to.
-/
namespace IndexSync
open Search

namespace Dispatch

variable {reader : EntityReader Site} {held : Store.Database → Prop} {ms : Mappings}
  {answers : Identity → Option Entity} {events : List CaptureEvent} {s : Site} {i : Identity}

/-- What an event makes of the document under a key. -/
def heard (ms : Mappings) (answers : Identity → Option Entity) (type : EntityType) (key : Value)
    (old : Option Document) (e : CaptureEvent) : Option Document :=
  settled ms answers type key old (e.identity, e.kind)

theorem shown_merged (previous : Option EventKind) (kind : EventKind) :
    shown ms answers i (NetBatch.merged previous kind) = shown ms answers i kind := by
  unfold shown NetBatch.merged
  split
  · rename_i hinsert
    rw [Bool.and_eq_true, decide_eq_true_eq] at hinsert
    rw [hinsert.1]
    rfl
  · rfl

theorem identity_same_iff {i j : Identity} (hi : i.id.isPlain) (hj : j.id.isPlain) :
    (i == j) = true ↔ i = j := by
  obtain ⟨type, id⟩ := i
  obtain ⟨type', id'⟩ := j
  change (type == type' && id == id') = true ↔ _
  rw [Bool.and_eq_true, beq_iff_eq, Value.beq_iff_eq_of_isPlain hi hj, Identity.mk.injEq]

/-- An entity whose document is under another key can be left out. -/
theorem foldl_erase {net : Entries Identity EventKind} (plain : ∀ e ∈ net, e.1.id.isPlain)
    (hi : i.id.isPlain) {type : EntityType} {key : Value} (other : keyed ms type key i = false)
    (old : Option Document) :
    (net.erase i).foldl (settled ms answers type key) old =
      net.foldl (settled ms answers type key) old := by
  induction net generalizing old with
  | nil => rfl
  | cons entry rest ih =>
    rw [List.forall_mem_cons] at plain
    have hrest := ih plain.2
    by_cases hsame : (entry.1 == i) = true
    · have hentry : entry.1 = i := (identity_same_iff plain.1 hi).mp hsame
      have hskip : settled ms answers type key old entry = old := by
        rw [settled, hentry, other]
        rfl
      rw [List.foldl_cons, hskip, ← hrest, Entries.erase, List.filter_cons_of_neg (by simp [hsame])]
      rfl
    · rw [Entries.erase, List.filter_cons_of_pos (by simpa using hsame), List.foldl_cons,
        List.foldl_cons, ← hrest]
      rfl

/-- Collapsing does not change what becomes of the document under a key. -/
theorem foldl_net (plain : ∀ e ∈ events, e.entityId.isPlain) (type : EntityType) (key : Value)
    (old : Option Document) :
    (NetBatch.net events).foldl (settled ms answers type key) old =
      events.foldl (heard ms answers type key) old := by
  induction events using List.reverseRecOn with
  | nil => rfl
  | append_singleton events e ih =>
    have hevents : ∀ x ∈ events, x.entityId.isPlain := fun x hx =>
      plain x (List.mem_append_left _ hx)
    have hnet : ∀ x ∈ NetBatch.net events, x.1.id.isPlain := by
      rintro ⟨i, kind⟩ hx
      obtain ⟨y, hy, rfl⟩ := NetBatch.exists_of_mem_net hx
      exact hevents y hy
    rw [NetBatch.net_concat, NetBatch.put, List.foldl_append, List.foldl_append]
    simp only [List.foldl_cons, List.foldl_nil, heard, settled, shown_merged]
    cases hkeyed : keyed ms type key e.identity with
    | true => rfl
    | false =>
      simp only [Bool.false_eq_true, if_false]
      rw [foldl_erase hnet (plain e (by simp)) hkeyed, ih hevents]

theorem hashable_of_plain (plain : ∀ e ∈ events, e.entityId.isPlain) :
    ∀ e ∈ NetBatch.recognised events, e.identity.Hashable := fun e he =>
  Value.hashable_of_isPlain (plain e (List.mem_filter.mp he).1)

theorem recognised_plain (plain : ∀ e ∈ events, e.entityId.isPlain) :
    ∀ e ∈ NetBatch.recognised events, e.entityId.isPlain := fun e he =>
  plain e (List.mem_filter.mp he).1

theorem net_plain (plain : ∀ e ∈ events, e.entityId.isPlain) :
    ∀ e ∈ NetBatch.net events, e.1.id.isPlain := by
  rintro ⟨i, kind⟩ h
  obtain ⟨e, he, rfl⟩ := NetBatch.exists_of_mem_net h
  exact plain e he

/-- A batch that commits settles the documents as its events say. -/
theorem batch_heard (unchanging : reader.Unchanging held answers) (separate : ms.Separate)
    (faithful : Faithful ms answers) (plain : ∀ e ∈ events, e.entityId.isPlain)
    (shows : held s.database) (lawful : s.index.index.Lawful) (filed : s.index.index.Filed ms)
    (h : Commits reader ms events s) :
    let after := (batch (Site.surroundings reader ms) ms events s).2.index.index
    after.Lawful ∧ after.Filed ms ∧
      (∀ e ∈ NetBatch.recognised events, Encodable ms e.identity) ∧
      ∀ type key, key.Hashable → (after.docs type).get? key =
        (NetBatch.recognised events).foldl (heard ms answers type key)
          ((s.index.index.docs type).get? key) := by
  intro after
  obtain ⟨leads, made⟩ := h.spec unchanging shows
  rw [NetBatch.collapse_of_ok h.collapse_ok] at leads
  have hplain := recognised_plain plain
  obtain ⟨encodable, after', made', lawful', filed', hafter⟩ :=
    applyAll_settling separate faithful (net_plain hplain) leads lawful filed
  obtain rfl : after' = after := congrArg Prod.snd (made'.symm.trans made)
  refine ⟨lawful', filed', fun e he => ?_, fun type key hkey => ?_⟩
  · have hashable := hashable_of_plain plain
    have hseen : ((NetBatch.net (NetBatch.recognised events)).get? e.identity).isSome := by
      rw [NetBatch.get?_net_isSome hashable (hashable e he), List.any_eq_true]
      exact ⟨e, he, (identity_same_iff (hplain e he) (hplain e he)).mpr rfl⟩
    obtain ⟨kind, hkind⟩ := Option.isSome_iff_exists.mp hseen
    obtain ⟨i, hsame, hmem⟩ := Entries.mem_of_get? hkind
    obtain rfl := (identity_same_iff (net_plain hplain _ hmem) (hplain e he)).mp hsame
    exact encodable _ hmem
  · rw [hafter type key hkey, foldl_net hplain]

/-- Batches one after the other. -/
def dispatchAll (reader : EntityReader Site) (ms : Mappings) : List (List CaptureEvent) → Site → Site
  | [], s => s
  | piece :: rest, s =>
    dispatchAll reader ms rest (batch (Site.surroundings reader ms) ms piece s).2

/-- Batches that all commit, one after the other, each on a database of which something holds. -/
def AllCommit (reader : EntityReader Site) (held : Store.Database → Prop) (ms : Mappings) :
    List (List CaptureEvent) → Site → Prop
  | [], _ => True
  | piece :: rest, s => held s.database ∧ Commits reader ms piece s ∧
      AllCommit reader held ms rest (batch (Site.surroundings reader ms) ms piece s).2

/-- An index that is reached by committing batches with plain ids, each with answers that are right and do
not change during the batch. -/
inductive Reached (ms : Mappings) : Index → Prop
  | empty : Reached ms .empty
  | batch {reader : EntityReader Site} {held : Store.Database → Prop}
      {answers : Identity → Option Entity} {events : List CaptureEvent} {s : Site}
      (unchanging : reader.Unchanging held answers) (faithful : Faithful ms answers)
      (plain : ∀ e ∈ events, e.entityId.isPlain) (shows : held s.database)
      (before : Reached ms s.index.index) (commits : Commits reader ms events s) :
      Reached ms (batch (Site.surroundings reader ms) ms events s).2.index.index

theorem Reached.spec {ix : Index} (separate : ms.Separate) (h : Reached ms ix) :
    ix.Lawful ∧ ix.Filed ms := by
  induction h with
  | empty => exact ⟨Index.lawful_empty, Index.filed_empty ms⟩
  | batch unchanging faithful plain shows _ commits ih =>
    obtain ⟨lawful, filed, -, -⟩ :=
      batch_heard unchanging separate faithful plain shows ih.1 ih.2 commits
    exact ⟨lawful, filed⟩

/-- Batches that all commit settle the documents as all their events say. -/
theorem dispatchAll_heard (unchanging : reader.Unchanging held answers) (separate : ms.Separate)
    (faithful : Faithful ms answers) {pieces : List (List CaptureEvent)}
    (plain : ∀ e ∈ pieces.flatten, e.entityId.isPlain) (lawful : s.index.index.Lawful)
    (filed : s.index.index.Filed ms) (h : AllCommit reader held ms pieces s) :
    (∀ e ∈ NetBatch.recognised pieces.flatten, Encodable ms e.identity) ∧
      ∀ type key, key.Hashable →
        ((dispatchAll reader ms pieces s).index.index.docs type).get? key =
          (NetBatch.recognised pieces.flatten).foldl (heard ms answers type key)
            ((s.index.index.docs type).get? key) := by
  induction pieces generalizing s with
  | nil => exact ⟨by simp [NetBatch.recognised], fun _ _ _ => rfl⟩
  | cons piece rest ih =>
    rw [List.flatten_cons, List.forall_mem_append] at plain
    obtain ⟨lawful', filed', encodable, hpiece⟩ :=
      batch_heard unchanging separate faithful plain.1 h.1 lawful filed h.2.1
    obtain ⟨encodable', hrest⟩ := ih plain.2 lawful' filed' h.2.2
    have hsplit : NetBatch.recognised (piece ++ rest.flatten) =
        NetBatch.recognised piece ++ NetBatch.recognised rest.flatten := List.filter_append ..
    rw [List.flatten_cons, hsplit]
    refine ⟨List.forall_mem_append.mpr ⟨encodable, encodable'⟩, fun type key hkey => ?_⟩
    rw [List.foldl_append, ← hpiece type key hkey]
    exact hrest type key hkey

/-- Batch boundaries do not matter. If events are cut into batches that all commit, then the batch of all
events leaves the same documents when it commits. It does if every question of it is answered and no outage
strikes its transaction. -/
theorem boundaries (unchanging : reader.Unchanging held answers) (separate : ms.Separate)
    (faithful : Faithful ms answers) (reached : Reached ms s.index.index)
    (pieces : List (List CaptureEvent)) (plain : ∀ e ∈ pieces.flatten, e.entityId.isPlain)
    (shows : held s.database) (commit : AllCommit reader held ms pieces s) :
    (reader.Ready held → s.Calm → Commits reader ms pieces.flatten s) ∧
      (Commits reader ms pieces.flatten s →
        (dispatchAll reader ms pieces s).index.index.Agrees
          (batch (Site.surroundings reader ms) ms pieces.flatten s).2.index.index) := by
  obtain ⟨lawful, filed⟩ := reached.spec separate
  obtain ⟨encodable, hpieces⟩ :=
    dispatchAll_heard unchanging separate faithful plain lawful filed commit
  have hplain := recognised_plain plain
  constructor
  · intro ready calm
    obtain ⟨hok, hnet⟩ := NetBatch.collapse_of_hashable (hashable_of_plain plain)
    have hencodable : ∀ e ∈ NetBatch.net (NetBatch.recognised pieces.flatten),
        Encodable ms e.1 := by
      rintro ⟨i, kind⟩ h
      obtain ⟨e, he, rfl⟩ := NetBatch.exists_of_mem_net h
      exact encodable e he
    obtain ⟨changes, leads⟩ :=
      exists_leads_settling separate faithful (net_plain hplain) hencodable
    obtain ⟨-, after, made, -⟩ :=
      applyAll_settling separate faithful (net_plain hplain) leads lawful filed
    exact commits_of_leads unchanging ready shows calm hok (hnet ▸ leads) made
  · intro whole
    obtain ⟨-, -, -, hwhole⟩ :=
      batch_heard unchanging separate faithful plain shows lawful filed whole
    rw [Index.agrees_iff]
    intro type key hkey
    rw [hpieces type key hkey, hwhole type key hkey]

/-! A register of plots, by number. The number and its text are different ids with one key. -/

def plots : Mapping where
  indexedType := house
  idFields := [(house, ⟨"id", .string, some Encoder.string.codec⟩)]
  fields := ["id"]
  document := none
  name := "House"
  mapped := rfl

def plotRegister : Mappings := ⟨[plots], by simp⟩

/-- Only the first plot is there, by its number. -/
def firstPlot : Identity → Option Entity
  | ⟨type, .int 1⟩ => if type = house then some ⟨house, [("id", .int 1)]⟩ else none
  | _ => none

def unplotted : Site := { ownerless with index := .empty }

/-- The deletion of the text comes after the insertion of the number, and before its update. -/
def sharedKey : List (List CaptureEvent) :=
  [[⟨house, .int 1, .insert, 1, "plots"⟩, ⟨house, .text "1", .delete, 2, "plots"⟩],
    [⟨house, .int 1, .update, 3, "plots"⟩]]

theorem plotRegister_separate : plotRegister.Separate where
  own m hm := by
    obtain rfl := List.mem_singleton.mp hm
    exact ⟨_, rfl⟩
  unrelated m hm n hn _ := by
    rw [List.mem_singleton.mp hm, List.mem_singleton.mp hn]

theorem firstPlot_faithful : Faithful plotRegister firstPlot := by
  refine faithful_of_alone fun m hm id hid e he => ?_
  obtain rfl := List.mem_singleton.mp hm
  unfold firstPlot at he
  split at he
  · rename_i type heq
    cases heq
    rw [if_pos (show plots.indexedType = house from rfl)] at he
    cases he
    exact ⟨by decide, fun n hn _ => List.mem_singleton.mp hn, [("id", .int 1)], by cbv, rfl⟩
  · cases he

/-- The plot is in the register, however the events are cut. -/
theorem boundaries_sharedKey :
    (batch (Site.surroundings (.ofAnswers firstPlot) plotRegister) plotRegister sharedKey.flatten
        unplotted).2.index.index.get? house (.text "1") = .ok (some [("id", .int 1)]) := by
  have plain : ∀ e ∈ sharedKey.flatten, e.entityId.isPlain := by decide
  have commit : AllCommit (.ofAnswers firstPlot) (fun _ => True) plotRegister sharedKey unplotted :=
    ⟨trivial, commits_of_ok (by cbv), trivial, commits_of_ok (by cbv), trivial⟩
  obtain ⟨commits, agrees⟩ :=
    boundaries (EntityReader.ofAnswers_unchanging firstPlot) plotRegister_separate firstPlot_faithful
      .empty sharedKey plain trivial commit
  have ready := EntityReader.ofAnswers_ready firstPlot
  rw [← agrees (commits ready ⟨rfl, rfl⟩) house (.text "1")]
  cbv

/-! A houseboat is a house and a boat. As a house is what it is filed as, whichever of the two was asked
for. -/

def boat : EntityType := .root "register" "Boat"

def houseboat : EntityType := ⟨"register", "Houseboat", [house, boat]⟩

def boats : Mapping where
  indexedType := boat
  idFields := [(boat, ⟨"id", .long, none⟩)]
  fields := ["id"]
  document := none
  name := "Boat"
  mapped := rfl

def homes : Mapping where
  indexedType := house
  idFields := [(house, ⟨"id", .long, none⟩)]
  fields := ["id"]
  document := none
  name := "House"
  mapped := rfl

def harbour : Mappings := ⟨[homes, boats], by simp [homes, boats, show house ≠ boat by decide]⟩

/-- The only boat is a houseboat. -/
def onlyBoat : Identity → Option Entity
  | ⟨type, .int 2⟩ => if type = boat then some ⟨houseboat, [("id", .int 2)]⟩ else none
  | _ => none

theorem harbour_separate : harbour.Separate where
  own m hm := by
    rcases List.mem_cons.mp hm with rfl | hm
    · exact ⟨_, rfl⟩
    · obtain rfl := List.mem_singleton.mp hm
      exact ⟨_, rfl⟩
  unrelated m hm n hn h := by
    simp only [harbour, List.mem_cons, List.not_mem_nil, or_false] at hm hn
    rcases hm with rfl | rfl <;> rcases hn with rfl | rfl
    · rfl
    · exact absurd h (by decide)
    · exact absurd h (by decide)
    · rfl

/-- Where batches are cut does matter if an entity of a mapped type is filed as another one, which its
class has for a base as well. -/
theorem boundaries_matter :
    ¬ ∀ (ms : Mappings) (answers : Identity → Option Entity) (pieces : List (List CaptureEvent))
      (s : Site), (Mappings.ofList ms.list).map (·.list) = .ok ms.list → ms.validate = .ok () →
      ms.Separate →
      (∀ m ∈ ms.list, ∀ id : Value, id.isPlain → ∀ e, answers ⟨m.indexedType, id⟩ = some e →
        m.indexedType ∈ e.type.lineage ∧ ∃ n doc, ms.mappingFor e.type = some n ∧
          n.buildDocument e = .ok doc ∧ doc.get? n.ownIdField.name = some id) →
      s.index.index = .empty → s.Calm → (∀ e ∈ pieces.flatten, e.entityId.isPlain) →
      AllCommit (.ofAnswers answers) (fun _ => True) ms pieces s →
      (dispatchAll (.ofAnswers answers) ms pieces s).index.index.Agrees
        (batch (Site.surroundings (.ofAnswers answers) ms) ms pieces.flatten s).2.index.index := by
  intro h
  have holds : ∀ m ∈ harbour.list, ∀ id : Value, id.isPlain → ∀ e,
      onlyBoat ⟨m.indexedType, id⟩ = some e →
      m.indexedType ∈ e.type.lineage ∧ ∃ n doc, harbour.mappingFor e.type = some n ∧
        n.buildDocument e = .ok doc ∧ doc.get? n.ownIdField.name = some id := by
    intro m _ id _ e he
    unfold onlyBoat at he
    split at he
    · rename_i type heq
      obtain ⟨rfl, rfl⟩ := Identity.mk.inj heq
      split at he
      · rename_i asked
        cases he
        rw [asked]
        exact ⟨by decide, homes, [("id", .int 2)], by cbv, by cbv, rfl⟩
      · cases he
    · cases he
  let pieces : List (List CaptureEvent) :=
    [[⟨boat, .int 2, .insert, 1, "boats"⟩], [⟨boat, .int 2, .delete, 2, "boats"⟩]]
  have agrees := h harbour onlyBoat pieces unplotted (by cbv) (by cbv) harbour_separate holds rfl
    ⟨rfl, rfl⟩ (by decide)
    ⟨trivial, commits_of_ok (by cbv), trivial, commits_of_ok (by cbv), trivial⟩ house (.int 2)
  have kept : (dispatchAll (.ofAnswers onlyBoat) harbour pieces unplotted).index.index.get? house
      (.int 2) = .ok (some [("id", .int 2)]) := by cbv
  rw [kept] at agrees
  exact absurd agrees (by cbv; simp)

end Dispatch
end IndexSync
