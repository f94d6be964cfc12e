import IndexSync.Proofs.Search.Changes
import IndexSync.Proofs.Value.Same

/-!
# What a change does to the document under a key

The documents of a type are a dictionary: no two of its keys are the same. A change then acts on the
document under each key on its own. A write decides it, and a deletion takes it away or spares it.
-/
namespace IndexSync.Search

/-- Documents under values that can be keys, of which no two are the same. -/
structure Dictionary (docs : Entries Value Document) : Prop where
  hashable : ∀ e ∈ docs, e.1.Hashable
  apart : docs.Pairwise fun a b => (a.1 == b.1) = false

namespace Dictionary

variable {docs kept : Entries Value Document} {k key : Value}

theorem nil : Dictionary [] := ⟨by simp, .nil⟩

theorem sublist (h : Dictionary docs) (sub : kept.Sublist docs) : Dictionary kept :=
  ⟨fun e he => h.hashable e (sub.subset he), h.apart.sublist sub⟩

theorem put (h : Dictionary docs) (hk : k.Hashable) (doc : Document) :
    Dictionary (docs.put k doc) := by
  induction docs with
  | nil => exact ⟨by simpa [Entries.put] using hk, by simp [Entries.put]⟩
  | cons e rest ih =>
    obtain ⟨l, old⟩ := e
    have hrest := ih (h.sublist (List.sublist_cons_self ..))
    obtain ⟨hashable, apart⟩ := h
    rw [List.forall_mem_cons] at hashable
    rw [List.pairwise_cons] at apart
    by_cases hl : (l == k) = true
    · simp only [Entries.put, hl, if_true]
      exact ⟨List.forall_mem_cons.mpr hashable, List.pairwise_cons.mpr apart⟩
    · simp only [Entries.put, hl]
      refine ⟨List.forall_mem_cons.mpr ⟨hashable.1, hrest.hashable⟩,
        List.pairwise_cons.mpr ⟨?_, hrest.apart⟩⟩
      rintro ⟨m, d⟩ hm
      rcases Entries.mem_put hm with hold | ⟨-, rfl | ⟨-, c, hold⟩⟩
      · exact apart.1 _ hold
      · exact Bool.eq_false_iff.mpr hl
      · exact apart.1 (m, c) hold

/-- Keys that are the same stand for the same document. -/
theorem get?_congr (h : ∀ e ∈ docs, e.1.Hashable) (hk : k.Hashable) (hkey : key.Hashable)
    (same : (k == key) = true) : docs.get? key = docs.get? k := by
  induction docs with
  | nil => rfl
  | cons e rest ih =>
    rw [List.forall_mem_cons] at h
    have hl : (e.1 == key) = (e.1 == k) := by
      rw [Value.beq_comm h.1 hkey, Value.beq_comm h.1 hk, Value.beq_congr hk hkey h.1 same]
    simp only [Entries.get?, hl, ih h.2]

/-- An entry is found under each key that is the same as its own. -/
theorem get?_of_mem (h : Dictionary docs) {doc : Document} (hmem : (k, doc) ∈ docs)
    (hkey : key.Hashable) (same : (k == key) = true) : docs.get? key = some doc := by
  induction docs with
  | nil => cases hmem
  | cons e rest ih =>
    obtain ⟨hashable, apart⟩ := h
    rw [List.pairwise_cons] at apart
    rcases List.mem_cons.mp hmem with rfl | hrest
    · simp only [Entries.get?, same, if_true]
    · have hk := hashable _ hmem
      have differ : (e.1 == key) = false := by
        rw [Value.beq_comm (hashable e List.mem_cons_self) hkey, ← Value.beq_congr hk hkey
          (hashable e List.mem_cons_self) same, Value.beq_comm hk (hashable e List.mem_cons_self)]
        exact apart.1 _ hrest
      rw [Entries.get?, differ]
      exact ih ⟨fun e he => hashable e (List.mem_cons_of_mem _ he), apart.2⟩ hrest

theorem get?_put (h : Dictionary docs) (hk : k.Hashable) (hkey : key.Hashable) (doc : Document) :
    (docs.put k doc).get? key = if (k == key) = true then some doc else docs.get? key := by
  split
  · rename_i same
    have self : (k == k) = true := Value.beq_trans hk hkey hk same (Value.beq_comm hk hkey ▸ same)
    rw [get?_congr (h.put hk doc).hashable hk hkey same, Entries.get?_put_same self]
  · rename_i differ
    refine Entries.get?_put_apart (Bool.eq_false_iff.mpr differ) (fun e he hek => ?_) doc
    rw [Value.beq_congr (h.hashable e he) hk hkey hek]
    exact Bool.eq_false_iff.mpr differ

theorem get?_erase (h : Dictionary docs) (hk : k.Hashable) (hkey : key.Hashable) :
    (docs.erase k).get? key = if (k == key) = true then none else docs.get? key := by
  split
  · rename_i same
    have hrest : ∀ e ∈ docs.erase k, e.1.Hashable := fun e he =>
      h.hashable e (List.mem_filter.mp he).1
    rw [get?_congr hrest hk hkey same, Entries.get?_erase_self]
  · rename_i differ
    refine Entries.get?_erase_apart fun e he hek => ?_
    rw [Value.beq_congr (h.hashable e he) hk hkey hek]
    exact Bool.eq_false_iff.mpr differ

end Dictionary

namespace Index

variable {m : Mapping} {field : String} {value : Value} {docs kept : Entries Value Document}

/-- A document is selected, and the search for it does not fail. -/
def selected (m : Mapping) (field : String) (value : Value) (doc : Document) : Bool :=
  match selects m field value doc with
  | .ok found => found
  | .error _ => false

theorem unselected_eq_filter (h : unselected m field value docs = .ok kept) :
    kept = docs.filter fun e => !selected m field value e.2 := by
  induction docs generalizing kept with
  | nil =>
    cases h
    rfl
  | cons e rest ih =>
    obtain ⟨l, doc⟩ := e
    simp only [unselected] at h
    obtain ⟨doomed, hdoomed, h⟩ := ok_of_bind h
    obtain ⟨others, hothers, h⟩ := ok_of_bind h
    cases h
    have hsel : selected m field value doc = doomed := by rw [selected, hdoomed]
    rw [ih hothers, List.filter_cons, hsel]
    cases doomed <;> rfl

end Index

/-- A filter of documents acts on the document under a key. -/
theorem Dictionary.get?_filter {docs : Entries Value Document} (h : Dictionary docs) {key : Value}
    (hkey : key.Hashable) (spared : Document → Bool) :
    Entries.get? key (docs.filter fun e => spared e.2) = (docs.get? key).filter spared := by
  induction docs with
  | nil => rfl
  | cons e rest ih =>
    obtain ⟨l, doc⟩ := e
    have hrest := ih (h.sublist (List.sublist_cons_self ..))
    obtain ⟨hashable, apart⟩ := h
    rw [List.forall_mem_cons] at hashable
    rw [List.pairwise_cons] at apart
    by_cases hl : (l == key) = true
    · by_cases hs : spared doc = true
      · simp [Entries.get?, hl, hs, Option.filter_some_pos]
      · -- The rest has no second document under the key.
        have hnone : Entries.get? key rest = none := by
          rw [Option.eq_none_iff_forall_ne_some]
          intro d hd
          obtain ⟨k, hk, hmem⟩ := Entries.mem_of_get? hd
          have hkh := hashable.2 _ hmem
          have hlk : (l == k) = true :=
            Value.beq_trans hashable.1 hkey hkh hl (Value.beq_comm hkh hkey ▸ hk)
          rw [apart.1 _ hmem] at hlk
          cases hlk
        rw [hnone, Option.filter_none] at hrest
        simp [Entries.get?, hl, hs, hrest, Option.filter_some_neg]
    · by_cases hs : spared doc = true
      · simp [Entries.get?, hl, hs, hrest]
      · simp [Entries.get?, hl, hs, hrest]

namespace Change

variable {ms : Mappings} {type : EntityType} {key : Value} {c : Change} {changes made : List Change}
  {old : Option Document}

/-- The document that a change writes under a key. -/
def written? (type : EntityType) (key : Value) : Change → Option Document
  | .write _ t _ k doc => if t = type ∧ (k == key) = true then some doc else none
  | .delete .. => none

theorem written?_eq_some {doc : Document} : c.written? type key = some doc ↔
    ∃ renew field k, c = .write renew type field k doc ∧ (k == key) = true := by
  cases c with
  | write renew t field k d =>
    rw [written?]
    constructor
    · intro h
      split at h
      · rename_i htk
        cases h
        exact ⟨renew, field, k, by rw [htk.1], htk.2⟩
      · cases h
    · rintro ⟨_, _, _, heq, hk⟩
      cases heq
      rw [if_pos ⟨rfl, hk⟩]
  | delete t field value =>
    rw [written?]
    constructor
    · intro h
      cases h
    · rintro ⟨_, _, _, heq, -⟩
      cases heq

/-- A change does not take the document of a type away. -/
def spares (ms : Mappings) (type : EntityType) : Change → Document → Bool
  | .write .., _ => true
  | .delete t field value, doc =>
    match ms.mappingFor t with
    | none => true
    | some m => !(decide (t = type) && Index.selected m field value doc)

theorem spares_delete (type : EntityType) {t : EntityType} {field : String} {value : Value}
    {m : Mapping} (hm : ms.mappingFor t = some m) :
    (Change.delete t field value).spares ms type =
      fun doc => !(decide (t = type) && Index.selected m field value doc) := by
  funext doc
  simp only [spares, hm]

theorem filter_spared {spared : Document → Bool} (h : ∀ doc, spared doc = true) :
    old.filter spared = old := by
  cases old with
  | none => rfl
  | some doc => exact Option.filter_some_pos (h doc)

/-- What a change makes of the document under a key. -/
def act (ms : Mappings) (type : EntityType) (key : Value) (old : Option Document) (c : Change) :
    Option Document :=
  (c.written? type key).or (old.filter (c.spares ms type))

/-- What changes one after the other make of the document under a key. -/
def actAll (ms : Mappings) (type : EntityType) (key : Value) (changes : List Change)
    (old : Option Document) : Option Document :=
  changes.foldl (act ms type key) old

theorem actAll_append (first rest : List Change) :
    actAll ms type key (first ++ rest) old =
      actAll ms type key rest (actAll ms type key first old) :=
  List.foldl_append

/-- Changes that do not write under a key take its document away, or leave it. -/
theorem actAll_of_unwritten (h : ∀ c ∈ changes, c.written? type key = none) :
    actAll ms type key changes old = old.filter fun doc => changes.all (·.spares ms type doc) := by
  induction changes generalizing old with
  | nil => cases old <;> rfl
  | cons c rest ih =>
    rw [List.forall_mem_cons] at h
    have hact : act ms type key old c = old.filter (c.spares ms type) := by rw [act, h.1, Option.none_or]
    rw [actAll, List.foldl_cons, hact]
    have hrest : actAll ms type key rest (old.filter (c.spares ms type)) = _ := ih h.2
    rw [actAll] at hrest
    rw [hrest, Option.filter_filter]
    rfl

/-- A write under a key makes what was there before irrelevant. -/
theorem actAll_of_written (h : ∃ c ∈ changes, (c.written? type key).isSome)
    (old other : Option Document) :
    actAll ms type key changes old = actAll ms type key changes other := by
  induction changes generalizing old other with
  | nil =>
    obtain ⟨c, hc, -⟩ := h
    cases hc
  | cons c rest ih =>
    cases hw : c.written? type key with
    | some doc => simp only [actAll, List.foldl_cons, act, hw, Option.some_or]
    | none =>
      obtain ⟨d, hd, hdw⟩ := h
      rcases List.mem_cons.mp hd with rfl | hd
      · rw [hw] at hdw
        cases hdw
      · exact ih ⟨d, hd, hdw⟩ _ _

/-- The only document that is written under a key, and that no deletion takes away, is there in the
end. -/
theorem actAll_of_only {doc : Document} (h : ∃ c ∈ changes, c.written? type key = some doc)
    (only : ∀ c ∈ changes, ∀ d, c.written? type key = some d → d = doc)
    (spared : ∀ c ∈ changes, c.spares ms type doc = true) :
    actAll ms type key changes old = some doc := by
  have stays : ∀ rest : List Change, (∀ c ∈ rest, c ∈ changes) →
      actAll ms type key rest (some doc) = some doc := by
    intro rest
    induction rest with
    | nil => exact fun _ => rfl
    | cons c rest ih =>
      intro hsub
      rw [List.forall_mem_cons] at hsub
      have hact : act ms type key (some doc) c = some doc := by
        cases hw : c.written? type key with
        | some d => rw [act, hw, Option.some_or, only c hsub.1 d hw]
        | none => simp [act, hw, spared c hsub.1]
      rw [actAll, List.foldl_cons, hact]
      exact ih hsub.2
  obtain ⟨c, hc, hw⟩ := h
  obtain ⟨before, after, rfl⟩ := List.append_of_mem hc
  rw [actAll_append, actAll, List.foldl_cons, act, hw, Option.some_or]
  exact stays after fun d hd => List.mem_append_right _ (List.mem_cons_of_mem _ hd)

/-- Changes of which some were made before leave what they leave when they are made once. -/
theorem actAll_again (part : made <+: changes) :
    actAll ms type key changes (actAll ms type key made old) = actAll ms type key changes old := by
  by_cases written : ∃ c ∈ changes, (c.written? type key).isSome
  · exact actAll_of_written written _ _
  · have unwritten : ∀ c ∈ changes, c.written? type key = none := by
      intro c hc
      by_contra hsome
      exact written ⟨c, hc, Option.isSome_iff_ne_none.mpr hsome⟩
    rw [actAll_of_unwritten unwritten, actAll_of_unwritten unwritten,
      actAll_of_unwritten fun c hc => unwritten c (part.subset hc), Option.filter_filter]
    congr 1
    funext doc
    rw [Bool.eq_iff_iff]
    simp only [Bool.and_eq_true, List.all_eq_true]
    exact ⟨fun h => h.2, fun h => ⟨fun c hc => h c (part.subset hc), h⟩⟩

end Change

namespace Index

variable {ms : Mappings} {ix after : Index} {change : Change} {changes : List Change}

/-- The documents of every type are a dictionary. -/
def Lawful (ix : Index) : Prop := ∀ type, Dictionary (ix.docs type)

/-- Two indexes hold the same documents under the same keys, in whatever order. -/
def Agrees (a b : Index) : Prop := ∀ type key, a.get? type key = b.get? type key

theorem agrees_iff {a b : Index} :
    a.Agrees b ↔ ∀ type key, key.Hashable → (a.docs type).get? key = (b.docs type).get? key := by
  have hget (ix : Index) (type : EntityType) (key : Value) :
      ix.get? type key = key.requireKey.map fun _ => (ix.docs type).get? key := by
    unfold Index.get?
    cases key.requireKey <;> rfl
  constructor
  · intro h type key hkey
    have same := h type key
    rw [hget, hget, show key.requireKey = .ok () from hkey] at same
    exact Except.ok.inj same
  · intro h type key
    rw [hget, hget]
    cases hkey : key.requireKey with
    | ok u => exact congrArg Except.ok (h type key hkey)
    | error f => rfl

theorem lawful_empty : empty.Lawful := fun _ => .nil

theorem Lawful.setDocs (h : ix.Lawful) {type : EntityType} {docs : Entries Value Document}
    (hdocs : Dictionary docs) (op : Operation) : ((ix.setDocs type docs).log op).Lawful := by
  intro t
  change Dictionary ((ix.setDocs type docs).docs t)
  rw [docs_setDocs]
  split
  · exact hdocs
  · exact h t

/-- A change that is made acts on the document under each key. -/
theorem apply_spec (lawful : ix.Lawful) (h : ix.apply ms change = .ok after) :
    after.Lawful ∧ ∀ type key, key.Hashable →
      (after.docs type).get? key = change.act ms type key ((ix.docs type).get? key) := by
  cases change with
  | write renew t field k doc =>
    simp only [apply] at h
    obtain ⟨u, hk, h⟩ := ok_of_bind h
    cases h
    have hk : k.Hashable := hk
    refine ⟨lawful.setDocs ((lawful t).put hk doc) _, fun type key hkey => ?_⟩
    change ((ix.setDocs t _).docs type).get? key = _
    rw [docs_setDocs]
    have spared (old : Option Document) :
        old.filter ((Change.write renew t field k doc).spares ms type) = old :=
      Change.filter_spared fun _ => rfl
    rw [Change.act, spared]
    by_cases ht : t = type
    · subst ht
      rw [if_pos rfl, (lawful t).get?_put hk hkey]
      by_cases hkk : (k == key) = true <;> simp [Change.written?, hkk]
    · simp [Change.written?, ht]
  | delete t field value =>
    simp only [apply] at h
    cases hm : ms.mappingFor t with
    | none =>
      rw [hm] at h
      cases h
      refine ⟨lawful, fun type key hkey => ?_⟩
      rw [Change.act, Change.written?, Option.none_or, Change.filter_spared]
      intro doc
      simp only [Change.spares, hm]
    | some m =>
      rw [hm] at h
      obtain ⟨kept, hkept, h⟩ := ok_of_bind h
      cases h
      rw [unselected_eq_filter hkept]
      refine ⟨lawful.setDocs ((lawful t).sublist List.filter_sublist) _, fun type key hkey => ?_⟩
      change ((ix.setDocs t _).docs type).get? key = _
      rw [docs_setDocs]
      rw [Change.act, Change.written?, Option.none_or, Change.spares_delete type hm]
      by_cases ht : t = type
      · subst ht
        rw [if_pos rfl, (lawful t).get?_filter hkey fun doc => !selected m field value doc]
        simp only [decide_true, Bool.true_and]
      · rw [if_neg ht, Change.filter_spared]
        intro doc
        simp only [ht, decide_false, Bool.false_and, Bool.not_false]

theorem applyAll_spec (lawful : ix.Lawful) (h : applyAll ms changes ix = (.ok (), after)) :
    after.Lawful ∧ ∀ type key, key.Hashable →
      (after.docs type).get? key =
        Change.actAll ms type key changes ((ix.docs type).get? key) := by
  induction changes generalizing ix with
  | nil =>
    cases h
    exact ⟨lawful, fun _ _ _ => rfl⟩
  | cons change rest ih =>
    simp only [applyAll] at h
    split at h
    · rename_i next made
      obtain ⟨lawful', hnext⟩ := apply_spec lawful made
      obtain ⟨lawful'', hafter⟩ := ih lawful' h
      refine ⟨lawful'', fun type key hkey => ?_⟩
      rw [hafter type key hkey, hnext type key hkey]
      rfl
    · cases h

/-- Keys that have been written can be keys. -/
theorem hashable_of_applyAll (h : applyAll ms changes ix = (.ok (), after)) {renew : Bool}
    {type : EntityType} {field : String} {key : Value} {doc : Document}
    (hc : .write renew type field key doc ∈ changes) : key.Hashable := by
  induction changes generalizing ix with
  | nil => cases hc
  | cons change rest ih =>
    simp only [applyAll] at h
    split at h
    · rename_i next made
      rcases List.mem_cons.mp hc with rfl | hc
      · simp only [apply] at made
        obtain ⟨u, hkey, -⟩ := ok_of_bind made
        exact hkey
      · exact ih h hc
    · cases h

/-- Changes keep an index lawful, also if one of them fails. -/
theorem Lawful.applyAll (h : ix.Lawful) (changes : List Change) :
    (applyAll ms changes ix).2.Lawful := by
  obtain ⟨made, left, -, hmade, -⟩ := applyAll_split ms changes ix
  exact (applyAll_spec h hmade).1

end Index
end IndexSync.Search
