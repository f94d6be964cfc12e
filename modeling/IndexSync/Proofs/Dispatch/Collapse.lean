import IndexSync.Capture.Collapse
import IndexSync.Proofs.Entries
import IndexSync.Proofs.Outcome
import IndexSync.Proofs.Value.Same
import Mathlib.Data.List.Induction

/-!
# The net changes of a batch

Events with known codes are put one after the other, each in the place of an earlier one about the same
entity. What is left about an entity depends on the events about it alone.
-/
namespace IndexSync

namespace Identity

/-- An identity whose id can be a key. -/
def Hashable (i : Identity) : Prop := i.id.Hashable

variable {i j k : Identity}

theorem beq_comm (hi : i.Hashable) (hj : j.Hashable) : (i == j) = (j == i) := by
  change (i.type == j.type && i.id == j.id) = (j.type == i.type && j.id == i.id)
  rw [Value.beq_comm hi hj, BEq.comm]

/-- Identities that are the same are the same as the same others. -/
theorem beq_congr (hi : i.Hashable) (hj : j.Hashable) (hk : k.Hashable) (h : (i == j) = true) :
    (i == k) = (j == k) := by
  change (i.type == j.type && i.id == j.id) = true at h
  rw [Bool.and_eq_true, beq_iff_eq] at h
  change (i.type == k.type && i.id == k.id) = (j.type == k.type && j.id == k.id)
  rw [h.1, Value.beq_congr hi hj hk h.2]

theorem beq_self_of_same (hi : i.Hashable) (hj : j.Hashable) (h : (i == j) = true) :
    (i == i) = true := by
  rw [beq_congr hi hj hi h, ← beq_comm hi hj]
  exact h

end Identity

namespace NetBatch

/-- The events with known codes. -/
def recognised (events : List CaptureEvent) : List CaptureEvent :=
  events.filter (·.kind ≠ .unknown)

/-- The net changes with one more event. -/
def put (changes : Entries Identity EventKind) (e : CaptureEvent) : Entries Identity EventKind :=
  changes.erase e.identity ++ [(e.identity, merged (changes.get? e.identity) e.kind)]

/-- The net changes of recognised events. -/
def net (events : List CaptureEvent) : Entries Identity EventKind := events.foldl put []

theorem add_of_unknown (batch : NetBatch) {e : CaptureEvent} (h : e.kind = .unknown) :
    ∃ notices, batch.add e = .ok ⟨batch.changes, notices⟩ := by
  simp only [add, h, if_true]
  exact ⟨_, rfl⟩

theorem add_of_known {batch : NetBatch} {e : CaptureEvent} (h : e.kind ≠ .unknown) :
    batch.add e = e.entityId.requireKey.map fun _ => ⟨put batch.changes e, batch.notices⟩ := by
  simp only [add, h, if_false]
  cases e.entityId.requireKey <;> rfl

/-- If all ids can be keys, all events with known codes are put. -/
theorem addAll_of_hashable {events : List CaptureEvent} {batch : NetBatch}
    (h : ∀ e ∈ recognised events, e.identity.Hashable) :
    (addAll events batch).1 = .ok () ∧
      (addAll events batch).2.changes = (recognised events).foldl put batch.changes := by
  induction events generalizing batch with
  | nil => exact ⟨rfl, rfl⟩
  | cons e rest ih =>
    by_cases hkind : e.kind = .unknown
    · have hskip : recognised (e :: rest) = recognised rest :=
        List.filter_cons_of_neg (by simpa using hkind)
      rw [hskip] at h ⊢
      obtain ⟨notices, hadd⟩ := add_of_unknown batch hkind
      simp only [addAll, hadd]
      exact ih h
    · have hput : recognised (e :: rest) = e :: recognised rest :=
        List.filter_cons_of_pos (by simpa using hkind)
      rw [hput] at h ⊢
      rw [List.forall_mem_cons] at h
      have hkey : e.entityId.requireKey = .ok () := h.1
      simp only [addAll, add_of_known hkind, hkey]
      exact ih h.2

/-- If no event fails, all ids can be keys. -/
theorem hashable_of_addAll {events : List CaptureEvent} {batch : NetBatch}
    (h : (addAll events batch).1 = .ok ()) : ∀ e ∈ recognised events, e.identity.Hashable := by
  induction events generalizing batch with
  | nil => exact fun e he => absurd he List.not_mem_nil
  | cons e rest ih =>
    by_cases hkind : e.kind = .unknown
    · obtain ⟨notices, hadd⟩ := add_of_unknown batch hkind
      simp only [addAll, hadd] at h
      rw [recognised, List.filter_cons_of_neg (by simpa using hkind)]
      exact ih h
    · rw [recognised, List.filter_cons_of_pos (by simpa using hkind), List.forall_mem_cons]
      simp only [addAll, add_of_known hkind] at h
      cases hkey : e.entityId.requireKey with
      | error f =>
        rw [hkey] at h
        cases h
      | ok u =>
        rw [hkey] at h
        exact ⟨hkey, ih h⟩

theorem collapse_of_hashable {events : List CaptureEvent}
    (h : ∀ e ∈ recognised events, e.identity.Hashable) :
    (collapse events).1 = .ok () ∧ (collapse events).2.changes = net (recognised events) :=
  addAll_of_hashable h

theorem collapse_of_ok {events : List CaptureEvent} (h : (collapse events).1 = .ok ()) :
    (collapse events).2.changes = net (recognised events) :=
  (collapse_of_hashable (hashable_of_addAll h)).2

variable {events : List CaptureEvent} {e : CaptureEvent} {i : Identity} {kind : EventKind}

theorem net_concat (events : List CaptureEvent) (e : CaptureEvent) :
    net (events ++ [e]) = put (net events) e := by
  rw [net, List.foldl_append]
  rfl

theorem mem_put {changes : Entries Identity EventKind} :
    (i, kind) ∈ put changes e ↔ ((i, kind) ∈ changes ∧ (i == e.identity) = false) ∨
      (i = e.identity ∧ kind = merged (changes.get? e.identity) e.kind) := by
  rw [put, List.mem_append, List.mem_singleton, Prod.mk.injEq, Entries.erase, List.mem_filter,
    Bool.not_eq_true']

/-- Net changes are about entities that events are about. -/
theorem exists_of_mem_net (h : (i, kind) ∈ net events) : ∃ e ∈ events, e.identity = i := by
  induction events using List.reverseRecOn with
  | nil => cases h
  | append_singleton events e ih =>
    rw [net_concat, mem_put] at h
    rcases h with ⟨hold, -⟩ | ⟨rfl, -⟩
    · obtain ⟨x, hx, hxi⟩ := ih hold
      exact ⟨x, List.mem_append_left _ hx, hxi⟩
    · exact ⟨e, by simp, rfl⟩

/-- An entity has been seen if there is an event about it. -/
theorem get?_net_isSome (h : ∀ e ∈ events, e.identity.Hashable) (hi : i.Hashable) :
    ((net events).get? i).isSome = events.any (·.identity == i) := by
  induction events using List.reverseRecOn with
  | nil => rfl
  | append_singleton events e ih =>
    have hevents : ∀ x ∈ events, x.identity.Hashable := fun x hx =>
      h x (List.mem_append_left _ hx)
    have he : e.identity.Hashable := h e (by simp)
    rw [net_concat, put, Entries.get?_append, List.any_append]
    by_cases hsame : (e.identity == i) = true
    · simp [Entries.get?, hsame]
    · have hkept : ((net events).erase e.identity).get? i = (net events).get? i := by
        apply Entries.get?_erase_apart
        rintro ⟨j, k⟩ hmem hj
        obtain ⟨x, hx, rfl⟩ := exists_of_mem_net hmem
        rw [Identity.beq_congr (hevents x hx) he hi hj]
        exact Bool.eq_false_iff.mpr hsame
      rw [hkept]
      simp [Entries.get?, hsame, ih hevents]

/-- What is left about an entity: its last event decides, and an insertion after others is an update. -/
theorem mem_net_iff (h : ∀ e ∈ events, e.identity.Hashable) (hi : i.Hashable)
    (self : (i == i) = true) :
    (i, kind) ∈ net events ↔ ∃ before e, events.filter (·.identity == i) = before ++ [e] ∧
      e.identity = i ∧ kind = if e.kind = .insert && !before.isEmpty then .update else e.kind := by
  induction events using List.reverseRecOn with
  | nil => simp [net]
  | append_singleton events e ih =>
    have hevents : ∀ x ∈ events, x.identity.Hashable := fun x hx =>
      h x (List.mem_append_left _ hx)
    have he : e.identity.Hashable := h e (by simp)
    have hcomm : (i == e.identity) = (e.identity == i) := Identity.beq_comm hi he
    rw [net_concat, mem_put, ih hevents, List.filter_append, hcomm]
    by_cases hei : e.identity = i
    · subst hei
      have hseen : ((net events).get? e.identity).isSome =
          !(events.filter (·.identity == e.identity)).isEmpty := by
        rw [get?_net_isSome hevents he, Bool.eq_iff_iff]
        simp
      have hlast : [e].filter (·.identity == e.identity) = [e] := by simp [self]
      rw [hlast, merged, hseen]
      constructor
      · rintro (⟨-, hne⟩ | ⟨-, hkind⟩)
        · rw [self] at hne
          cases hne
        · exact ⟨_, e, rfl, rfl, hkind⟩
      · rintro ⟨before, x, heq, -, hkind⟩
        obtain ⟨rfl, hx⟩ := List.append_inj' heq rfl
        cases hx
        exact .inr ⟨rfl, hkind⟩
    · by_cases hsame : (e.identity == i) = true
      · -- The entity is named by another id now, which is the same.
        have hlast : [e].filter (·.identity == i) = [e] := by simp [hsame]
        rw [hlast]
        constructor
        · rintro (⟨-, hne⟩ | ⟨hie, -⟩)
          · rw [hsame] at hne
            cases hne
          · exact absurd hie.symm hei
        · rintro ⟨before, x, heq, hxi, -⟩
          obtain ⟨-, hx⟩ := List.append_inj' heq rfl
          cases hx
          exact absurd hxi hei
      · have hlast : [e].filter (·.identity == i) = [] := by simp [hsame]
        rw [hlast, List.append_nil]
        constructor
        · rintro (⟨hold, -⟩ | ⟨hie, -⟩)
          · exact hold
          · exact absurd hie.symm hei
        · exact fun hold => .inl ⟨hold, Bool.eq_false_iff.mpr hsame⟩

/-- An id that is not the same as itself, the undefined number, is new with every event. -/
theorem mem_net_iff_of_odd (h : ∀ e ∈ events, e.identity.Hashable) (hi : i.Hashable)
    (odd : (i == i) = false) :
    (i, kind) ∈ net events ↔ ∃ e ∈ events, e.identity = i ∧ kind = e.kind := by
  have apart {j : Identity} (hj : j.Hashable) : (i == j) = false := by
    rw [Bool.eq_false_iff]
    intro hsame
    rw [Identity.beq_self_of_same hi hj hsame] at odd
    cases odd
  induction events using List.reverseRecOn with
  | nil => simp [net]
  | append_singleton events e ih =>
    have hevents : ∀ x ∈ events, x.identity.Hashable := fun x hx =>
      h x (List.mem_append_left _ hx)
    have he : e.identity.Hashable := h e (by simp)
    have hnew (hei : e.identity = i) :
        merged ((net events).get? e.identity) e.kind = e.kind := by
      have unseen : ((net events).get? e.identity).isSome = false := by
        rw [get?_net_isSome hevents he, List.any_eq_false]
        intro x hx
        rw [hei, Identity.beq_comm (hevents x hx) hi, apart (hevents x hx)]
        exact Bool.false_ne_true
      rw [merged, unseen, Bool.and_false, if_neg Bool.false_ne_true]
    have hold : (i, kind) ∈ net events ↔ ∃ e ∈ events, e.identity = i ∧ kind = e.kind :=
      ih hevents
    rw [net_concat, mem_put, hold]
    constructor
    · rintro (⟨⟨x, hx, hxi, hkind⟩, -⟩ | ⟨hie, hkind⟩)
      · exact ⟨x, List.mem_append_left _ hx, hxi, hkind⟩
      · exact ⟨e, by simp, hie.symm, hkind.trans (hnew hie.symm)⟩
    · rintro ⟨x, hx, hxi, hkind⟩
      rcases List.mem_append.mp hx with hbefore | hlast
      · exact .inl ⟨⟨x, hbefore, hxi, hkind⟩, apart he⟩
      · obtain rfl := List.mem_singleton.mp hlast
        exact .inr ⟨hxi.symm, hkind.trans (hnew hxi).symm⟩

/-- What is left names each entity in one way. -/
theorem eq_of_mem_net (h : ∀ e ∈ events, e.identity.Hashable) {j : Identity} {other : EventKind}
    (hi : (i, kind) ∈ net events) (hj : (j, other) ∈ net events) (same : (i == j) = true) : i = j := by
  induction events using List.reverseRecOn generalizing kind other with
  | nil => cases hi
  | append_singleton events e ih =>
    have hevents : ∀ x ∈ events, x.identity.Hashable := fun x hx =>
      h x (List.mem_append_left _ hx)
    have he : e.identity.Hashable := h e (by simp)
    rw [net_concat, mem_put] at hi hj
    rcases hi with ⟨hi, hie⟩ | ⟨rfl, -⟩
    · rcases hj with ⟨hj, -⟩ | ⟨rfl, -⟩
      · exact ih hevents hi hj
      · rw [same] at hie
        cases hie
    · rcases hj with ⟨hj, hje⟩ | ⟨rfl, -⟩
      · obtain ⟨x, hx, rfl⟩ := exists_of_mem_net hj
        rw [Identity.beq_comm (hevents x hx) he, same] at hje
        cases hje
      · rfl

/-- Lists of the same events, with those about each entity in one order, leave the same. -/
theorem mem_net_of_reordered {others : List CaptureEvent} (perm : events.Perm others)
    (orders : ∀ i : Identity,
      events.filter (·.identity == i) = others.filter (·.identity == i))
    (h : ∀ e ∈ events, e.identity.Hashable) :
    (i, kind) ∈ net events ↔ (i, kind) ∈ net others := by
  have h' : ∀ e ∈ others, e.identity.Hashable := fun e he => h e (perm.mem_iff.mpr he)
  by_cases hi : i.Hashable
  · cases self : i == i with
    | true => rw [mem_net_iff h hi self, mem_net_iff h' hi self, orders i]
    | false =>
      rw [mem_net_iff_of_odd h hi self, mem_net_iff_of_odd h' hi self]
      simp only [perm.mem_iff]
  · have hnone {xs : List CaptureEvent} (hxs : ∀ e ∈ xs, e.identity.Hashable) :
        (i, kind) ∉ net xs := by
      intro hmem
      obtain ⟨e, he, rfl⟩ := exists_of_mem_net hmem
      exact hi (hxs e he)
    exact iff_of_false (hnone h) (hnone h')

end NetBatch
end IndexSync
