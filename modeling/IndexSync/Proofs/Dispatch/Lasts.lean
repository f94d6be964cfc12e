import IndexSync.Proofs.Dispatch.Collapse

/-!
# The order of the net changes

A batch comes to one change for each entity: that of the last event about it, at the place and with the id
of that event. All that the earlier events do is to turn a last insertion into an update.
-/
namespace IndexSync.NetBatch

/-- The events that no later event about the same entity follows. -/
def lasts : List CaptureEvent → List CaptureEvent
  | [] => []
  | e :: rest => if rest.any (·.identity == e.identity) then lasts rest else e :: lasts rest

/-- What the last event about an entity comes to: an insertion that is not the only event is an update. -/
def verdict (events : List CaptureEvent) (e : CaptureEvent) : EventKind :=
  if e.kind = .insert && 1 < events.countP (·.identity == e.identity) then .update else e.kind

/-- The notices about the events with unknown codes. -/
def unknownNotices (events : List CaptureEvent) : List Notice :=
  (events.filter (·.kind = .unknown)).map fun e => .unknownEvent e.entityType e.entityId e.key

variable {events : List CaptureEvent} {e : CaptureEvent} {i : Identity}

theorem mem_of_mem_lasts (h : e ∈ lasts events) : e ∈ events := by
  induction events with
  | nil => cases h
  | cons first rest ih =>
    rw [lasts] at h
    split at h
    · exact List.mem_cons_of_mem _ (ih h)
    · rcases List.mem_cons.mp h with rfl | h
      · exact List.mem_cons_self
      · exact List.mem_cons_of_mem _ (ih h)

/-- One more event takes the place of those about the same entity. -/
theorem lasts_concat (h : ∀ x ∈ events, x.identity.Hashable) (he : e.identity.Hashable) :
    lasts (events ++ [e]) = (lasts events).filter (fun x => !(x.identity == e.identity)) ++ [e] := by
  induction events with
  | nil => rfl
  | cons first rest ih =>
    rw [List.forall_mem_cons] at h
    have turned : (e.identity == first.identity) = (first.identity == e.identity) :=
      Identity.beq_comm he h.1
    rw [List.cons_append, lasts, lasts, List.any_append, List.any_cons, List.any_nil, Bool.or_false,
      turned, ih h.2]
    cases hlater : rest.any (·.identity == first.identity) with
    | true => simp
    | false => cases hsame : first.identity == e.identity <;> simp [hsame]

/-- The events that are left say how many changes there are about an entity. -/
theorem countP_lasts (h : ∀ x ∈ events, x.identity.Hashable) (hi : i.Hashable) :
    (lasts events).countP (·.identity == i) = if events.any (·.identity == i) then 1 else 0 := by
  induction events with
  | nil => rfl
  | cons first rest ih =>
    rw [List.forall_mem_cons] at h
    have counted := ih h.2
    rw [lasts, List.any_cons]
    cases hfirst : first.identity == i with
    | true =>
      -- The later events about the entity are those about the first one.
      have same (x : CaptureEvent) (hx : x ∈ rest) :
          (x.identity == first.identity) = (x.identity == i) := by
        rw [Identity.beq_comm (h.2 x hx) h.1, Identity.beq_comm (h.2 x hx) hi]
        exact Identity.beq_congr h.1 hi (h.2 x hx) hfirst
      have hlater : rest.any (·.identity == first.identity) = rest.any (·.identity == i) := by
        rw [Bool.eq_iff_iff, List.any_eq_true, List.any_eq_true]
        exact exists_congr fun x => and_congr_right fun hx => by rw [same x hx]
      rw [hlater]
      cases hrest : rest.any (·.identity == i) <;> simp_all
    | false =>
      split
      · simpa using counted
      · simpa [List.countP_cons, hfirst] using counted

/-- With its last event, an entity has been seen before if there is more than one event about it. -/
theorem merged_net (h : ∀ x ∈ events, x.identity.Hashable) (he : e.identity.Hashable) :
    merged ((net events).get? e.identity) e.kind = verdict (events ++ [e]) e := by
  have seen : ((net events).get? e.identity).isSome =
      decide (1 < (events ++ [e]).countP (·.identity == e.identity)) := by
    rw [get?_net_isSome h he, List.countP_append, List.countP_singleton]
    cases hany : events.any (·.identity == e.identity) with
    | true =>
      obtain ⟨x, hx, same⟩ := List.any_eq_true.mp hany
      have self : (e.identity == e.identity) = true :=
        Identity.beq_self_of_same he (h x hx) (by rwa [Identity.beq_comm he (h x hx)])
      have counted : 0 < events.countP (·.identity == e.identity) :=
        List.countP_pos_iff.mpr ⟨x, hx, same⟩
      rw [if_pos self]
      exact (decide_eq_true (by omega)).symm
    | false =>
      have none : events.countP (·.identity == e.identity) = 0 :=
        List.countP_eq_zero.mpr (List.any_eq_false.mp hany)
      rw [none]
      split <;> rfl
  rw [merged, verdict, seen]

/-- The net changes are those of the last events, each with its verdict. -/
theorem net_eq_lasts (h : ∀ x ∈ events, x.identity.Hashable) :
    net events = (lasts events).map fun e => (e.identity, verdict events e) := by
  induction events using List.reverseRecOn with
  | nil => rfl
  | append_singleton events e ih =>
    have hevents : ∀ x ∈ events, x.identity.Hashable := fun x hx =>
      h x (List.mem_append_left _ hx)
    have he : e.identity.Hashable := h e (by simp)
    have kept : ∀ x ∈ (lasts events).filter (fun x => !(x.identity == e.identity)),
        (x.identity, verdict events x) = (x.identity, verdict (events ++ [e]) x) := by
      intro x hx
      obtain ⟨hx, hne⟩ := List.mem_filter.mp hx
      have apart : (e.identity == x.identity) = false := by
        rw [Identity.beq_comm he (hevents x (mem_of_mem_lasts hx))]
        simpa using hne
      simp only [verdict, List.countP_append, List.countP_singleton, apart, Bool.false_eq_true,
        if_false, Nat.add_zero]
    rw [net_concat, put, merged_net hevents he, lasts_concat hevents he, List.map_append,
      ← List.map_congr_left kept, ih hevents, Entries.erase, List.filter_map]
    rfl

theorem addAll_notices {events : List CaptureEvent} {batch : NetBatch}
    (h : ∀ e ∈ recognised events, e.identity.Hashable) :
    (addAll events batch).2.notices = batch.notices ++ unknownNotices events := by
  induction events generalizing batch with
  | nil => exact (List.append_nil _).symm
  | cons e rest ih =>
    by_cases hkind : e.kind = .unknown
    · have hskip : recognised (e :: rest) = recognised rest :=
        List.filter_cons_of_neg (by simpa using hkind)
      rw [hskip] at h
      have noticed : unknownNotices (e :: rest) =
          .unknownEvent e.entityType e.entityId e.key :: unknownNotices rest := by
        rw [unknownNotices, List.filter_cons_of_pos (by simpa using hkind)]
        rfl
      simp only [addAll, add, hkind, if_true]
      rw [ih h, noticed, List.append_assoc]
      rfl
    · have hput : recognised (e :: rest) = e :: recognised rest :=
        List.filter_cons_of_pos (by simpa using hkind)
      rw [hput, List.forall_mem_cons] at h
      have hkey : e.entityId.requireKey = .ok () := h.1
      have noticed : unknownNotices (e :: rest) = unknownNotices rest := by
        rw [unknownNotices, List.filter_cons_of_neg (by simpa using hkind)]
        rfl
      simp only [addAll, add_of_known hkind, hkey]
      rw [noticed]
      exact ih h.2

/-- What a batch comes to. The events with unknown codes leave a notice each. Of the others, the last about
each entity stands in the net changes, in the order of the events and with the id that it gave. There is
one change for each entity that a recognised event is about. -/
theorem collapse_spec (events : List CaptureEvent)
    (hashable : ∀ e ∈ recognised events, e.identity.Hashable) :
    (collapse events).1 = .ok () ∧
      (collapse events).2.changes =
        (lasts (recognised events)).map (fun e => (e.identity, verdict (recognised events) e)) ∧
      (∀ i : Identity, i.Hashable → (collapse events).2.changes.countP (·.1 == i) =
        if (recognised events).any (·.identity == i) then 1 else 0) ∧
      (collapse events).2.notices = unknownNotices events := by
  obtain ⟨hok, hchanges⟩ := collapse_of_hashable hashable
  refine ⟨hok, hchanges.trans (net_eq_lasts hashable), fun i hi => ?_, ?_⟩
  · rw [hchanges, net_eq_lasts hashable, List.countP_map]
    exact countP_lasts hashable hi
  · rw [collapse, addAll_notices hashable]
    rfl

/-- Two notations of one number, with another plot and an unknown code in between. -/
theorem collapse_spec_of_plots :
    let plot : EntityType := .root "register" "Plot"
    let events : List CaptureEvent :=
      [⟨plot, .int 1, .insert, 1, "plots"⟩, ⟨plot, .text "north", .unknown, 2, "plots"⟩,
        ⟨plot, .bool true, .delete, 3, "plots"⟩, ⟨plot, .int 2, .insert, 4, "plots"⟩,
        ⟨plot, .int 1, .insert, 5, "plots"⟩]
    (∀ e ∈ recognised events, e.identity.Hashable) ∧ (collapse events).1 = .ok () ∧
      (collapse events).2.changes = [(⟨plot, .int 2⟩, .insert), (⟨plot, .int 1⟩, .update)] ∧
      (collapse events).2.changes.countP (·.1 == ⟨plot, .bool true⟩) = 1 ∧
      (collapse events).2.notices = [.unknownEvent plot (.text "north") 2] := by
  intro plot events
  have hashable : ∀ e ∈ recognised events, e.identity.Hashable := by
    simp [events, recognised, CaptureEvent.identity, Identity.Hashable, Value.hashable_iff,
      Value.unhashablePart?]
  obtain ⟨hok, hchanges, hcount, hnotices⟩ := collapse_spec events hashable
  refine ⟨hashable, hok, hchanges.trans ?_, (hcount _ ?_).trans ?_, hnotices⟩
  · cbv
  · exact Value.hashable_iff.mpr rfl
  · cbv

end IndexSync.NetBatch
