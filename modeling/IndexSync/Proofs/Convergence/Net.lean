import IndexSync.Capture.Collapse
import IndexSync.Proofs.Convergence.Registry

/-!
# What a batch comes to

For each entity that a batch mentions there is one net change, and it is a deletion exactly if the last
event about the entity is one.
-/
namespace IndexSync
namespace Registry

variable (R : Registry)

/-- An event of a known entity with a code that triggers write. -/
def Sound (e : CaptureEvent) : Prop := e.kind ≠ .unknown ∧ R.Known e.identity

/-- The last event about an entity. -/
def lastAbout (i : Identity) (events : List CaptureEvent) : Option CaptureEvent :=
  (events.filter (·.identity == i)).getLast?

theorem lastAbout_append (i : Identity) (xs ys : List CaptureEvent) :
    lastAbout i (xs ++ ys) = (lastAbout i ys).or (lastAbout i xs) := by
  simp [lastAbout, List.getLast?_append]

theorem lastAbout_eq_none {i : Identity} {events : List CaptureEvent} :
    lastAbout i events = none ↔ ∀ e ∈ events, (e.identity == i) = false := by
  simp [lastAbout]

variable {R}

theorem Known.self (i : Identity) (hi : R.Known i) : (i == i) = true := (hi.same_iff hi).mpr rfl

/-- The net changes of some events. -/
structure Nets (events : List CaptureEvent) (net : NetBatch) : Prop where
  quiet : net.notices = []
  complete : ∀ e ∈ events, ∃ kind, (e.identity, kind) ∈ net.changes
  last : ∀ i kind, (i, kind) ∈ net.changes → kind ≠ .unknown ∧ ∃ e, lastAbout i events = some e ∧
    e.identity = i ∧ (kind = .delete ↔ e.kind = .delete)

theorem mem_of_lastAbout {i : Identity} {events : List CaptureEvent} {e : CaptureEvent}
    (h : lastAbout i events = some e) : e ∈ events ∧ (e.identity == i) = true :=
  List.mem_filter.mp (List.mem_of_getLast? h)

theorem merged_spec (previous : Option EventKind) {kind : EventKind} (h : kind ≠ .unknown) :
    NetBatch.merged previous kind ≠ .unknown ∧
      (NetBatch.merged previous kind = .delete ↔ kind = .delete) := by
  unfold NetBatch.merged
  split
  · rename_i hinsert
    simp only [Bool.and_eq_true, decide_eq_true_eq] at hinsert
    simp [hinsert.1]
  · exact ⟨h, Iff.rfl⟩

theorem Nets.add {events : List CaptureEvent} {net : NetBatch} {e : CaptureEvent}
    (h : Nets events net) (sound : ∀ x ∈ events, R.Sound x) (he : R.Sound e) :
    ∃ next, net.add e = .ok next ∧ Nets (events ++ [e]) next := by
  have known := he.2
  have hkey : e.entityId.requireKey = .ok () := R.hashable _ _ known.2
  let kind := NetBatch.merged (net.changes.get? e.identity) e.kind
  refine ⟨{ net with changes := net.changes.erase e.identity ++ [(e.identity, kind)] }, ?_,
    h.quiet, ?_, ?_⟩
  · simp only [NetBatch.add, he.1, if_false, hkey]
    rfl
  · intro x hx
    rcases List.mem_append.mp hx with hx | hx
    · by_cases hsame : (x.identity == e.identity) = true
      · rw [((sound x hx).2.same_iff known).mp hsame]
        exact ⟨kind, List.mem_append_right _ List.mem_cons_self⟩
      · obtain ⟨kind, hk⟩ := h.complete x hx
        exact ⟨kind, List.mem_append_left _ (List.mem_filter.mpr ⟨hk, by simpa using hsame⟩)⟩
    · rw [List.mem_singleton.mp hx]
      exact ⟨kind, List.mem_append_right _ List.mem_cons_self⟩
  · intro i k hk
    rcases List.mem_append.mp hk with hk | hk
    · obtain ⟨hmem, hne⟩ := List.mem_filter.mp hk
      obtain ⟨hkind, x, hx, rfl, hdelete⟩ := h.last i k hmem
      have hxe := (sound x (mem_of_lastAbout hx).1).2
      have hother : (e.identity == x.identity) = false := by
        rw [Bool.eq_false_iff]
        intro hsame
        rw [(known.same_iff hxe).mp hsame] at hne
        simp [Known.self _ hxe] at hne
      refine ⟨hkind, x, ?_, rfl, hdelete⟩
      rw [lastAbout_append, lastAbout_eq_none.mpr (by simpa using hother)]
      exact hx
    · obtain ⟨rfl, rfl⟩ := Prod.mk.inj (List.mem_singleton.mp hk)
      obtain ⟨hkind, hdelete⟩ := merged_spec (net.changes.get? e.identity) he.1
      refine ⟨hkind, e, ?_, rfl, hdelete⟩
      rw [lastAbout_append]
      simp [lastAbout, Known.self _ known]

theorem Nets.addAll {rest events : List CaptureEvent} {net : NetBatch} (h : Nets events net)
    (sound : ∀ x ∈ events, R.Sound x) (hrest : ∀ x ∈ rest, R.Sound x) :
    (NetBatch.addAll rest net).1 = .ok () ∧ Nets (events ++ rest) (NetBatch.addAll rest net).2 := by
  induction rest generalizing events net with
  | nil => exact ⟨rfl, by simpa [NetBatch.addAll] using h⟩
  | cons e rest ih =>
    rw [List.forall_mem_cons] at hrest
    obtain ⟨next, hadd, hnext⟩ := h.add sound hrest.1
    simp only [NetBatch.addAll, hadd]
    have := ih hnext (fun x hx => by
      rcases List.mem_append.mp hx with hx | hx
      · exact sound x hx
      · exact List.mem_singleton.mp hx ▸ hrest.1) hrest.2
    simpa using this

theorem nets_collapse {events : List CaptureEvent} (sound : ∀ e ∈ events, R.Sound e) :
    (NetBatch.collapse events).1 = .ok () ∧ Nets events (NetBatch.collapse events).2 := by
  have start : Nets [] NetBatch.empty := ⟨rfl, by simp, by simp [NetBatch.empty]⟩
  exact start.addAll (by simp) sound

end Registry
end IndexSync
