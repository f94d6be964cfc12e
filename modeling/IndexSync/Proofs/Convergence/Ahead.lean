import IndexSync.Proofs.Convergence.World
import IndexSync.Proofs.Poller.Moved
import Mathlib.Data.List.Nodup

/-!
# Rows that are yet to be read

What the rows after the cursors say of an entity. A batch takes the first of them, and what it says of
the entity counts only where the rows after it say nothing.
-/
namespace IndexSync

/-- The rows after the cursors of their tables. -/
def CaptureTables.beyond (t : CaptureTables) (cursors : Cursors) : List CaptureRow :=
  t.rows.filter fun r => (cursors.get? r.table).all (· < r.key)

theorem CaptureTables.mem_beyond {t : CaptureTables} {cursors : Cursors} {r : CaptureRow} :
    r ∈ t.beyond cursors ↔ r ∈ t.rows ∧ ∀ k ∈ cursors.get? r.table, k < r.key := by
  simp [beyond, Option.all_eq_true]

theorem CaptureTables.after_eq (t : CaptureTables) (table : String) (cursors : Cursors) :
    t.after table (cursors.get? table) = (t.beyond cursors).filter (·.table = table) := by
  unfold after beyond
  rw [List.filter_filter]
  apply List.filter_congr
  intro r _
  by_cases h : r.table = table <;> simp [h]

/-- Without cursors all rows are read again. -/
theorem CaptureTables.beyond_nil (t : CaptureTables) : t.beyond [] = t.rows := by
  simp [beyond]

namespace Registry

variable (R : Registry)

/-- Every row that was written tells one of the models of a known entity. -/
def Recorded (t : CaptureTables) : Prop :=
  ∀ r ∈ t.written, ∃ m ∈ R.poller.models, m.captureTable = r.table ∧
    ∃ e, m.Reads r e ∧ R.Sound e

/-- What the rows after the cursors say of an entity. -/
def World.ahead {R : Registry} (s : World R) (cursors : Cursors) (i : Identity) :
    Option EventKind :=
  R.lastKind i (s.tables.beyond cursors)

variable {R} {m n : CaptureModel} {r : CaptureRow} {e : CaptureEvent} {i : Identity}
  {t : CaptureTables}

theorem model_eq (hm : m ∈ R.poller.models) (hn : n ∈ R.poller.models)
    (h : m.captureTable = n.captureTable) : m = n :=
  List.inj_on_of_nodup_map R.tables hm hn h

theorem eventOf_eq (hm : m ∈ R.poller.models) (htable : m.captureTable = r.table)
    (h : m.Reads r e) : R.eventOf r = some e := by
  have hfound : (R.poller.models.find? (·.captureTable = r.table)).isSome := by
    rw [List.find?_isSome]
    exact ⟨m, hm, by simpa using htable⟩
  obtain ⟨n, hn⟩ := Option.isSome_iff_exists.mp hfound
  have hnt : n.captureTable = r.table := by simpa using List.find?_some hn
  obtain rfl := model_eq hm (List.mem_of_find?_eq_some hn) (htable.trans hnt.symm)
  have hread : m.eventOfRow r.key r.ids r.code = .ok e := h
  simp [eventOf, hn, hread, Except.toOption]

theorem reads_of_eventOf (h : R.eventOf r = some e) :
    ∃ m ∈ R.poller.models, m.captureTable = r.table ∧ m.Reads r e := by
  obtain ⟨m, hm, hread⟩ := Option.bind_eq_some_iff.mp h
  refine ⟨m, List.mem_of_find?_eq_some hm, by simpa using List.find?_some hm, ?_⟩
  change m.eventOfRow r.key r.ids r.code = .ok e
  cases hx : m.eventOfRow r.key r.ids r.code with
  | error f => simp [hx, Except.toOption] at hread
  | ok x =>
    simp only [hx, Except.toOption, Option.some.injEq] at hread
    rw [hread]

theorem Recorded.sound (recorded : R.Recorded t) (hr : r ∈ t.rows) (hm : m ∈ R.poller.models)
    (htable : m.captureTable = r.table) (h : m.Reads r e) : R.Sound e := by
  obtain ⟨n, hn, hnt, x, hx, hsound⟩ := recorded r (t.left.subset hr)
  obtain rfl := model_eq hm hn (htable.trans hnt.symm)
  cases (show Except.ok x = Except.ok e from hx.symm.trans h)
  exact hsound

theorem lastKind_append (i : Identity) (xs ys : List CaptureRow) :
    R.lastKind i (xs ++ ys) = (R.lastKind i ys).or (R.lastKind i xs) := by
  rw [lastKind, List.filterMap_append, lastAbout_append, Option.map_or]
  rfl

theorem lastKind_eq_none {rows : List CaptureRow} :
    R.lastKind i rows = none ↔ ∀ r ∈ rows, ∀ e, R.eventOf r = some e →
      (e.identity == i) = false := by
  simp only [lastKind, Option.map_eq_none_iff, lastAbout_eq_none, List.mem_filterMap]
  exact ⟨fun h r hr e he => h e ⟨r, hr, he⟩, fun h e ⟨r, hr, he⟩ => h r hr e he⟩

/-- Rows that say nothing of an entity can be left out. -/
theorem lastKind_filter {rows : List CaptureRow} {keep : CaptureRow → Bool}
    (h : ∀ r ∈ rows, keep r = false → ∀ e, R.eventOf r = some e → (e.identity == i) = false) :
    R.lastKind i (rows.filter keep) = R.lastKind i rows := by
  induction rows with
  | nil => rfl
  | cons r rest ih =>
    rw [List.forall_mem_cons] at h
    have hrest := ih h.2
    rw [← List.singleton_append (l := rest), lastKind_append, List.filter_append, lastKind_append,
      hrest]
    congr 1
    cases hk : keep r with
    | true => simp [hk]
    | false =>
      have hnone : R.lastKind i [r] = none := lastKind_eq_none.mpr (by simpa using h.1 hk)
      rw [hnone, List.filter_cons_of_neg (by simp [hk])]
      rfl

/-- Of an entity only the rows in the table of its type say something. -/
theorem lastKind_after (hm : m ∈ R.poller.models) (hi : m.entityType = i.type) (cursors : Cursors) :
    R.lastKind i (t.beyond cursors) =
      R.lastKind i (t.after m.captureTable (cursors.get? m.captureTable)) := by
  rw [CaptureTables.after_eq, lastKind_filter]
  intro r _ hother e he
  obtain ⟨n, hn, htable, hread⟩ := reads_of_eventOf he
  rw [Bool.eq_false_iff]
  intro hsame
  have htype : e.entityType = i.type := by
    change (e.entityType == i.type && _) = true at hsame
    exact eq_of_beq (Bool.and_eq_true_iff.mp hsame).1
  have : m = n := by
    refine List.inj_on_of_nodup_map R.types hm hn ?_
    rw [hi, ← htype, hread.fields.2.2.1]
  subst this
  simp [htable] at hother

theorem filterMap_eventOf {rows : List CaptureRow} {events : List CaptureEvent}
    (hm : m ∈ R.poller.models) (htable : ∀ r ∈ rows, m.captureTable = r.table)
    (h : List.Forall₂ m.Reads rows events) : rows.filterMap R.eventOf = events := by
  induction h with
  | nil => rfl
  | cons hr _ ih =>
    rw [List.forall_mem_cons] at htable
    rw [List.filterMap_cons_some (eventOf_eq hm htable.1 hr), ih htable.2]

theorem lastAbout_filter {type : EntityType} (h : i.type = type) (events : List CaptureEvent) :
    lastAbout i (events.filter (·.entityType = type)) = lastAbout i events := by
  unfold lastAbout
  rw [List.filter_filter]
  congr 1
  apply List.filter_congr
  intro e _
  change ((e.entityType == i.type && _) && _) = (e.entityType == i.type && _)
  by_cases ht : e.entityType = type <;> simp [ht, h]

section Batch

variable {handed : List (Nat × CaptureEvent)} {cursors : Cursors}

theorem handed_sound (recorded : R.Recorded t)
    (shares : Poller.Shares R.poller.models cursors t handed) {x : Nat × CaptureEvent}
    (hx : x ∈ handed) : R.Sound x.2 := by
  obtain ⟨m, r, hm, hr, htable, hread⟩ := shares.tag hx
  exact recorded.sound hr (List.mem_of_getElem? hm) htable.symm hread

theorem batch_sound (recorded : R.Recorded t)
    (shares : Poller.Shares R.poller.models cursors t handed) :
    ∀ e ∈ (Poller.collected handed).events, R.Sound e := by
  intro e he
  rw [Poller.collected_events, List.mem_filter] at he
  obtain ⟨x, hx, rfl⟩ := List.mem_map.mp he.1
  exact handed_sound recorded shares hx

/-- What the rows say after a batch comes first, and then what the batch says. -/
theorem lastKind_batch (recorded : R.Recorded t) (hi : R.Known i)
    (shares : Poller.Shares R.poller.models cursors t handed) :
    R.lastKind i (t.beyond cursors) =
      (R.lastKind i (t.beyond
        (Poller.moveCursors cursors (Poller.collected handed).consumed))).or
        ((lastAbout i (Poller.collected handed).events).map (·.kind)) := by
  obtain ⟨⟨m, hm, htype⟩, -⟩ := hi
  obtain ⟨n, hn⟩ := List.getElem?_of_mem hm
  obtain ⟨rows, hread, hsplit⟩ := shares.split hn (Poller.only_of_nodup R.tables hn)
  have hall : (Poller.collected handed).events = handed.map (·.2) := by
    rw [Poller.collected_events, List.filter_eq_self]
    intro e he
    obtain ⟨x, hx, rfl⟩ := List.mem_map.mp he
    simpa using (handed_sound recorded shares hx).1
  have htable : ∀ r ∈ rows, m.captureTable = r.table := fun r hr =>
    (CaptureTables.mem_after.mp (hsplit ▸ List.mem_append_left _ hr)).2.1.symm
  rw [lastKind_after hm htype, lastKind_after hm htype, hsplit, lastKind_append]
  congr 1
  rw [lastKind, filterMap_eventOf hm htable hread, hall, ← lastAbout_filter htype.symm (handed.map _),
    Poller.filter_eq_share (·.entityType) (·.entityType)
      (fun m r e h => h.fields.2.2.1) shares hn (Poller.only_of_nodup R.types hn)]

end Batch
end Registry
end IndexSync
