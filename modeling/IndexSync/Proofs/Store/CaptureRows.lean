import IndexSync.Proofs.Capture.Selection
import IndexSync.Proofs.Merge.Onward
import IndexSync.Proofs.Store.Firing
import IndexSync.Store.Capture
import Mathlib.Data.Rat.Cast.Order

/-!
# Capture tables in a database

A page of a capture table holds the first of its events after a key. A deletion by keys takes out the rows
with these keys, where no trigger watches for it.
-/
namespace IndexSync.Store

/-- The order of rows by their keys. -/
def Table.Before (m : CaptureModel) (t : Table) (a b : Row) : Prop :=
  ∀ j k, t.cell m.keyColumn a = .int j → t.cell m.keyColumn b = .int k → j < k

/-- A capture table whose rows after a key can be read: they are in the order of their keys, which are
integers, and each has a code. A model without id columns reads no row. -/
structure Table.Legible (m : CaptureModel) (after : Option Int) (t : Table) : Prop where
  columns : t.requireColumns m.selectedColumns = .ok ()
  keyed : ∀ row ∈ t.rows, ∃ k, t.cell m.keyColumn row = .int k
  ordered : t.rows.Pairwise (t.Before m)
  coded : ∀ row ∈ t.rows, (t.cell m.eventTypeColumn row).IsCode
  identified : m.idColumns = [] → ∀ row ∈ t.rows, Database.isAfter m t after row = false

/-- A capture table in which nothing but codes can be amiss: its rows are in the order of their keys, which are
integers. A model without id columns reads no row. -/
structure Table.Sound (m : CaptureModel) (after : Option Int) (t : Table) : Prop where
  columns : t.requireColumns m.selectedColumns = .ok ()
  keyed : ∀ row ∈ t.rows, ∃ k, t.cell m.keyColumn row = .int k
  ordered : t.rows.Pairwise (t.Before m)
  identified : m.idColumns = [] → ∀ row ∈ t.rows, Database.isAfter m t after row = false

/-- A sound capture table in which no row after a key has a code that is refused. -/
structure Table.Readable (m : CaptureModel) (after : Option Int) (t : Table) : Prop
    extends Table.Sound m after t where
  coded : ∀ row ∈ t.rows, Database.isAfter m t after row = true →
    ∃ kind, EventKind.ofCode (t.cell m.eventTypeColumn row) = .ok kind

theorem Table.Legible.readable {m : CaptureModel} {after : Option Int} {t : Table} (h : t.Legible m after) :
    t.Readable m after where
  columns := h.columns
  keyed := h.keyed
  ordered := h.ordered
  identified := h.identified
  coded row hrow _ := EventKind.ofCode_of_isCode (h.coded row hrow)

/-- The captured changes in a table, as far as events can be made of its rows. -/
def Table.events (m : CaptureModel) (t : Table) : List CaptureEvent :=
  t.rows.filterMap fun row => (Database.eventOf m t row).toOption

/-- The captured changes in the capture table of a model. -/
def Database.events (m : CaptureModel) (db : Database) : List CaptureEvent :=
  ((db.find? m.captureTable).map (Table.events m)).getD []

/-- The table without the rows that have some keys in a column. -/
def Table.without (t : Table) (column : String) (keys : List Int) : Table :=
  { t with rows := t.rows.filter fun row => !keys.any fun k => t.cell column row == .int k }

theorem Table.requireColumns_iff {t : Table} {names : List String} :
    t.requireColumns names = .ok () ↔ ∀ name ∈ names, t.hasColumn name = true := by
  unfold requireColumns
  split
  · rename_i name hfind
    have lacks := List.find?_some hfind
    simp only [Bool.not_eq_true'] at lacks
    simp only [reduceCtorEq, false_iff, not_forall]
    exact ⟨name, List.mem_of_find?_eq_some hfind, by simp [lacks]⟩
  · rename_i hfind
    simpa using hfind

theorem int_beq_int (a b : Int) : (Value.int a == Value.int b) = decide (a = b) := by
  simp [BEq.beq, Value.same, Value.sameNumber, Value.number?]

theorem storedLe_int (a b : Int) : storedLe (.int a) (.int b) = decide (a ≤ b) := by
  simp [storedLe, Value.number?]

theorem storedListLe_int {a b : Int} (hne : a ≠ b) : storedListLe [.int a] [.int b] = decide (a < b) := by
  have lt : a ≤ b ↔ a < b := by omega
  simp [storedListLe, int_beq_int, hne, storedLe_int, lt]

/-- Rows that are in the order of a column stay as they are. -/
theorem Table.orderBy_eq_self {t : Table} {column : String} {rows : List Row}
    (ordered : rows.Pairwise fun a b => storedLe (t.cell column a) (t.cell column b) = true) :
    t.orderBy column rows = rows := by
  induction rows with
  | nil => rfl
  | cons row rest ih =>
    obtain ⟨first, ordered⟩ := List.pairwise_cons.mp ordered
    rw [orderBy, List.foldr_cons, ← orderBy, ih ordered]
    cases rest with
    | nil => rfl
    | cons r rest => exact if_pos (first r List.mem_cons_self)

/-- A row finds its place among rows with other keys. -/
theorem Table.ordered_place {m : CaptureModel} {t : Table} (key : t.keyColumns = [m.keyColumn]) {row : Row}
    {k : Int} (hrow : t.cell m.keyColumn row = .int k) {rows : List Row}
    (keyed : ∀ r ∈ rows, ∃ j, t.cell m.keyColumn r = .int j ∧ j ≠ k) (ordered : rows.Pairwise (t.Before m)) :
    (t.place row rows).Pairwise (t.Before m) := by
  induction rows with
  | nil => exact List.pairwise_singleton ..
  | cons r rest ih =>
    obtain ⟨j, hr, hne⟩ := keyed r List.mem_cons_self
    obtain ⟨first, ordered⟩ := List.pairwise_cons.mp ordered
    simp only [place, keyOf, key, List.map_cons, List.map_nil, hr, hrow, storedListLe_int hne,
      decide_eq_true_eq]
    split
    · rename_i hlt
      refine .cons (fun x hx => ?_) (ih (fun r hr => keyed r (List.mem_cons_of_mem _ hr)) ordered)
      rcases List.mem_cons.mp ((t.perm_place row rest).mem_iff.mp hx) with rfl | hx
      · intro a b ha hb
        cases ha.symm.trans hr
        cases hb.symm.trans hrow
        exact hlt
      · exact first x hx
    · refine .cons (fun x hx => ?_) (.cons first ordered)
      have below : k < j := by omega
      intro a b ha hb
      cases ha.symm.trans hrow
      rcases List.mem_cons.mp hx with rfl | hx
      · cases hb.symm.trans hr
        exact below
      · exact Int.lt_trans below (first x hx j b hr hb)

theorem take_filterMap_of_some {α β : Type} {f : α → Option β} {as : List α}
    (h : ∀ a ∈ as, (f a).isSome) (n : Nat) : (as.take n).filterMap f = (as.filterMap f).take n := by
  induction as generalizing n with
  | nil => simp
  | cons a rest ih =>
    obtain ⟨b, hb⟩ := Option.isSome_iff_exists.mp (h a List.mem_cons_self)
    cases n with
    | zero => rfl
    | succ n =>
      rw [List.take_succ_cons, List.filterMap_cons_some hb, List.filterMap_cons_some hb, List.take_succ_cons,
        ih fun c hc => h c (List.mem_cons_of_mem _ hc)]

namespace Database

variable {m : CaptureModel} {t : Table} {db : Database} {after later : Option Int} {row : Row}

theorem isAfter_of_key {k : Int} (h : t.cell m.keyColumn row = .int k) :
    isAfter m t after row = after.all (· < k) := by
  cases after with
  | none => rfl
  | some j =>
    simp only [isAfter, h, Value.number?, Option.all_some, decide_eq_decide]
    exact Int.cast_lt

/-- A row with a key makes an event if the model has an id, unless its code is refused. -/
theorem eventOf_map (any : m.idColumns ≠ []) {k : Int} (hkey : t.cell m.keyColumn row = .int k) :
    eventOf m t row = (EventKind.ofCode (t.cell m.eventTypeColumn row)).map fun kind => ⟨m.entityType,
      CaptureModel.idOf (m.idColumns.map fun c => t.cell c.captureColumn row), kind, k, m.captureTable⟩ := by
  have ids : m.idColumns.map (fun c => t.cell c.captureColumn row) ≠ [] := by simpa using any
  refine Eq.trans ?_ (CaptureModel.eventOfSelection_map (m := m) (by simp) ids _ k)
  rw [eventOf, CaptureModel.selectedColumns, ← hkey]
  simp [Function.comp_def]

theorem eventOf_fields {e : CaptureEvent} (h : eventOf m t row = .ok e) :
    e.captureTable = m.captureTable ∧
      (t.cell m.keyColumn row).toInteger.mapError Failure.conversion = .ok e.key := by
  obtain ⟨id, -, h⟩ := ok_of_bind h
  obtain ⟨kind, -, h⟩ := ok_of_bind h
  obtain ⟨key, hk, h⟩ := ok_of_bind h
  cases h
  exact ⟨rfl, hk⟩

theorem eventOf_key {e : CaptureEvent} (h : eventOf m t row = .ok e) {k : Int}
    (hkey : t.cell m.keyColumn row = .int k) : e.key = k := by
  have read := (eventOf_fields h).2
  rw [hkey] at read
  exact (Except.ok.inj read).symm

theorem events_of_find? (ht : db.find? m.captureTable = some t) : db.events m = t.events m := by
  rw [events, ht]
  rfl

theorem table_of_mem_events {e : CaptureEvent} (h : e ∈ db.events m) : e.captureTable = m.captureTable := by
  cases ht : db.find? m.captureTable with
  | none => simp [events, ht] at h
  | some t =>
    rw [events_of_find? ht] at h
    obtain ⟨row, -, hrow⟩ := List.mem_filterMap.mp h
    exact (eventOf_fields (ok_of_toOption hrow)).1

end Database

namespace Table.Sound

open Database

variable {m : CaptureModel} {t : Table} {db : Database} {after later : Option Int}

theorem ascending (h : t.Sound m after) : Ascending (·.key) (t.events m) := by
  have keys : ∀ row ∈ t.rows, ∀ e, (eventOf m t row).toOption = some e →
      t.cell m.keyColumn row = .int e.key := by
    intro row hrow e he
    obtain ⟨k, hk⟩ := h.keyed row hrow
    rw [hk, eventOf_key (ok_of_toOption he) hk]
  refine List.pairwise_filterMap.mpr (h.ordered.imp_of_mem ?_)
  exact fun ha hb lt e he e' he' => lt _ _ (keys _ ha e he) (keys _ hb e' he')

/-- What is after a key is after all keys before it. -/
theorem isAfter_of_atLeast (h : t.Sound m after) (reached : AtLeast after later) {row : Row}
    (hrow : row ∈ t.rows) (hafter : isAfter m t later row = true) : isAfter m t after row = true := by
  obtain ⟨k, hk⟩ := h.keyed row hrow
  rw [isAfter_of_key hk] at hafter ⊢
  cases after with
  | none => rfl
  | some j =>
    obtain ⟨l, rfl, hle⟩ := reached j rfl
    simp only [Option.all_some, decide_eq_true_eq] at hafter ⊢
    omega

/-- Of a row after the key an event is made, unless its code is refused. -/
theorem eventOf_map (h : t.Sound m after) (reached : AtLeast after later) {row : Row}
    (hrow : row ∈ t.rows.filter (isAfter m t later)) : ∃ event : EventKind → CaptureEvent,
      (∀ kind, (event kind).kind = kind) ∧
        eventOf m t row = (EventKind.ofCode (t.cell m.eventTypeColumn row)).map event := by
  obtain ⟨hrow, hafter⟩ := List.mem_filter.mp hrow
  obtain ⟨k, hk⟩ := h.keyed row hrow
  refine ⟨_, fun _ => rfl, Database.eventOf_map (fun none => ?_) hk⟩
  exact absurd (h.isAfter_of_atLeast reached hrow hafter) (by simp [h.identified none row hrow])

/-- The rows after a key hold the events beyond it. -/
theorem beyond_eq (h : t.Sound m after) (later : Option Int) :
    beyond (·.key) later (t.events m) =
      (t.rows.filter (isAfter m t later)).filterMap fun row => (eventOf m t row).toOption := by
  rw [Table.events, beyond, List.filter_filterMap, List.filterMap_filter]
  refine List.filterMap_congr fun row hrow => ?_
  obtain ⟨k, hk⟩ := h.keyed row hrow
  cases he : eventOf m t row with
  | error f => simp [Except.toOption]
  | ok e =>
    have hkey := eventOf_key he hk
    simp [Except.toOption, Option.filter, isAfter_of_key hk, hkey]

theorem orderBy_rows (h : t.Sound m after) (test : Row → Bool) :
    t.orderBy m.keyColumn (t.rows.filter test) = t.rows.filter test := by
  refine orderBy_eq_self ((h.ordered.imp_of_mem fun ha hb before => ?_).filter test)
  obtain ⟨j, hj⟩ := h.keyed _ ha
  obtain ⟨k, hk⟩ := h.keyed _ hb
  rw [hj, hk, storedLe_int, decide_eq_true_eq]
  exact Int.le_of_lt (before j k hj hk)

/-- A page is made of the first rows after a key. -/
theorem page_eq_mapM (h : t.Sound m after) (ht : db.find? m.captureTable = some t) (later : Option Int)
    (n : Nat) : db.page m later n = ((t.rows.filter (isAfter m t later)).take n).mapM (eventOf m t) := by
  rw [page, table, ht]
  change (t.requireColumns m.selectedColumns >>= fun _ => _) = _
  rw [h.columns, h.orderBy_rows]
  rfl

/-- A page that an infinite code stands on is refused. Any other page holds the first events beyond the key. -/
theorem page_cases (h : t.Sound m after) (ht : db.find? m.captureTable = some t) (n : Nat) :
    (∃ row ∈ (t.rows.filter (isAfter m t after)).take n, (t.cell m.eventTypeColumn row).IsInfinite) ∧
        db.page m after n = .error (.conversion .infiniteNumber) ∨
      (∀ row ∈ (t.rows.filter (isAfter m t after)).take n, ¬ (t.cell m.eventTypeColumn row).IsInfinite) ∧
        ∃ events, db.page m after n = .ok events ∧ events.Sublist (beyond (·.key) after (db.events m)) := by
  rw [h.page_eq_mapM ht]
  have made (row : Row) (hrow : row ∈ (t.rows.filter (isAfter m t after)).take n) :=
    h.eventOf_map (.refl after) (List.mem_of_mem_take hrow)
  by_cases infinite : ∃ row ∈ (t.rows.filter (isAfter m t after)).take n,
      (t.cell m.eventTypeColumn row).IsInfinite
  · refine .inl ⟨infinite, mapM_of_error (fun row hrow => ?_) ?_⟩
    · obtain ⟨event, -, heq⟩ := made row hrow
      rw [heq]
      cases hcode : EventKind.ofCode (t.cell m.eventTypeColumn row) with
      | ok kind => exact .inl ⟨_, rfl⟩
      | error f =>
        rw [(EventKind.ofCode_refused_iff.mp hcode).2]
        exact .inr rfl
    · obtain ⟨row, hrow, hcode⟩ := infinite
      obtain ⟨event, -, heq⟩ := made row hrow
      exact ⟨row, hrow, by rw [heq, EventKind.ofCode_refused_iff.mpr ⟨hcode, rfl⟩]; rfl⟩
  · have finite : ∀ row ∈ (t.rows.filter (isAfter m t after)).take n,
        ¬ (t.cell m.eventTypeColumn row).IsInfinite := fun row hrow hcode => infinite ⟨row, hrow, hcode⟩
    refine .inr ⟨finite, _, mapM_of_ok fun row hrow => ?_, ?_⟩
    · obtain ⟨event, -, heq⟩ := made row hrow
      obtain ⟨kind, hkind⟩ := EventKind.ofCode_of_finite (finite row hrow)
      exact ⟨event kind, by rw [heq, hkind]; rfl⟩
    · rw [events_of_find? ht, h.beyond_eq]
      exact (List.take_sublist ..).filterMap _

/-- What is left of a sound table is sound, from any later key. -/
theorem without (h : t.Sound m after) (reached : AtLeast after later) (column : String) (keys : List Int) :
    (t.without column keys).Sound m later where
  columns := h.columns
  keyed row hrow := h.keyed row (List.mem_of_mem_filter hrow)
  ordered := h.ordered.sublist List.filter_sublist
  identified none row hrow := by
    have hrow := List.mem_of_mem_filter hrow
    rw [Bool.eq_false_iff]
    intro hafter
    exact absurd (h.isAfter_of_atLeast reached hrow hafter) (by simp [h.identified none row hrow])

theorem keyColumn (h : t.Sound m after) : t.requireColumns [m.keyColumn] = .ok () :=
  requireColumns_iff.mpr fun name hname => by
    refine requireColumns_iff.mp h.columns name ?_
    rw [List.mem_singleton.mp hname]
    exact List.mem_cons_self

/-- The events that a table has left are those without the deleted keys. -/
theorem events_without (h : t.Sound m after) (keys : List Int) :
    (t.without m.keyColumn keys).events m = (t.events m).filter fun e => !keys.contains e.key := by
  have same (row : Row) : eventOf m (t.without m.keyColumn keys) row = eventOf m t row := rfl
  simp only [Table.events, same]
  rw [Table.without, List.filterMap_filter, List.filter_filterMap]
  refine List.filterMap_congr fun row hrow => ?_
  obtain ⟨k, hk⟩ := h.keyed row hrow
  cases he : eventOf m t row with
  | error f => simp [Except.toOption]
  | ok e =>
    have same : (keys.any fun j => Value.int k == .int j) = keys.contains e.key := by
      rw [eventOf_key he hk, List.contains_eq_any_beq]
      simp only [int_beq_int, beq_eq_decide]
    simp [Except.toOption, Option.filter, hk, same]

end Table.Sound

namespace Table.Readable

open Database

variable {m : CaptureModel} {t : Table} {db : Database} {after later : Option Int}

theorem eventOf_ok (h : t.Readable m after) (reached : AtLeast after later) {row : Row}
    (hrow : row ∈ t.rows.filter (isAfter m t later)) : ∃ e, eventOf m t row = .ok e ∧
      EventKind.ofCode (t.cell m.eventTypeColumn row) = .ok e.kind := by
  obtain ⟨event, same, heq⟩ := h.eventOf_map reached hrow
  obtain ⟨hrow, hafter⟩ := List.mem_filter.mp hrow
  obtain ⟨kind, hkind⟩ := h.coded row hrow (h.isAfter_of_atLeast reached hrow hafter)
  rw [heq, hkind]
  exact ⟨event kind, rfl, by rw [same]⟩

/-- A page holds the first events beyond a key. -/
theorem page_eq (h : t.Readable m after) (ht : db.find? m.captureTable = some t)
    (reached : AtLeast after later) (n : Nat) :
    db.page m later n = .ok ((beyond (·.key) later (db.events m)).take n) := by
  have all : ∀ row ∈ t.rows.filter (isAfter m t later), ∃ e, eventOf m t row = .ok e :=
    fun row hrow => (h.eventOf_ok reached hrow).imp fun _ he => he.1
  have some_all : ∀ row ∈ t.rows.filter (isAfter m t later), ((eventOf m t row).toOption).isSome := by
    intro row hrow
    obtain ⟨e, he⟩ := all row hrow
    simp [he, Except.toOption]
  rw [h.page_eq_mapM ht, mapM_of_ok fun row hrow => all row (List.mem_of_mem_take hrow),
    take_filterMap_of_some some_all, events_of_find? ht, h.beyond_eq later]

/-- What is left of a readable table is readable, from any later key. -/
theorem without (h : t.Readable m after) (reached : AtLeast after later) (column : String)
    (keys : List Int) : (t.without column keys).Readable m later where
  toSound := h.toSound.without reached column keys
  coded row hrow hafter := by
    have hrow := List.mem_of_mem_filter hrow
    exact h.coded row hrow (h.isAfter_of_atLeast reached hrow hafter)

/-- A table to which a row is added stays readable, if the row has a key and a code that is not refused. -/
theorem addRow (h : t.Readable m after) (key : t.keyColumns = [m.keyColumn]) (any : m.idColumns ≠ [])
    {row : Row} {k : Int} (hrow : t.cell m.keyColumn row = .int k)
    (hcode : ∃ kind, EventKind.ofCode (t.cell m.eventTypeColumn row) = .ok kind) {grown : Table} (added : t.addRow row = .ok grown) :
    grown.Readable m after := by
  unfold Table.addRow at added
  split at added
  · cases added
  · split at added
    · cases added
    · rename_i untaken
      cases added
      have mem {r : Row} (hr : r ∈ t.place row t.rows) : r = row ∨ r ∈ t.rows :=
        List.mem_cons.mp ((t.perm_place row t.rows).mem_iff.mp hr)
      have fresh : ∀ r ∈ t.rows, ∃ j, t.cell m.keyColumn r = .int j ∧ j ≠ k := by
        intro r hr
        obtain ⟨j, hj⟩ := h.keyed r hr
        refine ⟨j, hj, fun taken => untaken ?_⟩
        subst taken
        have same : t.keyOf r == t.keyOf row := by
          simp [Table.keyOf, key, hj, hrow, int_beq_int]
        have not_null : (t.keyOf row).contains .null = false := by
          simp [Table.keyOf, key, hrow, BEq.beq, Value.same, Value.sameNumber, Value.number?]
        rw [Table.keyTaken, not_null, Bool.not_false, Bool.true_and]
        exact List.any_eq_true.mpr ⟨r, hr, same⟩
      exact {
        columns := h.columns
        keyed := fun r hr => (mem hr).elim (fun same => ⟨k, same ▸ hrow⟩) (h.keyed r)
        ordered := t.ordered_place key hrow fresh h.ordered
        coded := fun r hr hafter => (mem hr).elim (fun same => same ▸ hcode) (fun hr => h.coded r hr hafter)
        identified := fun none => absurd none any }

end Table.Readable

namespace Database

variable {m : CaptureModel} {t : Table} {db : Database}

/-- A change for which no trigger watches sets nothing off. -/
theorem fire_silent {depth : Nat} {idle : List RowTrigger} {change : Table.RowChange}
    (silent : ∀ r ∈ idle, r.watches t.name change.kind = false) : fire depth idle db t change = .ok db := by
  cases depth with
  | zero => rfl
  | succ depth =>
    rw [fire_succ, List.filter_eq_nil_iff.mpr fun r hr => by simp [silent r hr]]
    rfl

/-- A deletion for which no trigger watches. -/
theorem deleteKeys_eq (ht : db.find? m.captureTable = some t)
    (column : t.requireColumns [m.keyColumn] = .ok ())
    (silent : ∀ r ∈ db.triggers, r.watches m.captureTable .delete = false) (keys : List Int) :
    db.deleteKeys m keys = .ok (db.setTable (t.without m.keyColumn keys)) := by
  have none : db.triggers.filter (·.watches m.captureTable .delete) = [] :=
    List.filter_eq_nil_iff.mpr fun r hr => by simp [silent r hr]
  have ready : db.readyFor m.captureTable .delete = .ok () := by
    rw [readyFor]
    cases db.triggers.length with
    | zero => rfl
    | succ depth =>
      rw [Database.ready, none]
      rfl
  have idle (changes : List Table.RowChange) (deletes : ∀ change ∈ changes, change.kind = .delete) :
      (db.setTable (t.without m.keyColumn keys)).fireAll (t.without m.keyColumn keys) changes =
        .ok (db.setTable (t.without m.keyColumn keys)) := by
    induction changes with
    | nil => rfl
    | cons change rest ih =>
      rw [fireAll, List.foldlM_cons, fire_silent ?_]
      · exact ih fun c hc => deletes c (List.mem_cons_of_mem _ hc)
      · intro r hr
        rw [deletes change List.mem_cons_self, RowTrigger.watches,
          show (t.without m.keyColumn keys).name = t.name from rfl, sameName_congr_right (find?_name ht)]
        exact silent r hr
  rw [deleteKeys, table, ht]
  change (db.readyFor m.captureTable .delete >>= fun _ => t.requireColumns [m.keyColumn] >>= fun _ => _) = _
  rw [ready, column]
  refine idle _ fun change hchange => ?_
  obtain ⟨row, -, rfl⟩ := List.mem_map.mp hchange
  rfl

/-- Deletions in several tables, one after the other. -/
theorem deleteAll_eq {rows : List (CaptureModel × List Int)}
    (found : ∀ x ∈ rows, ∃ t, db.find? x.1.captureTable = some t ∧
      t.requireColumns [x.1.keyColumn] = .ok ())
    (silent : ∀ x ∈ rows, ∀ r ∈ db.triggers, r.watches x.1.captureTable .delete = false)
    (apart : rows.Pairwise fun x y => sameName x.1.captureTable y.1.captureTable = false) :
    ∃ after, rows.foldlM (fun db (m, keys) => db.deleteKeys m keys) db = .ok after ∧
      after.triggers = db.triggers ∧
      (∀ x ∈ rows, after.find? x.1.captureTable =
        (db.find? x.1.captureTable).map (·.without x.1.keyColumn x.2)) ∧
      ∀ name, (∀ x ∈ rows, sameName x.1.captureTable name = false) → after.find? name = db.find? name := by
  induction rows generalizing db with
  | nil => exact ⟨db, rfl, rfl, by simp, fun _ _ => rfl⟩
  | cons x rest ih =>
    obtain ⟨m, keys⟩ := x
    obtain ⟨t, ht, column⟩ := found _ List.mem_cons_self
    obtain ⟨others, apart⟩ := List.pairwise_cons.mp apart
    have hname := find?_name ht
    have first : db.deleteKeys m keys = .ok (db.setTable (t.without m.keyColumn keys)) :=
      deleteKeys_eq ht column (silent _ List.mem_cons_self) keys
    have find_next (name : String) (h : sameName m.captureTable name = false) :
        (db.setTable (t.without m.keyColumn keys)).find? name = db.find? name := by
      rw [find?_setTable, show (t.without m.keyColumn keys).name = t.name from rfl,
        sameName_congr hname, h]
      rfl
    have found_next : ∀ y ∈ rest, ∃ u,
        (db.setTable (t.without m.keyColumn keys)).find? y.1.captureTable = some u ∧
          u.requireColumns [y.1.keyColumn] = .ok () := fun y hy => by
      rw [find_next _ (others y hy)]
      exact found y (List.mem_cons_of_mem _ hy)
    obtain ⟨after, run, triggers, deleted, kept⟩ :=
      ih found_next (fun y hy => silent y (List.mem_cons_of_mem _ hy)) apart
    refine ⟨after, ?_, triggers, ?_, ?_⟩
    · simp only [List.foldlM_cons, first]
      exact run
    · intro y hy
      rcases List.mem_cons.mp hy with rfl | hy
      · have alone : ∀ z ∈ rest, sameName z.1.captureTable m.captureTable = false := fun z hz => by
          rw [sameName_comm]
          exact others z hz
        rw [kept _ alone, find?_setTable, show (t.without m.keyColumn keys).name = t.name from rfl, hname,
          if_pos rfl, ht]
        rfl
      · rw [deleted y hy, find_next _ (others y hy)]
    · intro name hother
      rw [kept name fun y hy => hother y (List.mem_cons_of_mem _ hy),
        find_next name (hother _ List.mem_cons_self)]

end Database
end IndexSync.Store
