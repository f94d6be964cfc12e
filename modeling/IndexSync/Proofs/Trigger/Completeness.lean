import IndexSync.Proofs.Trigger.Installed

/-!
# What the capture table holds of each change

Each change of a row in the source table adds one row to the capture table. It holds the id that the row
has after the change, or that it had before it was deleted. So an update that gives a row another id leaves
the one before out.
-/
namespace IndexSync

open Store Table

/-- The versions of a row before and after a change. -/
def Store.Table.RowChange.versions : RowChange → List Row
  | inserted new => [new]
  | updated old new => [old, new]
  | deleted old => [old]

/-- The version that a row has in the end. -/
def Store.Table.RowChange.latest : RowChange → Row
  | inserted new | updated _ new => new
  | deleted old => old

namespace CaptureModel

/-- The columns of the capture table that triggers write to: all but the key. -/
def writtenColumns (m : CaptureModel) : List Column :=
  m.idColumns.map (fun c => ⟨c.captureColumn, .ofType c.sqlType, true⟩) ++ [⟨m.eventTypeColumn, .integer, true⟩]

theorem captureColumns_eq (m : CaptureModel) (dialect : Trigger.Dialect) : captureColumns dialect m =
    ⟨m.keyColumn, if dialect = .sqlite then .integer else .numeric, false⟩ :: m.writtenColumns := rfl

/-- What triggers write for a row of the source table. -/
def writtenCells (m : CaptureModel) (t : Table) (row : Row) (code : Int) : List (String × Value) :=
  m.idColumns.map (fun c => (c.captureColumn, t.cell c.sourceColumn row)) ++ [(m.eventTypeColumn, .int code)]

/-- The id of a row of the source table, as the columns of the capture table store it. -/
def storedId (m : CaptureModel) (t : Table) (row : Row) : List Value :=
  m.idColumns.map fun c => (Affinity.ofType c.sqlType).store (t.cell c.sourceColumn row)

/-- The id that a row of the capture table holds. -/
def heldId (m : CaptureModel) (c : Table) (row : Row) : List Value :=
  m.idColumns.map fun id => c.cell id.captureColumn row

/-- The change takes its id from a row, which goes on under another one. -/
def Renames (m : CaptureModel) (t : Table) (row : Row) : RowChange → Prop
  | .updated _ new => m.storedId t row ≠ m.storedId t new
  | _ => False

/-- A row of the capture table tells of a change: what kind it is, and the id of the row, unless that is
the one that the change takes from it. -/
structure TellsOf (m : CaptureModel) (c t : Table) (change : RowChange) (row : Row) : Prop where
  kind : some (c.cell m.eventTypeColumn row) = change.kind.code?.map .int
  id : ∀ version ∈ change.versions, m.heldId c row = m.storedId t version ↔ ¬ m.Renames t version change

theorem TellsOf.of_shape {m : CaptureModel} {c grown t : Table} {change : RowChange} {row : Row}
    (h : m.TellsOf grown t change row) (shape : SameShape c grown) : m.TellsOf c t change row := by
  have held : m.heldId grown row = m.heldId c row := by
    simp only [heldId, shape.cell]
  exact ⟨shape.cell m.eventTypeColumn row ▸ h.kind, held ▸ h.id⟩

end CaptureModel

namespace TriggerSource

variable {s : TriggerSource} {m : CaptureModel} {t c : Table} {change : RowChange} {row : Row}

/-- A trigger reads the id columns of the latest version of the row. -/
theorem cells_rowTrigger (t : Table) (change : RowChange) (code : Int) :
    (s.rowTrigger m change.kind code).cells t change = m.writtenCells t change.latest code := by
  have latest : change.version? (.ofKind change.kind) = some change.latest := by cases change <;> rfl
  simp only [RowTrigger.cells, rowTrigger, captureInsert, Trigger.CaptureInsert.ofModel, List.map_append,
    List.map_map]
  rw [List.zip_append (by simp), List.zip_map']
  simp [CaptureModel.writtenCells, latest]

/-- The row that a trigger adds holds what the trigger reads. -/
theorem cells_of_stores (columns : c.columns = captureColumns s.dialect m)
    (key : c.keyColumns = [m.keyColumn])
    (distinct : hasTwice ((captureColumns s.dialect m).map (·.name)) = false) {code : Int}
    (h : c.Stores ((s.rowTrigger m change.kind code).cells t change) row) :
    m.heldId c row = m.storedId t change.latest ∧ c.cell m.eventTypeColumn row = .int code := by
  rw [cells_rowTrigger] at h
  have names := pairwise_of_hasTwice distinct
  rw [m.captureColumns_eq, List.map_cons, List.pairwise_cons] at names
  have cells : ((m.writtenCells t change.latest code).map (·.1)).Pairwise
      fun a b => sameName a b = false := by
    simpa [CaptureModel.writtenColumns, CaptureModel.writtenCells, Function.comp_def] using names.2
  have stored (column : Column) (hcolumn : column ∈ m.writtenColumns) (v : Value)
      (hv : (column.name, v) ∈ m.writtenCells t change.latest code) :
      c.cell column.name row = column.affinity.store v := by
    have hmem : column ∈ c.columns := by
      rw [columns, m.captureColumns_eq]
      exact List.mem_cons_of_mem _ hcolumn
    have unkeyed : ∀ k ∈ c.keyColumns, sameName k column.name = false := by
      simpa [key] using names.1 column.name (List.mem_map_of_mem hcolumn)
    rw [cell_of_stores h (columns ▸ List.pairwise_map.mp (pairwise_of_hasTwice distinct)) hmem unkeyed,
      named?_of_pairwise cells hv]
    rfl
  constructor
  · rw [CaptureModel.heldId, CaptureModel.storedId]
    refine List.map_congr_left fun id hid => ?_
    have column : ⟨id.captureColumn, .ofType id.sqlType, true⟩ ∈ m.writtenColumns :=
      List.mem_append_left _ (List.mem_map_of_mem hid)
    have cell : (id.captureColumn, t.cell id.sourceColumn change.latest) ∈
        m.writtenCells t change.latest code := List.mem_append_left _ (List.mem_map_of_mem hid)
    rw [← stored _ column _ cell]
  · have column : ⟨m.eventTypeColumn, .integer, true⟩ ∈ m.writtenColumns := by
      simp [CaptureModel.writtenColumns]
    have cell : (m.eventTypeColumn, Value.int code) ∈ m.writtenCells t change.latest code := by
      simp [CaptureModel.writtenCells]
    exact (stored _ column _ cell).trans rfl

/-- The row that a trigger adds for a change tells of it. -/
theorem tellsOf_of_stores (columns : c.columns = captureColumns s.dialect m)
    (key : c.keyColumns = [m.keyColumn])
    (distinct : hasTwice ((captureColumns s.dialect m).map (·.name)) = false)
    (h : c.Stores ((s.rowTrigger m change.kind (change.kind.code?.getD 0)).cells t change) row) :
    m.TellsOf c t change row := by
  obtain ⟨held, code⟩ := cells_of_stores columns key distinct h
  constructor
  · rw [code]
    cases change <;> rfl
  · intro version hversion
    rw [held]
    cases change with
    | updated old new =>
      simp only [CaptureModel.Renames, RowChange.latest, not_not, eq_comm]
    | inserted new =>
      rw [List.mem_singleton.mp hversion]
      simp [CaptureModel.Renames, RowChange.latest]
    | deleted old =>
      rw [List.mem_singleton.mp hversion]
      simp [CaptureModel.Renames, RowChange.latest]

end TriggerSource

namespace Store.Database

variable {s : TriggerSource} {m : CaptureModel} {db before after : Database} {w : Write} {ws first : List Write}

/-- The changes that writes make to the rows of one table, one after the other. -/
def history (source : String) : Database → List Write → List (Table × RowChange)
  | _, [] => []
  | db, w :: ws =>
    (if sameName w.table source then db.changes w else []) ++
      match db.apply w with
      | .ok after => history source after ws
      | .error _ => []

theorem find?_fireAll {capture source : String} {t : Table} {changes : List RowChange}
    (confined : Confined capture source db.triggers) (elsewhere : sameName t.name source = false)
    (h : db.fireAll t changes = .ok after) : after.find? capture = db.find? capture := by
  refine (foldlM_keeps (P := fun now => now.triggers = db.triggers ∧ now.find? capture = db.find? capture)
    (fun now change next _ kept hnext => ?_) ⟨rfl, rfl⟩ h).2
  have hnext : fire now.triggers.length now.triggers now t change = .ok next := hnext
  have triggers := (keeps_fire _ _ change hnext).triggers
  rw [kept.1] at hnext triggers
  exact ⟨triggers, (find?_fire _ confined elsewhere hnext).trans kept.2⟩

/-- One write adds a row to the capture table for each change in the source table. -/
theorem apply_tells (installed : s.Installed m db) (h : db.apply w = .ok after)
    (other : sameName w.table m.captureTable = false) {c : Table} (hc : db.find? m.captureTable = some c) :
    ∃ rows grown, after.find? m.captureTable = some grown ∧ Added c rows grown ∧
      List.Forall₂ (fun change row => m.TellsOf c change.1 change.2 row)
        (if sameName w.table m.sourceTable then db.changes w else []) rows := by
  obtain ⟨t, changed, cs, ht, hchange, hfire⟩ := apply_ok h
  have shape := change_ok hchange
  have named : sameName changed.name w.table = true := by
    rw [shape.name]
    exact find?_name ht
  have hc' : (db.setTable changed).find? m.captureTable = some c := by
    rw [find?_setTable, sameName_congr named, other]
    exact hc
  have confined : Confined m.captureTable m.sourceTable (db.setTable changed).triggers := installed.confined
  by_cases hsource : sameName w.table m.sourceTable = true
  · have source : sameName m.sourceTable changed.name = true := by
      rw [sameName_comm, sameName_congr named, hsource]
    let own (kind : EventKind) := s.rowTrigger m kind (kind.code?.getD 0)
    have one (change : RowChange) : writers m.captureTable
        ((db.setTable changed).triggers.filter (·.watches changed.name change.kind)) = [own change.kind] :=
      installed.one source change
    obtain ⟨rows, grown, hgrown, added, stored⟩ :=
      added_of_fireAll confined installed.apart one hc' hfire
    have made : db.changes w = cs.map fun change => (changed, change) := by
      simp [changes, ht, hchange]
    obtain ⟨d, hd, columns, keyColumns⟩ := installed.table
    obtain rfl : d = c := Option.some.inj (hd.symm.trans hc)
    refine ⟨rows, grown, hgrown, added, ?_⟩
    rw [if_pos hsource, made, List.forall₂_map_left_iff]
    refine stored.imp fun change row hs => ?_
    exact TriggerSource.tellsOf_of_stores columns keyColumns installed.distinct hs
  · have elsewhere : sameName changed.name m.sourceTable = false := by
      rw [sameName_congr named, Bool.eq_false_iff.mpr hsource]
    refine ⟨[], c, (find?_fireAll confined elsewhere hfire).trans hc', .nil c, ?_⟩
    rw [if_neg hsource]
    exact .nil

/-- Writes to other tables than the capture table add a row to it for each change in the source table. -/
theorem history_tells (installed : s.Installed m before)
    (run : ws.foldlM apply before = .ok after)
    (others : ∀ w ∈ ws, sameName w.table m.captureTable = false) {c : Table}
    (hc : before.find? m.captureTable = some c) :
    ∃ rows grown, after.find? m.captureTable = some grown ∧ Added c rows grown ∧
      List.Forall₂ (fun change row => m.TellsOf c change.1 change.2 row)
        (before.history m.sourceTable ws) rows := by
  induction ws generalizing before c with
  | nil =>
    cases run
    exact ⟨[], c, hc, .nil c, .nil⟩
  | cons w rest ih =>
    obtain ⟨next, hnext, run⟩ := ok_of_bind run
    obtain ⟨rows, grown, hgrown, added, tells⟩ :=
      apply_tells installed hnext (others w List.mem_cons_self) hc
    obtain ⟨more, last, hlast, added', tells'⟩ := ih (installed.keeps (keeps_apply hnext)) run
      (fun v hv => others v (List.mem_cons_of_mem w hv)) hgrown
    refine ⟨rows ++ more, last, hlast, added.append added', ?_⟩
    rw [history, hnext]
    exact List.rel_append tells (tells'.imp fun _ _ ht => ht.of_shape added.shape)

/-- Wherever writes have led since the triggers were installed, each change that writes go on to make in
the source table adds one row to the capture table, with the kind of the change and the id of each version
of the row whose id the change leaves to it. Nothing else is added. -/
theorem changes_captured (installed : s.Installed m db) (reached : first.foldlM apply db = .ok before)
    (run : ws.foldlM apply before = .ok after)
    (others : ∀ w ∈ ws, sameName w.table m.captureTable = false) :
    ∃ c grown rows, before.find? m.captureTable = some c ∧ after.find? m.captureTable = some grown ∧
      grown.rows.Perm (c.rows ++ rows) ∧
      List.Forall₂ (fun change row => m.TellsOf grown change.1 change.2 row)
        (before.history m.sourceTable ws) rows := by
  have installed := installed.run reached
  obtain ⟨c, hc, -, -⟩ := installed.table
  obtain ⟨rows, grown, hgrown, added, tells⟩ := history_tells installed run others hc
  refine ⟨c, grown, rows, hc, hgrown, added.rows, tells.imp fun _ _ ht => ?_⟩
  exact ht.of_shape ⟨added.shape.name.symm, added.shape.columns.symm, added.shape.keyColumns.symm⟩

/-- Places with a number and a name. -/
def placeModel : CaptureModel :=
  ⟨.root "places" "Place", "place_updates", "place", [⟨"placefk", "id", IdColumn.defaultType⟩],
    CaptureModel.defaultEventTypeColumn, CaptureModel.defaultKeyColumn⟩

/-- A database with place number five. -/
def onePlace : Database :=
  ⟨[⟨"place", [⟨"id", .integer, false⟩, ⟨"name", .text, false⟩], ["id"], .afterLargest, 5,
    [[.int 5, .text "a"]]⟩], []⟩

theorem clear_onePlace : Clear placeModel onePlace where
  source := by decide +kernel
  absent := by decide +kernel
  free := by decide +kernel
  distinct := by decide +kernel
  unused := by simp [onePlace]
  unwritten := by simp [onePlace]
  spare := by simp [onePlace]

/-- Place number seven comes and goes, and number five becomes number six. -/
def placeWrites : List Write :=
  [.insert "place" [("id", .int 7), ("name", .text "b")], .update "place" [("id", .int 5)] [("id", .int 6)],
    .delete "place" [("id", .int 7)]]

/-- Each change of the places is captured, the update too, although not with the number five. -/
theorem place_changes_captured : ∃ after c grown rows,
    placeWrites.foldlM apply (onePlace.watched placeModel) = .ok after ∧
      ((onePlace.watched placeModel).history "place" placeWrites).map (·.2.kind) =
        [.insert, .update, .delete] ∧
      (onePlace.watched placeModel).find? "place_updates" = some c ∧
      after.find? "place_updates" = some grown ∧ grown.rows.Perm (c.rows ++ rows) ∧
      List.Forall₂ (fun change row => placeModel.TellsOf grown change.1 change.2 row)
        ((onePlace.watched placeModel).history "place" placeWrites) rows := by
  have runs : (placeWrites.foldlM apply (onePlace.watched placeModel)).toOption.isSome = true := by
    decide +kernel
  cases h : placeWrites.foldlM apply (onePlace.watched placeModel) with
  | error f =>
    rw [h] at runs
    cases runs
  | ok after =>
    have reached : ([] : List Write).foldlM apply (onePlace.watched placeModel) =
        .ok (onePlace.watched placeModel) := rfl
    obtain ⟨c, grown, rows, captured⟩ :=
      changes_captured clear_onePlace.installed reached h (by decide +kernel)
    exact ⟨after, c, grown, rows, rfl, by decide +kernel, captured⟩

/-- Not every id that a change touches gets into the capture table: the number that a place had before an
update gives it another one does not. -/
theorem former_id_uncaptured : ¬ ∀ (s : TriggerSource) (m : CaptureModel) (db after : Database) (w : Write)
    (grown : Table), s.Installed m db → sameName w.table m.captureTable = false →
      db.apply w = .ok after → after.find? m.captureTable = some grown →
      ∀ change ∈ db.history m.sourceTable [w], ∀ version ∈ change.2.versions,
        ∃ row ∈ grown.rows, m.heldId grown row = m.storedId change.1 version := by
  intro all
  let db := onePlace.watched placeModel
  let w : Write := .update "place" [("id", .int 5)] [("id", .int 6)]
  -- numbers are compared, for lists of values themselves have no decidable equality
  have missed : ((db.apply w).toOption.bind (·.find? "place_updates")).any (fun grown =>
      (db.history "place" [w]).any fun change => change.2.versions.any fun version =>
        grown.rows.all fun row => (placeModel.heldId grown row).map Value.number? ≠
          (placeModel.storedId change.1 version).map Value.number?) = true := by
    decide +kernel
  obtain ⟨grown, hgrown, missed⟩ := (Option.any_eq_true ..).mp missed
  obtain ⟨after, hafter, hgrown⟩ := Option.bind_eq_some_iff.mp hgrown
  have hafter : db.apply w = .ok after := by
    cases h : db.apply w <;> simp_all [Except.toOption]
  obtain ⟨change, hchange, missed⟩ := List.any_eq_true.mp missed
  obtain ⟨version, hversion, missed⟩ := List.any_eq_true.mp missed
  obtain ⟨row, hrow, held⟩ := all .sqlite placeModel db after w grown clear_onePlace.installed
    (by decide +kernel) hafter hgrown change hchange version hversion
  have := List.all_eq_true.mp missed row hrow
  rw [held] at this
  simp at this

end Store.Database
end IndexSync
