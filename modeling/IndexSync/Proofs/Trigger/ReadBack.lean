import IndexSync.Proofs.Capture.Selection
import IndexSync.Proofs.Trigger.Completeness
import IndexSync.Proofs.Trigger.Reading
import IndexSync.Trigger.Resolution

/-!
# What a trigger writes, the poller reads

The text of the insertion and the selection are made apart from each other. They agree on the columns, on the
codes, and on which of the selected values are the id.
-/
namespace IndexSync

open Store Table Trigger

theorem Entries.map_get?_zip {κ α : Type} [BEq κ] [LawfulBEq κ] {keys : List κ} {values : List α}
    (distinct : keys.Nodup) (same : keys.length = values.length) (otherwise : α) :
    keys.map (fun k => (Entries.get? k (keys.zip values)).getD otherwise) = values := by
  induction keys generalizing values with
  | nil => exact (List.length_eq_zero_iff.mp same.symm).symm
  | cons k keys ih =>
    obtain ⟨fresh, distinct⟩ := List.nodup_cons.mp distinct
    obtain ⟨v, values, rfl⟩ := List.exists_cons_of_length_eq_add_one same.symm
    have others : keys.map (fun l => (Entries.get? l ((k, v) :: keys.zip values)).getD otherwise) =
        keys.map fun l => (Entries.get? l (keys.zip values)).getD otherwise := by
      refine List.map_congr_left fun l hl => ?_
      have hne : (k == l) = false := by
        rw [beq_eq_false_iff_ne]
        rintro rfl
        exact fresh hl
      simp [Entries.get?, hne]
    rw [List.zip_cons_cons, List.map_cons, others, ih distinct (Nat.succ.inj same)]
    simp [Entries.get?]

namespace CaptureModel

/-- The row that a capture table stores for an insertion of named values: the value of each name in the
column of that name, and the key. -/
def storedCells (m : CaptureModel) (key : Int) (cells : List (String × Value)) : Entries String Value :=
  (m.keyColumn, .int key) :: cells

/-- The values that are selected of a stored row. -/
def selection (m : CaptureModel) (stored : Entries String Value) : List Value :=
  m.selectedColumns.map fun column => (stored.get? column).getD .null

variable {m : CaptureModel}

/-- The values that are selected are those that were stored, in the order of the columns. -/
theorem selection_storedCells (distinct : m.selectedColumns.Nodup) (t : Table) (row : Row)
    (key code : Int) :
    m.selection (m.storedCells key (m.writtenCells t row code)) =
      .int key :: m.idColumns.map (fun c => t.cell c.sourceColumn row) ++ [.int code] := by
  have stored : m.storedCells key (m.writtenCells t row code) = m.selectedColumns.zip
      (.int key :: m.idColumns.map (fun c => t.cell c.sourceColumn row) ++ [.int code]) := by
    simp only [selectedColumns, List.cons_append, List.zip_cons_cons]
    rw [List.zip_append (by simp), List.zip_map']
    rfl
  rw [selection, stored, Entries.map_get?_zip distinct (by simp [selectedColumns])]

end CaptureModel

/-- What a trigger writes for a change, the poller reads as that change. The insertion is what a database
makes of the text of the source. Its values are stored in its columns, position by position, and the columns
of the model are selected. The event has the id of the row after the change, or before it was deleted. -/
def TriggerSource.ReadsBack (s : TriggerSource) (m : CaptureModel) (t : Table) (change : RowChange)
    (key : Int) : Prop :=
  ∃ code token insert, eventCode change.kind = .ok code ∧ s.token = String.singleton token ∧
    Reading.insertion token ((captureInsert m change.kind code).text s.token) = some insert ∧
    ∀ r : RowTrigger, r.insert = insert →
      m.eventOfSelection (m.selection (m.storedCells key (r.cells t change))) =
        .ok ⟨m.entityType,
          CaptureModel.idOf (m.idColumns.map fun c => t.cell c.sourceColumn change.latest),
          change.kind, key, m.captureTable⟩

/-- The changes that shipped triggers write are read back. The model has an id, and its columns have
different names. -/
theorem written_change_read {s : TriggerSource} (hs : s ∈ shippedSources.map (·.2)) {m : CaptureModel}
    (any : m.idColumns ≠ []) (distinct : m.selectedColumns.Nodup) (t : Table) (change : RowChange)
    (key : Int) : s.ReadsBack m t change key := by
  obtain ⟨code, hcode⟩ : ∃ code, change.kind.code? = some code := by cases change <;> exact ⟨_, rfl⟩
  obtain ⟨token, htoken, blank, comma, parenthesis⟩ : ∃ token, s.token = String.singleton token ∧
      token ≠ ' ' ∧ token ≠ ',' ∧ token ≠ ')' := by
    have tokens : ∀ s ∈ shippedSources.map (·.2),
        s.token = String.singleton '\x22' ∨ s.token = String.singleton '\x60' := by decide
    rcases tokens s hs with h | h <;> exact ⟨_, h, by decide, by decide, by decide⟩
  have codes : ∀ n, .code n ∈ (TriggerSource.captureInsert m change.kind code).values →
      ∃ kind : EventKind, kind.code? = some n := by
    intro n hn
    obtain rfl : n = code := by simpa [TriggerSource.captureInsert, CaptureInsert.ofModel] using hn
    exact ⟨_, hcode⟩
  refine ⟨code, token, TriggerSource.captureInsert m change.kind code, ?_, htoken, ?_, ?_⟩
  · rw [TriggerSource.eventCode, hcode]
  · rw [htoken]
    exact Reading.insertion_text blank comma parenthesis
      (by simp [TriggerSource.captureInsert, CaptureInsert.ofModel])
      (by simp [TriggerSource.captureInsert, CaptureInsert.ofModel]) codes
  · intro r hr
    have cells : r.cells t change = m.writtenCells t change.latest code := by
      rw [← s.cells_rowTrigger t change code, RowTrigger.cells, RowTrigger.cells, hr]
      rfl
    rw [cells, CaptureModel.selection_storedCells distinct]
    exact CaptureModel.eventOfSelection_eq (by simp) (by simpa using any)
      (EventKind.ofCode_code hcode) key

/-- A model with an id of two columns. Its names hold tokens and the marks of a statement. -/
def quotedModel : CaptureModel :=
  ⟨.root "places" "Place", "place, \x22updates\x22", "place",
    [⟨"a) VALUES (", "a\x60\x60b", IdColumn.defaultType⟩, ⟨"\x22\x22", "NEW.c", IdColumn.defaultType⟩],
    CaptureModel.defaultEventTypeColumn, CaptureModel.defaultKeyColumn⟩

theorem quoted_change_read :
    TriggerSource.mysql ∈ shippedSources.map (·.2) ∧ quotedModel.idColumns ≠ [] ∧
      quotedModel.selectedColumns.Nodup ∧
      TriggerSource.mysql.ReadsBack quotedModel
        ⟨"place", [⟨"a\x60\x60b", .integer, false⟩, ⟨"NEW.c", .text, false⟩], [], .given, 0, []⟩
        (.updated [.int 1, .text "x"] [.int 2, .text "y"]) 7 :=
  have shipped : TriggerSource.mysql ∈ shippedSources.map (·.2) := by simp [shippedSources]
  have any : quotedModel.idColumns ≠ [] := by decide
  have distinct : quotedModel.selectedColumns.Nodup := by decide
  ⟨shipped, any, distinct, written_change_read shipped any distinct _ _ 7⟩

/-- Without an id there is nothing between the key and the code, and no event is read. -/
theorem bare_change_unread : ¬ ∀ s ∈ shippedSources.map (·.2), ∀ m : CaptureModel,
    m.selectedColumns.Nodup → ∀ t change key, s.ReadsBack m t change key := by
  intro all
  have shipped : TriggerSource.sqlite ∈ shippedSources.map (·.2) := by simp [shippedSources]
  obtain ⟨code, token, insert, -, -, -, read⟩ := all .sqlite shipped
    ⟨.root "places" "Place", "place_updates", "place", [], "eventcase", "updateid"⟩ (by decide)
    ⟨"place", [], [], .given, 0, []⟩ (.inserted []) 1
  cases read ⟨"", .insert, "place", insert⟩ rfl

end IndexSync
