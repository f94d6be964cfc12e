import IndexSync.Capture.Model
import IndexSync.Proofs.Outcome
import Mathlib.Data.List.Forall2

/-!
# Capture tables over time

What was ever written to the capture tables, and what is still there. The keys of one table ascend in
the order of writing; keys of different tables have nothing to do with each other.
-/
namespace IndexSync

/-- A row of a capture table: its key, the id of the entity, and the code of the change. -/
structure CaptureRow where
  table : String
  key : Int
  ids : List Value
  code : Value

/-- The model reads the row as the event. -/
def CaptureModel.Reads (m : CaptureModel) (r : CaptureRow) (e : CaptureEvent) : Prop :=
  m.eventOfRow r.key r.ids r.code = .ok e

/-- The row tells of a change by a code that triggers write. -/
def CaptureRow.Recognised (r : CaptureRow) : Prop :=
  ∃ kind, EventKind.ofCode r.code = .ok kind ∧ kind ≠ .unknown

namespace CaptureModel.Reads

variable {m : CaptureModel} {r : CaptureRow} {e : CaptureEvent}

theorem fields (h : m.Reads r e) :
    m.entityId r.ids = .ok e.entityId ∧ EventKind.ofCode r.code = .ok e.kind ∧
      e.entityType = m.entityType ∧ e.key = r.key ∧ e.captureTable = m.captureTable := by
  obtain ⟨id, hid, h⟩ := ok_of_bind h
  obtain ⟨kind, hkind, h⟩ := ok_of_bind h
  cases h
  exact ⟨hid, hkind, rfl, rfl, rfl⟩

theorem kind_ne (h : m.Reads r e) (recognised : r.Recognised) : e.kind ≠ .unknown := by
  obtain ⟨kind, hk, hne⟩ := recognised
  rw [h.fields.2.1] at hk
  cases hk
  exact hne

end CaptureModel.Reads

structure CaptureTables where
  written : List CaptureRow
  rows : List CaptureRow
  left : rows.Sublist written
  ordered : written.Pairwise fun a b => a.table = b.table → a.key < b.key

namespace CaptureTables

def empty : CaptureTables := ⟨[], [], List.Sublist.slnil, List.Pairwise.nil⟩

/-- Writes a row. A key that does not exceed all earlier keys of its table is refused. -/
def append (t : CaptureTables) (r : CaptureRow) : CaptureTables :=
  if h : ∀ w ∈ t.written, w.table = r.table → w.key < r.key then
    ⟨t.written ++ [r], t.rows ++ [r], t.left.append (List.Sublist.refl _),
      List.pairwise_append.mpr ⟨t.ordered, List.pairwise_singleton _ _, fun w hw x hx => by
        rw [List.mem_singleton.mp hx]
        exact h w hw⟩⟩
  else t

def appendAll (t : CaptureTables) (rows : List CaptureRow) : CaptureTables := rows.foldl append t

/-- The rows of one table after a key. -/
def after (t : CaptureTables) (table : String) (key : Option Int) : List CaptureRow :=
  t.rows.filter fun r => r.table = table && key.all (· < r.key)

/-- The events of the first rows after a key. -/
def page (t : CaptureTables) (m : CaptureModel) (key : Option Int) (n : Nat) :
    Except Failure (List CaptureEvent) :=
  ((t.after m.captureTable key).take n).mapM fun r => m.eventOfRow r.key r.ids r.code

def deletes (doomed : List (CaptureModel × List Int)) (r : CaptureRow) : Bool :=
  doomed.any fun (m, keys) => m.captureTable = r.table && keys.contains r.key

/-- Deletes rows by their keys. -/
def delete (t : CaptureTables) (doomed : List (CaptureModel × List Int)) : CaptureTables :=
  ⟨t.written, t.rows.filter fun r => !deletes doomed r,
    List.Sublist.trans List.filter_sublist t.left, t.ordered⟩

/-- Rows have been written, and none has been deleted. -/
def Grows (t u : CaptureTables) : Prop :=
  ∃ new, u.written = t.written ++ new ∧ u.rows = t.rows ++ new

namespace Grows

variable {t u v : CaptureTables}

theorem refl (t : CaptureTables) : t.Grows t := ⟨[], by simp, by simp⟩

theorem trans (h : t.Grows u) (h' : u.Grows v) : t.Grows v := by
  obtain ⟨new, hw, hr⟩ := h
  obtain ⟨newer, hw', hr'⟩ := h'
  exact ⟨new ++ newer, by rw [hw', hw, List.append_assoc], by rw [hr', hr, List.append_assoc]⟩

theorem mem_written (h : t.Grows u) {r : CaptureRow} (hr : r ∈ t.written) : r ∈ u.written := by
  obtain ⟨new, hw, -⟩ := h
  rw [hw]
  exact List.mem_append_left _ hr

theorem after_prefix (h : t.Grows u) (table : String) (key : Option Int) :
    t.after table key <+: u.after table key := by
  obtain ⟨new, -, hr⟩ := h
  unfold after
  rw [hr, List.filter_append]
  exact List.prefix_append ..

end Grows

theorem append_grows (t : CaptureTables) (r : CaptureRow) : t.Grows (t.append r) := by
  unfold append
  split
  · exact ⟨[r], rfl, rfl⟩
  · exact .refl t

theorem appendAll_grows (t : CaptureTables) (rows : List CaptureRow) :
    t.Grows (t.appendAll rows) := by
  induction rows generalizing t with
  | nil => exact .refl t
  | cons r rest ih => exact (t.append_grows r).trans (ih _)

theorem mem_after {t : CaptureTables} {table : String} {key : Option Int} {r : CaptureRow} :
    r ∈ t.after table key ↔ r ∈ t.rows ∧ r.table = table ∧ ∀ k ∈ key, k < r.key := by
  cases key <;> simp [after]

theorem after_ascending (t : CaptureTables) (table : String) (key : Option Int) :
    (t.after table key).Pairwise fun a b => a.key < b.key := by
  refine (List.Pairwise.filter _ (t.ordered.sublist t.left)).imp_of_mem ?_
  intro a b ha hb hab
  exact hab ((mem_after.mp ha).2.1.trans (mem_after.mp hb).2.1.symm)

/-- What comes after the last of some first rows is what is left of the table. -/
theorem after_last {t : CaptureTables} {table : String} {key : Option Int}
    {first rest : List CaptureRow} (h : t.after table key = first ++ rest) :
    t.after table ((first.getLast?.map (·.key)).or key) = rest := by
  have ascending := t.after_ascending table key
  rw [h, List.pairwise_append] at ascending
  obtain ⟨hfirst, -, hcross⟩ := ascending
  cases hl : first.getLast? with
  | none =>
    obtain rfl := List.getLast?_eq_none_iff.mp hl
    exact h
  | some last =>
    have hmem := List.mem_of_getLast? hl
    have habove : ∀ k ∈ key, k < last.key :=
      (mem_after.mp (h ▸ List.mem_append_left rest hmem)).2.2
    have hle : ∀ r ∈ first, r.key ≤ last.key := by
      intro r hr
      obtain ⟨before, rfl⟩ := List.getLast?_eq_some_iff.mp hl
      rw [List.pairwise_append] at hfirst
      rcases List.mem_append.mp hr with hr | hr
      · exact Int.le_of_lt (hfirst.2.2 r hr last (List.mem_singleton_self _))
      · exact Int.le_of_eq (congrArg _ (List.mem_singleton.mp hr))
    have hsplit : t.after table (some last.key) =
        (t.after table key).filter fun r => last.key < r.key := by
      unfold after
      rw [List.filter_filter]
      apply List.filter_congr
      intro r _
      cases key with
      | none => simp [Bool.and_comm]
      | some k =>
        have := habove k rfl
        by_cases hr : last.key < r.key
        · have : k < r.key := by omega
          simp [hr, this]
        · simp [hr]
    simp only [Option.map_some, Option.some_or]
    rw [hsplit, h, List.filter_append, List.filter_eq_nil_iff.mpr, List.nil_append,
      List.filter_eq_self.mpr]
    · exact fun r hr => by simpa using hcross last hmem r hr
    · exact fun r hr => by simpa using hle r hr

end CaptureTables
end IndexSync
