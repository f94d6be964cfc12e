import IndexSync.Proofs.Outcome
import IndexSync.Store.Setup
import Mathlib.Data.List.Perm.Basic

/-!
# Tables under change

Changes leave the name, the columns and the keys of a table as they are. An insertion adds one row, which
holds in each column but the key what that column makes of the value it is given.
-/
namespace IndexSync.Store

theorem sameName_iff {a b : String} :
    sameName a b = true ↔ a.toList.map Char.toLower = b.toList.map Char.toLower := by
  simp [sameName]

@[simp] theorem sameName_self (a : String) : sameName a a = true := sameName_iff.mpr rfl

theorem sameName_comm (a b : String) : sameName a b = sameName b a := by
  rw [Bool.eq_iff_iff, sameName_iff, sameName_iff]
  exact eq_comm

/-- Names that are the same are the same as the same names. -/
theorem sameName_congr {a b : String} (h : sameName a b = true) (c : String) :
    sameName a c = sameName b c := by
  rw [Bool.eq_iff_iff, sameName_iff, sameName_iff, sameName_iff.mp h]

theorem sameName_congr_right {a b : String} (h : sameName a b = true) (c : String) :
    sameName c a = sameName c b := by
  rw [sameName_comm c a, sameName_comm c b, sameName_congr h]

/-- A list in which no name stands twice. -/
theorem pairwise_of_hasTwice {names : List String} (h : hasTwice names = false) :
    names.Pairwise fun a b => sameName a b = false := by
  induction names with
  | nil => exact .nil
  | cons name rest ih =>
    rw [hasTwice, Bool.or_eq_false_iff] at h
    refine .cons (fun other hother => ?_) (ih h.2)
    have := List.any_eq_false.mp h.1 other hother
    simpa using this

namespace Table

variable {t u after : Table} {cells : List (String × Value)} {row : Row}

/-- What changes to the rows of a table leave as it is. -/
structure SameShape (t after : Table) : Prop where
  name : after.name = t.name
  columns : after.columns = t.columns
  keyColumns : after.keyColumns = t.keyColumns

theorem SameShape.refl (t : Table) : SameShape t t := ⟨rfl, rfl, rfl⟩

theorem SameShape.trans (h : SameShape t u) (k : SameShape u after) : SameShape t after :=
  ⟨k.name.trans h.name, k.columns.trans h.columns, k.keyColumns.trans h.keyColumns⟩

theorem SameShape.cell (h : SameShape t after) (name : String) (row : Row) :
    after.cell name row = t.cell name row := by
  rw [Table.cell, position?, h.columns]
  rfl

/-- Rows have been added. -/
structure Added (t : Table) (rows : List Row) (after : Table) : Prop where
  shape : SameShape t after
  rows : after.rows.Perm (t.rows ++ rows)

theorem Added.nil (t : Table) : Added t [] t := ⟨.refl t, by simp⟩

theorem Added.append {rs ss : List Row} (h : Added t rs u) (k : Added u ss after) :
    Added t (rs ++ ss) after := by
  refine ⟨h.shape.trans k.shape, k.rows.trans ?_⟩
  rw [← List.append_assoc]
  exact h.rows.append_right ss

theorem perm_place (t : Table) (row : Row) (rows : List Row) : (t.place row rows).Perm (row :: rows) := by
  induction rows with
  | nil => exact .refl _
  | cons r rest ih =>
    simp only [place]
    split
    · exact (ih.cons r).trans (.swap ..)
    · exact .refl _

theorem addRow_ok (h : t.addRow row = .ok after) : Added t [row] after := by
  unfold addRow at h
  split at h
  · cases h
  · split at h
    · cases h
    · cases h
      refine ⟨⟨rfl, rfl, rfl⟩, (perm_place t row t.rows).trans ?_⟩
      exact (List.perm_append_singleton row t.rows).symm

/-- The row of some cells as a table of this shape stores it. Its key may be one that the table chose. -/
def Stores (t : Table) (cells : List (String × Value)) (row : Row) : Prop :=
  ∃ u, SameShape t u ∧ u.numbered (u.fullRow cells) = .ok row

theorem Stores.of_shape (h : u.Stores cells row) (shape : SameShape t u) : t.Stores cells row := by
  obtain ⟨v, hv, stored⟩ := h
  exact ⟨v, shape.trans hv, stored⟩

theorem insert_ok (h : t.insert cells = .ok (row, after)) :
    Added t [row] after ∧ t.Stores cells row := by
  unfold insert at h
  obtain ⟨_, -, h⟩ := ok_of_bind h
  obtain ⟨numbered, hnumbered, h⟩ := ok_of_bind h
  obtain ⟨added, hadded, h⟩ := ok_of_bind h
  cases h
  exact ⟨addRow_ok hadded, t, .refl t, hnumbered⟩

/-- The row that a function of the columns makes. -/
theorem cell_map (t : Table) (f : Column → Value) (name : String) :
    t.cell name (t.columns.map f) =
      ((t.columns.find? fun c => sameName c.name name).map f).getD .null := by
  have look (cs : List Column) :
      ((cs.findIdx? fun c => sameName c.name name).bind ((cs.map f)[·]?)) =
        (cs.find? fun c => sameName c.name name).map f := by
    induction cs with
    | nil => rfl
    | cons c rest ih =>
      rw [List.findIdx?_cons, List.find?_cons]
      by_cases hc : sameName c.name name = true
      · simp [hc]
      · simp only [hc, Bool.false_eq_true, if_false]
        rw [← ih]
        cases rest.findIdx? fun c => sameName c.name name <;> simp
  rw [cell, position?, look]

/-- What a list of named values holds under a name that stands in it once. -/
theorem named?_of_pairwise {cells : List (String × Value)}
    (distinct : (cells.map (·.1)).Pairwise fun a b => sameName a b = false) {name : String} {v : Value}
    (h : (name, v) ∈ cells) : named? cells name = some v := by
  induction cells with
  | nil => cases h
  | cons cell rest ih =>
    obtain ⟨apart, distinct⟩ := List.pairwise_cons.mp distinct
    rcases List.mem_cons.mp h with rfl | h
    · simp [named?]
    · rw [named?, List.find?_cons_of_neg (by simp [apart name (List.mem_map_of_mem h)])]
      exact ih distinct h

/-- Columns of different names. -/
def Distinct (columns : List Column) : Prop := columns.Pairwise fun a b => sameName a.name b.name = false

theorem find?_of_distinct {columns : List Column} (distinct : Distinct columns) {c : Column}
    (hc : c ∈ columns) : (columns.find? fun d => sameName d.name c.name) = some c := by
  induction columns with
  | nil => cases hc
  | cons d rest ih =>
    obtain ⟨apart, distinct⟩ := List.pairwise_cons.mp distinct
    rcases List.mem_cons.mp hc with rfl | hc
    · simp
    · rw [List.find?_cons_of_neg (by simp [apart c hc])]
      exact ih distinct hc

theorem cell_fullRow (distinct : Distinct t.columns) {c : Column} (hc : c ∈ t.columns) :
    t.cell c.name (t.fullRow cells) = c.affinity.store ((named? cells c.name).getD .null) := by
  rw [fullRow, cell_map, find?_of_distinct distinct hc]
  rfl

/-- What stands outside the key does not depend on how the row came to its key. -/
theorem cell_of_stores (h : t.Stores cells row) (distinct : Distinct t.columns) {c : Column}
    (hc : c ∈ t.columns) (unkeyed : ∀ k ∈ t.keyColumns, sameName k c.name = false) :
    t.cell c.name row = c.affinity.store ((named? cells c.name).getD .null) := by
  obtain ⟨u, shape, h⟩ := h
  rw [← shape.columns] at distinct hc
  rw [← shape.keyColumns] at unkeyed
  rw [← shape.cell]
  unfold numbered at h
  split at h
  · cases h
    exact cell_fullRow distinct hc
  · split at h
    · cases h
      rw [changedRow, cell_map, find?_of_distinct distinct hc]
      have unnamed : named? (u.keyColumns.map fun k => (k, .int u.nextKey)) c.name = none := by
        rw [named?, Option.map_eq_none_iff, List.find?_eq_none]
        intro cell hcell
        obtain ⟨k, hk, rfl⟩ := List.mem_map.mp hcell
        simp [unkeyed k hk]
      simp only [Option.map_some, Option.getD_some, unnamed]
      exact cell_fullRow distinct hc
    · cases h
      exact cell_fullRow distinct hc
    · cases h

theorem updateRows_ok {rows : List Row} {changes : List RowChange}
    (h : t.updateRows cells rows = .ok (changes, after)) : SameShape t after := by
  induction rows generalizing t changes with
  | nil =>
    cases h
    exact .refl _
  | cons row rest ih =>
    obtain ⟨added, hadded, h⟩ := ok_of_bind h
    obtain ⟨⟨more, last⟩, hmore, h⟩ := ok_of_bind h
    cases h
    have removed : SameShape t (t.removeRow row) := ⟨rfl, rfl, rfl⟩
    exact (removed.trans (addRow_ok hadded).shape).trans (ih hmore)

/-- The rows that a write changes in its table. -/
def change (t : Table) : Database.Write → Except Failure (List RowChange × Table)
  | .insert _ cells => (t.insert cells).map fun (row, t) => ([.inserted row], t)
  | .update _ condition cells => t.update condition cells
  | .delete _ condition => t.delete condition

theorem change_ok {w : Database.Write} {changes : List RowChange}
    (h : t.change w = .ok (changes, after)) : SameShape t after := by
  cases w with
  | insert _ cells =>
    simp only [change] at h
    cases hi : t.insert cells with
    | error f => simp [hi, Except.map] at h
    | ok added =>
      obtain ⟨row, added⟩ := added
      simp only [hi, Except.map] at h
      cases h
      exact (insert_ok hi).1.shape
  | update _ condition cells =>
    obtain ⟨_, -, h⟩ := ok_of_bind h
    exact updateRows_ok h
  | delete _ condition =>
    obtain ⟨_, -, h⟩ := ok_of_bind h
    cases h
    exact ⟨rfl, rfl, rfl⟩

end Table
end IndexSync.Store
