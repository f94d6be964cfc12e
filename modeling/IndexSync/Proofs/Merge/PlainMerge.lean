import IndexSync.Proofs.Merge.Ascending
import Mathlib.Data.List.Perm.Subperm

/-! The plain merge of several tables: all their rows sorted by key, those of equal keys in the order
of the tables. -/
namespace IndexSync

/-- An event with the number of the table it comes from. -/
abbrev Tagged := CaptureEvent × Nat

namespace PlainMerge

def precedes (a b : Tagged) : Bool :=
  a.1.key < b.1.key || (a.1.key = b.1.key && a.2 ≤ b.2)

/-- The rows of tables that are numbered from `i`. -/
def taggedFrom (i : Nat) : List (List CaptureEvent) → List Tagged
  | [] => []
  | rows :: rest => rows.map (·, i) ++ taggedFrom (i + 1) rest

end PlainMerge

open PlainMerge

def plainMerge (tables : List (List CaptureEvent)) : List CaptureEvent :=
  ((taggedFrom 0 tables).mergeSort precedes).map (·.1)

namespace PlainMerge

theorem precedes_iff {a b : Tagged} :
    precedes a b ↔ a.1.key < b.1.key ∨ a.1.key = b.1.key ∧ a.2 ≤ b.2 := by
  simp [precedes]

theorem precedes_trans (a b c : Tagged) (hab : precedes a b) (hbc : precedes b c) :
    precedes a c := by
  rw [precedes_iff] at *
  omega

theorem precedes_total (a b : Tagged) : precedes a b || precedes b a := by
  rw [Bool.or_eq_true, precedes_iff, precedes_iff]
  omega

theorem mem_taggedFrom {i : Nat} {tables : List (List CaptureEvent)} {x : Tagged} :
    x ∈ taggedFrom i tables ↔ ∃ j rows, tables[j]? = some rows ∧ x.1 ∈ rows ∧ x.2 = i + j := by
  induction tables generalizing i with
  | nil => simp [taggedFrom]
  | cons rows rest ih =>
    rw [taggedFrom, List.mem_append, ih, List.mem_map]
    constructor
    · rintro (⟨e, he, rfl⟩ | ⟨j, rows', hj, hx, hi⟩)
      · exact ⟨0, rows, rfl, he, rfl⟩
      · exact ⟨j + 1, rows', hj, hx, by omega⟩
    · rintro ⟨j, rows', hj, hx, hi⟩
      cases j with
      | zero =>
        cases hj
        exact .inl ⟨x.1, hx, Prod.ext rfl hi.symm⟩
      | succ j => exact .inr ⟨j, rows', hj, hx, by omega⟩

theorem map_taggedFrom (i : Nat) (tables : List (List CaptureEvent)) :
    (taggedFrom i tables).map (·.1) = tables.flatten := by
  induction tables generalizing i with
  | nil => rfl
  | cons rows rest ih => simp [taggedFrom, ih, Function.comp_def]

/-- Taking the head of a table takes one row from all of them. -/
theorem taggedFrom_perm_cons {i j : Nat} {tables : List (List CaptureEvent)} {e : CaptureEvent}
    {rows : List CaptureEvent} (h : tables[j]? = some (e :: rows)) :
    (taggedFrom i tables).Perm ((e, i + j) :: taggedFrom i (tables.set j rows)) := by
  induction tables generalizing i j with
  | nil => simp at h
  | cons first rest ih =>
    cases j with
    | zero =>
      cases h
      exact .refl _
    | succ j =>
      have := (ih (i := i + 1) h).append_left (first.map (·, i))
      simp only [List.set_cons_succ, taggedFrom]
      refine this.trans (List.perm_middle.trans ?_)
      rw [Nat.add_assoc, Nat.add_comm 1 j]

/-- Tables that keep some of their rows, as they stand. -/
theorem taggedFrom_sublist {kept tables : List (List CaptureEvent)}
    (h : List.Forall₂ List.Sublist kept tables) (i : Nat) :
    (taggedFrom i kept).Sublist (taggedFrom i tables) := by
  induction h generalizing i with
  | nil => exact .slnil
  | cons first _ ih => exact (first.map _).append (ih (i + 1))

/-- Rows that come at the same place are the same row. -/
theorem eq_of_precedes {tables : List (List CaptureEvent)}
    (h : ∀ rows ∈ tables, Ascending (·.key) rows) {a b : Tagged}
    (ha : a ∈ taggedFrom 0 tables) (hb : b ∈ taggedFrom 0 tables)
    (hab : precedes a b) (hba : precedes b a) : a = b := by
  rw [precedes_iff] at hab hba
  obtain ⟨i, rows, hi, hai, hia⟩ := mem_taggedFrom.1 ha
  obtain ⟨j, rows', hj, hbj, hjb⟩ := mem_taggedFrom.1 hb
  obtain rfl : i = j := by omega
  obtain rfl : rows = rows' := Option.some.inj (hi.symm.trans hj)
  exact Prod.ext ((h rows (List.mem_of_getElem? hi)).eq_of_key_eq hai hbj (by omega)) (by omega)

end PlainMerge

theorem plainMerge_eq_nil {tables : List (List CaptureEvent)} (h : ∀ rows ∈ tables, rows = []) :
    plainMerge tables = [] := by
  have : taggedFrom 0 tables = [] := by
    rw [List.eq_nil_iff_forall_not_mem]
    intro x hx
    obtain ⟨j, rows, hj, hx, -⟩ := mem_taggedFrom.1 hx
    simp [h rows (List.mem_of_getElem? hj)] at hx
  simp [plainMerge, this]

/-- The merge starts with the least head, and goes on with what is left. -/
theorem plainMerge_eq_cons {tables : List (List CaptureEvent)} {j : Nat} {e : CaptureEvent}
    {rows : List CaptureEvent} (hasc : ∀ rows ∈ tables, Ascending (·.key) rows)
    (hj : tables[j]? = some (e :: rows))
    (hleast : ∀ x ∈ taggedFrom 0 tables, precedes (e, j) x) :
    plainMerge tables = e :: plainMerge (tables.set j rows) := by
  have hperm := taggedFrom_perm_cons (i := 0) hj
  rw [Nat.zero_add] at hperm
  have hsorted : ((e, j) :: (taggedFrom 0 (tables.set j rows)).mergeSort precedes).Pairwise
      fun a b => precedes a b := by
    refine List.Pairwise.cons (fun x hx => ?_) (List.pairwise_mergeSort precedes_trans
      precedes_total _)
    exact hleast x (hperm.mem_iff.2 (List.mem_cons_of_mem _ (List.mem_mergeSort.1 hx)))
  have heq : (taggedFrom 0 tables).mergeSort precedes =
      (e, j) :: (taggedFrom 0 (tables.set j rows)).mergeSort precedes := by
    have hp : ((taggedFrom 0 tables).mergeSort precedes).Perm
        ((e, j) :: (taggedFrom 0 (tables.set j rows)).mergeSort precedes) :=
      (List.mergeSort_perm ..).trans (hperm.trans ((List.mergeSort_perm ..).symm.cons _))
    refine List.Perm.eq_of_pairwise (fun a b ha hb hab hba => ?_)
      (List.pairwise_mergeSort precedes_trans precedes_total _) hsorted hp
    exact eq_of_precedes hasc (List.mem_mergeSort.1 ha)
      (List.mem_mergeSort.1 (hp.mem_iff.2 hb)) hab hba
  rw [plainMerge, heq]
  rfl

/-- What tables keep of their rows is merged in the same order. -/
theorem plainMerge_sublist {kept tables : List (List CaptureEvent)}
    (hasc : ∀ rows ∈ tables, Ascending (·.key) rows) (h : List.Forall₂ List.Sublist kept tables) :
    (plainMerge kept).Sublist (plainMerge tables) := by
  have hrows := taggedFrom_sublist h 0
  have hsorted := List.pairwise_mergeSort precedes_trans precedes_total (taggedFrom 0 tables)
  obtain ⟨m, hm, hsub⟩ : (taggedFrom 0 kept).Subperm ((taggedFrom 0 tables).mergeSort precedes) :=
    hrows.subperm.trans (List.mergeSort_perm ..).symm.subperm
  have hperm : m.Perm ((taggedFrom 0 kept).mergeSort precedes) :=
    hm.trans (List.mergeSort_perm ..).symm
  have heq : m = (taggedFrom 0 kept).mergeSort precedes := by
    refine List.Perm.eq_of_pairwise (fun a b ha hb hab hba => ?_) (hsorted.sublist hsub)
      (List.pairwise_mergeSort precedes_trans precedes_total _) hperm
    exact eq_of_precedes hasc (hrows.subset (hm.mem_iff.1 ha))
      (hrows.subset (List.mem_mergeSort.1 hb)) hab hba
  exact (heq ▸ hsub).map _

/-- Every row comes once. -/
theorem plainMerge_perm (tables : List (List CaptureEvent)) :
    (plainMerge tables).Perm tables.flatten := by
  have := (List.mergeSort_perm (taggedFrom 0 tables) precedes).map (·.1)
  rwa [map_taggedFrom] at this

end IndexSync
