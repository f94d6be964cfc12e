import IndexSync.Capture.PageSource
import Mathlib.Tactic.Common

/-! Rows in the order of their keys, and what a page takes from them. -/
namespace IndexSync

variable {α : Type}

/-- Every key exceeds those before it. -/
def Ascending (key : α → Int) (rows : List α) : Prop :=
  rows.Pairwise fun a b => key a < key b

instance (key : α → Int) (rows : List α) : Decidable (Ascending key rows) :=
  inferInstanceAs (Decidable (rows.Pairwise _))

/-- The rows whose key exceeds the given one; all of them if there is none. -/
def beyond (key : α → Int) (after : Option Int) (rows : List α) : List α :=
  rows.filter fun r => after.all (· < key r)

namespace Ascending

variable {key : α → Int} {rows : List α}

theorem beyond (h : Ascending key rows) (after : Option Int) :
    Ascending key (IndexSync.beyond key after rows) :=
  h.sublist List.filter_sublist

theorem key_lt_of_mem_drop (h : Ascending key rows) {n : Nat} {a b : α}
    (ha : a ∈ rows.take n) (hb : b ∈ rows.drop n) : key a < key b := by
  rw [← List.take_append_drop n rows] at h
  exact (List.pairwise_append.1 h).2.2 a ha b hb

theorem key_le_getLast (h : Ascending key rows) {last a : α}
    (hlast : rows.getLast? = some last) (ha : a ∈ rows) : key a ≤ key last := by
  obtain ⟨front, rfl⟩ := List.getLast?_eq_some_iff.1 hlast
  rcases List.mem_append.1 ha with ha | ha
  · exact Int.le_of_lt ((List.pairwise_append.1 h).2.2 a ha last (by simp))
  · simp only [List.mem_singleton] at ha
    exact ha ▸ Int.le_refl _

theorem eq_of_key_eq (h : Ascending key rows) {a b : α} (ha : a ∈ rows) (hb : b ∈ rows)
    (hk : key a = key b) : a = b := by
  induction rows with
  | nil => cases ha
  | cons r rest ih =>
    have hrest : ∀ x ∈ rest, key r < key x := fun _ hx => List.rel_of_pairwise_cons h hx
    rcases List.mem_cons.1 ha with rfl | ha' <;> rcases List.mem_cons.1 hb with rfl | hb'
    · rfl
    · exact absurd (hrest b hb') (by omega)
    · exact absurd (hrest a ha') (by omega)
    · exact ih (List.Pairwise.of_cons h) ha' hb'

/-- What lies beyond the last row of a page is what the page has left. -/
theorem beyond_getLast_take (h : Ascending key rows) {after : Option Int} {n : Nat} {last : α}
    (hlast : ((IndexSync.beyond key after rows).take n).getLast? = some last) :
    IndexSync.beyond key (some (key last)) rows = (IndexSync.beyond key after rows).drop n := by
  have hb := h.beyond after
  have hmem : last ∈ (IndexSync.beyond key after rows).take n := List.mem_of_getLast? hlast
  have hafter : after.all (· < key last) := (List.mem_filter.1 (List.mem_of_mem_take hmem)).2
  -- beyond the last row means beyond the start as well
  have hcut : IndexSync.beyond key (some (key last)) rows =
      (IndexSync.beyond key after rows).filter fun r => key last < key r := by
    simp only [IndexSync.beyond, List.filter_filter]
    refine List.filter_congr fun r _ => ?_
    cases after with
    | none => simp
    | some k =>
      simp only [Option.all_some, decide_eq_true_eq] at hafter
      simp only [Option.all_some, ← Bool.decide_and, decide_eq_decide]
      omega
  rw [hcut]
  conv_lhs => rw [← List.take_append_drop n (IndexSync.beyond key after rows)]
  rw [List.filter_append, List.filter_eq_nil_iff.2, List.filter_eq_self.2, List.nil_append]
  · exact fun b hd => decide_eq_true (hb.key_lt_of_mem_drop hmem hd)
  · intro a ha
    have hp : Ascending key ((IndexSync.beyond key after rows).take n) :=
      hb.sublist (List.take_sublist ..)
    have := hp.key_le_getLast hlast ha
    simp only [decide_eq_true_eq]
    omega

end Ascending

namespace Stream

/-- A page that goes on where the stream has come is in order. -/
theorem disorder?_eq_none {previous : Option Int} {rows : List CaptureEvent}
    (h : Ascending (·.key) rows) (hp : ∀ r ∈ rows, previous.all (· < r.key)) :
    disorder? previous rows = none := by
  induction rows generalizing previous with
  | nil => cases previous <;> rfl
  | cons e rest ih =>
    have htail : disorder? (some e.key) rest = none :=
      ih (List.Pairwise.of_cons h) fun r hr => by
        simpa using List.rel_of_pairwise_cons h hr
    cases previous with
    | none => exact htail
    | some k =>
      have hk : k < e.key := by simpa using hp e (by simp)
      simp [disorder?, Int.not_le.2 hk, htail]

end Stream

theorem PageSource.firstAfter_eq (rows : List CaptureEvent) (after : Option Int) (n : Nat) :
    PageSource.firstAfter rows after n = (beyond (·.key) after rows).take n := rfl

end IndexSync
