import IndexSync.Entries
import Mathlib.Tactic.Common

/-! Entries after writing. -/
namespace IndexSync.Entries

variable {κ α : Type} [BEq κ]

theorem mem_of_get? {k : κ} {a : α} {entries : Entries κ α} (h : entries.get? k = some a) :
    ∃ l, (l == k) = true ∧ (l, a) ∈ entries := by
  induction entries with
  | nil => cases h
  | cons e rest ih =>
    obtain ⟨l, b⟩ := e
    by_cases hl : (l == k) = true
    · simp only [get?, hl, if_true] at h
      cases h
      exact ⟨l, hl, List.mem_cons_self⟩
    · simp only [get?, hl] at h
      obtain ⟨m, hm, hmem⟩ := ih h
      exact ⟨m, hm, List.mem_cons_of_mem _ hmem⟩

theorem mem_put {k l : κ} {a b : α} {entries : Entries κ α} (h : (l, b) ∈ entries.put k a) :
    (l, b) ∈ entries ∨ b = a ∧ (l = k ∨ (l == k) = true ∧ ∃ c, (l, c) ∈ entries) := by
  induction entries with
  | nil =>
    cases List.mem_singleton.mp h
    exact .inr ⟨rfl, .inl rfl⟩
  | cons e rest ih =>
    obtain ⟨m, c⟩ := e
    by_cases hm : (m == k) = true
    · simp only [put, hm, if_true] at h
      rcases List.mem_cons.mp h with h | h
      · cases h
        exact .inr ⟨rfl, .inr ⟨hm, c, List.mem_cons_self⟩⟩
      · exact .inl (List.mem_cons_of_mem _ h)
    · simp only [put, hm] at h
      rcases List.mem_cons.mp h with h | h
      · cases h
        exact .inl List.mem_cons_self
      · rcases ih h with hold | ⟨hb, hl | ⟨hl, d, hd⟩⟩
        · exact .inl (List.mem_cons_of_mem _ hold)
        · exact .inr ⟨hb, .inl hl⟩
        · exact .inr ⟨hb, .inr ⟨hl, d, List.mem_cons_of_mem _ hd⟩⟩

theorem get?_put_same {k : κ} (same : (k == k) = true) (a : α) (entries : Entries κ α) :
    (entries.put k a).get? k = some a := by
  induction entries with
  | nil => simp [put, get?, same]
  | cons e rest ih =>
    obtain ⟨l, b⟩ := e
    by_cases hl : (l == k) = true <;> simp [put, get?, hl, ih]

/-- Writing under one key leaves another alone if no key in use is the same as both. -/
theorem get?_put_apart {k m : κ} {entries : Entries κ α} (differ : (k == m) = false)
    (apart : ∀ e ∈ entries, (e.1 == k) = true → (e.1 == m) = false) (a : α) :
    (entries.put k a).get? m = entries.get? m := by
  induction entries with
  | nil => simp [put, get?, differ]
  | cons e rest ih =>
    rw [List.forall_mem_cons] at apart
    obtain ⟨l, b⟩ := e
    by_cases hl : (l == k) = true
    · simp [put, get?, hl, apart.1 hl]
    · simp [put, get?, hl, ih apart.2]

theorem get?_append (k : κ) (entries more : Entries κ α) :
    (entries ++ more).get? k = (entries.get? k).or (more.get? k) := by
  induction entries with
  | nil => rfl
  | cons e rest ih =>
    obtain ⟨l, b⟩ := e
    by_cases hl : (l == k) = true
    · simp [get?, hl]
    · simpa [get?, hl] using ih

theorem get?_erase_self (k : κ) (entries : Entries κ α) : (entries.erase k).get? k = none := by
  induction entries with
  | nil => rfl
  | cons e rest ih =>
    obtain ⟨l, b⟩ := e
    by_cases hl : (l == k) = true
    · simpa [erase, hl] using ih
    · simpa [erase, hl, get?] using ih

theorem get?_erase_apart {k m : κ} {entries : Entries κ α}
    (apart : ∀ e ∈ entries, (e.1 == k) = true → (e.1 == m) = false) :
    (entries.erase k).get? m = entries.get? m := by
  induction entries with
  | nil => rfl
  | cons e rest ih =>
    rw [List.forall_mem_cons] at apart
    have hrest := ih apart.2
    obtain ⟨l, b⟩ := e
    simp only [erase] at hrest
    by_cases hl : (l == k) = true
    · simp [erase, hl, get?, apart.1 hl, hrest]
    · simp [erase, hl, get?, hrest]

end IndexSync.Entries
