import IndexSync.Proofs.Poller.Access
import Mathlib.Tactic.Common

/-!
# Marking rows as consumed

The cursors come to stand where they stood or at keys that were consumed, and only rows with such keys
are deleted.
-/
namespace IndexSync.Poller

/-- A cursor after some keys. -/
def raised (old : Option Int) (keys : List Int) : Option Int :=
  match keys.max? with
  | none => old
  | some highest => some (max highest (old.getD highest))

theorem moveCursor_get?_self (cursors : Cursors) (table : String) (keys : List Int) :
    (moveCursor cursors table keys).get? table = raised (cursors.get? table) keys := by
  unfold moveCursor raised
  cases keys.max? with
  | none => rfl
  | some highest => exact Entries.get?_put_self ..

theorem moveCursor_get?_of_ne {cursors : Cursors} {table other : String} (h : other ≠ table)
    (keys : List Int) : (moveCursor cursors other keys).get? table = cursors.get? table := by
  unfold moveCursor
  split
  · rfl
  · exact Entries.get?_put_of_ne (by simpa using h) ..

theorem raised_eq_some {old : Option Int} {keys : List Int} {k : Int} (h : raised old keys = some k) :
    k ∈ keys ∨ old = some k := by
  unfold raised at h
  cases hmax : keys.max? with
  | none =>
    rw [hmax] at h
    exact .inr h
  | some highest =>
    have hmem : highest ∈ keys := List.max?_mem hmax
    simp only [hmax, Option.some.injEq] at h
    cases old with
    | none =>
      rw [Option.getD_none, Int.max_self] at h
      exact .inl (h ▸ hmem)
    | some o =>
      rw [Option.getD_some] at h
      rcases Int.le_total highest o with hle | hle
      · rw [Int.max_eq_right hle] at h
        exact .inr (congrArg some h)
      · rw [Int.max_eq_left hle] at h
        exact .inl (h ▸ hmem)

theorem le_raised (old : Option Int) {keys : List Int} {k : Int} (h : k ∈ keys) :
    ∃ m, raised old keys = some m ∧ k ≤ m := by
  unfold raised
  cases hmax : keys.max? with
  | none =>
    rw [List.max?_eq_none_iff] at hmax
    rw [hmax] at h
    cases h
  | some highest =>
    exact ⟨_, rfl, Int.le_trans ((List.max?_eq_some_iff.mp hmax).2 k h) (Int.le_max_left ..)⟩

/-- What holds of the cursors and of all consumed keys holds of the cursors when they have moved. -/
theorem moveCursors_induction {Good : String → Int → Prop} {consumed : Entries String (List Int)}
    {cursors : Cursors} (old : ∀ table k, cursors.get? table = some k → Good table k)
    (new : ∀ table keys, (table, keys) ∈ consumed → ∀ k ∈ keys, Good table k) :
    ∀ table k, (moveCursors cursors consumed).get? table = some k → Good table k := by
  induction consumed generalizing cursors with
  | nil => exact old
  | cons entry rest ih =>
    obtain ⟨other, keys⟩ := entry
    refine ih ?_ fun table keys hmem => new table keys (List.mem_cons_of_mem _ hmem)
    intro table k hk
    by_cases h : other = table
    · subst h
      rw [moveCursor_get?_self] at hk
      rcases raised_eq_some hk with hk | hk
      · exact new other keys List.mem_cons_self k hk
      · exact old other k hk
    · rw [moveCursor_get?_of_ne h] at hk
      exact old table k hk

variable {σ : Type}

/-- The rows that are deleted are those whose keys were consumed. -/
theorem consumed_of_deletes {p : Poller} {consumed : Entries String (List Int)} {r : CaptureRow}
    (h : CaptureTables.deletes (p.deletions consumed) r = true) :
    ∃ keys, (r.table, keys) ∈ consumed ∧ r.key ∈ keys := by
  obtain ⟨⟨m, keys⟩, hmem, hhit⟩ := List.any_eq_true.mp h
  obtain ⟨⟨table, keys'⟩, hconsumed, hmodel⟩ := List.mem_filterMap.mp hmem
  obtain ⟨m', hm', hpair⟩ := Option.map_eq_some_iff.mp hmodel
  cases hpair
  simp only [Bool.and_eq_true, decide_eq_true_eq, List.contains_eq_mem] at hhit
  have htable : m.captureTable = table := by simpa using List.find?_some hm'
  exact ⟨keys, hhit.1 ▸ htable ▸ hconsumed, hhit.2⟩

theorem settle_state (access : CaptureAccess σ) (p : Poller) (c : Collected) (u : Unit)
    (at_ : Cursors × σ) :
    (settle access p c (.ok u) at_).2 = (markConsumed access p c.consumed at_).2 := by
  simp only [settle, Action.bind_apply]
  generalize markConsumed access p c.consumed at_ = marked
  obtain ⟨outcome, after⟩ := marked
  cases outcome <;> rfl

/-- The cursors move, and then the consumed rows are deleted or stay. -/
theorem markConsumed_cases {pause : Action σ Unit} {view : σ → CaptureTables}
    {put : σ → CaptureTables → σ} {Later : σ → σ → Prop} (refl : ∀ s, Later s s)
    (trans : ∀ {s t u}, Later s t → Later t u → Later s u) (later : ∀ s, Later s (pause s).2)
    (p : Poller) (consumed : Entries String (List Int)) (cursors : Cursors) (s : σ) :
    ∃ t, Later s t ∧
      ((markConsumed (.paced pause view put) p consumed (cursors, s)).2 =
          (moveCursors cursors consumed, put t ((view t).delete (p.deletions consumed))) ∨
        (markConsumed (.paced pause view put) p consumed (cursors, s)).2 =
          (moveCursors cursors consumed, t)) := by
  unfold markConsumed
  simp only
  split
  · rename_i hempty
    obtain rfl := List.isEmpty_iff.mp hempty
    exact ⟨s, refl s, .inr rfl⟩
  · obtain ⟨t, ht, hdelete⟩ :=
      CaptureAccess.paced_delete @trans later (p.deletions consumed) s
    refine ⟨t, ht, ?_⟩
    rcases hdelete with hdelete | ⟨f, hdelete⟩
    · rw [hdelete]
      exact .inl rfl
    · rw [hdelete]
      simp only
      split <;> exact .inr rfl

end IndexSync.Poller
