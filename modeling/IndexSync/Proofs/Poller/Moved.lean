import IndexSync.Proofs.Poller.Collect
import IndexSync.Proofs.Poller.Marked

/-!
# Where the cursors stand after a tick

The cursor of each table stands at the last of the rows that were handed out, or where it stood.
-/
namespace IndexSync.Poller

/-- The keys of the events of one table that were handed out. -/
def keysOf (table : String) (handed : List (Nat × CaptureEvent)) : List Int :=
  ((handed.map (·.2)).filter (·.captureTable = table)).map (·.key)

theorem consumed_get? (handed : List (Nat × CaptureEvent)) (table : String) :
    (collected handed).consumed.get? table =
      if keysOf table handed = [] then none else some (keysOf table handed) := by
  induction handed using List.reverseRecOn with
  | nil => rfl
  | append_singleton xs x ih =>
    obtain ⟨i, e⟩ := x
    rw [collected_append, Collected.add]
    by_cases h : e.captureTable = table
    · subst h
      have hkeys : keysOf e.captureTable (xs ++ [(i, e)]) = keysOf e.captureTable xs ++ [e.key] := by
        simp [keysOf]
      rw [Entries.get?_put_self, ih, hkeys]
      by_cases hnil : keysOf e.captureTable xs = [] <;> simp [hnil]
    · have hkeys : keysOf table (xs ++ [(i, e)]) = keysOf table xs := by simp [keysOf, h]
      rw [Entries.get?_put_of_ne (by simpa using h), ih, hkeys]

theorem put_keys (k : String) (a : List Int) (entries : Entries String (List Int)) :
    (entries.put k a).map (·.1) =
      if k ∈ entries.map (·.1) then entries.map (·.1) else entries.map (·.1) ++ [k] := by
  induction entries with
  | nil => simp [Entries.put]
  | cons e rest ih =>
    obtain ⟨l, b⟩ := e
    by_cases h : l = k
    · subst h
      simp [Entries.put]
    · have h' : ¬ k = l := fun he => h he.symm
      simp only [Entries.put, beq_iff_eq, h, if_false, List.map_cons, ih, List.mem_cons, h', false_or]
      split <;> simp

/-- No table is entered twice among those that rows have been consumed of. -/
theorem Collected.distinct_add {c : Collected} (h : (c.consumed.map (·.1)).Nodup) (e : CaptureEvent) :
    ((c.add e).consumed.map (·.1)).Nodup := by
  rw [Collected.add, put_keys]
  split
  · exact h
  · rename_i hnew
    refine List.nodup_append.mpr ⟨h, by simp, ?_⟩
    rintro a ha b hb rfl
    exact hnew (List.mem_singleton.mp hb ▸ ha)

theorem consumed_distinct (handed : List (Nat × CaptureEvent)) :
    ((collected handed).consumed.map (·.1)).Nodup := by
  induction handed using List.reverseRecOn with
  | nil => exact List.nodup_nil
  | append_singleton xs x ih =>
    rw [collected_append]
    exact Collected.distinct_add ih _

theorem moveCursors_get?_of_not_mem {consumed : Entries String (List Int)} {table : String}
    (h : table ∉ consumed.map (·.1)) (cursors : Cursors) :
    (moveCursors cursors consumed).get? table = cursors.get? table := by
  induction consumed generalizing cursors with
  | nil => rfl
  | cons e rest ih =>
    obtain ⟨other, keys⟩ := e
    rw [List.map_cons, List.mem_cons, not_or] at h
    exact (ih h.2 _).trans (moveCursor_get?_of_ne (Ne.symm h.1) keys)

theorem moveCursors_get? {consumed : Entries String (List Int)}
    (distinct : (consumed.map (·.1)).Nodup) (cursors : Cursors) (table : String) :
    (moveCursors cursors consumed).get? table =
      raised (cursors.get? table) ((consumed.get? table).getD []) := by
  induction consumed generalizing cursors with
  | nil => rfl
  | cons e rest ih =>
    obtain ⟨other, keys⟩ := e
    rw [List.map_cons, List.nodup_cons] at distinct
    change (moveCursors (moveCursor cursors other keys) rest).get? table = _
    by_cases h : other = table
    · subst h
      rw [moveCursors_get?_of_not_mem distinct.1, moveCursor_get?_self]
      simp [Entries.get?]
    · rw [ih distinct.2, moveCursor_get?_of_ne h]
      simp [Entries.get?, h]

theorem raised_of_ascending {old : Option Int} {keys : List Int} (ascending : keys.Pairwise (· < ·))
    (above : ∀ k ∈ keys, ∀ o ∈ old, o < k) : raised old keys = keys.getLast?.or old := by
  have hmax : keys.max? = keys.getLast? := by
    cases hl : keys.getLast? with
    | none =>
      rw [List.getLast?_eq_none_iff.mp hl]
      rfl
    | some last =>
      obtain ⟨before, rfl⟩ := List.getLast?_eq_some_iff.mp hl
      rw [List.max?_eq_some_iff]
      refine ⟨List.mem_append_right _ List.mem_cons_self, fun k hk => ?_⟩
      rcases List.mem_append.mp hk with hk | hk
      · exact Int.le_of_lt ((List.pairwise_append.mp ascending).2.2 k hk last List.mem_cons_self)
      · exact List.mem_singleton.mp hk ▸ Int.le_refl _
  unfold raised
  rw [hmax]
  cases hl : keys.getLast? with
  | none => rfl
  | some last =>
    have hmem := List.mem_of_getLast? hl
    cases old with
    | none => simp
    | some o =>
      have := above last hmem o rfl
      simp only [Option.getD_some, Option.some_or, Option.some.injEq]
      omega

/-- The cursor of a table after a tick that has handed out some events. -/
theorem moved_get? (handed : List (Nat × CaptureEvent)) (cursors : Cursors) (table : String) :
    (moveCursors cursors (collected handed).consumed).get? table =
      raised (cursors.get? table) (keysOf table handed) := by
  rw [moveCursors_get? (consumed_distinct handed), consumed_get?]
  by_cases h : keysOf table handed = [] <;> simp [h]

/-- No consumed key is above the moved cursor of its table. -/
theorem consumed_le_moved {handed : List (Nat × CaptureEvent)} (cursors : Cursors) {table : String}
    {keys : List Int} (h : (table, keys) ∈ (collected handed).consumed) {k : Int} (hk : k ∈ keys) :
    ∃ m, (moveCursors cursors (collected handed).consumed).get? table = some m ∧ k ≤ m := by
  obtain ⟨x, hx, htable, hkey⟩ := mem_consumed h hk
  rw [moved_get?]
  refine le_raised _ (List.mem_map.mpr ⟨x.2, List.mem_filter.mpr ⟨?_, by simpa using htable⟩, hkey⟩)
  exact List.mem_map_of_mem hx

variable {models : List CaptureModel} {cursors : Cursors} {t : CaptureTables}
  {handed : List (Nat × CaptureEvent)}

theorem Shares.tag (shares : Shares models cursors t handed) {x : Nat × CaptureEvent}
    (hx : x ∈ handed) : ∃ m r, models[x.1]? = some m ∧ r ∈ t.rows ∧ r.table = m.captureTable ∧
      m.Reads r x.2 := by
  have hm := List.getElem?_eq_getElem (shares.1 x hx)
  obtain ⟨rows, ⟨rest, hrows⟩, hread⟩ := shares.2 x.1 _ hm
  have he : x.2 ∈ share x.1 handed :=
    List.mem_map.mpr ⟨x, List.mem_filter.mpr ⟨hx, by simp⟩, rfl⟩
  obtain ⟨r, hr, hre⟩ := exists_left_of_forall₂ hread he
  have := CaptureTables.mem_after.mp (hrows ▸ List.mem_append_left rest hr)
  exact ⟨_, r, hm, this.1, this.2.1, hre⟩

theorem only_of_nodup {β : Type} {ofModel : CaptureModel → β} (distinct : (models.map ofModel).Nodup)
    {i : Nat} {m : CaptureModel} (hm : models[i]? = some m) :
    ∀ j n, models[j]? = some n → ofModel n = ofModel m → j = i := by
  intro j n hn h
  have hlt : j < (models.map ofModel).length := by
    simpa using (List.getElem?_eq_some_iff.mp hn).1
  exact (List.getElem?_inj hlt distinct).mp (by simp [hm, hn, h])

/-- What tells a model apart from all others tells the stream apart that its events come from. -/
theorem filter_eq_share {β : Type} [DecidableEq β] (ofModel : CaptureModel → β)
    (ofEvent : CaptureEvent → β) (hread : ∀ m r e, m.Reads r e → ofEvent e = ofModel m)
    (shares : Shares models cursors t handed) {i : Nat} {m : CaptureModel}
    (hm : models[i]? = some m)
    (only : ∀ j n, models[j]? = some n → ofModel n = ofModel m → j = i) :
    (handed.map (·.2)).filter (fun e => ofEvent e = ofModel m) = share i handed := by
  rw [List.filter_map]
  unfold share
  congr 1
  apply List.filter_congr
  intro x hx
  obtain ⟨n, r, hn, -, -, hr⟩ := shares.tag hx
  simp only [Function.comp, hread n r x.2 hr, decide_eq_decide]
  constructor
  · exact only x.1 n hn
  · rintro rfl
    rw [hm] at hn
    cases hn
    rfl

/-- Of each table the rows after the cursor fall into those whose events were handed out, and those
after the moved cursor. -/
theorem Shares.split (shares : Shares models cursors t handed) {i : Nat} {m : CaptureModel}
    (hm : models[i]? = some m)
    (only : ∀ j n, models[j]? = some n → n.captureTable = m.captureTable → j = i) :
    ∃ rows, List.Forall₂ m.Reads rows (share i handed) ∧
      t.after m.captureTable (cursors.get? m.captureTable) = rows ++ t.after m.captureTable
        ((moveCursors cursors (collected handed).consumed).get? m.captureTable) := by
  obtain ⟨rows, ⟨rest, hrows⟩, hread⟩ := shares.2 i m hm
  refine ⟨rows, hread, ?_⟩
  have ascending := t.after_ascending m.captureTable (cursors.get? m.captureTable)
  rw [← hrows, List.pairwise_append] at ascending
  have hkeys : keysOf m.captureTable handed = rows.map (·.key) := by
    unfold keysOf
    rw [filter_eq_share (·.captureTable) (·.captureTable)
      (fun m r e h => h.fields.2.2.2.2) shares hm only]
    clear hrows ascending
    generalize share i handed = events at hread
    induction hread with
    | nil => rfl
    | cons h _ ih => rw [List.map_cons, List.map_cons, ih, h.fields.2.2.2.1]
  rw [moved_get?, hkeys, raised_of_ascending, List.getLast?_map,
    CaptureTables.after_last hrows.symm, hrows]
  · exact List.pairwise_map.mpr ascending.1
  · intro k hk
    obtain ⟨r, hr, rfl⟩ := List.mem_map.mp hk
    exact (CaptureTables.mem_after.mp (hrows ▸ List.mem_append_left rest hr)).2.2

end IndexSync.Poller
