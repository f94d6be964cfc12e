import IndexSync.Proofs.Merge.PagedMerge

/-!
# The first rows taken off

A merge starts with the head of one of its tables. So its first rows are first rows of the tables, and what
follows them is the merge of what the tables have left.
-/
namespace IndexSync

variable {tables : List (List CaptureEvent)} {names : List String}

/-- A merge is over, or starts with the head of a table and goes on with the others. -/
theorem plainMerge_cases (hasc : ∀ rows ∈ tables, Ascending (·.key) rows) :
    plainMerge tables = [] ∨ ∃ i e rows, tables[i]? = some (e :: rows) ∧
      plainMerge tables = e :: plainMerge (tables.set i rows) := by
  -- a cursor that has read every table to its end has just the tables left
  let whole (rows : List CaptureEvent) : Stream := ⟨"", none, rows, true⟩
  let c : MergeCursor := ⟨tables.map whole, 1, none, none, none, 0, true, false⟩
  have left (rests : List (List CaptureEvent)) (h : rests.length = tables.length) :
      MergeCursor.leftOf tables (rests.map whole) = rests := by
    refine List.ext_getElem? fun i => ?_
    simp only [MergeCursor.leftOf, List.getElem?_zipWith, List.getElem?_map]
    cases hrests : rests[i]? with
    | none => simp
    | some rows =>
      have hi : i < tables.length := h ▸ (List.getElem?_eq_some_iff.mp hrests).1
      simp [List.getElem?_eq_getElem hi, Stream.left, whole]
  have heads : ∀ i, MergeCursor.HeadAt c.streams i := by
    intro i st hst hpage
    obtain ⟨rows, -, rfl⟩ := List.getElem?_map .. ▸ hst |> Option.map_eq_some_iff.mp
    rfl
  have all := left tables rfl
  rcases MergeCursor.select_spec (show c.streams.length = tables.length by simp [c])
    (by simpa [c, all] using hasc) heads with ⟨spent, -⟩ | ⟨i, st, e, rest, hst, hpage, -, goes⟩
  · exact .inl (all ▸ spent)
  · obtain ⟨rows, hrows, rfl⟩ := List.getElem?_map .. ▸ hst |> Option.map_eq_some_iff.mp
    obtain rfl : rows = e :: rest := hpage
    refine .inr ⟨i, e, rest, hrows, ?_⟩
    have set : c.streams.set i { whole (e :: rest) with page := rest } = (tables.set i rest).map whole :=
      List.map_set.symm
    rwa [set, left _ List.length_set, show MergeCursor.leftOf tables c.streams = tables from all] at goes

/-- The rows of each table bear the name of the table. -/
def Labelled (names : List String) (tables : List (List CaptureEvent)) : Prop :=
  ∀ (i : Nat) (rows : List CaptureEvent), tables[i]? = some rows →
    ∃ name, names[i]? = some name ∧ ∀ e ∈ rows, e.captureTable = name

theorem Labelled.set (h : Labelled names tables) {i : Nat} {e : CaptureEvent} {rows : List CaptureEvent}
    (hi : tables[i]? = some (e :: rows)) : Labelled names (tables.set i rows) := by
  intro j more hmore
  rcases entry_of_set hmore with ⟨rfl, rfl⟩ | ⟨-, hmore⟩
  · obtain ⟨name, hname, labels⟩ := h j _ hi
    exact ⟨name, hname, fun x hx => labels x (List.mem_cons_of_mem _ hx)⟩
  · exact h j more hmore

theorem ascending_set (hasc : ∀ rows ∈ tables, Ascending (·.key) rows) {i : Nat} {e : CaptureEvent}
    {rows : List CaptureEvent} (hi : tables[i]? = some (e :: rows)) :
    ∀ more ∈ tables.set i rows, Ascending (·.key) more := by
  intro more hmore
  rcases List.mem_or_eq_of_mem_set hmore with hmore | rfl
  · exact hasc more hmore
  · exact List.Pairwise.of_cons (hasc _ (List.mem_of_getElem? hi))

/-- What a merge holds of one table are the rows of the table. -/
theorem filter_plainMerge (hasc : ∀ rows ∈ tables, Ascending (·.key) rows) (labels : Labelled names tables)
    (distinct : names.Nodup) {i : Nat} {name : String} {rows : List CaptureEvent}
    (hname : names[i]? = some name) (hrows : tables[i]? = some rows) :
    (plainMerge tables).filter (·.captureTable = name) = rows := by
  generalize hm : plainMerge tables = merged
  induction merged generalizing tables rows with
  | nil =>
    have none_left : tables.flatten = [] := List.perm_nil.mp (hm ▸ plainMerge_perm tables).symm
    exact (List.flatten_eq_nil_iff.mp none_left rows (List.mem_of_getElem? hrows)).symm
  | cons e rest ih =>
    rcases plainMerge_cases hasc with spent | ⟨j, e', more, hj, goes⟩
    · simp [hm] at spent
    · obtain ⟨rfl, rfl⟩ := List.cons.inj (hm.symm.trans goes)
      have hlt : j < tables.length := (List.getElem?_eq_some_iff.mp hj).1
      obtain ⟨label, hlabel, bears⟩ := labels j _ hj
      have goes_on (r : List CaptureEvent) (hr : (tables.set j more)[i]? = some r) :
          (plainMerge (tables.set j more)).filter (·.captureTable = name) = r :=
        ih (ascending_set hasc hj) (labels.set hj) hr rfl
      by_cases hij : i = j
      · subst hij
        obtain rfl : name = label := Option.some.inj (hname.symm.trans hlabel)
        obtain rfl : e :: more = rows := Option.some.inj (hj.symm.trans hrows)
        rw [List.filter_cons_of_pos (by simpa using bears e List.mem_cons_self),
          goes_on more (List.getElem?_set_self hlt)]
      · have other : label ≠ name := fun h => by
          subst h
          have hlt := (List.getElem?_eq_some_iff.mp hname).1
          exact hij ((List.getElem?_inj hlt distinct).mp (hname.trans hlabel.symm))
        rw [List.filter_cons_of_neg (by simpa [bears e List.mem_cons_self] using other)]
        exact goes_on rows (by rwa [List.getElem?_set_ne (Ne.symm hij)])

/-- What follows the first rows of a merge is the merge of what the tables have left. -/
theorem drop_plainMerge (hasc : ∀ rows ∈ tables, Ascending (·.key) rows) (labels : Labelled names tables)
    (distinct : names.Nodup) (n : Nat) (hlen : names.length = tables.length) :
    (plainMerge tables).drop n =
      plainMerge (names.map fun name => ((plainMerge tables).drop n).filter (·.captureTable = name)) := by
  suffices h : ∃ rests, rests.length = tables.length ∧ plainMerge rests = (plainMerge tables).drop n ∧
      (∀ rows ∈ rests, Ascending (·.key) rows) ∧ Labelled names rests by
    obtain ⟨rests, hlength, hmerge, asc, labels⟩ := h
    have hrests : (names.map fun name => (plainMerge rests).filter (·.captureTable = name)) = rests := by
      refine List.ext_getElem (by simp [hlen, hlength]) fun i h h' => ?_
      rw [List.getElem_map]
      exact filter_plainMerge asc labels distinct (List.getElem?_eq_getElem _) (List.getElem?_eq_getElem h')
    rw [← hmerge, hrests]
  induction n with
  | zero => exact ⟨tables, rfl, rfl, hasc, labels⟩
  | succ n ih =>
    obtain ⟨rests, hlength, hmerge, asc, labels⟩ := ih
    rw [← List.drop_drop, ← hmerge]
    rcases plainMerge_cases asc with spent | ⟨i, e, rows, hi, goes⟩
    · exact ⟨rests, hlength, by rw [spent]; rfl, asc, labels⟩
    · exact ⟨rests.set i rows, by simp [hlength], by rw [goes]; rfl, ascending_set asc hi, labels.set hi⟩

end IndexSync
