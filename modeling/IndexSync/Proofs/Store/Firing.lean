import IndexSync.Proofs.Store.Tables

/-!
# What triggers add

Triggers add rows to the tables that they write to. A table that is written to for the changes of one
other table alone grows by one row for each of its triggers and each change, and by nothing else.
-/
namespace IndexSync.Store.Database

open Table

variable {db after : Database} {t target : Table} {name capture source : String}

theorem find?_name (h : db.find? name = some t) : sameName t.name name = true := by
  have := List.find?_some (p := fun u : Table => sameName u.name name) h
  exact this

theorem find?_congr {other : String} (h : sameName name other = true) : db.find? name = db.find? other := by
  unfold find?
  congr 1
  funext u
  exact sameName_congr_right h u.name

theorem table_ok (h : db.table name = .ok t) : db.find? name = some t := by
  unfold table at h
  split at h
  · cases h
    assumption
  · cases h

/-- A table takes the place of the one of its name, and of no other. -/
theorem find?_setTable (db : Database) (t : Table) (name : String) :
    (db.setTable t).find? name =
      if sameName t.name name then (db.find? name).map fun _ => t else db.find? name := by
  have look (us : List Table) :
      (us.map fun u => if sameName u.name t.name then t else u).find? (fun u => sameName u.name name) =
        if sameName t.name name then (us.find? fun u => sameName u.name name).map fun _ => t
        else us.find? fun u => sameName u.name name := by
    induction us with
    | nil => simp
    | cons u rest ih =>
      by_cases hu : sameName u.name t.name = true
      · have same := sameName_congr hu name
        by_cases ht : sameName t.name name = true
        · simp [hu, ht, same]
        · simpa [hu, ht, same] using ih
      · by_cases hn : sameName u.name name = true
        · have ht : sameName t.name name = false := by
            rw [Bool.eq_false_iff]
            intro ht
            rw [sameName_congr_right ht] at hu
            exact hu hn
          simp [hu, hn, ht]
        · simpa [hu, hn] using ih
  exact look db.tables

/-- Nothing is added but rows. -/
structure Keeps (db after : Database) : Prop where
  triggers : after.triggers = db.triggers
  tables : ∀ name t, db.find? name = some t → ∃ u, after.find? name = some u ∧ SameShape t u

theorem Keeps.refl (db : Database) : Keeps db db := ⟨rfl, fun _ t h => ⟨t, h, .refl t⟩⟩

theorem Keeps.trans {last : Database} (h : Keeps db after) (k : Keeps after last) : Keeps db last := by
  refine ⟨k.triggers.trans h.triggers, fun name t ht => ?_⟩
  obtain ⟨u, hu, shape⟩ := h.tables name t ht
  obtain ⟨v, hv, shape'⟩ := k.tables name u hu
  exact ⟨v, hv, shape.trans shape'⟩

theorem keeps_setTable (ht : db.find? name = some t) (shape : SameShape t target) :
    Keeps db (db.setTable target) := by
  refine ⟨rfl, fun other u hu => ?_⟩
  rw [find?_setTable, shape.name]
  by_cases h : sameName t.name other = true
  · have same : db.find? other = db.find? name := by
      refine find?_congr ?_
      rw [← sameName_congr h, find?_name ht]
    obtain rfl : u = t := Option.some.inj (hu.symm.trans (same.trans ht))
    rw [if_pos h, hu]
    exact ⟨target, rfl, shape⟩
  · rw [if_neg h]
    exact ⟨u, hu, .refl u⟩

/-- What holds before a fold, and is kept by each of its steps, holds after it. -/
theorem foldlM_keeps {α : Type} {P : Database → Prop} {f : Database → α → Except Failure Database}
    {as : List α} (kept : ∀ db a after, a ∈ as → P db → f db a = .ok after → P after)
    (h : P db) (run : as.foldlM f db = .ok after) : P after := by
  induction as generalizing db with
  | nil =>
    cases run
    exact h
  | cons a rest ih =>
    obtain ⟨next, hnext, run⟩ := ok_of_bind run
    refine ih (fun db b after hb => kept db b after (List.mem_cons_of_mem _ hb)) ?_ run
    exact kept db a next List.mem_cons_self h hnext

/-- One trigger runs for one change: it adds a row to its table, and that may set off others. -/
def fireOne (depth : Nat) (idle : List RowTrigger) (t : Table) (change : RowChange) (db : Database)
    (r : RowTrigger) : Except Failure Database := do
  let target ← db.table r.insert.table
  let (row, target) ← target.insert (r.cells t change)
  fire depth (idle.erase r) (db.setTable target) target (.inserted row)

theorem fire_succ (depth : Nat) (idle : List RowTrigger) (db : Database) (t : Table) (change : RowChange) :
    fire (depth + 1) idle db t change =
      (idle.filter (·.watches t.name change.kind)).foldlM (fireOne depth idle t change) db := rfl

theorem fireOne_ok {depth : Nat} {idle : List RowTrigger} {change : RowChange} {r : RowTrigger}
    (h : fireOne depth idle t change db r = .ok after) :
    ∃ target row grown, db.find? r.insert.table = some target ∧ Added target [row] grown ∧
      target.Stores (r.cells t change) row ∧
      fire depth (idle.erase r) (db.setTable grown) grown (.inserted row) = .ok after := by
  obtain ⟨target, htarget, h⟩ := ok_of_bind h
  obtain ⟨⟨row, grown⟩, hinsert, h⟩ := ok_of_bind h
  obtain ⟨added, stores⟩ := insert_ok hinsert
  exact ⟨target, row, grown, table_ok htarget, added, stores, h⟩

theorem keeps_fire (depth : Nat) (idle : List RowTrigger) (change : RowChange)
    (h : fire depth idle db t change = .ok after) : Keeps db after := by
  induction depth generalizing idle db t change after with
  | zero =>
    cases h
    exact .refl db
  | succ depth ih =>
    rw [fire_succ] at h
    refine foldlM_keeps (P := Keeps db) (fun now r next _ kept hnext => ?_) (.refl db) h
    obtain ⟨target, row, grown, htarget, added, -, hfire⟩ := fireOne_ok hnext
    exact (kept.trans (keeps_setTable htarget added.shape)).trans (ih _ _ hfire)

theorem keeps_fireAll (changes : List RowChange) (h : db.fireAll t changes = .ok after) :
    Keeps db after :=
  foldlM_keeps (P := Keeps db) (fun _ change _ _ kept hnext =>
    kept.trans (keeps_fire _ _ change hnext)) (.refl db) h

/-- Triggers that write to the capture table only for changes in the source table, and never to the source
table itself. -/
structure Confined (capture source : String) (triggers : List RowTrigger) : Prop where
  own : ∀ r ∈ triggers, sameName r.insert.table capture = true → sameName r.table source = true
  spare : ∀ r ∈ triggers, sameName r.insert.table source = false

theorem Confined.erase {triggers : List RowTrigger} (h : Confined capture source triggers)
    (r : RowTrigger) : Confined capture source (triggers.erase r) :=
  ⟨fun s hs => h.own s (List.mem_of_mem_erase hs), fun s hs => h.spare s (List.mem_of_mem_erase hs)⟩

/-- A trigger that writes to another table leaves the capture table alone. So do all that it sets off, as
long as none of them runs for the source table. -/
theorem find?_fireOne {depth : Nat} {idle : List RowTrigger} {change : RowChange} {r : RowTrigger}
    (confined : Confined capture source idle)
    (below : ∀ {idle' db' t' change'}, Confined capture source idle' →
      sameName t'.name source = false → fire depth idle' db' t' change' = .ok after →
      after.find? capture = db'.find? capture)
    (hr : r ∈ idle) (other : sameName r.insert.table capture = false)
    (h : fireOne depth idle t change db r = .ok after) : after.find? capture = db.find? capture := by
  obtain ⟨target, row, grown, htarget, added, -, hfire⟩ := fireOne_ok h
  have named : sameName grown.name r.insert.table = true := by
    rw [added.shape.name]
    exact find?_name htarget
  have hsource : sameName grown.name source = false := by
    rw [sameName_congr named]
    exact confined.spare r hr
  rw [below (confined.erase r) hsource hfire, find?_setTable, sameName_congr named, other]
  rfl

theorem find?_fire (depth : Nat) {idle : List RowTrigger} (confined : Confined capture source idle)
    {change : RowChange} (elsewhere : sameName t.name source = false)
    (h : fire depth idle db t change = .ok after) : after.find? capture = db.find? capture := by
  induction depth generalizing idle db t change after with
  | zero =>
    cases h
    rfl
  | succ depth ih =>
    rw [fire_succ] at h
    refine foldlM_keeps (P := fun now => now.find? capture = db.find? capture)
      (fun now r next hr same hnext => ?_) rfl h
    obtain ⟨hmem, watches⟩ := List.mem_filter.mp hr
    have watched : sameName r.table t.name = true := (Bool.and_eq_true_iff.mp watches).2
    have other : sameName r.insert.table capture = false := by
      rw [Bool.eq_false_iff]
      intro writes
      have := confined.own r hmem writes
      rw [sameName_congr watched, elsewhere] at this
      cases this
    exact (find?_fireOne confined (fun hc ht hf => ih hc ht hf) hmem other hnext).trans same

/-- The triggers that write to a table. -/
def writers (capture : String) (triggers : List RowTrigger) : List RowTrigger :=
  triggers.filter fun r => sameName r.insert.table capture

theorem writers_append (capture : String) (rs ss : List RowTrigger) :
    writers capture (rs ++ ss) = writers capture rs ++ writers capture ss :=
  List.filter_append ..

/-- Some triggers run one after the other for one change: each that writes to the capture table adds its
row there. -/
theorem added_of_foldlM {depth : Nat} {idle rs : List RowTrigger} {change : RowChange} {c : Table}
    (confined : Confined capture source idle) (apart : sameName capture source = false)
    (sub : ∀ r ∈ rs, r ∈ idle) (hc : db.find? capture = some c)
    (h : rs.foldlM (fireOne depth idle t change) db = .ok after) :
    ∃ rows grown, after.find? capture = some grown ∧ Added c rows grown ∧
      List.Forall₂ (fun r row => c.Stores (r.cells t change) row) (writers capture rs) rows := by
  induction rs generalizing db c with
  | nil =>
    cases h
    exact ⟨[], c, hc, .nil c, .nil⟩
  | cons r rest ih =>
    obtain ⟨next, hnext, h⟩ := ok_of_bind h
    have hr := sub r List.mem_cons_self
    have sub := fun s hs => sub s (List.mem_cons_of_mem r hs)
    by_cases writes : sameName r.insert.table capture = true
    · obtain ⟨target, row, grown, htarget, added, stores, hfire⟩ := fireOne_ok hnext
      obtain rfl : target = c := by
        rw [find?_congr writes, hc] at htarget
        exact (Option.some.inj htarget).symm
      have named : sameName grown.name capture = true := by
        rw [added.shape.name]
        exact find?_name hc
      have hgrown : next.find? capture = some grown := by
        rw [find?_fire depth (confined.erase r) (by rw [sameName_congr named, apart]) hfire,
          find?_setTable, if_pos named, hc]
        rfl
      obtain ⟨rows, last, hlast, more, stored⟩ := ih sub hgrown h
      refine ⟨row :: rows, last, hlast, added.append more, ?_⟩
      have first : writers capture (r :: rest) = r :: writers capture rest := by simp [writers, writes]
      rw [first]
      exact .cons stores (stored.imp fun _ _ hs => hs.of_shape added.shape)
    · have same := find?_fireOne confined (fun hc ht hf => find?_fire depth hc ht hf) hr
        (Bool.eq_false_iff.mpr writes) hnext
      have first : writers capture (r :: rest) = writers capture rest := by simp [writers, writes]
      rw [first]
      exact ih sub (same.trans hc) h

/-- Where just one trigger writes to the capture table for each kind of change in the source table, each
change adds one row, that of its trigger. -/
theorem added_of_fireAll {changes : List RowChange} {c : Table} {own : EventKind → RowTrigger}
    (confined : Confined capture source db.triggers) (apart : sameName capture source = false)
    (one : ∀ change : RowChange,
      writers capture (db.triggers.filter (·.watches t.name change.kind)) = [own change.kind])
    (hc : db.find? capture = some c) (h : db.fireAll t changes = .ok after) :
    ∃ rows grown, after.find? capture = some grown ∧ Added c rows grown ∧
      List.Forall₂ (fun change row => c.Stores ((own change.kind).cells t change) row) changes rows := by
  unfold fireAll at h
  induction changes generalizing db c with
  | nil =>
    cases h
    exact ⟨[], c, hc, .nil c, .nil⟩
  | cons change rest ih =>
    obtain ⟨next, hnext, h⟩ := ok_of_bind h
    have hnext : fire db.triggers.length db.triggers db t change = .ok next := hnext
    have kept := keeps_fire _ _ change hnext
    obtain ⟨depth, hdepth⟩ : ∃ depth, db.triggers.length = depth + 1 := by
      refine Nat.exists_eq_succ_of_ne_zero fun hzero => ?_
      have := one change
      rw [List.length_eq_zero_iff.mp hzero] at this
      cases this
    rw [hdepth, fire_succ] at hnext
    obtain ⟨rows, grown, hgrown, added, stored⟩ := added_of_foldlM confined apart
      (fun r hr => (List.mem_filter.mp hr).1) hc hnext
    rw [one change] at stored
    obtain ⟨row, rfl, hrow⟩ : ∃ row, rows = [row] ∧
        c.Stores ((own change.kind).cells t change) row := by
      cases stored with
      | cons hrow hnil =>
        cases hnil
        exact ⟨_, rfl, hrow⟩
    rw [← kept.triggers] at confined one
    obtain ⟨more, last, hlast, added', stored'⟩ := ih confined one hgrown h
    refine ⟨row :: more, last, hlast, added.append added', .cons hrow ?_⟩
    exact stored'.imp fun _ _ hs => hs.of_shape added.shape

def Write.table : Write → String
  | .insert name _ | .update name .. | .delete name _ => name

/-- The changes that a write makes to the rows of its table, with that table. -/
def changes (db : Database) (w : Write) : List (Table × RowChange) :=
  match db.find? w.table with
  | none => []
  | some t =>
    match t.change w with
    | .ok (changes, t) => changes.map fun change => (t, change)
    | .error _ => []

/-- A write changes rows of its table, and then the triggers run. -/
theorem apply_ok {w : Write} (h : db.apply w = .ok after) :
    ∃ t changed cs, db.find? w.table = some t ∧ t.change w = .ok (cs, changed) ∧
      (db.setTable changed).fireAll changed cs = .ok after := by
  cases w with
  | insert name cells =>
    simp only [apply, insert] at h
    cases hi : (do
      let t ← db.table name
      db.readyFor name .insert
      let (row, t) ← t.insert cells
      return (row, ← (db.setTable t).fireAll t [.inserted row]) : Except Failure (Row × Database)) with
    | error f =>
      rw [hi] at h
      cases h
    | ok result =>
      rw [hi] at h
      cases h
      obtain ⟨t, ht, hi⟩ := ok_of_bind hi
      obtain ⟨_, -, hi⟩ := ok_of_bind hi
      obtain ⟨⟨row, changed⟩, hinsert, hi⟩ := ok_of_bind hi
      obtain ⟨last, hlast, hi⟩ := ok_of_bind hi
      cases hi
      exact ⟨t, changed, [.inserted row], table_ok ht, by simp [change, hinsert, Except.map], hlast⟩
  | update name condition cells =>
    obtain ⟨t, ht, h⟩ := ok_of_bind h
    obtain ⟨_, -, h⟩ := ok_of_bind h
    obtain ⟨⟨cs, changed⟩, hchange, h⟩ := ok_of_bind h
    exact ⟨t, changed, cs, table_ok ht, hchange, h⟩
  | delete name condition =>
    obtain ⟨t, ht, h⟩ := ok_of_bind h
    obtain ⟨_, -, h⟩ := ok_of_bind h
    obtain ⟨⟨cs, changed⟩, hchange, h⟩ := ok_of_bind h
    exact ⟨t, changed, cs, table_ok ht, hchange, h⟩

theorem keeps_apply {w : Write} (h : db.apply w = .ok after) : Keeps db after := by
  obtain ⟨t, changed, cs, ht, hchange, hfire⟩ := apply_ok h
  exact (keeps_setTable ht (change_ok hchange)).trans (keeps_fireAll cs hfire)

end IndexSync.Store.Database
