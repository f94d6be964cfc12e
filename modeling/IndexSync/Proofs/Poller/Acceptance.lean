import IndexSync.Proofs.Capture.Declared
import IndexSync.Proofs.Poller.Delivery

/-!
# What one poller has accepted

As long as a poller is not replaced, the batches that its consumer has accepted hold the recognised rows
of each table up to the cursor, in the order of their keys and each once. Rows that could not be deleted
stay where they are, but the cursor has passed them.
-/
namespace IndexSync

instance (r : CaptureRow) : Decidable r.Recognised :=
  decidable_of_iff ((EventKind.ofCode r.code).toOption.any (· ≠ .unknown) = true) (by
    unfold CaptureRow.Recognised
    cases EventKind.ofCode r.code <;> simp [Except.toOption])

theorem CaptureModel.Reads.recognised_iff {m : CaptureModel} {r : CaptureRow} {e : CaptureEvent}
    (h : m.Reads r e) : r.Recognised ↔ e.kind ≠ .unknown :=
  ⟨h.kind_ne, fun known => ⟨e.kind, h.fields.2.1, known⟩⟩

namespace CaptureTables

/-- The rows of a table that were ever written, those that have been deleted among them. -/
def history (t : CaptureTables) (table : String) : List CaptureRow :=
  t.written.filter (·.table = table)

/-- The rows that were written to a table with keys up to a cursor. Without a cursor there are none. -/
def upTo (t : CaptureTables) (table : String) (cursor : Option Int) : List CaptureRow :=
  (t.history table).filter fun r => cursor.any (r.key ≤ ·)

/-- The rows that were written to a table with keys above a cursor. -/
def above (t : CaptureTables) (table : String) (cursor : Option Int) : List CaptureRow :=
  (t.history table).filter fun r => cursor.all (· < r.key)

/-- Some row of the table was written with the key of the cursor. -/
def Reaches (t : CaptureTables) (table : String) (cursor : Option Int) : Prop :=
  ∀ k ∈ cursor, ∃ w ∈ t.written, w.table = table ∧ w.key = k

/-- No row above the cursor has been deleted. -/
def Keeps (t : CaptureTables) (table : String) (cursor : Option Int) : Prop :=
  ∀ r ∈ t.written, r.table = table → (∀ k ∈ cursor, k < r.key) → r ∈ t.rows

variable {t u : CaptureTables} {table : String} {cursor : Option Int}

theorem mem_history {r : CaptureRow} : r ∈ t.history table ↔ r ∈ t.written ∧ r.table = table := by
  simp [history]

theorem history_ascending (t : CaptureTables) (table : String) :
    (t.history table).Pairwise fun a b => a.key < b.key := by
  refine (List.Pairwise.filter _ t.ordered).imp_of_mem ?_
  intro a b ha hb hab
  exact hab ((mem_history.mp ha).2.trans (mem_history.mp hb).2.symm)

/-- A cursor cuts the rows of its table in two. -/
theorem upTo_append_above (t : CaptureTables) (table : String) (cursor : Option Int) :
    t.upTo table cursor ++ t.above table cursor = t.history table := by
  have ascending := t.history_ascending table
  unfold upTo above
  cases cursor with
  | none => simp
  | some k =>
    generalize t.history table = rows at ascending
    induction rows with
    | nil => rfl
    | cons r rest ih =>
      rw [List.pairwise_cons] at ascending
      have hrest := ih ascending.2
      simp only [Option.any_some, Option.all_some] at hrest ⊢
      by_cases hr : r.key ≤ k
      · have hnot : ¬ k < r.key := by omega
        simp only [List.filter_cons, hr, hnot, decide_true, decide_false, if_true, List.cons_append]
        simpa using hrest
      · have hlt : k < r.key := by omega
        have hnone : rest.filter (fun x => decide (x.key ≤ k)) = [] := by
          rw [List.filter_eq_nil_iff]
          intro x hx
          have := ascending.1 x hx
          simp only [decide_eq_true_eq]
          omega
        have hall : rest.filter (fun x => decide (k < x.key)) = rest := by
          rw [List.filter_eq_self]
          intro x hx
          have := ascending.1 x hx
          simp only [decide_eq_true_eq]
          omega
        simp [hr, hlt, hnone, hall]

theorem Keeps.after_eq (h : t.Keeps table cursor) : t.after table cursor = t.above table cursor := by
  have habove : t.above table cursor =
      t.written.filter fun r => r.table = table && cursor.all (· < r.key) := by
    unfold above history
    rw [List.filter_filter]
    exact List.filter_congr fun r _ => Bool.and_comm ..
  have hsub : (t.after table cursor).Sublist (t.above table cursor) := by
    rw [habove]
    exact t.left.filter _
  refine hsub.eq_of_length_le ?_
  have hnodup : (t.above table cursor).Nodup :=
    ((t.history_ascending table).filter _).imp fun hlt he => by
      rw [he] at hlt
      omega
  refine (hnodup.subperm fun r hr => ?_).length_le
  obtain ⟨hmem, hkey⟩ := List.mem_filter.mp hr
  obtain ⟨hw, htable⟩ := mem_history.mp hmem
  have hlt : ∀ k ∈ cursor, k < r.key := by
    rintro k rfl
    simpa using hkey
  exact mem_after.mpr ⟨h r hw htable hlt, htable, hlt⟩

theorem Reaches.grows (h : t.Reaches table cursor) (hg : t.Grows u) : u.Reaches table cursor := by
  intro k hk
  obtain ⟨w, hw, hrest⟩ := h k hk
  exact ⟨w, hg.mem_written hw, hrest⟩

/-- A row that is written later has a key above all cursors that rows have reached. -/
theorem Reaches.upTo_grows (h : t.Reaches table cursor) (hg : t.Grows u) :
    u.upTo table cursor = t.upTo table cursor := by
  obtain ⟨new, hw, -⟩ := hg
  have ordered := u.ordered
  rw [hw, List.pairwise_append] at ordered
  unfold upTo history
  have hnone : (new.filter (·.table = table)).filter (fun r => cursor.any (r.key ≤ ·)) = [] := by
    rw [List.filter_eq_nil_iff]
    intro r hr
    obtain ⟨hnew, htable⟩ := List.mem_filter.mp hr
    cases cursor with
    | none => simp
    | some k =>
      obtain ⟨w, hwritten, hwt, rfl⟩ := h k rfl
      have := ordered.2.2 w hwritten r hnew (hwt.trans (by simpa using htable : r.table = table).symm)
      simp only [Option.any_some, decide_eq_true_eq]
      omega
  rw [hw, List.filter_append, List.filter_append, hnone, List.append_nil]

theorem Keeps.grows (h : t.Keeps table cursor) (hg : t.Grows u) : u.Keeps table cursor := by
  obtain ⟨new, hw, hr⟩ := hg
  intro r hwritten htable hkey
  rw [hw, List.mem_append] at hwritten
  rw [hr, List.mem_append]
  exact hwritten.imp_left fun hold => h r hold htable hkey

end CaptureTables

namespace Poller

/-- A model of the poller reads the row as the event. -/
def Reads (p : Poller) (r : CaptureRow) (e : CaptureEvent) : Prop :=
  ∃ m ∈ p.models, m.captureTable = r.table ∧ m.Reads r e

/-- No two models of the poller have the table. -/
def WatchesOnce (p : Poller) (table : String) : Prop :=
  (p.models.map (·.captureTable)).count table ≤ 1

instance (p : Poller) (table : String) : Decidable (p.WatchesOnce table) :=
  inferInstanceAs (Decidable (_ ≤ 1))

/-- The tables of declarations that are accepted are watched once each. -/
theorem watchesOnce_of_declared {catalog : Catalog} {ds : List Declaration} {p : Poller}
    (h : Declaration.buildAll catalog ds = .ok p.models) (table : String) : p.WatchesOnce table :=
  List.nodup_iff_count_le_one.mp (Declaration.distinct_buildFrom h).1 table

theorem WatchesOnce.only {p : Poller} {table : String} (once : p.WatchesOnce table) {i j : Nat}
    {m n : CaptureModel} (hm : p.models[i]? = some m) (hn : p.models[j]? = some n)
    (hmt : m.captureTable = table) (hnt : n.captureTable = table) : j = i := by
  -- Two places in the list would make the name of the table appear twice.
  have twice : ∀ a b : Nat, ∀ x y, p.models[a]? = some x → p.models[b]? = some y →
      x.captureTable = table → y.captureTable = table → ¬ a < b := by
    intro a b x y hx hy hxt hyt hlt
    obtain ⟨ha, hxa⟩ := List.getElem?_eq_some_iff.mp hx
    obtain ⟨hb, hyb⟩ := List.getElem?_eq_some_iff.mp hy
    have hdup : (p.models.map (·.captureTable)).Duplicate table := by
      rw [List.duplicate_iff_exists_distinct_get]
      refine ⟨⟨a, by simpa using ha⟩, ⟨b, by simpa using hb⟩, hlt, ?_, ?_⟩
      · simp [hxa, hxt]
      · simp [hyb, hyt]
    have := List.duplicate_iff_two_le_count.mp hdup
    unfold WatchesOnce at once
    omega
  have := twice i j m n hm hn hmt hnt
  have := twice j i n m hn hm hnt hmt
  omega

variable {p : Poller} {cursors : Cursors} {t : CaptureTables} {handed : List (Nat × CaptureEvent)}
  {table : String}

/-- Of a table the rows after the cursor fall into those whose events were handed out, and those after
the moved cursor. -/
theorem Shares.split_table (shares : Shares p.models cursors t handed) (once : p.WatchesOnce table) :
    ∃ rows, List.Forall₂ p.Reads rows ((handed.map (·.2)).filter (·.captureTable = table)) ∧
      t.after table (cursors.get? table) = rows ++ t.after table
        ((moveCursors cursors (collected handed).consumed).get? table) := by
  by_cases watched : ∃ (i : Nat) (m : CaptureModel), p.models[i]? = some m ∧ m.captureTable = table
  · obtain ⟨i, m, hm, rfl⟩ := watched
    have only : ∀ j n, p.models[j]? = some n → n.captureTable = m.captureTable → j = i :=
      fun j n hn hnt => once.only hm hn rfl hnt
    obtain ⟨rows, hread, hsplit⟩ := shares.split hm only
    refine ⟨rows, ?_, hsplit⟩
    rw [filter_eq_share (·.captureTable) (·.captureTable) (fun m r e h => h.fields.2.2.2.2)
      shares hm only]
    have htable : ∀ r ∈ rows, r.table = m.captureTable := fun r hr =>
      (CaptureTables.mem_after.mp (hsplit ▸ List.mem_append_left _ hr)).2.1
    refine ((List.forall₂_and_left rows _).mpr ⟨htable, hread⟩).imp ?_
    rintro r e ⟨hrt, hre⟩
    exact ⟨m, List.mem_of_getElem? hm, hrt.symm, hre⟩
  · have hnone : (handed.map (·.2)).filter (·.captureTable = table) = [] := by
      rw [List.filter_eq_nil_iff]
      intro e he
      obtain ⟨x, hx, rfl⟩ := List.mem_map.mp he
      obtain ⟨m, r, hm, -, -, hread⟩ := shares.tag hx
      simp only [decide_eq_true_eq]
      intro htable
      exact watched ⟨x.1, m, hm, hread.fields.2.2.2.2.symm.trans htable⟩
    refine ⟨[], by rw [hnone]; exact .nil, ?_⟩
    rw [moved_get?, keysOf, hnone]
    rfl

theorem raised_ge {old : Option Int} {o : Int} (h : old = some o) (keys : List Int) :
    ∃ k, raised old keys = some k ∧ o ≤ k := by
  subst h
  unfold raised
  cases keys.max? with
  | none => exact ⟨o, rfl, Int.le_refl _⟩
  | some highest => exact ⟨_, rfl, Int.le_max_right ..⟩

/-- Cursors never go back. -/
theorem moveCursors_ge {cursors : Cursors} {k : Int} (h : cursors.get? table = some k)
    (consumed : Entries String (List Int)) :
    ∃ k', (moveCursors cursors consumed).get? table = some k' ∧ k ≤ k' := by
  induction consumed generalizing cursors k with
  | nil => exact ⟨k, h, Int.le_refl _⟩
  | cons entry rest ih =>
    obtain ⟨other, keys⟩ := entry
    have hmoved : ∃ k', (moveCursor cursors other keys).get? table = some k' ∧ k ≤ k' := by
      by_cases hother : other = table
      · subst hother
        rw [moveCursor_get?_self]
        exact raised_ge h keys
      · rw [moveCursor_get?_of_ne hother]
        exact ⟨k, h, Int.le_refl _⟩
    obtain ⟨k', hk', hle⟩ := hmoved
    obtain ⟨k'', hk'', hle'⟩ := ih hk'
    exact ⟨k'', hk'', Int.le_trans hle hle'⟩

end Poller

namespace Scene

variable {p : Poller} {cursors : Cursors} {table : String} {s s' : Scene}

/-- The events of a table in the batches that were accepted, one batch after the other. -/
def acceptedOf (s : Scene) (table : String) : List CaptureEvent :=
  s.accepted.flatten.filter (·.captureTable = table)

/-- The recognised rows of a table up to its cursor. -/
def consumedOf (s : Scene) (table : String) (cursors : Cursors) : List CaptureRow :=
  (s.tables.upTo table (cursors.get? table)).filter (·.Recognised)

/-- What has been accepted of a table are the recognised rows up to its cursor, and above the cursor no
row is gone. -/
structure Exact (p : Poller) (table : String) (cursors : Cursors) (s : Scene) : Prop where
  reached : s.tables.Reaches table (cursors.get? table)
  kept : s.tables.Keeps table (cursors.get? table)
  accepted : List.Forall₂ p.Reads (s.consumedOf table cursors) (s.acceptedOf table)

theorem Exact.later (h : Exact p table cursors s) (hl : Later s s') : Exact p table cursors s' := by
  refine ⟨h.reached.grows hl.grows, h.kept.grows hl.grows, ?_⟩
  unfold consumedOf acceptedOf
  rw [h.reached.upTo_grows hl.grows, hl.accepted]
  exact h.accepted

/-- A batch is accepted, and the cursors move behind it. -/
theorem Exact.accept {handed : List (Nat × CaptureEvent)} (h : Exact p table cursors s)
    (once : p.WatchesOnce table) (shares : Poller.Shares p.models cursors s.tables handed)
    {accepted : List (List CaptureEvent)}
    (haccepted : accepted.flatten = s.accepted.flatten ++ (Poller.collected handed).events) :
    Exact p table (Poller.moveCursors cursors (Poller.collected handed).consumed)
      { s with accepted := accepted } := by
  obtain ⟨rows, hread, hsplit⟩ := shares.split_table once
  generalize hmoved :
    (Poller.moveCursors cursors (Poller.collected handed).consumed).get? table = moved at hsplit
  have hge : ∀ k ∈ cursors.get? table, ∃ k', moved = some k' ∧ k ≤ k' := by
    intro k hk
    rw [← hmoved]
    exact Poller.moveCursors_ge hk _
  have hkept : s.tables.Keeps table moved := by
    intro r hw htable hkey
    refine h.kept r hw htable fun k hk => ?_
    obtain ⟨k', hk', hle⟩ := hge k hk
    have := hkey k' hk'
    omega
  have hupTo : s.tables.upTo table moved = s.tables.upTo table (cursors.get? table) ++ rows := by
    have hcut := s.tables.upTo_append_above table (cursors.get? table)
    rw [← h.kept.after_eq, hsplit, ← List.append_assoc, hkept.after_eq] at hcut
    exact List.append_cancel_right ((s.tables.upTo_append_above table moved).trans hcut.symm)
  have hevents : (Poller.collected handed).events.filter (·.captureTable = table) =
      ((handed.map (·.2)).filter (·.captureTable = table)).filter (·.kind ≠ .unknown) := by
    rw [Poller.collected_events, List.filter_filter, List.filter_filter]
    exact List.filter_congr fun e _ => Bool.and_comm ..
  refine ⟨?_, ?_, ?_⟩
  · have hreached : ∀ other k,
        (Poller.moveCursors cursors (Poller.collected handed).consumed).get? other = some k →
          other = table → ∃ w ∈ s.tables.written, w.table = table ∧ w.key = k := by
      refine Poller.moveCursors_induction ?_ ?_
      · rintro other k hk rfl
        exact h.reached k hk
      · rintro other keys hmem k hk rfl
        obtain ⟨x, hx, htable, hkey⟩ := Poller.mem_consumed hmem hk
        obtain ⟨m, r, -, hr, hrt, hre⟩ := shares.tag hx
        obtain ⟨-, -, -, hek, het⟩ := hre.fields
        exact ⟨r, s.tables.left.subset hr, hrt.trans (het.symm.trans htable), hek.symm.trans hkey⟩
    exact fun k hk => hreached table k hk rfl
  · rw [hmoved]
    exact hkept
  · have hnew : List.Forall₂ p.Reads (rows.filter (·.Recognised))
        (((handed.map (·.2)).filter (·.captureTable = table)).filter (·.kind ≠ .unknown)) := by
      refine List.rel_filter ?_ hread
      rintro r e ⟨m, -, -, hre⟩
      simpa using hre.recognised_iff
    unfold consumedOf acceptedOf
    rw [hmoved, hupTo, List.filter_append, haccepted, List.filter_append, hevents]
    exact List.rel_append h.accepted hnew

/-- Rows up to the cursors can be deleted. -/
theorem Exact.delete {consumed : Entries String (List Int)} (h : Exact p table cursors s)
    (passed : ∀ keys, (table, keys) ∈ consumed → ∀ k ∈ keys,
      ∃ c, cursors.get? table = some c ∧ k ≤ c) :
    Exact p table cursors { s with tables := s.tables.delete (p.deletions consumed) } := by
  refine ⟨h.reached, ?_, h.accepted⟩
  intro r hw htable hkey
  refine List.mem_filter.mpr ⟨h.kept r hw htable hkey, ?_⟩
  rw [Bool.not_eq_true', Bool.eq_false_iff]
  intro hdeleted
  obtain ⟨keys, hmem, hk⟩ := Poller.consumed_of_deletes hdeleted
  obtain ⟨c, hc, hle⟩ := passed keys (htable ▸ hmem) r.key hk
  have := hkey c hc
  omega

/-- What a dispatch comes to: the batch is refused and nothing else happens, or it is accepted, the
cursors move, and the consumed rows are deleted or stay. -/
theorem dispatch_cases (p : Poller) (c : Poller.Collected) (cursors : Cursors) (s : Scene) :
    let after := (p.dispatch access consume c (cursors, s)).2
    (∃ t, Later s t ∧ after = (cursors, t)) ∨
      ∃ t accepted u, Later s t ∧ accepted.flatten = t.accepted.flatten ++ c.events ∧
        Later { t with accepted := accepted } u ∧
        (after = (Poller.moveCursors cursors c.consumed,
            { u with tables := u.tables.delete (p.deletions c.consumed) }) ∨
          after = (Poller.moveCursors cursors c.consumed, u)) := by
  have marked (t : Scene) : ∃ u, Later t u ∧
      ((Poller.markConsumed access p c.consumed (cursors, t)).2 =
          (Poller.moveCursors cursors c.consumed,
            { u with tables := u.tables.delete (p.deletions c.consumed) }) ∨
        (Poller.markConsumed access p c.consumed (cursors, t)).2 =
          (Poller.moveCursors cursors c.consumed, u)) :=
    Poller.markConsumed_cases Later.refl Later.trans turn_later p c.consumed cursors t
  unfold Poller.dispatch
  simp only
  split
  · rename_i hempty
    rw [Poller.settle_state]
    obtain ⟨u, hu, hmark⟩ := marked s
    refine .inr ⟨s, s.accepted, u, .refl s, ?_, hu, hmark⟩
    rw [List.isEmpty_iff.mp hempty, List.append_nil]
  · obtain ⟨t, ht, hconsume⟩ := consume_spec c.events s
    rcases hconsume with hconsume | ⟨f, hconsume⟩
    · rw [hconsume]
      simp only
      rw [Poller.settle_state]
      obtain ⟨u, hu, hmark⟩ := marked { t with accepted := t.accepted ++ [c.events] }
      exact .inr ⟨t, _, u, ht, by simp, hu, hmark⟩
    · rw [hconsume]
      exact .inl ⟨t, ht, rfl⟩

/-- A dispatch of what a tick has collected keeps the accepted events exact. -/
theorem Exact.dispatch {handed : List (Nat × CaptureEvent)} (h : Exact p table cursors s)
    (once : p.WatchesOnce table) (shares : Poller.Shares p.models cursors s.tables handed) :
    let after := (p.dispatch access consume (Poller.collected handed) (cursors, s)).2
    Exact p table after.1 after.2 := by
  intro after
  rcases dispatch_cases p (Poller.collected handed) cursors s with
    ⟨t, ht, heq⟩ | ⟨t, accepted, u, ht, haccepted, hu, hmark⟩
  · rw [show after = (cursors, t) from heq]
    exact h.later ht
  · have hmoved := ((h.later ht).accept once (shares.grows ht.grows) haccepted).later hu
    rcases hmark with heq | heq
    · rw [show after = _ from heq]
      exact hmoved.delete fun keys hmem k hk => Poller.consumed_le_moved cursors hmem hk
    · rw [show after = _ from heq]
      exact hmoved

end Scene

namespace Floor

/-- One poller, without others before it, whose tick has collected the first rows after the cursors. -/
structure Alone (p : Poller) (table : String) (f : Floor) : Prop where
  poller : f.poller = p
  orphans : f.orphans = []
  exact : f.scene.Exact p table f.cursors
  tick : ∀ c ∈ f.tick, ∃ handed, c = Poller.collected handed ∧
    Poller.Shares p.models f.cursors f.scene.tables handed

variable {p : Poller} {table : String} {f : Floor}

theorem alone_start (p : Poller) (table : String) : (start p).Alone p table where
  poller := rfl
  orphans := rfl
  exact := by
    refine ⟨fun k hk => ?_, fun r hr => absurd hr List.not_mem_nil, List.Forall₂.nil⟩
    cases hk
  tick c hc := by cases hc

theorem alone_step (once : p.WatchesOnce table) (h : f.Alone p table) {move : Move}
    (stays : ∀ q, move ≠ .restart q) : (f.step move).Alone p table := by
  obtain rfl := h.poller
  cases move with
  | append rows =>
    have hlater : Scene.Later f.scene
        { f.scene with tables := f.scene.tables.appendAll rows } :=
      ⟨CaptureTables.appendAll_grows .., rfl⟩
    refine ⟨rfl, h.orphans, h.exact.later hlater, fun c hc => ?_⟩
    obtain ⟨handed, hcollected, shares⟩ := h.tick c hc
    exact ⟨handed, hcollected, shares.grows hlater.grows⟩
  | ask => exact ⟨rfl, h.orphans, h.exact, h.tick⟩
  | begin turns =>
    simp only [step]
    split
    · exact ⟨rfl, h.orphans, h.exact, h.tick⟩
    · generalize hcollect : f.poller.collect Scene.access
        (f.cursors, { f.scene with turns := turns }) = answer
      obtain ⟨outcome, cursors, scene⟩ := answer
      obtain ⟨rfl, hlater, hdone⟩ := Poller.collect_spec Scene.access_lawful hcollect
      have hexact : Scene.Exact f.poller table f.cursors { f.scene with turns := turns } :=
        ⟨h.exact.reached, h.exact.kept, h.exact.accepted⟩
      refine ⟨rfl, h.orphans, hexact.later hlater, fun c hc => ?_⟩
      cases outcome with
      | error e => cases hc
      | ok found =>
        cases hc
        exact hdone c rfl
  | finish turns =>
    simp only [step]
    cases htick : f.tick with
    | none => exact h
    | some c =>
      obtain ⟨handed, rfl, shares⟩ := h.tick c htick
      have hexact : Scene.Exact f.poller table f.cursors { f.scene with turns := turns } :=
        ⟨h.exact.reached, h.exact.kept, h.exact.accepted⟩
      refine ⟨rfl, h.orphans, hexact.dispatch once shares, ?_⟩
      intro c hc
      cases hc
  | restart q => exact absurd rfl (stays q)
  | finishOrphan i turns =>
    simp only [step, h.orphans, List.getElem?_nil]
    exact ⟨rfl, h.orphans, h.exact, h.tick⟩

theorem alone_run (once : p.WatchesOnce table) (h : f.Alone p table) {moves : List Move}
    (stays : ∀ q, .restart q ∉ moves) : (f.run moves).Alone p table := by
  induction moves generalizing f with
  | nil => exact h
  | cons move rest ih =>
    have hstep := alone_step once h fun q hq => stays q (hq ▸ List.mem_cons_self)
    exact ih hstep fun q hq => stays q (List.mem_cons_of_mem _ hq)

theorem cursor_le_step {k : Int} (h : f.cursors.get? table = some k) {move : Move}
    (stays : ∀ q, move ≠ .restart q) :
    ∃ k', (f.step move).cursors.get? table = some k' ∧ k ≤ k' := by
  have same : ∃ k', f.cursors.get? table = some k' ∧ k ≤ k' := ⟨k, h, Int.le_refl _⟩
  cases move with
  | append rows => exact same
  | ask => exact same
  | begin turns =>
    simp only [step]
    split
    · exact same
    · generalize hcollect : f.poller.collect Scene.access
        (f.cursors, { f.scene with turns := turns }) = answer
      obtain ⟨outcome, cursors, scene⟩ := answer
      obtain ⟨rfl, -, -⟩ := Poller.collect_spec Scene.access_lawful hcollect
      exact same
  | finish turns =>
    simp only [step]
    cases htick : f.tick with
    | none => exact same
    | some c =>
      rcases Scene.dispatch_cases f.poller c f.cursors { f.scene with turns := turns } with
        ⟨t, -, heq⟩ | ⟨t, accepted, u, -, -, -, heq | heq⟩ <;> simp only [heq]
      · exact same
      · exact Poller.moveCursors_ge h _
      · exact Poller.moveCursors_ge h _
  | restart q => exact absurd rfl (stays q)
  | finishOrphan i turns =>
    simp only [step]
    split <;> exact same

/-- No cursor goes back. -/
theorem cursor_le_run {k : Int} (h : f.cursors.get? table = some k) {moves : List Move}
    (stays : ∀ q, .restart q ∉ moves) :
    ∃ k', (f.run moves).cursors.get? table = some k' ∧ k ≤ k' := by
  induction moves generalizing f k with
  | nil => exact ⟨k, h, Int.le_refl _⟩
  | cons move rest ih =>
    obtain ⟨k₁, h₁, hle₁⟩ := cursor_le_step h fun q hq => stays q (hq ▸ List.mem_cons_self)
    obtain ⟨k₂, h₂, hle₂⟩ := ih h₁ fun q hq => stays q (List.mem_cons_of_mem _ hq)
    exact ⟨k₂, h₂, Int.le_trans hle₁ hle₂⟩

theorem acceptedOf_ascending {cursors : Cursors} {s : Scene} (h : s.Exact p table cursors) :
    ((s.acceptedOf table).map (·.key)).Pairwise (· < ·) := by
  have hkeys : (s.acceptedOf table).map (·.key) = (s.consumedOf table cursors).map (·.key) := by
    have haccepted := h.accepted
    generalize s.acceptedOf table = events at haccepted
    generalize s.consumedOf table cursors = rows at haccepted
    induction haccepted with
    | nil => rfl
    | cons hread _ ih =>
      obtain ⟨m, -, -, hread⟩ := hread
      rw [List.map_cons, List.map_cons, ih, hread.fields.2.2.2.1]
  rw [hkeys, List.pairwise_map]
  exact ((s.tables.history_ascending table).filter _).filter _

/-- Exactly once and in order. As long as a poller is not replaced, the events of a table in the batches
that its consumer has accepted are those of the recognised rows up to the cursor of the table, in the
order of their keys and each once, and the cursor never goes back. What is in the tables when the poller
starts is what has been written before its first tick. The models of the poller have been built from
declarations; of models put together in another way the table needs to be watched by no more than one. -/
theorem accepted_exactly (p : Poller) (moves : List Move) (stays : ∀ q, .restart q ∉ moves)
    (table : String)
    (built : (∃ catalog ds, Declaration.buildAll catalog ds = .ok p.models) ∨ p.WatchesOnce table) :
    let f := (start p).run moves
    List.Forall₂ p.Reads (f.scene.consumedOf table f.cursors) (f.scene.acceptedOf table) ∧
      ((f.scene.acceptedOf table).map (·.key)).Pairwise (· < ·) ∧
      ∀ more, (∀ q, .restart q ∉ more) → ∀ k, f.cursors.get? table = some k →
        ∃ k', (f.run more).cursors.get? table = some k' ∧ k ≤ k' := by
  intro f
  have once : p.WatchesOnce table := by
    rcases built with ⟨catalog, ds, built⟩ | once
    · exact Poller.watchesOnce_of_declared built table
    · exact once
  have alone : f.Alone p table := alone_run once (alone_start p table) stays
  refine ⟨alone.exact.accepted, acceptedOf_ascending alone.exact, ?_⟩
  intro more staysMore k hk
  exact cursor_le_run hk staysMore

/-- The connection is back, and the second order is accepted and deleted. -/
def connectionBack : List Move :=
  lostConnection ++ [.ask, .begin [], .finish []]

/-- The first row is still in the table when the second is collected, and is not accepted again. -/
theorem accepted_twoOrders :
    List.Forall₂ shop.Reads [firstOrder, secondOrder]
        (((start shop).run connectionBack).scene.acceptedOf "orders") ∧
      ((start shop).run connectionBack).scene.tables.rows = [firstOrder] := by
  have stays : ∀ q, .restart q ∉ connectionBack := by
    intro q
    simp [connectionBack, lostConnection]
  have hrows : ((start shop).run connectionBack).scene.consumedOf "orders"
      ((start shop).run connectionBack).cursors = [firstOrder, secondOrder] := by cbv
  have hcount : (shop.models.map (·.captureTable)).count "orders" = 1 := by cbv
  have h := (accepted_exactly shop connectionBack stays "orders" (.inr hcount.le)).1
  rw [hrows] at h
  exact ⟨h, by cbv⟩

end Floor
end IndexSync
