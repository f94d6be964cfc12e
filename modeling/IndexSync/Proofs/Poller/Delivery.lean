import Mathlib
import IndexSync.Proofs.Poller.Floor
import IndexSync.Proofs.Poller.Moved

/-!
# No row is lost

A row that is behind the cursor of its table, or gone from it, has been in a batch that the consumer
accepted. Ticks that have not come to their end yet hold in their batch what they will delete.
-/
namespace IndexSync

/-- The batch holds an event that a model of the row's table reads in the row. -/
def InBatch (batch : List CaptureEvent) (r : CaptureRow) : Prop :=
  ∃ e ∈ batch, ∃ m : CaptureModel, m.captureTable = r.table ∧ m.Reads r e

def Scene.Delivered (s : Scene) (r : CaptureRow) : Prop := ∃ batch ∈ s.accepted, InBatch batch r

namespace Scene

variable {s s' : Scene}

/-- The state between two scenes: rows may have been deleted, and batches accepted. -/
structure Extends (s s' : Scene) : Prop where
  written : s.tables.written <+: s'.tables.written
  accepted : ∀ batch ∈ s.accepted, batch ∈ s'.accepted

theorem Later.extends (h : Later s s') : Extends s s' := by
  obtain ⟨new, hw, -⟩ := h.grows
  exact ⟨⟨new, hw.symm⟩, fun batch hb => h.accepted ▸ hb⟩

theorem Extends.refl (s : Scene) : Extends s s := ⟨List.prefix_rfl, fun _ h => h⟩

theorem Extends.trans {t : Scene} (h : Extends s t) (h' : Extends t s') : Extends s s' :=
  ⟨h.written.trans h'.written, fun batch hb => h'.accepted batch (h.accepted batch hb)⟩

theorem Extends.of_turns {turns : List Turn} (h : Extends { s with turns := turns } s') :
    Extends s s' :=
  ⟨h.written, h.accepted⟩

theorem Delivered.extends {r : CaptureRow} (h : s.Delivered r) (he : Extends s s') :
    s'.Delivered r := by
  obtain ⟨batch, hb, hr⟩ := h
  exact ⟨batch, he.accepted batch hb, hr⟩

/-- A row that a scene has more than an earlier one has a greater key than the earlier rows of its
table. -/
theorem Extends.key_lt (h : Extends s s') {w r : CaptureRow} (hw : w ∈ s.tables.written)
    (hr : r ∈ s'.tables.written) (hnew : r ∉ s.tables.written) (htable : w.table = r.table) :
    w.key < r.key := by
  obtain ⟨new, hnew'⟩ := h.written
  have ordered := s'.tables.ordered
  rw [← hnew', List.pairwise_append] at ordered
  rw [← hnew', List.mem_append] at hr
  exact ordered.2.2 w hw r (hr.resolve_left hnew) htable

/-- Rows that are gone have been delivered. -/
def Gone (s : Scene) : Prop :=
  ∀ r ∈ s.tables.written, r ∉ s.tables.rows → r.Recognised → s.Delivered r

/-- A key of a table up to which all recognised rows satisfy `P`. -/
def UpTo (s : Scene) (table : String) (k : Int) (P : CaptureRow → Prop) : Prop :=
  (∃ w ∈ s.tables.written, w.table = table ∧ w.key = k) ∧
    ∀ r ∈ s.tables.written, r.table = table → r.key ≤ k → r.Recognised → P r

theorem UpTo.extends {table : String} {k : Int} {P : CaptureRow → Prop} (h : s.UpTo table k P)
    (he : Extends s s') : s'.UpTo table k P := by
  obtain ⟨⟨w, hw, htable, hk⟩, hall⟩ := h
  refine ⟨⟨w, he.written.subset hw, htable, hk⟩, fun r hr ht hle recognised => ?_⟩
  by_cases hold : r ∈ s.tables.written
  · exact hall r hold ht hle recognised
  · have := he.key_lt hw hr hold (htable.trans ht.symm)
    omega

theorem UpTo.imp {table : String} {k : Int} {P Q : CaptureRow → Prop} (h : s.UpTo table k P)
    (hpq : ∀ r, P r → Q r) : s.UpTo table k Q :=
  ⟨h.1, fun r hr ht hle recognised => hpq r (h.2 r hr ht hle recognised)⟩

/-- All rows up to the cursors have been delivered. -/
def Passed (s : Scene) (cursors : Cursors) : Prop :=
  ∀ table k, cursors.get? table = some k → s.UpTo table k s.Delivered

theorem Passed.extends {cursors : Cursors} (h : s.Passed cursors) (he : Extends s s') :
    s'.Passed cursors := fun table k hk =>
  ((h table k hk).extends he).imp fun _ hd => hd.extends he

theorem Gone.later (h : s.Gone) (hl : Later s s') : s'.Gone := by
  intro r hr hgone recognised
  obtain ⟨new, hw, hrows⟩ := hl.grows
  rw [hrows, List.mem_append, not_or] at hgone
  rw [hw, List.mem_append] at hr
  exact (h r (hr.resolve_right hgone.2) hgone.1 recognised).extends hl.extends

/-- All rows up to the keys that a tick has consumed are delivered, or will be with its batch. -/
def Covers (s : Scene) (c : Poller.Collected) : Prop :=
  ∀ table keys, (table, keys) ∈ c.consumed → ∀ k ∈ keys,
    s.UpTo table k fun r => s.Delivered r ∨ InBatch c.events r

theorem Covers.extends {c : Poller.Collected} (h : s.Covers c) (he : Extends s s') : s'.Covers c :=
  fun table keys hc k hk => ((h table keys hc k hk).extends he).imp fun _ hr =>
    hr.imp_left fun hd => hd.extends he

/-- The first rows of a table reach back to its cursor without a gap. -/
theorem covers_collected {p : Poller} {cursors : Cursors} {handed : List (Nat × CaptureEvent)}
    (gone : s.Gone) (passed : s.Passed cursors)
    (shares : Poller.Shares p.models cursors s.tables handed) :
    s.Covers (Poller.collected handed) := by
  intro table keys hc k hk
  obtain ⟨⟨i, e⟩, hx, htable, hkey⟩ := Poller.mem_consumed hc hk
  simp only at htable hkey
  obtain ⟨m, hm⟩ : ∃ m, p.models[i]? = some m :=
    ⟨_, List.getElem?_eq_getElem (shares.1 (i, e) hx)⟩
  obtain ⟨rows, ⟨rest, hrows⟩, hread⟩ := shares.2 i m hm
  have he : e ∈ Poller.share i handed :=
    List.mem_map.mpr ⟨(i, e), List.mem_filter.mpr ⟨hx, by simp⟩, rfl⟩
  obtain ⟨w, hw, hwe⟩ := exists_left_of_forall₂ hread he
  have hmt : m.captureTable = table := hwe.fields.2.2.2.2.symm.trans htable
  have hwk : w.key = k := hwe.fields.2.2.2.1.symm.trans hkey
  have hwt := CaptureTables.mem_after.mp (hrows ▸ List.mem_append_left rest hw)
  refine ⟨⟨w, s.tables.left.subset hwt.1, hwt.2.1.trans hmt, hwk⟩, ?_⟩
  intro r hr htr hle recognised
  by_cases hgone : r ∈ s.tables.rows
  · by_cases hafter : ∀ c ∈ cursors.get? m.captureTable, c < r.key
    · right
      have hrow : r ∈ rows := by
        have hmem : r ∈ rows ++ rest :=
          hrows ▸ CaptureTables.mem_after.mpr ⟨hgone, htr.trans hmt.symm, hafter⟩
        refine (List.mem_append.mp hmem).resolve_right fun hrest => ?_
        have ascending := s.tables.after_ascending m.captureTable (cursors.get? m.captureTable)
        rw [← hrows, List.pairwise_append] at ascending
        have := ascending.2.2 w hw r hrest
        omega
      obtain ⟨e', he', hre⟩ := exists_right_of_forall₂ hread hrow
      refine ⟨e', ?_, m, hmt.trans htr.symm, hre⟩
      rw [Poller.collected_events, List.mem_filter]
      obtain ⟨x, hx', rfl⟩ := List.mem_map.mp he'
      exact ⟨List.mem_map_of_mem (List.mem_filter.mp hx').1, by simpa using hre.kind_ne recognised⟩
    · left
      simp only [not_forall] at hafter
      obtain ⟨c, hc, hrc⟩ := hafter
      exact (passed m.captureTable c hc).2 r hr (htr.trans hmt.symm) (Int.not_lt.mp hrc) recognised
  · exact .inl (gone r hr hgone recognised)

/-- All rows up to the keys that were consumed have been delivered. -/
def Cleared (s : Scene) (consumed : Entries String (List Int)) : Prop :=
  ∀ table keys, (table, keys) ∈ consumed → ∀ k ∈ keys, s.UpTo table k s.Delivered

theorem Cleared.extends {consumed : Entries String (List Int)} (h : s.Cleared consumed)
    (he : Extends s s') : s'.Cleared consumed := fun table keys hc k hk =>
  ((h table keys hc k hk).extends he).imp fun _ hd => hd.extends he

theorem Passed.moveCursors {consumed : Entries String (List Int)} {cursors : Cursors}
    (h : s.Passed cursors) (cleared : s.Cleared consumed) :
    s.Passed (Poller.moveCursors cursors consumed) :=
  Poller.moveCursors_induction h cleared

/-- The deletion of consumed rows takes only rows that have been delivered. -/
theorem Gone.delete {p : Poller} {consumed : Entries String (List Int)} (h : s.Gone)
    (cleared : s.Cleared consumed) :
    Gone { s with tables := s.tables.delete (p.deletions consumed) } := by
  intro r hr hgone recognised
  by_cases hrow : r ∈ s.tables.rows
  · have hdel : CaptureTables.deletes (p.deletions consumed) r = true := by
      by_contra hkept
      exact hgone (List.mem_filter.mpr ⟨hrow, by simpa using hkept⟩)
    obtain ⟨keys, hmem, hkey⟩ := Poller.consumed_of_deletes hdel
    exact (cleared r.table keys hmem r.key hkey).2 r hr rfl (Int.le_refl _) recognised
  · exact h r hr hrow recognised

theorem markConsumed_spec {p : Poller} {cursors : Cursors} {consumed : Entries String (List Int)}
    (gone : s.Gone) (passed : s.Passed cursors) (cleared : s.Cleared consumed) :
    let after := (Poller.markConsumed access p consumed (cursors, s)).2
    Extends s after.2 ∧ after.2.Gone ∧ after.2.Passed after.1 := by
  have moved := passed.moveCursors cleared
  obtain ⟨t, hlater, hmarked⟩ :=
    Poller.markConsumed_cases Later.refl Later.trans turn_later p consumed cursors s
  have he := hlater.extends
  rcases hmarked with hmarked | hmarked
  · have he' : Extends t { t with tables := t.tables.delete (p.deletions consumed) } :=
      ⟨List.prefix_rfl, fun _ h => h⟩
    rw [access, hmarked]
    exact ⟨he.trans he', (gone.later hlater).delete (cleared.extends he),
      (moved.extends he).extends he'⟩
  · rw [access, hmarked]
    exact ⟨he, gone.later hlater, moved.extends he⟩

/-- However a tick ends, what is gone or passed has been delivered. -/
theorem dispatch_spec {p : Poller} {cursors : Cursors} {c : Poller.Collected}
    (gone : s.Gone) (passed : s.Passed cursors) (covers : s.Covers c) :
    let after := (p.dispatch access consume c (cursors, s)).2
    Extends s after.2 ∧ after.2.Gone ∧ after.2.Passed after.1 := by
  unfold Poller.dispatch
  simp only
  split
  · rename_i hempty
    rw [Poller.settle_state]
    refine markConsumed_spec gone passed fun table keys hc k hk => ?_
    refine (covers table keys hc k hk).imp fun r hr => hr.resolve_right ?_
    rintro ⟨e, he, -⟩
    rw [List.isEmpty_iff.mp hempty] at he
    cases he
  · obtain ⟨t, hlater, hconsume⟩ := consume_spec c.events s
    have he := hlater.extends
    rcases hconsume with hconsume | ⟨f, hconsume⟩
    · rw [hconsume]
      simp only
      rw [Poller.settle_state]
      have he' : Extends t { t with accepted := t.accepted ++ [c.events] } :=
        ⟨List.prefix_rfl, fun _ h => List.mem_append_left _ h⟩
      obtain ⟨hend, hgone, hpassed⟩ := markConsumed_spec
        (s := { t with accepted := t.accepted ++ [c.events] }) (p := p)
        (fun r hr hg recognised => (gone.later hlater r hr hg recognised).extends he')
        ((passed.extends he).extends he')
        (fun table keys hc k hk => (((covers table keys hc k hk).extends he).extends he').imp
          fun r hr => hr.elim (fun hd => (hd.extends he).extends he')
            fun hb => ⟨c.events, by simp, hb⟩)
      exact ⟨(he.trans he').trans hend, hgone, hpassed⟩
    · rw [hconsume]
      exact ⟨he, gone.later hlater, passed.extends he⟩

end Scene

namespace Floor

/-- What is gone or passed has been delivered, and the ticks on their way cover what they have
consumed. -/
structure Sound (f : Floor) : Prop where
  gone : f.scene.Gone
  passed : f.scene.Passed f.cursors
  tick : ∀ c ∈ f.tick, f.scene.Covers c
  orphans : ∀ x ∈ f.orphans, f.scene.Covers x.2

theorem sound_start (p : Poller) : (start p).Sound where
  gone r hr := absurd hr List.not_mem_nil
  passed table k hk := by cases hk
  tick c hc := by cases hc
  orphans x hx := absurd hx List.not_mem_nil

theorem sound_step {f : Floor} (h : f.Sound) (move : Move) : (f.step move).Sound := by
  cases move with
  | append rows =>
    have hlater : Scene.Later f.scene
        { f.scene with tables := f.scene.tables.appendAll rows } :=
      ⟨CaptureTables.appendAll_grows .., rfl⟩
    exact ⟨h.gone.later hlater, h.passed.extends hlater.extends,
      fun c hc => (h.tick c hc).extends hlater.extends,
      fun x hx => (h.orphans x hx).extends hlater.extends⟩
  | ask => exact ⟨h.gone, h.passed, h.tick, h.orphans⟩
  | begin turns =>
    simp only [step]
    split
    · exact h
    · generalize hcollect : f.poller.collect Scene.access
        (f.cursors, { f.scene with turns := turns }) = answer
      obtain ⟨outcome, cursors, scene⟩ := answer
      obtain ⟨rfl, hlater, hdone⟩ := Poller.collect_spec Scene.access_lawful hcollect
      have he := hlater.extends.of_turns
      have hgone := Scene.Gone.later (s := { f.scene with turns := turns }) h.gone hlater
      have hpassed := h.passed.extends he
      refine ⟨hgone, hpassed, fun c hc => ?_, fun x hx => (h.orphans x hx).extends he⟩
      cases outcome with
      | error e => cases hc
      | ok found =>
        cases hc
        obtain ⟨handed, rfl, shares⟩ := hdone c rfl
        exact Scene.covers_collected hgone hpassed shares
  | finish turns =>
    simp only [step]
    cases htick : f.tick with
    | none => exact h
    | some c =>
      obtain ⟨he, hgone, hpassed⟩ := Scene.dispatch_spec (s := { f.scene with turns := turns })
        (p := f.poller) h.gone h.passed (h.tick c htick)
      refine ⟨hgone, hpassed, ?_, fun x hx => (h.orphans x hx).extends he.of_turns⟩
      intro c hc
      cases hc
  | restart p =>
    refine ⟨h.gone, ?_, ?_, ?_⟩
    · intro table k hk
      cases hk
    · intro c hc
      cases hc
    · intro x hx
      rcases List.mem_append.mp hx with hx | hx
      · exact h.orphans x hx
      · obtain ⟨c, hc, rfl⟩ := List.mem_map.mp hx
        exact h.tick c (Option.mem_toList.mp hc)
  | finishOrphan i turns =>
    simp only [step]
    cases horphan : f.orphans[i]? with
    | none => exact h
    | some x =>
      obtain ⟨p, c⟩ := x
      have hnone : Scene.Passed { f.scene with turns := turns } [] := by
        intro table k hk
        cases hk
      obtain ⟨he, hgone, -⟩ := Scene.dispatch_spec (s := { f.scene with turns := turns })
        (p := p) h.gone hnone (h.orphans (p, c) (List.mem_of_getElem? horphan))
      have he := he.of_turns
      exact ⟨hgone, h.passed.extends he, fun c hc => (h.tick c hc).extends he,
        fun x hx => (h.orphans x (List.mem_of_mem_eraseIdx hx)).extends he⟩

theorem sound_run {f : Floor} (h : f.Sound) (moves : List Move) : (f.run moves).Sound := by
  induction moves generalizing f with
  | nil => exact h
  | cons move rest ih => exact ih (sound_step h move)

/-- At-least-once delivery: a recognised row that is gone from its table, or whose key does not exceed
the last consumed key of its table, has been in a batch that the consumer accepted. -/
theorem delivered (p : Poller) (moves : List Move) (r : CaptureRow)
    (written : r ∈ ((start p).run moves).scene.tables.written) (recognised : r.Recognised)
    (past : r ∉ ((start p).run moves).scene.tables.rows ∨
      ∃ k, ((start p).run moves).cursors.get? r.table = some k ∧ r.key ≤ k) :
    ((start p).run moves).scene.Delivered r := by
  have sound := sound_run (sound_start p) moves
  rcases past with hgone | ⟨k, hk, hle⟩
  · exact sound.gone r written hgone recognised
  · exact (sound.passed r.table k hk).2 r written rfl hle recognised

def orders : CaptureModel :=
  ⟨.root "shop" "Order", "orders", "order", [⟨"id", "id", "BIGINT"⟩], "eventcase", "updateid"⟩

def shop : Poller := ⟨[orders], 5, 50, 1, 1, "shop"⟩

def firstOrder : CaptureRow := ⟨"orders", 1, [.int 7], .int (-3)⟩

def secondOrder : CaptureRow := ⟨"orders", 2, [.int 7], .int (-1)⟩

/-- The first order is accepted, but its row cannot be deleted, and another row has come. -/
def lostConnection : List Move :=
  [.append [firstOrder], .ask, .begin [],
    .finish [⟨[], none⟩, ⟨[secondOrder], some (.outage ⟨.connection, none⟩)⟩]]

/-- The row that is still there is behind the cursor, and was accepted. -/
theorem delivered_firstOrder :
    firstOrder ∈ ((start shop).run lostConnection).scene.tables.rows ∧
      ((start shop).run lostConnection).scene.Delivered firstOrder := by
  have hrows : ((start shop).run lostConnection).scene.tables.rows = [firstOrder, secondOrder] := by
    cbv
  have hmem : firstOrder ∈ ((start shop).run lostConnection).scene.tables.rows := by
    rw [hrows]
    exact List.mem_cons_self
  refine ⟨hmem, delivered shop lostConnection firstOrder
    (((start shop).run lostConnection).scene.tables.left.subset hmem) ⟨.insert, rfl, by decide⟩
    (.inr ⟨1, ?_, Int.le_refl _⟩)⟩
  cbv

end Floor
end IndexSync
