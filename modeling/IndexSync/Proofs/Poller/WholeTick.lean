import IndexSync.Proofs.Merge.TakenOff
import IndexSync.Proofs.Poller.Gathered
import IndexSync.Proofs.Poller.Moved
import Mathlib.Algebra.Order.Floor.Div
import Mathlib.Data.List.Pairwise

/-!
# One tick from end to end

A tick in which nothing fails hands on the first rows that wait, moves the cursors to the last of them, and
deletes just these rows. So each such tick takes the same number of rows off what waits.
-/
namespace IndexSync

open Store

/-- What is left of some rows after the first of them: no key of these is left, and the others are beyond
the last of them. -/
theorem beyond_first {rows first rest : List CaptureEvent} (asc : Ascending (·.key) rows)
    {after : Option Int} (h : beyond (·.key) after rows = first ++ rest) :
    beyond (·.key) (Stream.keyAfter after first)
      (rows.filter fun e => !(first.map (·.key)).contains e.key) = rest := by
  cases hlast : first.getLast? with
  | none =>
    obtain rfl := List.getLast?_eq_none_iff.mp hlast
    simpa [Stream.keyAfter] using h
  | some last =>
    have front : (beyond (·.key) after rows).take first.length = first := by rw [h, List.take_left]
    have left : beyond (·.key) (some last.key) rows = rest := by
      rw [asc.beyond_getLast_take (front.symm ▸ hlast), h, List.drop_left]
    have first_asc : Ascending (·.key) first :=
      (asc.beyond after).sublist (h ▸ List.sublist_append_left first rest)
    rw [Stream.keyAfter, hlast, Option.map_some, Option.some_or, ← left]
    simp only [beyond, List.filter_filter]
    refine List.filter_congr fun e _ => ?_
    -- the keys that are gone end with the last of them, and do not bear on what is beyond it
    by_cases hlt : last.key < e.key
    · have fresh : e.key ∉ first.map (·.key) := by
        intro hmem
        obtain ⟨e', he', hkey⟩ := List.mem_map.mp hmem
        have := first_asc.key_le_getLast hlast he'
        omega
      simp [hlt, fresh]
    · simp [hlt]

namespace Poller

variable {p : Poller} {x : Cursors × Site} {consume : List CaptureEvent → Action Site Unit}

/-- The keys of one table that are due in the next tick. -/
def keysDue (p : Poller) (x : Cursors × Site) (table : String) : List Int :=
  ((p.due x).filter (·.captureTable = table)).map (·.key)

/-- What the consumer answers to the batch of a tick. An empty one is not handed on. -/
def answered (p : Poller) (consume : List CaptureEvent → Action Site Unit) (x : Cursors × Site) :
    Except Failure Unit × Site :=
  if (p.batch x).isEmpty then (.ok (), p.found x) else consume (p.batch x) (p.found x)

/-- Nothing fails in the next tick, and no row is written to the capture tables meanwhile: neither by the
consumer, nor by triggers for the rows that are deleted. -/
structure Calm (p : Poller) (consume : List CaptureEvent → Action Site Unit) (x : Cursors × Site) :
    Prop where
  connects : (Site.pass .connect x.2).1 = .ok ()
  accepts : (p.answered consume x).1 = .ok ()
  keeps : ∀ m ∈ p.models, (p.answered consume x).2.database.find? m.captureTable =
    x.2.database.find? m.captureTable
  silent : ∀ m ∈ p.models, ∀ r ∈ (p.answered consume x).2.database.triggers,
    r.watches m.captureTable .delete = false
  deletes : p.due x ≠ [] → (Site.pass .beginDelete (p.answered consume x).2).1 = .ok ()

/-- The site as a tick leaves it, but for the rows that it deletes: a transaction has been begun if there are
any. -/
def left (p : Poller) (consume : List CaptureEvent → Action Site Unit) (x : Cursors × Site) : Site :=
  if (p.due x).isEmpty then (p.answered consume x).2
  else (Site.pass .beginDelete (p.answered consume x).2).2

/-- What comes of a tick in which nothing fails. -/
structure Delivers (p : Poller) (consume : List CaptureEvent → Action Site Unit) (x : Cursors × Site)
    (outcome : Except Failure Nat × Cursors × Site) : Prop where
  count : outcome.1 = .ok (p.batch x).length
  cursor : ∀ table, outcome.2.1.get? table = (p.keysDue x table).max?.or (x.1.get? table)
  handed : outcome.2.2 = { p.left consume x with database := outcome.2.2.database }
  deleted : ∀ m ∈ p.models, outcome.2.2.database.find? m.captureTable =
    (x.2.database.find? m.captureTable).map (·.without m.keyColumn (p.keysDue x m.captureTable))
  spared : ∀ name, (∀ m ∈ p.models, sameName m.captureTable name = false) →
    outcome.2.2.database.find? name = (p.answered consume x).2.database.find? name
  triggers : outcome.2.2.database.triggers = (p.answered consume x).2.database.triggers

/-- Different capture tables: no two names are the same but for the case of letters. -/
def Apart (models : List CaptureModel) : Prop :=
  models.Pairwise fun m n => sameName m.captureTable n.captureTable = false

theorem Apart.of_ne {models : List CaptureModel} (apart : Apart models) {m n : CaptureModel}
    (hm : m ∈ models) (hn : n ∈ models) (hne : m ≠ n) : sameName m.captureTable n.captureTable = false :=
  haveI : Std.Symm fun m n : CaptureModel => sameName m.captureTable n.captureTable = false :=
    ⟨fun m n h => by rwa [sameName_comm]⟩
  List.Pairwise.forall apart hm hn hne

theorem Apart.eq_of_table {models : List CaptureModel} (apart : Apart models) {m n : CaptureModel}
    (hm : m ∈ models) (hn : n ∈ models) (h : m.captureTable = n.captureTable) : m = n := by
  by_contra hne
  have := apart.of_ne hm hn hne
  rw [h, sameName_self] at this
  cases this

theorem Apart.nodup {models : List CaptureModel} (apart : Apart models) :
    (models.map (·.captureTable)).Nodup := by
  refine List.pairwise_map.mpr (apart.imp fun h he => ?_)
  rw [he, sameName_self] at h
  cases h

theorem gathered_eq (p : Poller) (x : Cursors × Site) :
    p.gathered x = collected ((p.due x).map fun e => (0, e)) := by
  simp [gathered, collected, Function.comp_def]

theorem gathered_events (p : Poller) (x : Cursors × Site) : (p.gathered x).events = p.batch x := by
  simp [gathered_eq, collected_events, batch, Function.comp_def]

theorem keysOf_due (p : Poller) (x : Cursors × Site) (table : String) :
    keysOf table ((p.due x).map fun e => (0, e)) = p.keysDue x table := by
  simp [keysOf, keysDue, Function.comp_def]

theorem gathered_get? (p : Poller) (x : Cursors × Site) (table : String) :
    (p.gathered x).consumed.get? table =
      if p.keysDue x table = [] then none else some (p.keysDue x table) := by
  rw [gathered_eq, consumed_get?, keysOf_due]

/-- What a consumer answers to a batch. An empty one is not handed on. -/
def offer {σ : Type} (consume : List CaptureEvent → Action σ Unit) (events : List CaptureEvent) :
    Action σ Unit := fun s =>
  if events.isEmpty then (.ok (), s) else consume events s

theorem dispatch_eq {σ : Type} (access : CaptureAccess σ) (p : Poller)
    (consume : List CaptureEvent → Action σ Unit) (c : Collected) (cursors : Cursors) (s : σ) :
    dispatch access p consume c (cursors, s) =
      settle access p c (offer consume c.events s).1 (cursors, (offer consume c.events s).2) := by
  simp only [dispatch, offer]
  split <;> rfl

theorem tick_eq (pageSize : 1 ≤ p.pageSize) (readable : p.Readable x)
    (connects : (Site.pass .connect x.2).1 = .ok ()) :
    p.tick Site.captures consume x =
      settle Site.captures p (p.gathered x) (p.answered consume x).1 (x.1, (p.answered consume x).2) := by
  simp only [tick, Action.bind_apply, collect_eq pageSize readable connects, dispatch_eq, gathered_events]
  rfl

theorem mem_deletions {consumed : Entries String (List Int)} {m : CaptureModel} {keys : List Int}
    (h : (m, keys) ∈ p.deletions consumed) : m ∈ p.models ∧ (m.captureTable, keys) ∈ consumed := by
  obtain ⟨⟨table, keys'⟩, hmem, hmodel⟩ := List.mem_filterMap.mp h
  obtain ⟨m', hm', hpair⟩ := Option.map_eq_some_iff.mp hmodel
  cases hpair
  have htable : m.captureTable = table := by simpa using List.find?_some hm'
  exact ⟨List.mem_reverse.mp (List.mem_of_find?_eq_some hm'), htable ▸ hmem⟩

theorem modelOf?_eq (apart : Apart p.models) {m : CaptureModel} (hm : m ∈ p.models) :
    p.modelOf? m.captureTable = some m := by
  cases h : p.modelOf? m.captureTable with
  | none =>
    have := List.find?_eq_none.mp h m (List.mem_reverse.mpr hm)
    simp at this
  | some n =>
    have hn : n ∈ p.models := List.mem_reverse.mp (List.mem_of_find?_eq_some h)
    have htable : n.captureTable = m.captureTable := by simpa using List.find?_some h
    rw [apart.eq_of_table hn hm htable]

theorem deletions_apart (apart : Apart p.models) {consumed : Entries String (List Int)}
    (distinct : (consumed.map (·.1)).Nodup) : (p.deletions consumed).Pairwise fun a b =>
      sameName a.1.captureTable b.1.captureTable = false := by
  have differ : (p.deletions consumed).Pairwise fun a b => a.1.captureTable ≠ b.1.captureTable := by
    refine List.pairwise_filterMap.mpr ((List.pairwise_map.mp distinct).imp ?_)
    rintro ⟨s, keys⟩ ⟨t, more⟩ hne a ha b hb
    obtain ⟨m, hm, rfl⟩ := Option.map_eq_some_iff.mp ha
    obtain ⟨n, hn, rfl⟩ := Option.map_eq_some_iff.mp hb
    have hs : m.captureTable = s := by simpa using List.find?_some hm
    have ht : n.captureTable = t := by simpa using List.find?_some hn
    simpa [hs, ht] using hne
  refine differ.imp_of_mem fun {a b} ha hb hne => ?_
  exact apart.of_ne (mem_deletions ha).1 (mem_deletions hb).1 fun h => hne (h ▸ rfl)

theorem not_mem_of_get?_none {consumed : Entries String (List Int)} {table : String}
    (h : consumed.get? table = none) (keys : List Int) : (table, keys) ∉ consumed := by
  induction consumed with
  | nil => simp
  | cons e rest ih =>
    obtain ⟨other, more⟩ := e
    by_cases hne : other = table
    · simp [Entries.get?, hne] at h
    · simp only [Entries.get?, beq_iff_eq, hne, if_false] at h
      simp [Ne.symm hne, ih h]

/-- The rows whose keys are due are deleted from the capture tables, and nothing else changes. -/
theorem deleteAll_due (apart : Apart p.models) (readable : p.Readable x) (calm : p.Calm consume x) :
    ∃ after, Site.deleteAll (p.deletions (p.gathered x).consumed) (p.answered consume x).2.database =
        .ok ((), after) ∧
      after.triggers = (p.answered consume x).2.database.triggers ∧
      (∀ m ∈ p.models, after.find? m.captureTable = (x.2.database.find? m.captureTable).map
        (·.without m.keyColumn (p.keysDue x m.captureTable))) ∧
      ∀ name, (∀ m ∈ p.models, sameName m.captureTable name = false) →
        after.find? name = (p.answered consume x).2.database.find? name := by
  have found : ∀ a ∈ p.deletions (p.gathered x).consumed, ∃ t,
      (p.answered consume x).2.database.find? a.1.captureTable = some t ∧
        t.requireColumns [a.1.keyColumn] = .ok () := by
    intro a ha
    obtain ⟨t, ht, read⟩ := readable a.1 (mem_deletions ha).1
    exact ⟨t, (calm.keeps a.1 (mem_deletions ha).1).trans ht, read.keyColumn⟩
  obtain ⟨after, run, triggers, deleted, kept⟩ := Database.deleteAll_eq found
    (fun a ha => calm.silent a.1 (mem_deletions ha).1)
    (deletions_apart apart (gathered_eq p x ▸ consumed_distinct _))
  refine ⟨after, ?_, triggers, fun m hm => ?_, fun name hname => ?_⟩
  · rw [Site.deleteAll, run]
    rfl
  · have consumed := p.gathered_get? x m.captureTable
    by_cases none : p.keysDue x m.captureTable = []
    · rw [if_pos none] at consumed
      rw [kept m.captureTable, calm.keeps m hm, none]
      · cases x.2.database.find? m.captureTable <;> simp [Table.without]
      · -- nothing is deleted from a table of which nothing is due
        rintro ⟨n, keys⟩ ha
        obtain ⟨hn, hconsumed⟩ := mem_deletions ha
        refine apart.of_ne hn hm ?_
        rintro rfl
        exact not_mem_of_get?_none consumed keys hconsumed
    · rw [if_neg none] at consumed
      obtain ⟨table, same, hmem⟩ := Entries.mem_of_get? consumed
      obtain rfl : table = m.captureTable := by simpa using same
      have doomed : (m, p.keysDue x m.captureTable) ∈ p.deletions (p.gathered x).consumed :=
        List.mem_filterMap.mpr ⟨_, hmem, by simp only [modelOf?_eq apart hm, Option.map_some]⟩
      rw [deleted _ doomed, calm.keeps m hm]
  · exact kept name fun a ha => hname a.1 (mem_deletions ha).1

/-- The events of each model that wait. -/
theorem pending_eq (p : Poller) (x : Cursors × Site) :
    MergeCursor.pending x.1 (p.models.map fun m => (m.captureTable, x.2.database.events m)) =
      p.models.map fun m => beyond (·.key) (x.1.get? m.captureTable) (x.2.database.events m) := by
  simp [MergeCursor.pending, Function.comp_def]

theorem ascending_pending (readable : p.Readable x) :
    ∀ rows ∈ MergeCursor.pending x.1 (p.models.map fun m => (m.captureTable, x.2.database.events m)),
      Ascending (·.key) rows := by
  intro rows hrows
  obtain ⟨table, htable, rfl⟩ := List.mem_map.mp hrows
  exact (ascending_events readable table htable).beyond _

theorem labelled_pending (p : Poller) (x : Cursors × Site) : Labelled (p.models.map (·.captureTable))
    (MergeCursor.pending x.1 (p.models.map fun m => (m.captureTable, x.2.database.events m))) := by
  intro i rows hrows
  rw [pending_eq, List.getElem?_map, Option.map_eq_some_iff] at hrows
  obtain ⟨m, hm, rfl⟩ := hrows
  refine ⟨m.captureTable, by simp [hm], fun e he => ?_⟩
  exact Database.table_of_mem_events (List.mem_of_mem_filter he)

/-- What waits of one table are its events beyond the cursor. -/
theorem filter_waiting (apart : Apart p.models) (readable : p.Readable x) {m : CaptureModel}
    (hm : m ∈ p.models) : (p.waiting x).filter (·.captureTable = m.captureTable) =
      beyond (·.key) (x.1.get? m.captureTable) (x.2.database.events m) := by
  obtain ⟨i, hi⟩ := List.mem_iff_getElem?.mp hm
  exact filter_plainMerge (ascending_pending readable) (labelled_pending p x) apart.nodup
    (i := i) (by simp [hi]) (by simp [pending_eq, hi])

/-- Of each table some first events that wait are due, and the others are not. -/
theorem due_first (apart : Apart p.models) (readable : p.Readable x) {m : CaptureModel}
    (hm : m ∈ p.models) : beyond (·.key) (x.1.get? m.captureTable) (x.2.database.events m) =
      (p.due x).filter (·.captureTable = m.captureTable) ++
        ((p.waiting x).drop p.batchSize).filter (·.captureTable = m.captureTable) := by
  rw [← filter_waiting apart readable hm, due, ← List.filter_append, List.take_append_drop]

theorem table_of_mem_waiting {e : CaptureEvent} (h : e ∈ p.waiting x) :
    ∃ m ∈ p.models, e.captureTable = m.captureTable := by
  obtain ⟨rows, hrows, he⟩ := List.mem_flatten.mp ((plainMerge_perm _).mem_iff.mp h)
  rw [pending_eq] at hrows
  obtain ⟨m, hm, rfl⟩ := List.mem_map.mp hrows
  exact ⟨m, hm, Database.table_of_mem_events (List.mem_of_mem_filter he)⟩

/-- The keys of a table that are due ascend, all of them above its cursor. -/
theorem keysDue_goOn (apart : Apart p.models) (readable : p.Readable x) (table : String) :
    Stream.GoesOn (x.1.get? table) ((p.due x).filter (·.captureTable = table)) := by
  by_cases h : ∃ m ∈ p.models, m.captureTable = table
  · obtain ⟨m, hm, rfl⟩ := h
    have first := due_first apart readable hm
    obtain ⟨t, ht, read⟩ := readable m hm
    have asc : Ascending (·.key) (x.2.database.events m) := by
      simpa [Database.events_of_find? ht] using read.ascending
    refine ⟨(asc.beyond _).sublist (first ▸ List.sublist_append_left ..), fun e he => ?_⟩
    have hmem := first ▸ List.mem_append_left _ he
    exact (List.mem_filter.mp hmem).2
  · have none : (p.due x).filter (·.captureTable = table) = [] := by
      rw [List.filter_eq_nil_iff]
      intro e he htable
      obtain ⟨m, hm, hlabel⟩ := table_of_mem_waiting (List.mem_of_mem_take he)
      exact h ⟨m, hm, hlabel ▸ by simpa using htable⟩
    rw [none]
    exact ⟨.nil, by simp⟩

/-- The cursor of each table comes to stand at the last of its keys that are due. -/
theorem moved_due (apart : Apart p.models) (readable : p.Readable x) (table : String) :
    (moveCursors x.1 (p.gathered x).consumed).get? table =
      Stream.keyAfter (x.1.get? table) ((p.due x).filter (·.captureTable = table)) := by
  obtain ⟨asc, above⟩ := keysDue_goOn apart readable table
  rw [gathered_eq, moved_get?, keysOf_due, raised_of_ascending, keysDue, List.getLast?_map, Stream.keyAfter]
  · exact List.pairwise_map.mpr asc
  · intro k hk o ho
    obtain ⟨e, he, rfl⟩ := List.mem_map.mp hk
    have := above e he
    rw [Option.mem_def.mp ho] at this
    simpa using this

end Poller
end IndexSync
