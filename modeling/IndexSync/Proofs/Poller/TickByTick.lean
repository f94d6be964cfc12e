import IndexSync.Proofs.Poller.WholeTick

/-!
# Tick by tick

What one tick leaves waiting is what the next one finds, as long as nothing fails. So the number of ticks that
it takes until nothing waits is known beforehand.
-/
namespace IndexSync.Poller

open Store

variable {p : Poller} {x : Cursors × Site} {consume : List CaptureEvent → Action Site Unit}

theorem delete_captures {doomed : List (CaptureModel × List Int)} {s : Site} {after : Database}
    (passes : (Site.pass .beginDelete s).1 = .ok ())
    (deletes : Site.deleteAll doomed s.database = .ok ((), after)) :
    Site.captures.delete doomed s = (.ok (), { (Site.pass .beginDelete s).2 with database := after }) := by
  have passed : Site.pass .beginDelete s = (.ok (), (Site.pass .beginDelete s).2) := Prod.ext passes rfl
  have database : (Site.pass .beginDelete s).2.database = s.database := rfl
  simp only [Site.captures, Action.bind_apply]
  rw [passed]
  simp only [Site.change, database, deletes]

/-- A tick in which nothing fails, in full. -/
theorem tick_calm (pageSize : 1 ≤ p.pageSize) (readable : p.Readable x) (calm : p.Calm consume x)
    {after : Database} (deletes : Site.deleteAll (p.deletions (p.gathered x).consumed)
      (p.answered consume x).2.database = .ok ((), after)) :
    p.tick Site.captures consume x = (.ok (p.batch x).length, moveCursors x.1 (p.gathered x).consumed,
      { p.left consume x with database := after }) := by
  rw [tick_eq pageSize readable calm.connects, calm.accepts]
  simp only [settle, Action.bind_apply, markConsumed, gathered_events, left]
  by_cases none : p.due x = []
  · -- no transaction is begun
    have consumed : (p.gathered x).consumed = [] := by
      rw [gathered, none]
      rfl
    rw [consumed] at deletes ⊢
    obtain rfl : (p.answered consume x).2.database = after := congrArg Prod.snd (Except.ok.inj deletes)
    rw [none]
    rfl
  · have consumed : (p.gathered x).consumed.isEmpty = false := by
      obtain ⟨e, he⟩ := List.exists_mem_of_ne_nil _ none
      have key : e.key ∈ p.keysDue x e.captureTable :=
        List.mem_map_of_mem (List.mem_filter.mpr ⟨he, by simp⟩)
      have found := p.gathered_get? x e.captureTable
      rw [if_neg (List.ne_nil_of_mem key)] at found
      cases h : (p.gathered x).consumed with
      | nil => simp [h] at found
      | cons _ _ => rfl
    have some_due : (p.due x).isEmpty = false := by simpa using none
    simp only [consumed, some_due, Bool.false_eq_true, if_false,
      delete_captures (calm.deletes none) deletes, Action.pure_apply]

theorem max?_eq_getLast? {keys : List Int} (ascending : keys.Pairwise (· < ·)) :
    keys.max? = keys.getLast? := by
  have h : raised none keys = keys.getLast?.or none := raised_of_ascending ascending (by simp)
  rw [Option.or_none, raised] at h
  rw [← h]
  cases keys.max? with
  | none => rfl
  | some highest => simp

/-- The last of the keys of a table that are due is the largest. -/
theorem keyAfter_due (apart : Apart p.models) (readable : p.Readable x) (table : String) :
    Stream.keyAfter (x.1.get? table) ((p.due x).filter (·.captureTable = table)) =
      (p.keysDue x table).max?.or (x.1.get? table) := by
  have asc := List.pairwise_map.mpr (keysDue_goOn apart readable table).1
  rw [Stream.keyAfter, keysDue, max?_eq_getLast? asc, List.getLast?_map]

theorem delivers_tick (pageSize : 1 ≤ p.pageSize) (apart : Apart p.models) (readable : p.Readable x)
    (calm : p.Calm consume x) : p.Delivers consume x (p.tick Site.captures consume x) := by
  obtain ⟨after, deletes, triggers, deleted, spared⟩ := deleteAll_due apart readable calm
  rw [tick_calm pageSize readable calm deletes]
  refine ⟨rfl, fun table => ?_, rfl, deleted, spared, triggers⟩
  rw [moved_due apart readable, keyAfter_due apart readable]

/-- The size of the pages does not show. -/
theorem tick_pageSize {n : Nat} (pageSize : 1 ≤ p.pageSize) (other : 1 ≤ n) (readable : p.Readable x)
    (connects : (Site.pass .connect x.2).1 = .ok ()) :
    { p with pageSize := n }.tick Site.captures consume x = p.tick Site.captures consume x := by
  have same : Readable { p with pageSize := n } x := readable
  rw [tick_eq pageSize readable connects, tick_eq (p := { p with pageSize := n }) other same connects]
  rfl

/-- The cursors and the site after the next tick. -/
def ticked (p : Poller) (consume : List CaptureEvent → Action Site Unit) (x : Cursors × Site) :
    Cursors × Site :=
  (p.tick Site.captures consume x).2

section
variable (pageSize : 1 ≤ p.pageSize) (apart : Apart p.models) (readable : p.Readable x)
  (calm : p.Calm consume x)
include pageSize apart readable calm

theorem cursor_ticked (table : String) : (p.ticked consume x).1.get? table =
    Stream.keyAfter (x.1.get? table) ((p.due x).filter (·.captureTable = table)) := by
  rw [ticked, (delivers_tick pageSize apart readable calm).cursor, keyAfter_due apart readable]

theorem find?_ticked {m : CaptureModel} (hm : m ∈ p.models) {t : Table}
    (ht : x.2.database.find? m.captureTable = some t) :
    (p.ticked consume x).2.database.find? m.captureTable =
      some (t.without m.keyColumn (p.keysDue x m.captureTable)) := by
  rw [ticked, (delivers_tick pageSize apart readable calm).deleted m hm, ht, Option.map_some]

/-- A tick leaves the tables readable. -/
theorem readable_ticked : p.Readable (p.ticked consume x) := by
  intro m hm
  obtain ⟨t, ht, read⟩ := readable m hm
  refine ⟨_, find?_ticked pageSize apart readable calm hm ht, read.without ?_ ..⟩
  rw [cursor_ticked pageSize apart readable calm]
  exact (keysDue_goOn apart readable m.captureTable).atLeast

/-- What a tick leaves of the events that wait in a table are those that were not due. -/
theorem waits_ticked {m : CaptureModel} (hm : m ∈ p.models) :
    beyond (·.key) ((p.ticked consume x).1.get? m.captureTable)
        ((p.ticked consume x).2.database.events m) =
      ((p.waiting x).drop p.batchSize).filter (·.captureTable = m.captureTable) := by
  obtain ⟨t, ht, read⟩ := readable m hm
  have first := due_first apart readable hm
  have rows := Database.events_of_find? ht
  have left : (p.ticked consume x).2.database.events m =
      (x.2.database.events m).filter fun e => !(p.keysDue x m.captureTable).contains e.key := by
    rw [rows, ← read.events_without,
      Database.events_of_find? (find?_ticked pageSize apart readable calm hm ht)]
  rw [left, cursor_ticked pageSize apart readable calm, keysDue]
  exact beyond_first (rows ▸ read.ascending) first

/-- A tick takes what is due off what waits. -/
theorem waiting_ticked : p.waiting (p.ticked consume x) = (p.waiting x).drop p.batchSize := by
  have lengths : (p.models.map (·.captureTable)).length =
      (MergeCursor.pending x.1 (p.models.map fun m => (m.captureTable, x.2.database.events m))).length := by
    simp [pending_eq]
  have split := drop_plainMerge (ascending_pending readable) (labelled_pending p x) apart.nodup p.batchSize
    lengths
  -- both are merges of the same tables: what is left of each is what was not due of it
  rw [waiting, pending_eq, waiting, split, List.map_map]
  congr 1
  exact List.map_congr_left fun m hm => waits_ticked pageSize apart readable calm hm

end

/-- Ticks in which nothing fails take what waits off batch by batch. -/
theorem waiting_ticks (pageSize : 1 ≤ p.pageSize) (apart : Apart p.models) (readable : p.Readable x) {k : Nat}
    (calm : ∀ i < k, p.Calm consume ((p.ticked consume)^[i] x)) :
    p.Readable ((p.ticked consume)^[k] x) ∧
      p.waiting ((p.ticked consume)^[k] x) = (p.waiting x).drop (k * p.batchSize) := by
  induction k with
  | zero => exact ⟨readable, by simp⟩
  | succ k ih =>
    obtain ⟨read, left⟩ := ih fun i hi => calm i (by omega)
    rw [Function.iterate_succ_apply']
    refine ⟨readable_ticked pageSize apart read (calm k (by omega)), ?_⟩
    rw [waiting_ticked pageSize apart read (calm k (by omega)), left, List.drop_drop, Nat.succ_mul]

/-- A consumer that accepts every batch, and leaves the database and the outages to come as they are. -/
def Accepting (consume : List CaptureEvent → Action Site Unit) : Prop :=
  ∀ batch s, (consume batch s).1 = .ok () ∧ (consume batch s).2.database = s.database ∧
    (consume batch s).2.outages = s.outages

/-- Where no outage is planned, no trigger watches the capture tables and the consumer accepts every batch,
nothing fails in the next tick, and no outage is planned after it. -/
theorem calm_of_accepting (accepting : Accepting consume) (outages : x.2.outages = [])
    (silent : ∀ m ∈ p.models, ∀ r ∈ x.2.database.triggers, r.watches m.captureTable .delete = false) :
    p.Calm consume x ∧ (p.answered consume x).2.database = x.2.database ∧
      (p.left consume x).outages = [] := by
  have passed (point : OutagePoint) {s : Site} (h : s.outages = []) : Site.pass point s = (.ok (), s) := by
    simp only [Site.pass, Outages.pass, h, Entries.get?_nil]
    rw [← h]
  have found : (p.found x).outages = [] := by
    simp only [found, passed .connect outages, outages]
  obtain ⟨accepts, database, planned⟩ : (p.answered consume x).1 = .ok () ∧
      (p.answered consume x).2.database = x.2.database ∧ (p.answered consume x).2.outages = [] := by
    unfold answered
    split
    · exact ⟨rfl, rfl, found⟩
    · obtain ⟨accepts, database, planned⟩ := accepting (p.batch x) (p.found x)
      exact ⟨accepts, database, planned.trans found⟩
  have begun := passed .beginDelete planned
  refine ⟨⟨?_, accepts, fun m _ => by rw [database], database.symm ▸ silent, fun _ => by rw [begun]⟩,
    database, ?_⟩
  · rw [passed .connect outages]
  · unfold left
    split
    · exact planned
    · rw [begun]
      exact planned

/-- Nothing fails in any tick then. -/
theorem calm_ticks (pageSize : 1 ≤ p.pageSize) (apart : Apart p.models) (readable : p.Readable x)
    (accepting : Accepting consume) (outages : x.2.outages = [])
    (silent : ∀ m ∈ p.models, ∀ r ∈ x.2.database.triggers, r.watches m.captureTable .delete = false)
    (k : Nat) : p.Calm consume ((p.ticked consume)^[k] x) := by
  suffices h : ∀ k, p.Readable ((p.ticked consume)^[k] x) ∧ ((p.ticked consume)^[k] x).2.outages = [] ∧
      ((p.ticked consume)^[k] x).2.database.triggers = x.2.database.triggers by
    obtain ⟨-, none, same⟩ := h k
    exact (calm_of_accepting accepting none (same ▸ silent)).1
  intro k
  induction k with
  | zero => exact ⟨readable, outages, rfl⟩
  | succ k ih =>
    obtain ⟨read, none, same⟩ := ih
    obtain ⟨calm, database, planned⟩ := calm_of_accepting accepting none (same ▸ silent)
    have delivers := delivers_tick pageSize apart read calm
    rw [Function.iterate_succ_apply']
    refine ⟨readable_ticked pageSize apart read calm, ?_, ?_⟩
    · rw [ticked, delivers.handed]
      exact planned
    · rw [ticked, delivers.triggers, database, same]

/-- One tick from end to end. A tick in which nothing fails delivers what is due, whatever the size of the
pages. Some ticks in which nothing fails leave nothing waiting exactly if there are enough of them. -/
theorem tick_end_to_end (batchSize : 1 ≤ p.batchSize) (pageSize : 1 ≤ p.pageSize) (apart : Apart p.models)
    (legible : p.Legible x) (calm : p.Calm consume x) :
    p.Delivers consume x (p.tick Site.captures consume x) ∧
      (∀ n, 1 ≤ n →
        { p with pageSize := n }.tick Site.captures consume x = p.tick Site.captures consume x) ∧
      ∀ k, (∀ i < k, p.Calm consume ((p.ticked consume)^[i] x)) →
        p.waiting ((p.ticked consume)^[k] x) = (p.waiting x).drop (k * p.batchSize) ∧
          (p.waiting ((p.ticked consume)^[k] x) = [] ↔ (p.waiting x).length ⌈/⌉ p.batchSize ≤ k) := by
  have readable := legible.readable
  refine ⟨delivers_tick pageSize apart readable calm,
    fun n hn => tick_pageSize pageSize hn readable calm.connects, fun k allCalm => ?_⟩
  have left := (waiting_ticks pageSize apart readable allCalm).2
  refine ⟨left, ?_⟩
  rw [left, List.drop_eq_nil_iff, ceilDiv_le_iff_le_mul batchSize, Nat.mul_comm]

/-- Two capture tables: orders with a code that no trigger writes, and items. -/
def stock : Database where
  tables := [
    ⟨"orders", [⟨"updateid", .integer, true⟩, ⟨"id", .integer, false⟩, ⟨"eventcase", .integer, false⟩],
      ["updateid"], .neverAgain, 3, [[.int 1, .int 7, .int (-3)], [.int 3, .int 7, .text "x"]]⟩,
    ⟨"items", [⟨"updateid", .integer, true⟩, ⟨"id", .integer, false⟩, ⟨"eventcase", .integer, false⟩],
      ["updateid"], .neverAgain, 2, [[.int 2, .int 8, .int (-1)]]⟩]
  triggers := []

/-- A poller that takes two rows at a time, in pages of one. -/
def clerk : Poller where
  models := [
    ⟨.root "shop" "Order", "orders", "order", [⟨"id", "id", "BIGINT"⟩], "eventcase", "updateid"⟩,
    ⟨.root "shop" "Item", "items", "item", [⟨"id", "id", "BIGINT"⟩], "eventcase", "updateid"⟩]
  batchSize := 2
  pageSize := 1
  delay := 1
  initialDelay := 1
  name := "clerk"

theorem legible_stock : clerk.Legible ([], .ofDatabase stock) := by
  refine List.forall_mem_cons.mpr ⟨⟨_, rfl, ?_⟩, List.forall_mem_cons.mpr ⟨⟨_, rfl, ?_⟩, nofun⟩⟩
  · exact {
      columns := rfl
      keyed := List.forall_mem_cons.mpr ⟨⟨1, rfl⟩, List.forall_mem_cons.mpr ⟨⟨3, rfl⟩, nofun⟩⟩
      ordered := List.pairwise_pair.mpr fun j k hj hk => by
        cases hj
        cases hk
        decide
      coded := List.forall_mem_cons.mpr ⟨trivial, List.forall_mem_cons.mpr ⟨trivial, nofun⟩⟩
      identified := nofun }
  · exact {
      columns := rfl
      keyed := List.forall_mem_cons.mpr ⟨⟨2, rfl⟩, nofun⟩
      ordered := List.pairwise_singleton ..
      coded := List.forall_mem_cons.mpr ⟨trivial, nofun⟩
      identified := nofun }

theorem waiting_stock : clerk.waiting ([], .ofDatabase stock) =
    [⟨.root "shop" "Order", .int 7, .insert, 1, "orders"⟩,
      ⟨.root "shop" "Item", .int 8, .delete, 2, "items"⟩,
      ⟨.root "shop" "Order", .int 7, .unknown, 3, "orders"⟩] := by
  have tables : clerk.models.map (fun m => (m.captureTable, stock.events m)) =
      [("orders", [⟨.root "shop" "Order", .int 7, .insert, 1, "orders"⟩,
          ⟨.root "shop" "Order", .int 7, .unknown, 3, "orders"⟩]),
        ("items", [⟨.root "shop" "Item", .int 8, .delete, 2, "items"⟩])] := rfl
  rw [waiting, show (Site.ofDatabase stock).database = stock from rfl, tables]
  simp [MergeCursor.pending, beyond, plainMerge, PlainMerge.taggedFrom, PlainMerge.precedes, List.mergeSort]

/-- Three rows that wait are not gone after one tick, and gone after two. -/
theorem two_ticks_empty_stock :
    (clerk.tick Site.captures (fun _ => Pure.pure ()) ([], .ofDatabase stock)).1 = .ok 2 ∧
      clerk.waiting ((clerk.ticked fun _ => Pure.pure ())^[1] ([], .ofDatabase stock)) ≠ [] ∧
      clerk.waiting ((clerk.ticked fun _ => Pure.pure ())^[2] ([], .ofDatabase stock)) = [] := by
  have pages : 1 ≤ clerk.pageSize := by decide
  have apart : Apart clerk.models := List.pairwise_pair.mpr (by decide)
  have accepting : Accepting fun _ => Pure.pure () := fun _ _ => ⟨rfl, rfl, rfl⟩
  have calm := calm_ticks pages apart legible_stock.readable accepting rfl nofun
  obtain ⟨delivers, -, ticks⟩ :=
    tick_end_to_end (show 1 ≤ clerk.batchSize by decide) pages apart legible_stock (calm 0)
  have known : (clerk.batch ([], .ofDatabase stock)).length = 2 := by
    rw [batch, due, waiting_stock]
    rfl
  have empty (k : Nat) : _ ↔ 3 ⌈/⌉ 2 ≤ k := waiting_stock ▸ (ticks k fun i _ => calm i).2
  refine ⟨known ▸ delivers.count, ?_, (empty 2).mpr (by decide)⟩
  rw [Ne, empty 1]
  decide

end IndexSync.Poller
