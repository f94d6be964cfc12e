import IndexSync.Proofs.Poller.TickByTick
import IndexSync.Proofs.Poller.Undisturbed

/-!
# Codes that are refused

A row whose code no trigger writes is skipped, and taken off with the others. An infinite number is refused
where codes are read, so that no page with such a code can be had. A tick that comes upon it fails and leaves
everything in place, and so do all ticks after it.
-/
namespace IndexSync

open Store

/-- A page that goes on where a stream has come is taken in. -/
theorem Stream.receive_ok (st : Stream) {rows : List CaptureEvent} (asc : Ascending (·.key) rows)
    (above : ∀ e ∈ rows, st.lastKey.all (· < e.key)) (n : Nat) : ∃ st', st.receive n rows = .ok st' := by
  rw [receive, disorder?_eq_none asc above]
  split <;> exact ⟨_, rfl⟩

namespace MergeCursor

variable {σ : Type} {fetch : Fetch σ} {c : MergeCursor} {s : σ} {f : Failure}

/-- A stream without a page, whose next page is refused for one reason or taken in. -/
structure Asks (fetch : Fetch σ) (n : Nat) (s : σ) (f : Failure) (i : Nat) (st : Stream) : Prop where
  page : st.page = []
  more : st.exhausted = false
  answer : fetch i st.lastKey n s = (.error f, s) ∨
    ∃ rows st', fetch i st.lastKey n s = (.ok rows, s) ∧ st.receive n rows = .ok st'

/-- Where all that is refused is refused for one reason, streams of which one is refused are not filled. -/
theorem fillAll_refused {is : List Nat} (distinct : is.Nodup)
    (asks : ∀ i ∈ is, ∃ st, c.streams[i]? = some st ∧ Asks fetch c.pageSize s f i st)
    (refused : ∃ i ∈ is, ∃ st, c.streams[i]? = some st ∧
      fetch i st.lastKey c.pageSize s = (.error f, s)) :
    ∃ c', fillAll fetch is (c, s) = (.error f, c', s) := by
  induction is generalizing c with
  | nil =>
    obtain ⟨i, hi, -⟩ := refused
    cases hi
  | cons i rest ih =>
    obtain ⟨fresh, distinct⟩ := List.nodup_cons.mp distinct
    rw [List.forall_mem_cons] at asks
    obtain ⟨⟨st, hst, page, more, answer⟩, others⟩ := asks
    simp only [fillAll, Action.bind_apply]
    rcases answer with hfetch | ⟨rows, st', hfetch, received⟩
    · exact ⟨c, by simp [fill, hst, page, more, hfetch]⟩
    · have filled : fill fetch i (c, s) = (.ok (), c.setStream i st', s) := by
        simp [fill, hst, page, more, hfetch, received]
      -- the streams to come are as they were
      have kept (j : Nat) (hj : j ∈ rest) : (c.setStream i st').streams[j]? = c.streams[j]? :=
        List.getElem?_set_ne (by rintro rfl; exact fresh hj)
      rw [filled]
      refine ih distinct (fun j hj => ?_) ?_
      · rw [kept j hj]
        exact others j hj
      · obtain ⟨j, hj, sj, hsj, hfail⟩ := refused
        rcases List.mem_cons.mp hj with rfl | hj
        · cases hst.symm.trans hsj
          cases hfetch.symm.trans hfail
        · exact ⟨j, hj, sj, by rw [kept j hj, hsj], hfail⟩

end MergeCursor

namespace Poller

open MergeCursor

variable {p : Poller} {x : Cursors × Site} {consume : List CaptureEvent → Action Site Unit}

/-- An infinite code stands among the first rows after the cursor of some capture table. -/
def InfiniteAmong (p : Poller) (x : Cursors × Site) (n : Nat) : Prop :=
  ∃ m ∈ p.models, ∃ t, x.2.database.find? m.captureTable = some t ∧
    ∃ row ∈ (t.rows.filter (Database.isAfter m t (x.1.get? m.captureTable))).take n,
      (t.cell m.eventTypeColumn row).IsInfinite

/-- Tables in which only codes can be amiss are readable where no code is infinite. -/
theorem Sound.readable (sound : p.Sound x) (finite : ∀ n, ¬ p.InfiniteAmong x n) : p.Readable x := by
  intro m hm
  obtain ⟨t, ht, sound⟩ := sound m hm
  refine ⟨t, ht, { toSound := sound, coded := fun row hrow hafter => ?_ }⟩
  refine EventKind.ofCode_of_finite fun infinite => finite t.rows.length ⟨m, hm, t, ht, row, ?_, infinite⟩
  rw [List.take_of_length_le (List.length_filter_le ..)]
  exact List.mem_filter.mpr ⟨hrow, hafter⟩

/-- Every row after the cursor of its table waits, as a change of the kind that its code stands for. -/
theorem Readable.mem_waiting (readable : p.Readable x) {m : CaptureModel} (hm : m ∈ p.models) {t : Table}
    (ht : x.2.database.find? m.captureTable = some t) {row : Row}
    (hrow : row ∈ t.rows.filter (Database.isAfter m t (x.1.get? m.captureTable))) :
    ∃ e ∈ p.waiting x, Database.eventOf m t row = .ok e ∧
      EventKind.ofCode (t.cell m.eventTypeColumn row) = .ok e.kind := by
  obtain ⟨u, hu, table⟩ := readable m hm
  obtain rfl : u = t := Option.some.inj (hu.symm.trans ht)
  obtain ⟨e, he, hkind⟩ := table.eventOf_ok (.refl _) hrow
  refine ⟨e, ?_, he, hkind⟩
  rw [waiting, (plainMerge_perm _).mem_iff, pending_eq]
  refine List.mem_flatten.mpr ⟨_, List.mem_map_of_mem hm, ?_⟩
  rw [Database.events_of_find? ht, table.beyond_eq]
  exact List.mem_filterMap.mpr ⟨row, hrow, by rw [he]; rfl⟩

/-- Each stream of a new cursor asks for its first page. It is refused if an infinite code stands on it, and
for no other reason. -/
theorem asks_start (sound : p.Sound x) {i : Nat} {m : CaptureModel} (hm : p.models[i]? = some m) {s : Site}
    (same : s.database = x.2.database) :
    Asks (fetch Site.captures p) p.pageSize s (.conversion .infiniteNumber) i
      (Stream.start x.1 m.captureTable) := by
  obtain ⟨t, ht, table⟩ := sound m (List.mem_of_getElem? hm)
  have answers : fetch Site.captures p i (x.1.get? m.captureTable) p.pageSize s =
      (x.2.database.page m (x.1.get? m.captureTable) p.pageSize, s) := by
    simp only [fetch, hm, Site.captures, Site.ask, same]
  refine ⟨rfl, rfl, ?_⟩
  rcases table.page_cases ht p.pageSize with ⟨-, page⟩ | ⟨-, events, page, sub⟩
  · exact .inl (answers.trans (by rw [page]))
  · have asc : Ascending (·.key) (beyond (·.key) (x.1.get? m.captureTable) (x.2.database.events m)) :=
      (Database.events_of_find? ht ▸ table.ascending).beyond _
    obtain ⟨st', received⟩ := Stream.receive_ok (.start x.1 m.captureTable) (asc.sublist sub)
      (fun e he => (List.mem_filter.mp (sub.subset he)).2) p.pageSize
    exact .inr ⟨events, st', answers.trans (by rw [page]), received⟩

/-- A new cursor cannot be moved if an infinite code stands on the first page of some table. -/
theorem fillAll_infinite (sound : p.Sound x) (infinite : p.InfiniteAmong x p.pageSize) {s : Site}
    (same : s.database = x.2.database) {c : MergeCursor}
    (streams : c.streams = (p.models.map (·.captureTable)).map (Stream.start x.1))
    (pageSize : c.pageSize = p.pageSize) :
    ∃ c', fillAll (fetch Site.captures p) (List.range c.streams.length) (c, s) =
      (.error (.conversion .infiniteNumber), c', s) := by
  have entry (i : Nat) : c.streams[i]? = p.models[i]?.map fun m => Stream.start x.1 m.captureTable := by
    simp only [streams, List.map_map, List.getElem?_map, Function.comp_def]
  have length : c.streams.length = p.models.length := by simp [streams]
  refine fillAll_refused List.nodup_range (fun i hi => ?_) ?_
  · rw [List.mem_range, length] at hi
    have hm : p.models[i]? = some p.models[i] := List.getElem?_eq_getElem hi
    exact ⟨_, by rw [entry, hm]; rfl, pageSize ▸ asks_start sound hm same⟩
  · obtain ⟨m, hm, t, ht, row, hrow, hcode⟩ := infinite
    obtain ⟨i, hi⟩ := List.mem_iff_getElem?.mp hm
    obtain ⟨u, hu, table⟩ := sound m hm
    obtain rfl : u = t := Option.some.inj (hu.symm.trans ht)
    have page : x.2.database.page m (x.1.get? m.captureTable) p.pageSize =
        .error (.conversion .infiniteNumber) := by
      rcases table.page_cases ht p.pageSize with ⟨-, page⟩ | ⟨finite, -⟩
      · exact page
      · exact absurd hcode (finite row hrow)
    have hlt : i < c.streams.length := length ▸ (List.getElem?_eq_some_iff.mp hi).1
    refine ⟨i, List.mem_range.mpr hlt, _, by rw [entry, hi]; rfl, ?_⟩
    simp only [fetch, hi, Site.captures, Site.ask, same, pageSize, Stream.start, page]

/-- A new cursor over the capture tables. -/
def opened (p : Poller) (cursors : Cursors) : MergeCursor where
  streams := (p.models.map (·.captureTable)).map (Stream.start cursors)
  pageSize := p.pageSize
  limit := some p.batchSize
  refill := none
  current := none
  returned := 0
  started := false
  closed := false

theorem create_opened (pageSize : 1 ≤ p.pageSize) (cursors : Cursors) :
    MergeCursor.create (p.models.map (·.captureTable)) p.pageSize cursors (some (p.batchSize : Int)) =
      .ok (p.opened cursors) := by
  rw [MergeCursor.create, if_neg (by omega), if_neg (by simp)]
  simp [opened]

theorem collect_infinite (batchSize : 1 ≤ p.batchSize) (pageSize : 1 ≤ p.pageSize) (sound : p.Sound x)
    (infinite : p.InfiniteAmong x p.pageSize) (connects : (Site.pass .connect x.2).1 = .ok ()) :
    collect Site.captures p x =
      (.error (.conversion .infiniteNumber), x.1, (Site.pass .connect x.2).2) := by
  obtain ⟨cursors, s⟩ := x
  have connected : Site.captures.connect s = (.ok (), (Site.pass .connect s).2) := Prod.ext connects rfl
  obtain ⟨c', refused⟩ := fillAll_infinite sound infinite (s := (Site.pass .connect s).2) rfl
    (c := { p.opened cursors with started := true }) rfl rfl
  have prepared : prepare (fetch Site.captures p)
      ({ p.opened cursors with current := none }, (Site.pass .connect s).2) =
        (.error (.conversion .infiniteNumber), c', (Site.pass .connect s).2) := refused
  have room : ((p.opened cursors).closed || (p.opened cursors).limit.any (· ≤ (p.opened cursors).returned)) =
      false := by
    simpa [opened] using Nat.one_le_iff_ne_zero.mp batchSize
  have gathers : gather Site.captures p p.batchSize .empty (p.opened cursors, (Site.pass .connect s).2) =
      (.error (.conversion .infiniteNumber), c', (Site.pass .connect s).2) := by
    obtain ⟨n, hn⟩ : ∃ n, p.batchSize = n + 1 := ⟨p.batchSize - 1, by omega⟩
    rw [hn, gather_succ, Action.bind_apply, advance_eq, room, if_neg Bool.false_ne_true, Action.bind_apply,
      prepared]
  simp only [collect, connected, create_opened pageSize, gathers]

/-- A tick that an infinite code stands before fails, and leaves the cursors and all rows in place. -/
theorem tick_infinite (batchSize : 1 ≤ p.batchSize) (pageSize : 1 ≤ p.pageSize) (sound : p.Sound x)
    (infinite : p.InfiniteAmong x p.pageSize) (consume : List CaptureEvent → Action Site Unit) :
    ∃ f, p.tick Site.captures consume x = (.error f, x.1, (Site.pass .connect x.2).2) ∧
      ((Site.pass .connect x.2).1 = .ok () → f = .conversion .infiniteNumber) := by
  cases connects : (Site.pass .connect x.2).1 with
  | error f =>
    have unconnected : Site.captures.connect x.2 = (.error f, (Site.pass .connect x.2).2) := Prod.ext connects rfl
    refine ⟨f, ?_, nofun⟩
    simp only [tick, Action.bind_apply, collect, unconnected]
  | ok u =>
    refine ⟨_, ?_, fun _ => rfl⟩
    simp only [tick, Action.bind_apply, collect_infinite batchSize pageSize sound infinite connects]

/-- Every tick from then on fails likewise. -/
theorem ticks_infinite (batchSize : 1 ≤ p.batchSize) (pageSize : 1 ≤ p.pageSize) (sound : p.Sound x)
    (infinite : p.InfiniteAmong x p.pageSize) (consume : List CaptureEvent → Action Site Unit) (k : Nat) :
    ((p.ticked consume)^[k] x).1 = x.1 ∧ ((p.ticked consume)^[k] x).2.database = x.2.database ∧
      ∃ f, (p.tick Site.captures consume ((p.ticked consume)^[k] x)).1 = .error f ∧
        ((Site.pass .connect ((p.ticked consume)^[k] x).2).1 = .ok () → f = .conversion .infiniteNumber) := by
  -- what a tick leaves in place is all that the next one fails for
  have fails (y : Cursors × Site) (cursors : y.1 = x.1) (database : y.2.database = x.2.database) :=
    tick_infinite batchSize pageSize (x := y) (by rwa [Sound, cursors, database])
      (by rwa [InfiniteAmong, cursors, database]) consume
  have stays : ((p.ticked consume)^[k] x).1 = x.1 ∧
      ((p.ticked consume)^[k] x).2.database = x.2.database := by
    induction k with
    | zero => exact ⟨rfl, rfl⟩
    | succ k ih =>
      obtain ⟨f, tick, -⟩ := fails _ ih.1 ih.2
      rw [Function.iterate_succ_apply', ticked, tick]
      exact ih
  obtain ⟨f, tick, reason⟩ := fails _ stays.1 stays.2
  exact ⟨stays.1, stays.2, f, by rw [tick], reason⟩

/-- The codes that the poller can tell. Those that are cut to the integer of a captured kind stand for it, the
infinite ones are refused, and all others are unknown. A tick in which nothing else fails takes in every row if
no code is infinite, so that the rows with unknown codes are skipped and taken off with the others. If an infinite
code is on the first page of some table, this tick and all later ones fail and leave every row in place. -/
theorem codes_told (batchSize : 1 ≤ p.batchSize) (pageSize : 1 ≤ p.pageSize) (apart : Apart p.models)
    (sound : p.Sound x) (consume : List CaptureEvent → Action Site Unit) (v : Value) :
    ((∀ f, EventKind.ofCode v = .error f ↔ v.IsInfinite ∧ f = .conversion .infiniteNumber) ∧
      (∀ (kind : EventKind) code, kind.code? = some code →
        (EventKind.ofCode v = .ok kind ↔ v.toInteger = .ok code)) ∧
      (EventKind.ofCode v = .ok .unknown ↔ ¬ v.IsInfinite ∧
        ∀ (kind : EventKind) code, kind.code? = some code → v.toInteger ≠ .ok code)) ∧
    ((∀ n, ¬ p.InfiniteAmong x n) → p.Calm consume x →
      p.Delivers consume x (p.tick Site.captures consume x) ∧
        ∀ m ∈ p.models, ∀ t, x.2.database.find? m.captureTable = some t →
          ∀ row ∈ t.rows.filter (Database.isAfter m t (x.1.get? m.captureTable)),
            ∃ e ∈ p.waiting x, Database.eventOf m t row = .ok e ∧
              EventKind.ofCode (t.cell m.eventTypeColumn row) = .ok e.kind) ∧
    (p.InfiniteAmong x p.pageSize → ∀ k,
      ((p.ticked consume)^[k] x).1 = x.1 ∧ ((p.ticked consume)^[k] x).2.database = x.2.database ∧
        ∃ f, (p.tick Site.captures consume ((p.ticked consume)^[k] x)).1 = .error f ∧
          ((Site.pass .connect ((p.ticked consume)^[k] x).2).1 = .ok () → f = .conversion .infiniteNumber)) := by
  refine ⟨⟨fun f => EventKind.ofCode_refused_iff, fun kind code => EventKind.ofCode_captured_iff,
    EventKind.ofCode_unknown_iff⟩, fun finite calm => ?_, fun infinite =>
      ticks_infinite batchSize pageSize sound infinite consume⟩
  have readable := sound.readable finite
  exact ⟨delivers_tick pageSize apart readable calm,
    fun m hm t ht row hrow => readable.mem_waiting hm ht hrow⟩

/-- Not every code is told. -/
theorem infinite_code_refused : ¬ ∀ v : Value, ∃ kind, EventKind.ofCode v = .ok kind := by
  intro all
  obtain ⟨kind, told⟩ := all (.float (.infinite false))
  cases told

/-- A capture table with rows of their own. -/
def ordersOf (rows : List Row) : Table where
  name := "orders"
  columns := [⟨"updateid", .integer, true⟩, ⟨"id", .integer, false⟩, ⟨"eventcase", .integer, false⟩]
  keyColumns := ["updateid"]
  numbering := .neverAgain
  largest := 2
  rows := rows

/-- Two orders, the second with a given code. -/
def ordersWith (code : Value) : Database :=
  ⟨[ordersOf [[.int 1, .int 7, .int (-3)], [.int 2, .int 7, code]]], []⟩

/-- A poller of orders that takes two rows at a time, in pages of two. -/
def orderClerk : Poller where
  models := [⟨.root "shop" "Order", "orders", "order", [⟨"id", "id", "BIGINT"⟩], "eventcase", "updateid"⟩]
  batchSize := 2
  pageSize := 2
  delay := 1
  initialDelay := 1
  name := "clerk"

theorem sound_ordersWith (code : Value) : orderClerk.Sound ([], .ofDatabase (ordersWith code)) := by
  have there : (ordersWith code).find? "orders" = some _ := List.find?_cons_of_pos (sameName_self _)
  refine List.forall_mem_cons.mpr ⟨⟨_, there, ?_⟩, nofun⟩
  exact {
    columns := show (ordersOf []).requireColumns ["updateid", "id", "eventcase"] = .ok () from rfl
    keyed := List.forall_mem_cons.mpr ⟨⟨1, rfl⟩, List.forall_mem_cons.mpr ⟨⟨2, rfl⟩, nofun⟩⟩
    ordered := List.pairwise_pair.mpr fun j k hj hk => by
      cases hj
      cases hk
      decide
    identified := nofun }

theorem infiniteAmong_ordersWith (code : Value) (n : Nat) (infinite : orderClerk.InfiniteAmong
    ([], .ofDatabase (ordersWith code)) n) : code.IsInfinite := by
  obtain ⟨m, hm, t, ht, row, hrow, hcode⟩ := infinite
  obtain rfl := List.mem_singleton.mp hm
  have there : (ordersWith code).find? "orders" = some _ := List.find?_cons_of_pos (sameName_self _)
  cases Option.some.inj (ht.symm.trans there)
  have hrow := List.mem_of_mem_filter (List.mem_of_mem_take hrow)
  simp only [ordersOf, List.mem_cons, List.not_mem_nil, or_false] at hrow
  rcases hrow with rfl | rfl
  · cases hcode
  · exact hcode

/-- An undefined number is skipped, and its row goes with the other. An infinite one stops the poller for good. -/
theorem codes_told_orders :
    1 ≤ orderClerk.batchSize ∧ 1 ≤ orderClerk.pageSize ∧ Apart orderClerk.models ∧
      (∀ code, orderClerk.Sound ([], .ofDatabase (ordersWith code))) ∧
      orderClerk.Delivers (fun _ => Pure.pure ()) ([], .ofDatabase (ordersWith (.float .nan)))
        (orderClerk.tick Site.captures (fun _ => Pure.pure ())
          ([], .ofDatabase (ordersWith (.float .nan)))) ∧
      ∀ k, ∃ f, (orderClerk.tick Site.captures (fun _ => Pure.pure ())
        ((orderClerk.ticked fun _ => Pure.pure ())^[k]
          ([], .ofDatabase (ordersWith (.float (.infinite true)))))).1 = .error f := by
  have batches : 1 ≤ orderClerk.batchSize := by decide
  have pages : 1 ≤ orderClerk.pageSize := by decide
  have apart : Apart orderClerk.models := List.pairwise_singleton ..
  have accepting : Accepting fun _ => Pure.pure () := fun _ _ => ⟨rfl, rfl, rfl⟩
  have calm := (calm_of_accepting (p := orderClerk) (x := ([], .ofDatabase (ordersWith (.float .nan))))
    accepting rfl nofun).1
  have told (code : Value) := (codes_told batches pages apart (sound_ordersWith code)
    (fun _ => Pure.pure ()) code).2
  have infinite : orderClerk.InfiniteAmong ([], .ofDatabase (ordersWith (.float (.infinite true)))) 2 :=
    ⟨_, List.mem_singleton_self _, _, List.find?_cons_of_pos (sameName_self _),
      [.int 2, .int 7, .float (.infinite true)], List.mem_cons_of_mem _ List.mem_cons_self, trivial⟩
  refine ⟨batches, pages, apart, sound_ordersWith,
    ((told (.float .nan)).1 (fun n => infiniteAmong_ordersWith _ n) calm).1, fun k => ?_⟩
  obtain ⟨-, -, f, fails, -⟩ := (told (.float (.infinite true))).2 infinite k
  exact ⟨f, fails⟩

end Poller
end IndexSync
