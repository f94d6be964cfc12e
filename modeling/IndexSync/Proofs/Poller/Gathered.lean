import IndexSync.Poller.Access
import IndexSync.Proofs.Merge.Drain
import IndexSync.Proofs.Poller.Collect
import IndexSync.Proofs.Store.CaptureRows

/-!
# What a tick gathers from tables at rest

Where the capture tables can be read and nothing else happens, a tick gathers just the first rows that wait,
in the order of their keys over all tables. The size of the pages does not show.
-/
namespace IndexSync.Poller

open MergeCursor Store

section
variable {σ : Type} {access : CaptureAccess σ} {p : Poller} {starts : List (Option Int)}
  {tables : List (List CaptureEvent)} {Fine : σ → Prop}

theorem gather_eq (hf : ∀ s, Fine s → (fetch access p).ServesFrom starts tables s)
    (quiet : ∀ n s, Fine s → Fine (access.report n s))
    (hasc : ∀ rows ∈ tables, Ascending (·.key) rows) (n : Nat) {c : MergeCursor} (ready : Ready tables c)
    (onward : Onward starts c.streams) (room : ∀ l ∈ c.limit, c.returned + n ≤ l) (done : Collected)
    {s : σ} (fine : Fine s) :
    ∃ c', gather access p n done (c, s) =
      (.ok (((plainMerge (leftOf tables c.streams)).take n).foldl Collected.add done), c',
        ((plainMerge (leftOf tables c.streams)).take n).foldl (fun s e => noticeOf access e s) s) := by
  induction n generalizing c done s with
  | zero => exact ⟨c, rfl⟩
  | succ n ih =>
    obtain ⟨same, goes⟩ := advance_from (hf s fine) onward
    have hroom : c.limit.any (· ≤ c.returned) = false := by
      cases hl : c.limit with
      | none => rfl
      | some l =>
        have := room l hl
        simp only [Option.any_some, decide_eq_false_iff_not]
        omega
    rcases advance_spec (serves_fixedFetch tables s) hasc ready hroom rfl with
      ⟨spent, c', s', hadvance⟩ | ⟨e, c', s', hadvance, hcurrent, hcons, hlimit, hreturned, ready', rfl⟩
    · rw [same, hadvance] at goes
      obtain rfl : s' = s := goes.1
      refine ⟨c', ?_⟩
      rw [spent]
      simp only [gather, same, hadvance]
      rfl
    · rw [same, hadvance] at goes
      have fine' : Fine (noticeOf access e s') := by
        unfold noticeOf
        split
        · exact quiet _ _ fine
        · exact fine
      obtain ⟨last, hrest⟩ := ih ready' goes.2 (fun l hl => by
        have := room l (hlimit ▸ hl)
        omega) (done.add e) fine'
      refine ⟨last, ?_⟩
      simp only [gather, same, hadvance, hcurrent, hcons, List.take_succ_cons, List.foldl_cons]
      exact hrest

end

variable {p : Poller} {x : Cursors × Site}

/-- The changes that wait in the capture tables: those with keys above the cursors of their tables, by key,
those of equal keys in the order of the models. -/
def waiting (p : Poller) (x : Cursors × Site) : List CaptureEvent :=
  plainMerge (pending x.1 (p.models.map fun m => (m.captureTable, x.2.database.events m)))

/-- The changes that are due in the next tick. -/
def due (p : Poller) (x : Cursors × Site) : List CaptureEvent := (p.waiting x).take p.batchSize

/-- The changes that the next tick hands on. -/
def batch (p : Poller) (x : Cursors × Site) : List CaptureEvent := (p.due x).filter (·.kind ≠ .unknown)

/-- What is due, collected. -/
def gathered (p : Poller) (x : Cursors × Site) : Collected := (p.due x).foldl Collected.add .empty

/-- All capture tables are there and can be read from the cursors on. -/
def Legible (p : Poller) (x : Cursors × Site) : Prop :=
  ∀ m ∈ p.models, ∃ t, x.2.database.find? m.captureTable = some t ∧ t.Legible m (x.1.get? m.captureTable)

/-- All capture tables are there, and nothing but the codes in their rows can be amiss. -/
def Sound (p : Poller) (x : Cursors × Site) : Prop :=
  ∀ m ∈ p.models, ∃ t, x.2.database.find? m.captureTable = some t ∧ t.Sound m (x.1.get? m.captureTable)

/-- All capture tables are there, and no code from the cursors on is refused. -/
def Readable (p : Poller) (x : Cursors × Site) : Prop :=
  ∀ m ∈ p.models, ∃ t, x.2.database.find? m.captureTable = some t ∧ t.Readable m (x.1.get? m.captureTable)

theorem Legible.readable (h : p.Legible x) : p.Readable x := fun m hm =>
  (h m hm).imp fun _ ⟨found, legible⟩ => ⟨found, legible.readable⟩

/-- The site as a tick has left it when it comes to its batch: a connection has been made, and the rows with
unknown codes have been reported. -/
def found (p : Poller) (x : Cursors × Site) : Site :=
  { (Site.pass .connect x.2).2 with
    notices := x.2.notices ++
      ((p.due x).filter (·.kind = .unknown)).map fun e => .skippedRow e.key e.captureTable }

theorem foldl_noticeOf (es : List CaptureEvent) (s : Site) :
    es.foldl (fun s e => noticeOf Site.captures e s) s =
      { s with notices := s.notices ++
          (es.filter (·.kind = .unknown)).map fun e => .skippedRow e.key e.captureTable } := by
  induction es generalizing s with
  | nil => simp
  | cons e rest ih =>
    rw [List.foldl_cons, ih]
    by_cases h : e.kind = .unknown <;> simp [noticeOf, h, Site.captures, Site.report]

theorem ascending_events (readable : p.Readable x) :
    ∀ table ∈ p.models.map fun m => (m.captureTable, x.2.database.events m), Ascending (·.key) table.2 := by
  intro table htable
  obtain ⟨m, hm, rfl⟩ := List.mem_map.mp htable
  obtain ⟨t, ht, read⟩ := readable m hm
  simpa [Database.events_of_find? ht] using read.ascending

theorem servesFrom_captures (readable : p.Readable x) {s : Site} (same : s.database = x.2.database) :
    (fetch Site.captures p).ServesFrom ((p.models.map (·.captureTable)).map fun name => x.1.get? name)
      (p.models.map fun m => x.2.database.events m) s := by
  intro i start hstart after reached n
  simp only [List.map_map, List.getElem?_map, Option.map_eq_some_iff] at hstart
  obtain ⟨m, hm, rfl⟩ := hstart
  obtain ⟨t, ht, read⟩ := readable m (List.mem_of_getElem? hm)
  have page := read.page_eq ht reached n
  simp only [fetch, hm, Site.captures, Site.ask, same, page, fixedFetch, List.getElem?_map, Option.map_some,
    Option.getD_some]

/-- A tick collects what is due. -/
theorem collect_eq (pageSize : 1 ≤ p.pageSize) (readable : p.Readable x)
    (connects : (Site.pass .connect x.2).1 = .ok ()) :
    collect Site.captures p x = (.ok (p.gathered x), x.1, p.found x) := by
  obtain ⟨cursors, s⟩ := x
  obtain ⟨c, hcreate, ready, hlimit, hreturned, hleft⟩ := ready_create (ascending_events readable)
    (show (1 : Int) ≤ p.pageSize by omega) cursors
    (show ∀ n, some (p.batchSize : Int) = some n → 0 ≤ n by simp)
  simp only [List.map_map, Function.comp_def] at hcreate ready hleft
  have database : (Site.pass .connect s).2.database = s.database := rfl
  have serves (s' : Site) (same : s'.database = s.database) := servesFrom_captures readable same
  obtain ⟨last, hgather⟩ := gather_eq serves (fun _ _ same => same) (fun rows hrows => by
      obtain ⟨m, hm, rfl⟩ := List.mem_map.mp hrows
      exact ascending_events readable _ (List.mem_map_of_mem hm))
    p.batchSize ready (onward_create hcreate) (by simp [hlimit, hreturned]) .empty database
  have connected : Site.captures.connect s = (.ok (), (Site.pass .connect s).2) := Prod.ext connects rfl
  simp only [collect, connected, hcreate, hgather, foldl_noticeOf, hleft]
  rfl

end IndexSync.Poller
