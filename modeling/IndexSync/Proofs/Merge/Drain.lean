import IndexSync.Proofs.Merge.PagedMerge

/-! Draining a cursor: it ends, and gives the plain merge of the tables up to the limit. The result
names neither the size of the pages nor the fetches. -/
namespace IndexSync

/-- The first rows up to a limit; all of them without one. -/
def takeUpTo {α : Type} : Option Nat → List α → List α
  | none, rows => rows
  | some n, rows => rows.take n

theorem length_takeUpTo_le {α : Type} (limit : Option Nat) (rows : List α) :
    (takeUpTo limit rows).length ≤ rows.length := by
  cases limit with
  | none => exact Nat.le_refl _
  | some n => exact List.length_take_le' n rows

namespace MergeCursor

variable {σ : Type} {fetch : Fetch σ} {Fine : σ → Prop} {tables : List (List CaptureEvent)}

/-- Advancing and reading, up to the first advance that does not move: the events that come out, and
what they leave behind. -/
inductive Drains (fetch : Fetch σ) :
    MergeCursor × σ → List CaptureEvent → MergeCursor × σ → Prop
  | stop {c s c' s'} (still : advance fetch (c, s) = (.ok false, c', s')) :
    Drains fetch (c, s) [] (c', s')
  | move {c s c' s' e rest last} (moved : advance fetch (c, s) = (.ok true, c', s'))
    (read : c'.event = .ok e) (tail : Drains fetch (c', s') rest last) :
    Drains fetch (c, s) (e :: rest) last

/-- With enough steps the bounded drain does all of it. -/
theorem Drains.drain_eq {p last : MergeCursor × σ} {es : List CaptureEvent}
    (h : Drains fetch p es last) {n : Nat} (hn : es.length < n) :
    drain fetch n p = (.ok es, last) := by
  induction h generalizing n with
  | stop still =>
    obtain ⟨n, rfl⟩ := Nat.exists_eq_add_of_lt hn
    simp [drain, still]
  | @move c s c' s' e rest last moved read _ ih =>
    obtain ⟨n, rfl⟩ : ∃ m, n = m + 1 := ⟨n - 1, by omega⟩
    have hcur : c'.current = some e := by
      unfold event at read
      split at read
      · rename_i e' he
        exact he.trans (congrArg some (Except.ok.inj read))
      · cases read
    have hrest := ih (n := n) (by simp only [List.length_cons] at hn; omega)
    simp only [drain, moved, hrest, hcur, Option.toList_some, List.singleton_append]

theorem advance_of_limit {c : MergeCursor} (h : c.limit.any (· ≤ c.returned) = true) (s : σ) :
    advance fetch (c, s) = (.ok false, { c with current := none }, s) := by
  simp only [advance, h, Bool.or_true, if_true]

/-- A cursor over tables drains to the merge of what its streams have left. -/
theorem drains_left (hf : fetch.Serves Fine tables)
    (hasc : ∀ rows ∈ tables, Ascending (·.key) rows) {c : MergeCursor} (hc : Ready tables c)
    {s : σ} (hs : Fine s) :
    ∃ last, Drains fetch (c, s)
      (takeUpTo (c.limit.map (· - c.returned)) (plainMerge (leftOf tables c.streams))) last := by
  induction hm : plainMerge (leftOf tables c.streams) generalizing c s with
  | nil =>
    have hnil : takeUpTo (c.limit.map (· - c.returned)) ([] : List CaptureEvent) = [] := by
      cases c.limit <;> simp [takeUpTo]
    rw [hnil]
    by_cases hroom : c.limit.any (· ≤ c.returned) = true
    · exact ⟨_, .stop (advance_of_limit hroom s)⟩
    · rcases advance_spec hf hasc hc (by simpa using hroom) hs with
        ⟨-, c', s', hadv⟩ | ⟨e, c', s', -, -, hcons, -⟩
      · exact ⟨_, .stop hadv⟩
      · simp [hm] at hcons
  | cons e rest ih =>
    by_cases hroom : c.limit.any (· ≤ c.returned) = true
    · obtain ⟨l, hl, hle⟩ := (Option.any_eq_true _ _).1 hroom
      have hle : l ≤ c.returned := by simpa using hle
      have hnone : takeUpTo (c.limit.map (· - c.returned)) (e :: rest) = [] := by
        rw [hl, Option.map_some, Nat.sub_eq_zero_of_le hle]
        rfl
      rw [hnone]
      exact ⟨_, .stop (advance_of_limit hroom s)⟩
    · rcases advance_spec hf hasc hc (by simpa using hroom) hs with
        ⟨hnil, -⟩ | ⟨e', c', s', hadv, hcur, hcons, hlimit, hreturned, hc', hs'⟩
      · simp [hm] at hnil
      · obtain ⟨rfl, rfl⟩ := List.cons.inj (hm.symm.trans hcons)
        obtain ⟨last, htail⟩ := ih hc' hs' rfl
        refine ⟨last, ?_⟩
        have hcut : takeUpTo (c.limit.map (· - c.returned)) (e :: plainMerge (leftOf tables c'.streams)) =
            e :: takeUpTo (c'.limit.map (· - c'.returned)) (plainMerge (leftOf tables c'.streams)) := by
          rw [hlimit, hreturned]
          rcases hl : c.limit with _ | l
          · rfl
          · have hlt : c.returned < l := by simpa [hl] using hroom
            simp only [Option.map_some, takeUpTo]
            rw [show l - c.returned = l - (c.returned + 1) + 1 by omega, List.take_succ_cons]
        rw [hcut]
        exact .move hadv (by simp [event, hcur]) htail

end MergeCursor

namespace PageSource

/-- Sources of rows serve their tables, whatever has been fetched. -/
theorem serves (tables : List (List CaptureEvent)) :
    Fetch.Serves PageSource.fetch (fun sources => sources.map (·.supply) = tables.map .rows)
      tables := by
  intro i rows hrows after n sources hfine
  have hi : (sources.map (·.supply))[i]? = some (.rows rows) := by simp [hfine, hrows]
  rw [List.getElem?_map] at hi
  obtain ⟨source, hsource, hsupply⟩ := Option.map_eq_some_iff.1 hi
  refine ⟨sources.set i { source with fetches := source.fetches ++ [(after, n)] }, ?_, ?_⟩
  · simp [fetch, hsource, next, hsupply, firstAfter_eq]
  · refine Eq.trans (List.ext_getElem? fun j => ?_) hfine
    obtain ⟨hlt, rfl⟩ := List.getElem?_eq_some_iff.1 hsource
    rw [List.getElem?_map, List.getElem?_map, List.getElem?_set]
    by_cases hij : i = j
    · subst hij
      simp [hlt]
    · simp [hij]

theorem ofRows_eq {name : String} {rows : List CaptureEvent} (h : Ascending (·.key) rows) :
    ofRows name rows = ⟨name, .rows rows, []⟩ := by
  have : rows.mergeSort (fun a b => a.key ≤ b.key) = rows :=
    List.mergeSort_of_pairwise (h.imp fun hlt => decide_eq_true (Int.le_of_lt hlt))
  rw [ofRows, this]

end PageSource

namespace MergeCursor

/-- The tables as a cursor sees them that starts after the given keys. -/
def pending (after : Entries String Int) (tables : List (String × List CaptureEvent)) :
    List (List CaptureEvent) :=
  tables.map fun t => beyond (·.key) (after.get? t.1) t.2

theorem length_plainMerge_pending_le (after : Entries String Int)
    (tables : List (String × List CaptureEvent)) :
    (plainMerge (pending after tables)).length ≤ (tables.flatMap (·.2)).length := by
  rw [(plainMerge_perm _).length_eq]
  induction tables with
  | nil => exact Nat.le_refl _
  | cons t rest ih =>
    have := List.length_filter_le (fun r : CaptureEvent => (after.get? t.1).all (· < r.key)) t.2
    simp only [pending, List.map_cons, List.flatten_cons, List.flatMap_cons, List.length_append,
      beyond] at ih ⊢
    omega

theorem ready_create {tables : List (String × List CaptureEvent)}
    (hasc : ∀ t ∈ tables, Ascending (·.key) t.2) {pageSize : Int} (hsize : 1 ≤ pageSize)
    (after : Entries String Int) {limit : Option Int} (hlimit : ∀ n, limit = some n → 0 ≤ n) :
    ∃ c, create (tables.map (·.1)) pageSize after limit = .ok c ∧
      Ready (tables.map (·.2)) c ∧ c.limit = limit.map Int.toNat ∧ c.returned = 0 ∧
      leftOf (tables.map (·.2)) c.streams = pending after tables := by
  have hl : limit.any (· < 0) = false := by
    cases limit with
    | none => rfl
    | some n => simpa using hlimit n rfl
  have hleft : leftOf (tables.map (·.2)) ((tables.map (·.1)).map (Stream.start after)) =
      pending after tables := by
    simp only [leftOf, pending, List.map_map, List.zipWith_map, List.zipWith_self]
    exact List.map_congr_left fun t _ => Stream.left_start after t.1 t.2
  have hcreate : create (tables.map (·.1)) pageSize after limit =
      .ok ⟨(tables.map (·.1)).map (Stream.start after), pageSize.toNat, limit.map Int.toNat,
        none, none, 0, false, false⟩ := by
    simp only [create, hl, Int.not_lt.2 hsize, if_false, Bool.false_eq_true]
  refine ⟨_, hcreate, ⟨?_, ?_, ?_, rfl, fun _ => rfl, fun h => ?_⟩, rfl, rfl, hleft⟩
  · simp
  · simp only
    omega
  · intro rows hrows
    rw [hleft] at hrows
    obtain ⟨t, ht, rfl⟩ := List.mem_map.1 hrows
    exact (hasc t ht).beyond _
  · cases h

/-- Draining ends, with the plain merge of the rows after the given keys up to the limit, whatever
the size of the pages. -/
theorem drains_plainMerge (tables : List (String × List CaptureEvent)) (pageSize : Int)
    (after : Entries String Int) (limit : Option Int)
    (hasc : ∀ t ∈ tables, Ascending (·.key) t.2) (hsize : 1 ≤ pageSize)
    (hlimit : ∀ n, limit = some n → 0 ≤ n) :
    ∃ c last, create (tables.map (·.1)) pageSize after limit = .ok c ∧
      Drains PageSource.fetch (c, tables.map fun t => .ofRows t.1 t.2)
        (takeUpTo (limit.map Int.toNat) (plainMerge (pending after tables))) last ∧
      drainAll (c, tables.map fun t => .ofRows t.1 t.2) =
        (.ok (takeUpTo (limit.map Int.toNat) (plainMerge (pending after tables))), last) := by
  obtain ⟨c, hcreate, hready, hl, hreturned, hleft⟩ := ready_create hasc hsize after hlimit
  have hsources : (tables.map fun t => PageSource.ofRows t.1 t.2) =
      tables.map fun t => ⟨t.1, .rows t.2, []⟩ :=
    List.map_congr_left fun t ht => PageSource.ofRows_eq (hasc t ht)
  have hfine : (tables.map fun t => PageSource.ofRows t.1 t.2).map (·.supply) =
      (tables.map (·.2)).map .rows := by
    rw [hsources, List.map_map, List.map_map]
    rfl
  obtain ⟨last, hdrains⟩ := drains_left (PageSource.serves (tables.map (·.2)))
    (List.forall_mem_map.2 hasc) hready hfine
  have hcut : c.limit.map (· - c.returned) = limit.map Int.toNat := by
    rw [hl, hreturned]
    cases limit <;> rfl
  rw [hcut, hleft] at hdrains
  refine ⟨c, last, hcreate, hdrains, hdrains.drain_eq ?_⟩
  have hmoves : (tables.flatMap (·.2)).length ≤
      c.movesLeft (tables.map fun t => .ofRows t.1 t.2) := by
    rw [movesLeft, hsources, List.flatMap_map]
    exact Nat.le_add_right ..
  have := length_takeUpTo_le (limit.map Int.toNat) (plainMerge (pending after tables))
  have := length_plainMerge_pending_le after tables
  omega

/-- Two tables that share a key. -/
def twoTables : List (String × List CaptureEvent) :=
  [("orders", [⟨.root "shop" "Order", .int 7, .insert, 1, "orders"⟩,
      ⟨.root "shop" "Order", .int 7, .update, 3, "orders"⟩,
      ⟨.root "shop" "Order", .int 7, .delete, 4, "orders"⟩]),
    ("items", [⟨.root "shop" "Item", .int 8, .insert, 2, "items"⟩,
      ⟨.root "shop" "Item", .int 9, .insert, 3, "items"⟩])]

/-- Pages that end where their tables do, a start after a key, and a limit that is just reached. -/
theorem drains_two_tables :
    ∃ c last es, create ["orders", "items"] 2 [("orders", 1)] (some 4) = .ok c ∧
      Drains PageSource.fetch (c, twoTables.map fun t => .ofRows t.1 t.2) es last ∧
      es.map (fun e => (e.captureTable, e.key)) =
        [("items", 2), ("orders", 3), ("items", 3), ("orders", 4)] := by
  obtain ⟨c, last, hcreate, hdrains, -⟩ :=
    drains_plainMerge twoTables 2 [("orders", 1)] (some 4) (by decide) (by decide) (by decide)
  refine ⟨c, last, _, hcreate, hdrains, ?_⟩
  simp [twoTables, pending, beyond, Entries.get?, plainMerge, PlainMerge.taggedFrom,
    PlainMerge.precedes, List.mergeSort, takeUpTo]

end MergeCursor
end IndexSync
