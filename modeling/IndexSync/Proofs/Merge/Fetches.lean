import IndexSync.Proofs.Merge.Drain
import IndexSync.Proofs.Merge.Orderly

/-!
# Which pages are fetched, and when

A cursor over tables asks a source for its next page only when all rows of the page before have been handed out,
and starts where that page has ended. Nothing is asked for that a limit leaves out.
-/
namespace IndexSync

namespace PageSource

/-- The fetches that were made on a source. -/
def fetchesOf (sources : List PageSource) (i : Nat) : List (Option Int × Nat) :=
  (sources[i]?.map (·.fetches)).getD []

/-- The pages that fetches give. -/
def pages (rows : List CaptureEvent) (fetches : List (Option Int × Nat)) : List (List CaptureEvent) :=
  fetches.map fun (after, n) => firstAfter rows after n

/-- Each fetch asks for `n` rows. The first starts after a key, each other one after the last row of the page
before it, which was full. -/
def Contiguous (rows : List CaptureEvent) (n : Nat) : Option Int → List (Option Int × Nat) → Prop
  | _, [] => True
  | start, (after, asked) :: rest => after = start ∧ asked = n ∧
      (rest = [] ∨ (firstAfter rows after asked).length = n ∧
        Contiguous rows n ((firstAfter rows after asked).getLast?.map (·.key)) rest)

/-- Where fetches have come that start after a key. -/
def comeTo (rows : List CaptureEvent) : Option Int → List (Option Int × Nat) → Option Int
  | start, [] => start
  | _, (after, n) :: rest => comeTo rows ((firstAfter rows after n).getLast?.map (·.key)) rest

/-- All rows of one page come before those of another. -/
def Before (page later : List CaptureEvent) : Prop := ∀ a ∈ page, ∀ b ∈ later, a.key < b.key

variable {rows : List CaptureEvent} {n : Nat} {start : Option Int} {fetches : List (Option Int × Nat)}

theorem pages_concat (rows : List CaptureEvent) (fetches : List (Option Int × Nat)) (after : Option Int)
    (n : Nat) : pages rows (fetches ++ [(after, n)]) = pages rows fetches ++ [firstAfter rows after n] := by
  simp [pages]

theorem length_firstAfter_le (rows : List CaptureEvent) (after : Option Int) (n : Nat) :
    (firstAfter rows after n).length ≤ n :=
  List.length_take_le ..

theorem beyond_of_mem_firstAfter {after : Option Int} {e : CaptureEvent}
    (h : e ∈ firstAfter rows after n) : after.all (· < e.key) = true :=
  (List.mem_filter.mp (List.mem_of_mem_take h)).2

theorem comeTo_concat (rows : List CaptureEvent) (start : Option Int) (fetches : List (Option Int × Nat))
    (after : Option Int) (n : Nat) : comeTo rows start (fetches ++ [(after, n)]) =
      (firstAfter rows after n).getLast?.map (·.key) := by
  induction fetches generalizing start with
  | nil => rfl
  | cons fetch rest ih => exact ih _

/-- The next fetch starts where full pages have come. -/
theorem Contiguous.concat (h : Contiguous rows n start fetches)
    (full : ∀ page ∈ pages rows fetches, page.length = n) :
    Contiguous rows n start (fetches ++ [(comeTo rows start fetches, n)]) := by
  induction fetches generalizing start with
  | nil => exact ⟨rfl, rfl, .inl rfl⟩
  | cons fetch rest ih =>
    obtain ⟨after, asked⟩ := fetch
    obtain ⟨rfl, rfl, further⟩ := h
    obtain ⟨first, others⟩ := List.forall_mem_cons.mp full
    have tail : Contiguous rows asked ((firstAfter rows after asked).getLast?.map (·.key)) rest := by
      rcases further with rfl | ⟨-, further⟩
      · trivial
      · exact further
    exact ⟨rfl, rfl, .inr ⟨first, ih tail others⟩⟩

/-- Rows in order are fetched one after the other, none of them twice and none left out. -/
theorem Contiguous.flatten_prefix (h : Contiguous rows n start fetches) (hn : 0 < n)
    (hasc : Ascending (·.key) rows) : (pages rows fetches).flatten <+: beyond (·.key) start rows := by
  induction fetches generalizing start with
  | nil => exact List.nil_prefix
  | cons fetch rest ih =>
    obtain ⟨after, asked⟩ := fetch
    obtain ⟨rfl, rfl, further⟩ := h
    rw [pages, List.map_cons, List.flatten_cons, ← pages]
    rcases further with rfl | ⟨full, further⟩
    · simpa [pages, firstAfter_eq] using List.take_prefix ..
    · obtain ⟨last, hlast⟩ : ∃ last, (firstAfter rows after asked).getLast? = some last :=
        ⟨_, List.getLast?_eq_some_getLast (List.ne_nil_of_length_pos (full.symm ▸ hn))⟩
      rw [hlast] at further
      have rest_ := ih further
      rw [Option.map_some, hasc.beyond_getLast_take hlast] at rest_
      have whole := List.prefix_append_right_inj (firstAfter rows after asked) |>.mpr rest_
      rwa [firstAfter_eq, List.take_append_drop, ← firstAfter_eq] at whole

/-- Sources of rows answer with their rows, and write down what they were asked for. -/
theorem fetch_rows {tables : List (List CaptureEvent)} {sources : List PageSource}
    (served : sources.map (·.supply) = tables.map .rows) {i : Nat} (hrows : tables[i]? = some rows)
    (after : Option Int) (n : Nat) : ∃ sources',
      fetch i after n sources = (.ok (firstAfter rows after n), sources') ∧
        sources'.map (·.supply) = tables.map .rows ∧
        fetchesOf sources' i = fetchesOf sources i ++ [(after, n)] ∧
        ∀ j ≠ i, fetchesOf sources' j = fetchesOf sources j := by
  obtain ⟨sources', answer, served'⟩ := serves tables i rows hrows after n sources served
  have hi : (sources.map (·.supply))[i]? = some (.rows rows) := by simp [served, hrows]
  rw [List.getElem?_map] at hi
  obtain ⟨source, hsource, hsupply⟩ := Option.map_eq_some_iff.mp hi
  obtain ⟨hlt, -⟩ := List.getElem?_eq_some_iff.mp hsource
  have changed : sources' = sources.set i ⟨source.name, .rows rows, source.fetches ++ [(after, n)]⟩ := by
    simp only [fetch, hsource, next, hsupply] at answer
    exact (congrArg Prod.snd answer).symm
  refine ⟨sources', answer, served', ?_, fun j hj => ?_⟩
  · rw [fetchesOf, changed, List.getElem?_set_self hlt, fetchesOf, hsource]
    rfl
  · rw [fetchesOf, changed, List.getElem?_set_ne hj.symm, fetchesOf]

end PageSource

open PageSource

namespace Stream

/-- What a stream over a table has fetched, handed out and kept: nothing is lost on the way, and while there may be
more the next fetch goes on from full pages. -/
structure InStep (rows : List CaptureEvent) (n : Nat) (start : Option Int)
    (fetches : List (Option Int × Nat)) (given : List CaptureEvent) (st : Stream) : Prop where
  kept : given ++ st.page = (pages rows fetches).flatten
  full : st.exhausted = false → ∀ page ∈ pages rows fetches, page.length = n
  next : st.exhausted = false → st.lastKey = comeTo rows start fetches
  behind : st.exhausted = false →
    ∀ e ∈ (pages rows fetches).flatten, (comeTo rows start fetches).any (e.key ≤ ·) = true

/-- What holds of a stream in any case. A stream that refuses a page is out of step, and keeps none. -/
structure Frugal (rows : List CaptureEvent) (n : Nat) (start : Option Int)
    (fetches : List (Option Int × Nat)) (given : List CaptureEvent) (st : Stream) : Prop where
  contiguous : Contiguous rows n start fetches
  apart : (pages rows fetches).Pairwise Before
  room : st.page.length ≤ n
  inStep : st.page ≠ [] → InStep rows n start fetches given st

variable {rows : List CaptureEvent} {n : Nat} {start : Option Int} {fetches : List (Option Int × Nat)}
  {given : List CaptureEvent} {st : Stream}

theorem inStep_start (rows : List CaptureEvent) (n : Nat) (after : Entries String Int) (name : String) :
    InStep rows n (after.get? name) [] [] (Stream.start after name) :=
  ⟨rfl, nofun, fun _ => rfl, nofun⟩

theorem frugal_start (rows : List CaptureEvent) (n : Nat) (after : Entries String Int) (name : String) :
    Frugal rows n (after.get? name) [] [] (Stream.start after name) :=
  ⟨trivial, .nil, Nat.zero_le n, fun h => absurd rfl h⟩

/-- One more page comes after those before it. -/
theorem Frugal.before (h : Frugal rows n start fetches given st) (step : InStep rows n start fetches given st)
    (more : st.exhausted = false) :
    Contiguous rows n start (fetches ++ [(st.lastKey, n)]) ∧
      (pages rows (fetches ++ [(st.lastKey, n)])).Pairwise Before := by
  refine ⟨step.next more ▸ h.contiguous.concat (step.full more), ?_⟩
  rw [pages_concat]
  refine List.pairwise_append.mpr ⟨h.apart, List.pairwise_singleton .., fun page hpage later hlater => ?_⟩
  intro a ha b hb
  rw [List.mem_singleton.mp hlater] at hb
  have reached := step.behind more a (List.mem_flatten.mpr ⟨page, hpage, ha⟩)
  have beyond := beyond_of_mem_firstAfter hb
  rw [step.next more] at beyond
  cases hcome : comeTo rows start fetches with
  | none => simp [hcome] at reached
  | some k =>
    simp only [hcome, Option.any_some, Option.all_some, decide_eq_true_eq] at reached beyond
    omega

/-- A stream that has handed out all its pages takes in the next one, and stays in step. -/
theorem Frugal.receive (h : Frugal rows n start fetches given st)
    (step : InStep rows n start fetches given st) (empty : st.page = []) (more : st.exhausted = false)
    {st' : Stream} (received : st.receive n (firstAfter rows st.lastKey n) = .ok st') :
    Frugal rows n start (fetches ++ [(st.lastKey, n)]) given st' := by
  obtain ⟨contiguous, apart⟩ := h.before step more
  rcases receive_cases received with ⟨-, rfl⟩ | ⟨last, hlast, inOrder, rfl⟩
  · exact ⟨contiguous, apart, h.room, fun page => absurd empty page⟩
  · have came : comeTo rows start (fetches ++ [(st.lastKey, n)]) = some last.key := by
      rw [comeTo_concat, hlast, Option.map_some]
    have kept : given ++ (st.page ++ firstAfter rows st.lastKey n) =
        (pages rows (fetches ++ [(st.lastKey, n)])).flatten := by
      rw [pages_concat, List.flatten_concat, ← step.kept, List.append_assoc]
    refine ⟨contiguous, apart, ?_, fun _ => ⟨kept, fun short => ?_, fun _ => came.symm, fun _ e he => ?_⟩⟩
    · rw [empty, List.nil_append]
      exact length_firstAfter_le ..
    · rw [pages_concat]
      intro page hpage
      rcases List.mem_append.mp hpage with hpage | hpage
      · exact step.full more page hpage
      · rw [List.mem_singleton.mp hpage]
        have := length_firstAfter_le rows st.lastKey n
        have := of_decide_eq_false short
        omega
    · rw [came, Option.any_some, decide_eq_true_eq]
      have goes := disorder?_eq_none_iff.mp inOrder
      rw [pages_concat, List.flatten_concat] at he
      rcases List.mem_append.mp he with he | he
      · have reached := step.behind more e he
        have beyond := goes.2 last (List.mem_of_getLast? hlast)
        rw [step.next more] at beyond
        cases hcome : comeTo rows start fetches with
        | none => simp [hcome] at reached
        | some k =>
          simp only [hcome, Option.any_some, Option.all_some, decide_eq_true_eq] at reached beyond
          omega
      · exact goes.1.key_le_getLast hlast he

/-- A stream that refuses a page has asked for it where it had come. -/
theorem Frugal.refuse (h : Frugal rows n start fetches given st)
    (step : InStep rows n start fetches given st) (empty : st.page = []) (more : st.exhausted = false) :
    Frugal rows n start (fetches ++ [(st.lastKey, n)]) given st := by
  obtain ⟨contiguous, apart⟩ := h.before step more
  exact ⟨contiguous, apart, h.room, fun page => absurd empty page⟩

theorem InStep.handOut (h : InStep rows n start fetches given st) {e : CaptureEvent}
    {rest : List CaptureEvent} (page : st.page = e :: rest) :
    InStep rows n start fetches (given ++ [e]) { st with page := rest } := by
  refine ⟨?_, h.full, h.next, h.behind⟩
  rw [← h.kept, page, List.append_assoc]
  rfl

end Stream
namespace MergeCursor

/-- Tables with the keys after which they are read. -/
abbrev Tables := List (Option Int × List CaptureEvent)

variable {tables : Tables} {n : Nat} {limit : Option Nat} {sources : List PageSource} {out : List Tagged}
  {c : MergeCursor} {i : Nat}

/-- A cursor over tables with frugal streams, in the course of an advance. -/
structure Fetching (tables : Tables) (n : Nat) (limit : Option Nat) (sources : List PageSource)
    (out : List Tagged) (c : MergeCursor) : Prop where
  served : sources.map (·.supply) = (tables.map (·.2)).map .rows
  size : c.streams.length = tables.length
  pageSize : c.pageSize = n
  limit : c.limit = limit
  returned : c.returned = out.length
  frugal : ∀ i t st, tables[i]? = some t → c.streams[i]? = some st →
    Stream.Frugal t.2 n t.1 (fetchesOf sources i) (ofStream i out) st

/-- Stream `i` is in step. -/
def InStepAt (tables : Tables) (n : Nat) (sources : List PageSource) (out : List Tagged) (c : MergeCursor)
    (i : Nat) : Prop :=
  ∀ t st, tables[i]? = some t → c.streams[i]? = some st →
    Stream.InStep t.2 n t.1 (fetchesOf sources i) (ofStream i out) st

/-- One fetch more, when all rows that were fetched have been handed out. -/
def FetchesOn (rows : List CaptureEvent) (n : Nat) (given : List CaptureEvent)
    (fetches later : List (Option Int × Nat)) : Prop :=
  given = (pages rows fetches).flatten ∧ ∃ after, later = fetches ++ [(after, n)]

/-- What filling some streams does. -/
structure Fills (tables : Tables) (n : Nat) (limit : Option Nat) (out : List Tagged) (is : List Nat)
    (c : MergeCursor) (sources : List PageSource) (c' : MergeCursor) (sources' : List PageSource) : Prop where
  fetching : Fetching tables n limit sources' out c'
  refill : c'.refill = c.refill
  started : c'.started = c.started
  others : ∀ j ∉ is, c'.streams[j]? = c.streams[j]? ∧ fetchesOf sources' j = fetchesOf sources j
  grows : ∀ j t, tables[j]? = some t → fetchesOf sources' j = fetchesOf sources j ∨
    FetchesOn t.2 n (ofStream j out) (fetchesOf sources j) (fetchesOf sources' j)

theorem Fills.nothing (h : Fetching tables n limit sources out c) (is : List Nat) :
    Fills tables n limit out is c sources c sources :=
  ⟨h, rfl, rfl, fun _ _ => ⟨rfl, rfl⟩, fun _ _ _ => .inl rfl⟩

theorem Fills.trans {is : List Nat} {c' c'' : MergeCursor} {sources' sources'' : List PageSource}
    (fresh : i ∉ is) (h : Fills tables n limit out [i] c sources c' sources')
    (h' : Fills tables n limit out is c' sources' c'' sources'') :
    Fills tables n limit out (i :: is) c sources c'' sources'' where
  fetching := h'.fetching
  refill := h'.refill.trans h.refill
  started := h'.started.trans h.started
  others j hj := by
    obtain ⟨hne, hj⟩ := not_or.mp (mt List.mem_cons.mpr hj)
    obtain ⟨stream, fetches⟩ := h.others j (by simpa using hne)
    obtain ⟨stream', fetches'⟩ := h'.others j hj
    exact ⟨stream'.trans stream, fetches'.trans fetches⟩
  grows j t ht := by
    by_cases hj : j = i
    · rw [hj] at ht ⊢
      rw [(h'.others i fresh).2]
      exact h.grows i t ht
    · rw [← (h.others j (by simpa using hj)).2]
      exact h'.grows j t ht

theorem InStepAt.congr {c' : MergeCursor} {sources' : List PageSource}
    (h : InStepAt tables n sources out c i)
    (same : c'.streams[i]? = c.streams[i]? ∧ fetchesOf sources' i = fetchesOf sources i) :
    InStepAt tables n sources' out c' i := by
  intro t st ht hst
  rw [same.2]
  exact h t st ht (same.1 ▸ hst)

theorem Fetching.congr {c' : MergeCursor} (h : Fetching tables n limit sources out c)
    (streams : c'.streams = c.streams) (pageSize : c'.pageSize = c.pageSize) (limit_ : c'.limit = c.limit)
    (returned : c'.returned = c.returned) : Fetching tables n limit sources out c' :=
  ⟨h.served, streams ▸ h.size, pageSize.trans h.pageSize, limit_.trans h.limit, returned.trans h.returned,
    streams ▸ h.frugal⟩

/-- One more fetch on a stream, after which the stream is as given. -/
theorem Fetching.fetched (h : Fetching tables n limit sources out c) {t : Option Int × List CaptureEvent}
    {st st' : Stream} (ht : tables[i]? = some t) (lacks : c.Lacks i st)
    (step : InStepAt tables n sources out c i) {sources' : List PageSource}
    (served : sources'.map (·.supply) = (tables.map (·.2)).map .rows)
    (asked : fetchesOf sources' i = fetchesOf sources i ++ [(st.lastKey, n)])
    (others : ∀ j ≠ i, fetchesOf sources' j = fetchesOf sources j)
    (frugal : Stream.Frugal t.2 n t.1 (fetchesOf sources i ++ [(st.lastKey, n)]) (ofStream i out) st') :
    Fills tables n limit out [i] c sources (c.setStream i st') sources' := by
  refine ⟨⟨served, ?_, h.pageSize, h.limit, h.returned, fun j u x hu hx => ?_⟩, rfl, rfl, fun j hj => ?_,
    fun j u hu => ?_⟩
  · simpa [setStream] using h.size
  · rcases entry_of_set hx with ⟨rfl, rfl⟩ | ⟨hne, hx⟩
    · cases ht.symm.trans hu
      rw [asked]
      exact frugal
    · rw [others j hne]
      exact h.frugal j u x hu hx
  · have hne : j ≠ i := by simpa using hj
    exact ⟨List.getElem?_set_ne hne.symm, others j hne⟩
  · by_cases hj : j = i
    · rw [hj] at hu ⊢
      cases ht.symm.trans hu
      have kept := (step t st ht lacks.1).kept
      rw [lacks.2.1, List.append_nil] at kept
      exact .inr ⟨kept, _, asked⟩
    · exact .inl (others j hj)

/-- Filling a stream in step fetches at most one page, for which it has room. -/
theorem fill_fetching (h : Fetching tables n limit sources out c) (step : InStepAt tables n sources out c i) :
    Fills tables n limit out [i] c sources (fill PageSource.fetch i (c, sources)).2.1
      (fill PageSource.fetch i (c, sources)).2.2 := by
  have filled := fill_cases PageSource.fetch i c sources
  have answered {st : Stream} (lacks : c.Lacks i st) : ∃ t, tables[i]? = some t ∧ ∃ sources',
      PageSource.fetch i st.lastKey c.pageSize sources = (.ok (firstAfter t.2 st.lastKey n), sources') ∧
        sources'.map (·.supply) = (tables.map (·.2)).map .rows ∧
        fetchesOf sources' i = fetchesOf sources i ++ [(st.lastKey, n)] ∧
        ∀ j ≠ i, fetchesOf sources' j = fetchesOf sources j := by
    have hi : i < tables.length := h.size ▸ (List.getElem?_eq_some_iff.mp lacks.1).1
    refine ⟨tables[i], List.getElem?_eq_getElem hi, ?_⟩
    rw [h.pageSize]
    exact fetch_rows h.served (by simp [hi]) st.lastKey n
  generalize fill PageSource.fetch i (c, sources) = next at filled ⊢
  cases filled with
  | idle head => exact .nothing h [i]
  | failed lacks answer =>
    obtain ⟨t, ht, sources', answer', -⟩ := answered lacks
    cases answer.symm.trans answer'
  | @refused st rows f s' lacks answer refuses =>
    obtain ⟨t, ht, sources', answer', served, asked, others⟩ := answered lacks
    cases answer.symm.trans answer'
    have frugal := (h.frugal i t st ht lacks.1).refuse (step t st ht lacks.1) lacks.2.1 lacks.2.2
    have fills := h.fetched ht lacks step served asked others frugal
    rwa [setStream_self lacks.1] at fills
  | @received st rows st' s' lacks answer receives =>
    obtain ⟨t, ht, sources', answer', served, asked, others⟩ := answered lacks
    cases answer.symm.trans answer'
    rw [h.pageSize] at receives
    have frugal := (h.frugal i t st ht lacks.1).receive (step t st ht lacks.1) lacks.2.1 lacks.2.2 receives
    exact h.fetched ht lacks step served asked others frugal

theorem fillAll_fetching {is : List Nat} (distinct : is.Nodup) (h : Fetching tables n limit sources out c)
    (step : ∀ i ∈ is, InStepAt tables n sources out c i) :
    Fills tables n limit out is c sources (fillAll PageSource.fetch is (c, sources)).2.1
      (fillAll PageSource.fetch is (c, sources)).2.2 := by
  induction is generalizing c sources with
  | nil => exact .nothing h []
  | cons i rest ih =>
    obtain ⟨fresh, distinct⟩ := List.nodup_cons.mp distinct
    obtain ⟨first, others⟩ := List.forall_mem_cons.mp step
    have filled := fill_fetching h first
    simp only [fillAll, Action.bind_apply]
    generalize fill PageSource.fetch i (c, sources) = next at filled ⊢
    obtain ⟨outcome, c', sources'⟩ := next
    cases outcome with
    | error f => exact filled.trans fresh (.nothing filled.fetching rest)
    | ok u =>
      refine filled.trans fresh (ih distinct filled.fetching fun j hj => ?_)
      exact (others j hj).congr (filled.others j fun hji => fresh (List.mem_singleton.mp hji ▸ hj))

/-- A cursor between advances: the streams that are filled next are in step. -/
structure Thrifty (tables : Tables) (n : Nat) (limit : Option Nat) (sources : List PageSource)
    (out : List Tagged) (c : MergeCursor) : Prop where
  fetching : Fetching tables n limit sources out c
  fresh : c.started = false → c.refill = none ∧ ∀ i, InStepAt tables n sources out c i
  due : ∀ i, c.refill = some i → InStepAt tables n sources out c i

/-- What an advance prepares: each source is asked at most once, with no page but the one that is due. -/
theorem prepare_fetching (h : Thrifty tables n limit sources out c) :
    let next := prepare PageSource.fetch (c, sources)
    Fetching tables n limit next.2.2 out next.2.1 ∧ next.2.1.refill = none ∧ next.2.1.started = true ∧
      ∀ j t, tables[j]? = some t → fetchesOf next.2.2 j = fetchesOf sources j ∨
        FetchesOn t.2 n (ofStream j out) (fetchesOf sources j) (fetchesOf next.2.2 j) := by
  cases hstarted : c.started with
  | false =>
    obtain ⟨none_due, step⟩ := h.fresh hstarted
    have begun : Fetching tables n limit sources out { c with started := true } :=
      h.fetching.congr rfl rfl rfl rfl
    have fills := fillAll_fetching (List.nodup_range (n := c.streams.length)) begun
      fun i _ => (step i).congr ⟨rfl, rfl⟩
    simp only [prepare, hstarted, Bool.not_false, if_true]
    exact ⟨fills.fetching, fills.refill.trans none_due, fills.started, fills.grows⟩
  | true =>
    simp only [prepare, hstarted, Bool.not_true, Bool.false_eq_true, if_false]
    cases hrefill : c.refill with
    | none => exact ⟨h.fetching, hrefill, hstarted, fun _ _ _ => .inl rfl⟩
    | some i =>
      have waiting : Fetching tables n limit sources out { c with refill := none, started := true } :=
        h.fetching.congr rfl rfl rfl rfl
      have fills := fill_fetching waiting ((h.due i hrefill).congr ⟨rfl, rfl⟩)
      exact ⟨fills.fetching, fills.refill, fills.started, fills.grows⟩

/-- A stream is filled again only if it has handed out its last row. -/
theorem Fetching.handOut (h : Fetching tables n limit sources out c) (none_due : c.refill = none)
    (hstarted : c.started = true) {st : Stream} {e : CaptureEvent} {rest : List CaptureEvent}
    (hst : c.streams[i]? = some st) (page : st.page = e :: rest) :
    Thrifty tables n limit sources (out ++ [(e, i)]) (c.handOut i st e rest) := by
  have lookup {j : Nat} {x : Stream} (hx : (c.handOut i st e rest).streams[j]? = some x) :
      j = i ∧ x = { st with page := rest } ∨ j ≠ i ∧ c.streams[j]? = some x :=
    entry_of_set hx
  have step : InStepAt tables n sources (out ++ [(e, i)]) (c.handOut i st e rest) i := by
    intro t x ht hx
    rcases lookup hx with ⟨-, rfl⟩ | ⟨hne, -⟩
    · rw [ofStream_append, ofStream_self]
      exact ((h.frugal i t st ht hst).inStep (by simp [page])).handOut page
    · exact absurd rfl hne
  refine ⟨⟨h.served, ?_, h.pageSize, h.limit, ?_, fun j t x ht hx => ?_⟩, fun fresh => ?_, fun j hj => ?_⟩
  · simpa [MergeCursor.handOut] using h.size
  · simp [MergeCursor.handOut, h.returned]
  · by_cases hj : j = i
    · subst hj
      have frugal := h.frugal j t st ht hst
      rcases lookup hx with ⟨-, rfl⟩ | ⟨hne, -⟩
      · have room := frugal.room
        rw [page, List.length_cons] at room
        exact ⟨frugal.contiguous, frugal.apart, Nat.le_of_succ_le room, fun _ => step t _ ht hx⟩
      · exact absurd rfl hne
    · rw [ofStream_append, ofStream_of_ne hj, List.append_nil]
      rcases lookup hx with ⟨hji, -⟩ | ⟨-, hx⟩
      · exact absurd hji hj
      · exact h.frugal j t x ht hx
  · exact absurd (hstarted.symm.trans fresh) (by decide)
  · simp only [MergeCursor.handOut, none_due] at hj
    split at hj <;> cases hj
    exact step

theorem Fetching.thrifty (h : Fetching tables n limit sources out c) (none_due : c.refill = none)
    (hstarted : c.started = true) : Thrifty tables n limit sources out c :=
  ⟨h, fun fresh => absurd (hstarted.symm.trans fresh) (by decide),
    fun i hi => absurd (none_due.symm.trans hi) (by simp)⟩

/-- One advance: what it hands out, and what it fetches if the limit leaves room for it. -/
theorem advance_thrifty (h : Thrifty tables n limit sources out c) :
    ∃ given : List Tagged, (call PageSource.fetch .advance (c, sources)).1 = given.map (·.1) ∧
      Thrifty tables n limit (call PageSource.fetch .advance (c, sources)).2.2 (out ++ given)
        (call PageSource.fetch .advance (c, sources)).2.1 ∧
      ∀ j t, tables[j]? = some t →
        fetchesOf (call PageSource.fetch .advance (c, sources)).2.2 j = fetchesOf sources j ∨
        limit.all (out.length < ·) = true ∧ FetchesOn t.2 n (ofStream j out) (fetchesOf sources j)
          (fetchesOf (call PageSource.fetch .advance (c, sources)).2.2 j) := by
  have quiet : Thrifty tables n limit sources out { c with current := none } :=
    ⟨h.fetching.congr rfl rfl rfl rfl, h.fresh, h.due⟩
  have room (open_ : (c.closed || c.limit.any (· ≤ c.returned)) = false) :
      limit.all (out.length < ·) = true := by
    obtain ⟨-, below⟩ := Bool.or_eq_false_iff.mp open_
    rw [h.fetching.limit, h.fetching.returned] at below
    cases limit with
    | none => rfl
    | some l => simpa using below
  have prepared := prepare_fetching quiet
  have advanced := advance_cases PageSource.fetch c sources
  simp only [call]
  generalize advance PageSource.fetch (c, sources) = next at advanced ⊢
  cases advanced with
  | ended full => exact ⟨[], rfl, by simpa using quiet, fun _ _ _ => .inl rfl⟩
  | @failed f c' s' open_ ready =>
    rw [ready] at prepared
    obtain ⟨fetching, none_due, hstarted, grows⟩ := prepared
    exact ⟨[], rfl, by simpa using fetching.thrifty none_due hstarted,
      fun j t ht => (grows j t ht).imp_right fun more => ⟨room open_, more⟩⟩
  | @exhausted c' s' open_ ready empty =>
    rw [ready] at prepared
    obtain ⟨fetching, none_due, hstarted, grows⟩ := prepared
    exact ⟨[], rfl, by simpa using fetching.thrifty none_due hstarted,
      fun j t ht => (grows j t ht).imp_right fun more => ⟨room open_, more⟩⟩
  | @moved c' s' i st e rest open_ ready stream page least =>
    rw [ready] at prepared
    obtain ⟨fetching, none_due, hstarted, grows⟩ := prepared
    exact ⟨[(e, i)], rfl, fetching.handOut none_due hstarted stream page,
      fun j t ht => (grows j t ht).imp_right fun more => ⟨room open_, more⟩⟩

/-- Some advances in a row, with the events that they give. -/
def advances (k : Nat) (p : MergeCursor × List PageSource) : List CaptureEvent × MergeCursor × List PageSource :=
  calls PageSource.fetch (List.replicate k .advance) p

theorem advances_succ (k : Nat) (p : MergeCursor × List PageSource) :
    advances (k + 1) p = ((advances k p).1 ++ (call PageSource.fetch .advance (advances k p).2).1,
      (call PageSource.fetch .advance (advances k p).2).2) := by
  rw [advances, List.replicate_succ', calls_append]
  simp only [calls, List.append_nil, advances]

/-- What is handed out by and by, and what is fetched at each turn. -/
theorem advances_thrifty (h : Thrifty tables n limit sources [] c) : ∃ out : Nat → List Tagged, ∀ k,
    (advances k (c, sources)).1 = (out k).map (·.1) ∧
    Thrifty tables n limit (advances k (c, sources)).2.2 (out k) (advances k (c, sources)).2.1 ∧
    out k <+: out (k + 1) ∧ ∀ j t, tables[j]? = some t →
      fetchesOf (advances (k + 1) (c, sources)).2.2 j = fetchesOf (advances k (c, sources)).2.2 j ∨
      limit.all ((out k).length < ·) = true ∧ FetchesOn t.2 n (ofStream j (out k))
        (fetchesOf (advances k (c, sources)).2.2 j) (fetchesOf (advances (k + 1) (c, sources)).2.2 j) := by
  let Inv (k : Nat) (out : List Tagged) : Prop := (advances k (c, sources)).1 = out.map (·.1) ∧
    Thrifty tables n limit (advances k (c, sources)).2.2 out (advances k (c, sources)).2.1
  have turn (k : Nat) (out : {out // Inv k out}) : ∃ given, Inv (k + 1) (out.1 ++ given) ∧
      ∀ j t, tables[j]? = some t →
        fetchesOf (advances (k + 1) (c, sources)).2.2 j = fetchesOf (advances k (c, sources)).2.2 j ∨
        limit.all (out.1.length < ·) = true ∧ FetchesOn t.2 n (ofStream j out.1)
          (fetchesOf (advances k (c, sources)).2.2 j) (fetchesOf (advances (k + 1) (c, sources)).2.2 j) := by
    obtain ⟨out, events, thrifty⟩ := out
    obtain ⟨given, hgiven, later, grows⟩ := advance_thrifty thrifty
    simp only [Inv, advances_succ]
    exact ⟨given, ⟨by rw [List.map_append, events, hgiven], later⟩, grows⟩
  choose given inv grows using turn
  let outs : (k : Nat) → {out // Inv k out} := fun k => k.rec ⟨[], rfl, h⟩ fun k out => ⟨_, inv k out⟩
  exact ⟨fun k => (outs k).1, fun k => ⟨(outs k).2.1, (outs k).2.2, List.prefix_append .., grows k (outs k)⟩⟩

theorem thrifty_create {tables : List (String × List CaptureEvent)} {pageSize : Int}
    {after : Entries String Int} {limit : Option Int}
    (created : create (tables.map (·.1)) pageSize after limit = .ok c) :
    Thrifty (tables.map fun t => (after.get? t.1, t.2)) pageSize.toNat (limit.map Int.toNat)
      (tables.map fun t => ⟨t.1, .rows t.2, []⟩) [] c := by
  unfold create at created
  split at created
  · cases created
  split at created
  · cases created
  cases created
  have new (i : Nat) : fetchesOf (tables.map fun t => ⟨t.1, .rows t.2, []⟩) i = [] := by
    simp only [fetchesOf, List.getElem?_map]
    cases tables[i]? <;> rfl
  have streams {i : Nat} {t : Option Int × List CaptureEvent} {st : Stream}
      (ht : (tables.map fun t => (after.get? t.1, t.2))[i]? = some t)
      (hst : ((tables.map (·.1)).map (Stream.start after))[i]? = some st) :
      ∃ name, t.1 = after.get? name ∧ st = Stream.start after name := by
    simp only [List.getElem?_map, Option.map_map, Option.map_eq_some_iff] at ht hst
    obtain ⟨u, hu, rfl⟩ := ht
    obtain ⟨v, hv, rfl⟩ := hst
    cases hu.symm.trans hv
    exact ⟨u.1, rfl, rfl⟩
  refine ⟨⟨?_, by simp, rfl, rfl, rfl, fun i t st ht hst => ?_⟩, fun _ => ⟨rfl, fun i t st ht hst => ?_⟩,
    fun i due => absurd due.symm (Option.some_ne_none i)⟩
  · rw [List.map_map, List.map_map, List.map_map]
    rfl
  · obtain ⟨name, hname, rfl⟩ := streams ht hst
    rw [new, hname]
    exact Stream.frugal_start t.2 _ after name
  · obtain ⟨name, hname, rfl⟩ := streams ht hst
    rw [new, hname]
    exact Stream.inStep_start t.2 _ after name

theorem answer_spec (served : sources.map (·.supply) = (tables.map (·.2)).map .rows) {after : Option Int}
    {rows : List CaptureEvent} {sources' : List PageSource}
    (answer : PageSource.fetch i after n sources = (.ok rows, sources')) :
    rows.length ≤ n ∧ sources'.map (·.supply) = (tables.map (·.2)).map .rows := by
  cases ht : tables[i]? with
  | some t =>
    have rows_ : (tables.map (·.2))[i]? = some t.2 := by simp [ht]
    obtain ⟨_, answer', served', -⟩ := fetch_rows served rows_ after n
    cases answer.symm.trans answer'
    exact ⟨length_firstAfter_le .., served'⟩
  | none =>
    have absent : sources[i]? = none := by
      have same := congrArg (·[i]?) served
      simpa [ht] using same
    simp only [PageSource.fetch, absent] at answer
    cases answer
    exact ⟨Nat.zero_le n, served⟩

/-- A stream takes in a page only when it has none, so that filling streams leaves room in each of them. -/
theorem fillAll_room (is : List Nat) (served : sources.map (·.supply) = (tables.map (·.2)).map .rows)
    (pageSize : c.pageSize = n) (room : ∀ st ∈ c.streams, st.page.length ≤ n) :
    ∀ st ∈ (fillAll PageSource.fetch is (c, sources)).2.1.streams, st.page.length ≤ n := by
  induction is generalizing c sources with
  | nil => exact room
  | cons i rest ih =>
    have filled := fill_cases PageSource.fetch i c sources
    simp only [fillAll, Action.bind_apply]
    generalize fill PageSource.fetch i (c, sources) = next at filled ⊢
    cases filled with
    | idle head => exact ih served pageSize room
    | failed lacks answer => exact room
    | refused lacks answer refuses => exact room
    | @received st rows st' sources' lacks answer receives =>
      obtain ⟨short, served'⟩ := answer_spec served answer
      refine ih served' pageSize fun x hx => ?_
      rcases List.mem_or_eq_of_mem_set hx with hx | rfl
      · exact room x hx
      · rcases Stream.receive_cases receives with ⟨-, rfl⟩ | ⟨last, -, -, rfl⟩
        · exact room st (List.mem_of_getElem? lacks.1)
        · rw [lacks.2.1, List.nil_append]
          exact pageSize ▸ short

/-- What is fetched of one table. -/
structure ReadByPages (rows : List CaptureEvent) (n : Nat) (start : Option Int)
    (fetches : List (Option Int × Nat)) : Prop where
  contiguous : Contiguous rows n start fetches
  /-- No row is fetched twice, for the rows of one page come before those of the next. -/
  apart : (pages rows fetches).Pairwise Before
  /-- Of a table in order the fetched rows are the first after the start. -/
  inOrder : Ascending (·.key) rows → (pages rows fetches).flatten <+: beyond (·.key) start rows

/-- Any number of advances asks each source for its pages one after the other, for the next one only when all rows
before it have been handed out and the limit has not been reached. No stream ever holds more than one page, not even
in the course of an advance. -/
theorem fetches_by_pages {tables : List (String × List CaptureEvent)} {pageSize : Int}
    {after : Entries String Int} {limit : Option Int}
    (created : create (tables.map (·.1)) pageSize after limit = .ok c) :
    let at_ := fun k => (advances k (c, tables.map fun t => ⟨t.1, .rows t.2, []⟩)).2
    let asked := fun k => fetchesOf (at_ k).2
    ∃ out : Nat → List Tagged, ∀ k,
      (advances k (c, tables.map fun t => ⟨t.1, .rows t.2, []⟩)).1 = (out k).map (·.1) ∧
      out k <+: out (k + 1) ∧
      ∀ i name rows, tables[i]? = some (name, rows) →
        ReadByPages rows pageSize.toNat (after.get? name) (asked k i) ∧
        (asked (k + 1) i = asked k i ∨ (∀ l, limit = some l → (out k).length < l) ∧
          FetchesOn rows pageSize.toNat (ofStream i (out k)) (asked k i) (asked (k + 1) i)) ∧
        ∀ is st, (fillAll PageSource.fetch is (at_ k)).2.1.streams[i]? = some st →
          st.page.length ≤ pageSize.toNat := by
  intro at_ asked
  obtain ⟨out, run⟩ := advances_thrifty (thrifty_create created)
  have positive : 0 < pageSize.toNat := by
    unfold create at created
    split at created
    · cases created
    · omega
  refine ⟨out, fun k => ?_⟩
  obtain ⟨events, thrifty, grown, grows⟩ := run k
  refine ⟨events, grown, fun i name rows hi => ?_⟩
  have table : (tables.map fun t => (after.get? t.1, t.2))[i]? = some (after.get? name, rows) := by simp [hi]
  refine ⟨?_, ?_, fun is st hst => ?_⟩
  · have hlt : i < (at_ k).1.streams.length :=
      thrifty.fetching.size ▸ (List.getElem?_eq_some_iff.mp table).1
    have here := thrifty.fetching.frugal i _ _ table (List.getElem?_eq_getElem hlt)
    exact ⟨here.contiguous, here.apart, here.contiguous.flatten_prefix positive⟩
  · refine (grows i _ table).imp_right (And.imp_left fun room l hl => ?_)
    rw [hl, Option.map_some, Option.all_some, decide_eq_true_eq] at room
    omega
  · refine fillAll_room is thrifty.fetching.served thrifty.fetching.pageSize (fun x hx => ?_) st
      (List.mem_of_getElem? hst)
    obtain ⟨j, hj, rfl⟩ := List.mem_iff_getElem.mp hx
    exact (thrifty.fetching.frugal j _ _ (List.getElem?_eq_getElem (thrifty.fetching.size ▸ hj))
      (List.getElem?_eq_getElem hj)).room

/-- The items run out with the third event, so that the fourth advance asks for more of them. The limit leaves no
advance that could ask for more orders. -/
theorem fetches_two_tables :
    ∃ c, create ["orders", "items"] 2 [("orders", 1)] (some 4) = .ok c ∧ ∃ out : Nat → List Tagged,
      let at_ := fun k => (advances k (c, twoTables.map fun t => ⟨t.1, .rows t.2, []⟩)).2
      (out 3).length < 4 ∧ ofStream 1 (out 3) = (pages (twoTables[1].2) [(none, 2)]).flatten ∧
        (fetchesOf (at_ 3).2 0, fetchesOf (at_ 3).2 1) = ([(some 1, 2)], [(none, 2)]) ∧
        (fetchesOf (at_ 9).2 0, fetchesOf (at_ 9).2 1) = ([(some 1, 2)], [(none, 2), (some 3, 2)]) := by
  have created : ∃ c, create (twoTables.map (·.1)) 2 [("orders", 1)] (some 4) = .ok c := ⟨_, rfl⟩
  obtain ⟨c, created⟩ := created
  obtain ⟨out, run⟩ := fetches_by_pages created
  obtain ⟨-, -, streams⟩ := run 3
  obtain ⟨-, fetched, -⟩ := streams 1 _ _ rfl
  cases created
  obtain ⟨room, given, -⟩ := fetched.resolve_left (by decide)
  exact ⟨_, rfl, out, Int.ofNat_lt.mp (room 4 rfl), given, by decide, by decide⟩

end MergeCursor
end IndexSync
