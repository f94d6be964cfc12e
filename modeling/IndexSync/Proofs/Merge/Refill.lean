import IndexSync.Proofs.Merge.PlainMerge

/-! What the streams of a cursor have left. A refill moves rows from a table to a page and changes
nothing in what is left, so that the size of the pages does not show. -/
namespace IndexSync

/-- A list in which one entry is set has the other entries as before. -/
theorem entry_of_set {α : Type} {xs : List α} {i j : Nat} {a x : α} (h : (xs.set i a)[j]? = some x) :
    j = i ∧ x = a ∨ j ≠ i ∧ xs[j]? = some x := by
  rw [List.getElem?_set] at h
  split at h
  · rename_i hij
    split at h <;> cases h
    exact .inl ⟨hij.symm, rfl⟩
  · rename_i hij
    exact .inr ⟨Ne.symm hij, h⟩

/-- Fetches that answer with the rows of fixed tables, in surroundings that stay fine. -/
def Fetch.Serves {σ : Type} (fetch : Fetch σ) (Fine : σ → Prop)
    (tables : List (List CaptureEvent)) : Prop :=
  ∀ i rows, tables[i]? = some rows → ∀ after n s, Fine s →
    ∃ s', fetch i after n s = (.ok ((beyond (·.key) after rows).take n), s') ∧ Fine s'

namespace Stream

/-- What a stream over a table has left: its page, and what further pages will hold. -/
def left (rows : List CaptureEvent) (st : Stream) : List CaptureEvent :=
  st.page ++ if st.exhausted then [] else beyond (·.key) st.lastKey rows

/-- The head of a stream is in its page, unless nothing is left. -/
def HasHead (st : Stream) : Prop := st.page = [] → st.exhausted = true

theorem left_start (after : Entries String Int) (name : String) (rows : List CaptureEvent) :
    (start after name).left rows = beyond (·.key) (after.get? name) rows := rfl

theorem receive_left {st : Stream} {rows : List CaptureEvent} {n : Nat}
    (hasc : Ascending (·.key) rows) (hn : 0 < n) (hpage : st.page = [])
    (hmore : st.exhausted = false) :
    ∃ st', st.receive n ((beyond (·.key) st.lastKey rows).take n) = .ok st' ∧
      st'.left rows = st.left rows ∧ st'.HasHead := by
  have hleft : st.left rows = beyond (·.key) st.lastKey rows := by
    simp [left, hpage, hmore]
  rcases hlast : ((beyond (·.key) st.lastKey rows).take n).getLast? with _ | last
  · -- an empty page is the end of the stream
    have hnil : beyond (·.key) st.lastKey rows = [] := by
      have := List.getLast?_eq_none_iff.1 hlast
      rcases List.take_eq_nil_iff.1 this with h | h
      · omega
      · exact h
    refine ⟨{ st with exhausted := true }, ?_, ?_, fun _ => rfl⟩
    · simp [receive, hlast]
    · simp [hnil, left, hpage]
  · have horder : disorder? st.lastKey ((beyond (·.key) st.lastKey rows).take n) = none :=
      disorder?_eq_none ((hasc.beyond _).sublist (List.take_sublist ..))
        fun r hr => (List.mem_filter.1 (List.mem_of_mem_take hr)).2
    have hreceive : st.receive n ((beyond (·.key) st.lastKey rows).take n) = .ok { st with
        page := st.page ++ (beyond (·.key) st.lastKey rows).take n
        lastKey := some last.key
        exhausted := ((beyond (·.key) st.lastKey rows).take n).length < n } := by
      simp only [receive, hlast, horder]
    refine ⟨_, hreceive, ?_, ?_⟩
    · have hrest := hasc.beyond_getLast_take hlast
      by_cases hshort : ((beyond (·.key) st.lastKey rows).take n).length < n
      · have hlen : (beyond (·.key) st.lastKey rows).length ≤ n := by
          rw [List.length_take] at hshort
          omega
        rw [List.take_of_length_le hlen] at hshort
        simp [left, hpage, hmore, hshort, List.take_of_length_le hlen]
      · simp only [left, hpage, hmore, List.nil_append, hshort, decide_false, Bool.false_eq_true,
          if_false, hrest, List.take_append_drop]
    · intro hnil
      simp only [hpage, List.nil_append] at hnil
      simp [hnil] at hlast

end Stream

namespace MergeCursor

variable {σ : Type} {fetch : Fetch σ} {Fine : σ → Prop} {tables : List (List CaptureEvent)}

def leftOf (tables : List (List CaptureEvent)) (streams : List Stream) :
    List (List CaptureEvent) :=
  List.zipWith Stream.left tables streams

/-- Stream `i` is not waiting for a page. -/
def HeadAt (streams : List Stream) (i : Nat) : Prop :=
  ∀ st, streams[i]? = some st → st.HasHead

/-- Streams after some refills: what they have left is the same. -/
structure Refilled (tables : List (List CaptureEvent)) (old new : List Stream) : Prop where
  length : new.length = old.length
  left : leftOf tables new = leftOf tables old
  heads : ∀ i, HeadAt old i → HeadAt new i

theorem Refilled.refl (streams : List Stream) : Refilled tables streams streams :=
  ⟨rfl, rfl, fun _ h => h⟩

theorem Refilled.trans {a b c : List Stream} (h : Refilled tables a b) (h' : Refilled tables b c) :
    Refilled tables a c :=
  ⟨h'.length.trans h.length, h'.left.trans h.left, fun i hi => h'.heads i (h.heads i hi)⟩

theorem Refilled.set {streams : List Stream} {i : Nat} {rows : List CaptureEvent}
    {st st' : Stream} (hrows : tables[i]? = some rows) (hst : streams[i]? = some st)
    (hleft : st'.left rows = st.left rows) (hhead : st'.HasHead) :
    Refilled tables streams (streams.set i st') := by
  refine ⟨List.length_set, ?_, fun j hj => ?_⟩
  · refine List.ext_getElem? fun j => ?_
    simp only [leftOf, List.getElem?_zipWith, List.getElem?_set]
    by_cases hij : i = j
    · subst hij
      obtain ⟨hlt, rfl⟩ := List.getElem?_eq_some_iff.1 hst
      simp [hrows, hlt, hleft]
    · simp [hij]
  · intro x hx
    rcases entry_of_set hx with ⟨-, rfl⟩ | ⟨-, hx⟩
    · exact hhead
    · exact hj x hx

theorem fill_spec (hf : fetch.Serves Fine tables)
    (hasc : ∀ rows ∈ tables, Ascending (·.key) rows) {c : MergeCursor}
    (hlen : c.streams.length = tables.length) (hn : 0 < c.pageSize) {s : σ} (hs : Fine s)
    (i : Nat) :
    ∃ streams s', fill fetch i (c, s) = (.ok (), { c with streams := streams }, s') ∧ Fine s' ∧
      Refilled tables c.streams streams ∧ HeadAt streams i := by
  rcases hst : c.streams[i]? with _ | st
  · refine ⟨c.streams, s, by simp [fill, hst], hs, .refl _, fun st h => ?_⟩
    simp [hst] at h
  · have hi : i < tables.length := hlen ▸ (List.getElem?_eq_some_iff.1 hst).1
    have hrows : tables[i]? = some tables[i] := List.getElem?_eq_getElem hi
    by_cases hskip : (st.exhausted || !st.page.isEmpty) = true
    · refine ⟨c.streams, s, by simp [fill, hst, hskip], hs, .refl _, fun st' h hpage => ?_⟩
      obtain rfl : st = st' := Option.some.inj (hst.symm.trans h)
      simpa [hpage] using hskip
    · simp only [Bool.or_eq_true, Bool.not_eq_true', not_or, Bool.not_eq_true,
        Bool.not_eq_false, List.isEmpty_iff] at hskip
      obtain ⟨s', hfetch, hs'⟩ := hf i _ hrows st.lastKey c.pageSize s hs
      obtain ⟨st', hrec, hleft, hhead⟩ := Stream.receive_left
        (hasc _ (List.getElem_mem hi)) hn hskip.2 hskip.1
      have hr := Refilled.set hrows hst hleft hhead
      refine ⟨c.streams.set i st', s', ?_, hs', hr, fun x hx => ?_⟩
      · simp [fill, hst, hskip.1, hskip.2, hfetch, hrec, setStream]
      · rw [List.getElem?_set_self (hlen ▸ hi)] at hx
        exact Option.some.inj hx ▸ hhead

theorem fillAll_spec (hf : fetch.Serves Fine tables)
    (hasc : ∀ rows ∈ tables, Ascending (·.key) rows) (is : List Nat) {c : MergeCursor}
    (hlen : c.streams.length = tables.length) (hn : 0 < c.pageSize) {s : σ} (hs : Fine s) :
    ∃ streams s', fillAll fetch is (c, s) = (.ok (), { c with streams := streams }, s') ∧ Fine s' ∧
      Refilled tables c.streams streams ∧ ∀ i ∈ is, HeadAt streams i := by
  induction is generalizing c s with
  | nil => exact ⟨c.streams, s, rfl, hs, .refl _, by simp⟩
  | cons i rest ih =>
    obtain ⟨streams, s₁, hfill, hs₁, hr, hi⟩ := fill_spec hf hasc hlen hn hs i
    obtain ⟨streams', s₂, hrest, hs₂, hr', his⟩ :=
      ih (c := { c with streams := streams }) (hr.length.trans hlen) hn hs₁
    refine ⟨streams', s₂, ?_, hs₂, hr.trans hr', ?_⟩
    · simp only [fillAll, Action.bind_apply, hfill, hrest]
    · intro j hj
      rcases List.mem_cons.1 hj with rfl | hj
      · exact hr'.heads j hi
      · exact his j hj

/-- A cursor over tables: open, and waiting for at most the page that its last advance has used up. -/
structure Ready (tables : List (List CaptureEvent)) (c : MergeCursor) : Prop where
  length : c.streams.length = tables.length
  pageSize : 0 < c.pageSize
  ascending : ∀ rows ∈ leftOf tables c.streams, Ascending (·.key) rows
  isOpen : c.closed = false
  fresh : c.started = false → c.refill = none
  heads : c.started = true → ∀ i, c.refill = some i ∨ HeadAt c.streams i

/-- After the preparation of an advance every stream has its head in its page. -/
theorem prepare_spec (hf : fetch.Serves Fine tables)
    (hasc : ∀ rows ∈ tables, Ascending (·.key) rows) {c : MergeCursor} (hc : Ready tables c)
    {s : σ} (hs : Fine s) :
    ∃ streams s', prepare fetch (c, s) =
        (.ok (), { c with streams := streams, started := true, refill := none }, s') ∧ Fine s' ∧
      Refilled tables c.streams streams ∧ ∀ i, HeadAt streams i := by
  rcases hstart : c.started with _ | _
  · obtain ⟨streams, s', hfill, hs', hr, hi⟩ := fillAll_spec hf hasc
      (List.range c.streams.length) (c := { c with started := true }) hc.length hc.pageSize hs
    refine ⟨streams, s', ?_, hs', hr, fun i => ?_⟩
    · simp only [prepare, hstart, Bool.not_false, if_true]
      rw [hfill, hc.fresh hstart]
    · by_cases hlt : i < c.streams.length
      · exact hi i (List.mem_range.2 hlt)
      · intro st hst
        exact absurd (hr.length ▸ (List.getElem?_eq_some_iff.1 hst).1) hlt
  · rcases hrefill : c.refill with _ | i
    · refine ⟨c.streams, s, ?_, hs, .refl _, fun i => ?_⟩
      · simp only [prepare, hstart, hrefill, Bool.not_true, Bool.false_eq_true, if_false]
        rw [← hstart, ← hrefill]
      · simpa [hrefill] using hc.heads hstart i
    · obtain ⟨streams, s', hfill, hs', hr, hi⟩ :=
        fill_spec hf hasc (c := { c with refill := none }) hc.length hc.pageSize hs i
      refine ⟨streams, s', ?_, hs', hr, fun j => ?_⟩
      · simp only [prepare, hstart, hrefill, Bool.not_true, Bool.false_eq_true, if_false]
        rw [← hstart, hfill]
      · by_cases hij : i = j
        · exact hij ▸ hi
        · exact hr.heads j ((hc.heads hstart j).resolve_left (by simp [hrefill, hij]))

end MergeCursor
end IndexSync
