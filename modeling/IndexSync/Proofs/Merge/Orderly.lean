import IndexSync.Proofs.Merge.Calls
import Mathlib.Data.List.Induction

/-!
# Order, whatever the sources do

Sources may return pages of any length in any order, repeat rows, and fail. What a cursor hands out still
ascends by key and stream, for a page is taken in only if it goes on where its stream has come, and no
other stream can come before the head that is handed out.
-/
namespace IndexSync

variable {σ : Type}

/-- The order in which events are handed out: by key, those of equal keys by stream. -/
def Earlier (a b : Tagged) : Prop := a.1.key < b.1.key ∨ a.1.key = b.1.key ∧ a.2 < b.2

theorem Earlier.trans {a b c : Tagged} (hab : Earlier a b) (hbc : Earlier b c) : Earlier a c := by
  unfold Earlier at *
  omega

namespace Stream

/-- A page goes on from a key: its keys ascend, all of them beyond that key. -/
def GoesOn (after : Option Int) (page : List CaptureEvent) : Prop :=
  Ascending (·.key) page ∧ ∀ e ∈ page, after.all (· < e.key)

instance (after : Option Int) (page : List CaptureEvent) : Decidable (GoesOn after page) :=
  inferInstanceAs (Decidable (_ ∧ _))

/-- The key that rows have come to which start after a key. -/
def keyAfter (after : Option Int) (rows : List CaptureEvent) : Option Int :=
  (rows.getLast?.map (·.key)).or after

/-- The rows of the pages that go on, each from where the pages before it have come. -/
def accepted (after : Option Int) : List (List CaptureEvent) → List CaptureEvent
  | [] => []
  | page :: rest =>
    if GoesOn after page then page ++ accepted (keyAfter after page) rest else accepted after rest

variable {after : Option Int} {page rows : List CaptureEvent} {pages : List (List CaptureEvent)}

theorem disorder?_eq_none_iff : disorder? after page = none ↔ GoesOn after page := by
  refine ⟨fun h => ?_, fun h => disorder?_eq_none h.1 h.2⟩
  induction page generalizing after with
  | nil => exact ⟨.nil, by simp⟩
  | cons e rest ih =>
    have goes (h : disorder? (some e.key) rest = none) (he : after.all (· < e.key)) :
        GoesOn after (e :: rest) := by
      obtain ⟨hasc, hrest⟩ := ih h
      refine ⟨List.pairwise_cons.mpr ⟨fun r hr => by simpa using hrest r hr, hasc⟩, ?_⟩
      refine List.forall_mem_cons.mpr ⟨he, fun r hr => ?_⟩
      have hr := hrest r hr
      cases after with
      | none => rfl
      | some k =>
        simp only [Option.all_some, decide_eq_true_eq] at he hr ⊢
        omega
    cases after with
    | none => exact goes h rfl
    | some k =>
      simp only [disorder?] at h
      split at h
      · cases h
      · exact goes h (by simpa using ‹¬ e.key ≤ k›)

theorem keyAfter_append (after : Option Int) (rows page : List CaptureEvent) :
    keyAfter after (rows ++ page) = keyAfter (keyAfter after rows) page := by
  simp [keyAfter, List.getLast?_append, Option.map_or, Option.or_assoc]

theorem GoesOn.append (h : GoesOn after rows) (h' : GoesOn (keyAfter after rows) page) :
    GoesOn after (rows ++ page) := by
  cases hlast : rows.getLast? with
  | none =>
    obtain rfl := List.getLast?_eq_none_iff.mp hlast
    exact h'
  | some last =>
    have hmem : last ∈ rows := List.mem_of_getLast? hlast
    have beyond : ∀ e ∈ page, last.key < e.key := fun e he => by
      simpa [keyAfter, hlast] using h'.2 e he
    refine ⟨List.pairwise_append.mpr ⟨h.1, h'.1, fun a ha b hb => ?_⟩, ?_⟩
    · have : a.key ≤ last.key := h.1.key_le_getLast hlast ha
      exact Int.lt_of_le_of_lt this (beyond b hb)
    · intro e he
      rcases List.mem_append.mp he with he | he
      · exact h.2 e he
      · have hl := h.2 last hmem
        cases after with
        | none => rfl
        | some k =>
          have := beyond e he
          simp only [Option.all_some, decide_eq_true_eq] at hl ⊢
          omega

theorem goesOn_accepted (after : Option Int) (pages : List (List CaptureEvent)) :
    GoesOn after (accepted after pages) := by
  induction pages generalizing after with
  | nil => exact ⟨.nil, by simp [accepted]⟩
  | cons page rest ih =>
    rw [accepted]
    split
    · exact GoesOn.append ‹_› (ih _)
    · exact ih after

theorem accepted_concat (after : Option Int) (pages : List (List CaptureEvent))
    (page : List CaptureEvent) : accepted after (pages ++ [page]) = accepted after pages ++
      if GoesOn (keyAfter after (accepted after pages)) page then page else [] := by
  induction pages generalizing after with
  | nil =>
    have start : keyAfter after [] = after := rfl
    simp only [List.nil_append, accepted, List.append_nil, start]
  | cons first rest ih =>
    simp only [List.cons_append, accepted]
    split
    · rw [ih, keyAfter_append, List.append_assoc]
    · exact ih after

theorem exists_of_mem_accepted {e : CaptureEvent} (h : e ∈ accepted after pages) :
    ∃ page ∈ pages, e ∈ page := by
  induction pages generalizing after with
  | nil => cases h
  | cons first rest ih =>
    have later {after : Option Int} (h : e ∈ accepted after rest) :
        ∃ page ∈ first :: rest, e ∈ page := by
      obtain ⟨page, hpage, he⟩ := ih h
      exact ⟨page, List.mem_cons_of_mem _ hpage, he⟩
    rw [accepted] at h
    split at h
    · rcases List.mem_append.mp h with h | h
      · exact ⟨first, List.mem_cons_self, h⟩
      · exact later h
    · exact later h

/-- A stream has handed out some of the rows that its source returned in order, and keeps the others in
its page. -/
structure Fed (after : Option Int) (pages : List (List CaptureEvent)) (handed : List CaptureEvent)
    (st : Stream) : Prop where
  part : handed ++ st.page <+: accepted after pages
  whole : st.exhausted = false → handed ++ st.page = accepted after pages
  key : st.lastKey = keyAfter after (accepted after pages)

variable {handed : List CaptureEvent} {st st' : Stream} {n : Nat}

theorem fed_start (after : Entries String Int) (name : String) :
    (start after name).Fed (after.get? name) [] [] :=
  ⟨List.nil_prefix, fun _ => rfl, rfl⟩

/-- What is kept in the page goes on from what has been handed out. -/
theorem Fed.goesOn (h : st.Fed after pages handed) : GoesOn after (handed ++ st.page) :=
  have all := goesOn_accepted after pages
  ⟨all.1.sublist h.part.sublist, fun e he => all.2 e (h.part.subset he)⟩

theorem Fed.receive (h : st.Fed after pages handed) (hpage : st.page = [])
    (more : st.exhausted = false) (receives : st.receive n page = .ok st') :
    st'.Fed after (pages ++ [page]) handed := by
  have before := h.whole more
  rw [hpage, List.append_nil] at before
  rcases receive_cases receives with ⟨rfl, rfl⟩ | ⟨last, hlast, horder, rfl⟩
  · have same : accepted after (pages ++ [[]]) = accepted after pages := by
      rw [accepted_concat]
      simp
    exact ⟨same ▸ h.part, nofun, same ▸ h.key⟩
  · have goes : GoesOn (keyAfter after (accepted after pages)) page := by
      rw [← h.key]
      exact disorder?_eq_none_iff.mp horder
    have all : accepted after (pages ++ [page]) = handed ++ page := by
      rw [accepted_concat, if_pos goes, before]
    refine ⟨?_, fun _ => ?_, ?_⟩
    · rw [all, hpage]
      exact List.prefix_refl _
    · rw [all, hpage]
      rfl
    · rw [all, keyAfter_append, keyAfter, hlast]
      rfl

/-- A page that is refused is as good as none. -/
theorem Fed.refuse (h : st.Fed after pages handed) {f : Failure}
    (refuses : st.receive n page = .error f) : st.Fed after (pages ++ [page]) handed := by
  have same : accepted after (pages ++ [page]) = accepted after pages := by
    have bad : ¬ GoesOn (keyAfter after (accepted after pages)) page := fun goes =>
      disorder?_of_receive refuses (disorder?_eq_none_iff.mpr (h.key ▸ goes))
    rw [accepted_concat, if_neg bad, List.append_nil]
  exact ⟨same ▸ h.part, same ▸ h.whole, same ▸ h.key⟩

theorem Fed.handOut (h : st.Fed after pages handed) {e : CaptureEvent} {rest : List CaptureEvent}
    (hpage : st.page = e :: rest) : Stream.Fed after pages (handed ++ [e]) { st with page := rest } := by
  obtain ⟨part, whole, key⟩ := h
  rw [hpage, ← List.singleton_append, ← List.append_assoc] at part whole
  exact ⟨part, whole, key⟩

theorem Fed.close (h : st.Fed after pages handed) : st.close.Fed after pages handed :=
  ⟨by simpa [Stream.close] using (List.prefix_append ..).trans h.part, nofun, h.key⟩

end Stream

namespace MergeCursor

variable {starts : List (Option Int)} {pages : List (List CaptureEvent × Nat)}
  {out : List Tagged} {c : MergeCursor} {i : Nat}

/-- What holds of a cursor between calls, with the pages that its sources have returned and the events
that it has handed out. -/
structure Orderly (starts : List (Option Int)) (pages : List (List CaptureEvent × Nat))
    (out : List Tagged) (c : MergeCursor) : Prop where
  size : c.streams.length = starts.length
  fed : ∀ i (st : Stream), c.streams[i]? = some st →
    st.Fed starts[i]?.join (ofStream i pages) (ofStream i out)
  known : ∀ x ∈ out, x.2 < starts.length
  ordered : out.Pairwise Earlier
  ahead : ∀ x ∈ out, ∀ i (st : Stream), c.streams[i]? = some st → ∀ e ∈ st.page, Earlier x (e, i)
  fresh : c.started = false → out = []
  due : ∀ i, c.refill = some i → ∃ front e, out = front ++ [(e, i)]
  shown : ∀ e, c.current = some e → ∃ front i, out = front ++ [(e, i)]

/-- Whatever goes on in stream `i` comes after all that has been handed out. -/
def Trails (out : List Tagged) (c : MergeCursor) (i : Nat) : Prop :=
  ∀ st, c.Lacks i st → ∀ r : CaptureEvent, st.lastKey.all (· < r.key) → ∀ x ∈ out, Earlier x (r, i)

/-- The stream that is due trails the event that it has handed out last. -/
theorem Orderly.trails (h : Orderly starts pages out c) (hrefill : c.refill = some i) :
    Trails out c i := by
  intro st lacks r beyond
  obtain ⟨front, e, rfl⟩ := h.due i hrefill
  have fed := h.fed i st lacks.1
  have hkey : st.lastKey = some e.key := by
    have handed := fed.whole lacks.2.2
    rw [lacks.2.1, List.append_nil, ofStream_append, ofStream_self] at handed
    rw [fed.key, ← handed]
    simp [Stream.keyAfter]
  have last : Earlier (e, i) (r, i) := .inl (by simpa [hkey] using beyond)
  intro x hx
  rcases List.mem_append.mp hx with hx | hx
  · exact ((List.pairwise_append.mp h.ordered).2.2 x hx _ List.mem_cons_self).trans last
  · exact List.mem_singleton.mp hx ▸ last

/-- A page from stream `i` does not bear on the other streams. -/
theorem Orderly.record (h : Orderly starts pages out c) {page : List CaptureEvent} {st' : Stream}
    (fed : st'.Fed starts[i]?.join (ofStream i pages ++ [page]) (ofStream i out))
    (ahead : ∀ x ∈ out, ∀ e ∈ st'.page, Earlier x (e, i)) :
    Orderly starts (pages ++ [(page, i)]) out (c.setStream i st') where
  size := by simpa [setStream] using h.size
  fed j st hst := by
    rw [ofStream_append]
    rcases entry_of_set hst with ⟨rfl, rfl⟩ | ⟨hne, hst⟩
    · rwa [ofStream_self]
    · rw [ofStream_of_ne hne, List.append_nil]
      exact h.fed j st hst
  known := h.known
  ordered := h.ordered
  ahead x hx j st hst := by
    rcases entry_of_set hst with ⟨rfl, rfl⟩ | ⟨-, hst⟩
    · exact ahead x hx
    · exact h.ahead x hx j st hst
  fresh := h.fresh
  due := h.due
  shown := h.shown

theorem setStream_self {st : Stream} (h : c.streams[i]? = some st) : c.setStream i st = c := by
  obtain ⟨hi, rfl⟩ := List.getElem?_eq_some_iff.mp h
  simp [setStream]

variable (fetch : Fetch σ) (s : σ)

/-- Filling a stream keeps a cursor orderly if the stream trails all that has been handed out. -/
theorem fill_orderly (h : Orderly starts pages out c) (trails : Trails out c i) :
    Orderly starts (fill fetch.recorded i (c, s, pages)).2.2.2 out
        (fill fetch.recorded i (c, s, pages)).2.1 ∧
      (fill fetch.recorded i (c, s, pages)).2.1.refill = c.refill ∧
      (fill fetch.recorded i (c, s, pages)).2.1.started = c.started := by
  have answered {st : Stream} {rows : List CaptureEvent} {s' : σ × List (List CaptureEvent × Nat)}
      (answer : fetch.recorded i st.lastKey c.pageSize (s, pages) = (.ok rows, s')) :
      s'.2 = pages ++ [(rows, i)] := by
    simp only [Fetch.recorded] at answer
    split at answer <;> cases answer
    rfl
  have filled := fill_cases fetch.recorded i c (s, pages)
  generalize fill fetch.recorded i (c, s, pages) = next at filled ⊢
  cases filled with
  | idle head => exact ⟨h, rfl, rfl⟩
  | @failed st f s' lacks answer =>
    obtain ⟨s', pages'⟩ := s'
    obtain rfl : pages' = pages := by
      simp only [Fetch.recorded] at answer
      split at answer <;> cases answer
      rfl
    exact ⟨h, rfl, rfl⟩
  | @refused st rows f s' lacks answer refuses =>
    obtain ⟨s', pages'⟩ := s'
    obtain rfl := answered answer
    have kept := h.record ((h.fed i st lacks.1).refuse refuses) (by simp [lacks.2.1])
    rw [setStream_self lacks.1] at kept
    exact ⟨kept, rfl, rfl⟩
  | @received st rows st' s' lacks answer receives =>
    obtain ⟨s', pages'⟩ := s'
    obtain rfl := answered answer
    refine ⟨h.record ((h.fed i st lacks.1).receive lacks.2.1 lacks.2.2 receives) ?_, rfl, rfl⟩
    intro x hx e he
    rcases Stream.receive_cases receives with ⟨rfl, rfl⟩ | ⟨last, -, horder, rfl⟩
    · simp [lacks.2.1] at he
    · rw [lacks.2.1, List.nil_append] at he
      exact trails st lacks e ((Stream.disorder?_eq_none_iff.mp horder).2 e he) x hx

theorem fillAll_orderly (is : List Nat) (h : Orderly starts pages [] c) :
    Orderly starts (fillAll fetch.recorded is (c, s, pages)).2.2.2 []
        (fillAll fetch.recorded is (c, s, pages)).2.1 ∧
      (fillAll fetch.recorded is (c, s, pages)).2.1.refill = c.refill ∧
      (fillAll fetch.recorded is (c, s, pages)).2.1.started = c.started := by
  induction is generalizing c s pages with
  | nil => exact ⟨h, rfl, rfl⟩
  | cons i rest ih =>
    have filled := fill_orderly fetch s h (i := i)
      fun st _ r _ x hx => absurd hx List.not_mem_nil
    simp only [fillAll, Action.bind_apply]
    generalize fill fetch.recorded i (c, s, pages) = next at filled ⊢
    obtain ⟨outcome, c', s', pages'⟩ := next
    cases outcome with
    | error f => exact filled
    | ok u =>
      obtain ⟨orderly, hrefill, hstarted⟩ := ih s' filled.1
      exact ⟨orderly, hrefill.trans filled.2.1, hstarted.trans filled.2.2⟩

/-- What an advance prepares keeps a cursor orderly, whether it goes well or not. -/
theorem prepare_orderly (h : Orderly starts pages out c) :
    Orderly starts (prepare fetch.recorded (c, s, pages)).2.2.2 out
        (prepare fetch.recorded (c, s, pages)).2.1 ∧
      (prepare fetch.recorded (c, s, pages)).2.1.refill = none ∧
      (prepare fetch.recorded (c, s, pages)).2.1.started = true := by
  cases hstarted : c.started with
  | false =>
    obtain rfl := h.fresh hstarted
    have none_due : c.refill = none := by
      rw [Option.eq_none_iff_forall_ne_some]
      intro i hi
      obtain ⟨front, e, hout⟩ := h.due i hi
      simp at hout
    have started : Orderly starts pages [] { c with started := true } :=
      ⟨h.size, h.fed, h.known, h.ordered, h.ahead, fun _ => rfl, h.due, h.shown⟩
    simp only [prepare, hstarted, Bool.not_false, if_true]
    have filled := fillAll_orderly fetch s (List.range c.streams.length) started
    exact ⟨filled.1, filled.2.1.trans none_due, filled.2.2⟩
  | true =>
    simp only [prepare, hstarted, Bool.not_true, Bool.false_eq_true, if_false]
    cases hrefill : c.refill with
    | none => exact ⟨h, hrefill, hstarted⟩
    | some i =>
      have waiting : Orderly starts pages out { c with refill := none, started := true } := by
        refine ⟨h.size, h.fed, h.known, h.ordered, h.ahead, fun fresh => ?_, fun j hj => ?_, h.shown⟩
        · cases fresh
        · cases hj
      exact fill_orderly fetch s waiting (h.trails hrefill)

/-- The least head comes after all that has been handed out, and before all that is kept. -/
theorem Orderly.handOut (h : Orderly starts pages out c) (none_due : c.refill = none)
    (hstarted : c.started = true) {st : Stream}
    {e : CaptureEvent} {rest : List CaptureEvent} (hst : c.streams[i]? = some st)
    (hpage : st.page = e :: rest)
    (least : ∀ j st' e' rest', c.streams[j]? = some st' → st'.page = e' :: rest' →
      e.key < e'.key ∨ e.key = e'.key ∧ i ≤ j) :
    Orderly starts pages (out ++ [(e, i)]) (c.handOut i st e rest) := by
  have behind : ∀ j st', c.streams[j]? = some st' → ∀ e' rest', st'.page = e' :: rest' →
      ∀ r ∈ rest', Earlier (e', j) (r, j) := by
    intro j st' hst' e' rest' hpage' r hr
    have asc := (h.fed j st' hst').goesOn.1
    rw [hpage'] at asc
    exact .inl (List.rel_of_pairwise_cons (List.pairwise_append.mp asc).2.1 hr)
  have lookup {j : Nat} {x : Stream} (hx : (c.handOut i st e rest).streams[j]? = some x) :
      j = i ∧ x = { st with page := rest } ∨ j ≠ i ∧ c.streams[j]? = some x :=
    entry_of_set hx
  refine ⟨?_, fun j x hx => ?_, fun x hx => ?_, ?_, fun x hx j st' hst' e' he' => ?_, fun fresh => ?_,
    fun j hj => ?_, fun e' he' => ?_⟩
  · simpa [MergeCursor.handOut] using h.size
  · rw [ofStream_append]
    rcases lookup hx with ⟨rfl, rfl⟩ | ⟨hne, hx⟩
    · rw [ofStream_self]
      exact (h.fed j st hst).handOut hpage
    · rw [ofStream_of_ne hne, List.append_nil]
      exact h.fed j x hx
  · rcases List.mem_append.mp hx with hx | hx
    · exact h.known x hx
    · exact List.mem_singleton.mp hx ▸ h.size ▸ (List.getElem?_eq_some_iff.mp hst).1
  · refine List.pairwise_append.mpr ⟨h.ordered, List.pairwise_singleton .., fun x hx y hy => ?_⟩
    exact List.mem_singleton.mp hy ▸ h.ahead x hx i st hst e (hpage ▸ List.mem_cons_self)
  · rcases lookup hst' with ⟨rfl, rfl⟩ | ⟨hne, hst'⟩
    · have first := behind j st hst e rest hpage e' he'
      rcases List.mem_append.mp hx with hx | hx
      · exact (h.ahead x hx j st hst e (hpage ▸ List.mem_cons_self)).trans first
      · exact List.mem_singleton.mp hx ▸ first
    · rcases List.mem_append.mp hx with hx | hx
      · exact h.ahead x hx j st' hst' e' he'
      · obtain ⟨head, tail, hpage'⟩ := List.exists_cons_of_ne_nil (List.ne_nil_of_mem he')
        have hhead : Earlier (e, i) (head, j) := by
          have := least j st' head tail hst' hpage'
          unfold Earlier
          simp only
          omega
        rw [List.mem_singleton.mp hx]
        rw [hpage'] at he'
        rcases List.mem_cons.mp he' with rfl | he'
        · exact hhead
        · exact hhead.trans (behind j st' hst' head tail hpage' e' he')
  · exact absurd (hstarted.symm.trans fresh) (by decide)
  · simp only [MergeCursor.handOut, none_due] at hj
    split at hj <;> cases hj
    exact ⟨out, e, rfl⟩
  · cases he'
    exact ⟨out, i, rfl⟩

/-- An advance keeps a cursor orderly, with the event that it hands out. -/
theorem advance_orderly (h : Orderly starts pages out c) :
    ∃ given : List Tagged, (call fetch.recorded .advance (c, s, pages)).1 = given.map (·.1) ∧
      Orderly starts (call fetch.recorded .advance (c, s, pages)).2.2.2 (out ++ given)
        (call fetch.recorded .advance (c, s, pages)).2.1 := by
  have quiet : Orderly starts pages out { c with current := none } :=
    ⟨h.size, h.fed, h.known, h.ordered, h.ahead, h.fresh, h.due, nofun⟩
  have prepared := prepare_orderly fetch s quiet
  have advanced := advance_cases fetch.recorded c (s, pages)
  simp only [call]
  generalize advance fetch.recorded (c, s, pages) = next at advanced ⊢
  cases advanced with
  | ended full => exact ⟨[], rfl, by simpa using quiet⟩
  | @failed f c' s' open_ ready =>
    rw [ready] at prepared
    exact ⟨[], rfl, by simpa using prepared.1⟩
  | @exhausted c' s' open_ ready empty =>
    rw [ready] at prepared
    exact ⟨[], rfl, by simpa using prepared.1⟩
  | @moved c' s' i st e rest open_ ready stream page least =>
    rw [ready] at prepared
    obtain ⟨orderly, none_due, hstarted⟩ := prepared
    exact ⟨[(e, i)], rfl, orderly.handOut none_due hstarted stream page least⟩

/-- A closed cursor keeps nothing. -/
theorem Orderly.close (h : Orderly starts pages out c) : Orderly starts pages out c.close where
  size := by simpa [MergeCursor.close] using h.size
  fed i st hst := by
    simp only [MergeCursor.close, List.getElem?_map, Option.map_eq_some_iff] at hst
    obtain ⟨st, hst, rfl⟩ := hst
    exact (h.fed i st hst).close
  known := h.known
  ordered := h.ordered
  ahead x hx i st hst e he := by
    simp only [MergeCursor.close, List.getElem?_map, Option.map_eq_some_iff] at hst
    obtain ⟨st, -, rfl⟩ := hst
    cases he
  fresh := h.fresh
  due := nofun
  shown := nofun

theorem call_orderly (first : Call) (h : Orderly starts pages out c) :
    ∃ given : List Tagged, (call fetch.recorded first (c, s, pages)).1 = given.map (·.1) ∧
      Orderly starts (call fetch.recorded first (c, s, pages)).2.2.2 (out ++ given)
        (call fetch.recorded first (c, s, pages)).2.1 := by
  cases first with
  | advance => exact advance_orderly fetch s h
  | read => exact ⟨[], rfl, (List.append_nil out).symm ▸ h⟩
  | close => exact ⟨[], rfl, (List.append_nil out).symm ▸ h.close⟩

/-- Any calls keep a cursor orderly. -/
theorem calls_orderly (cs : List Call) (h : Orderly starts pages out c) :
    ∃ given : List Tagged, (calls fetch.recorded cs (c, s, pages)).1 = given.map (·.1) ∧
      Orderly starts (calls fetch.recorded cs (c, s, pages)).2.2.2 (out ++ given)
        (calls fetch.recorded cs (c, s, pages)).2.1 := by
  induction cs generalizing c s pages out with
  | nil => exact ⟨[], rfl, (List.append_nil out).symm ▸ h⟩
  | cons first rest ih =>
    obtain ⟨given, hgiven, orderly⟩ := call_orderly fetch s first h
    simp only [calls]
    generalize call fetch.recorded first (c, s, pages) = next at hgiven orderly ⊢
    obtain ⟨es, c', s', pages'⟩ := next
    obtain ⟨more, hmore, orderly⟩ := ih s' orderly
    refine ⟨given ++ more, ?_, by simpa using orderly⟩
    rw [List.map_append, hgiven, hmore]

/-- A new cursor has taken in nothing and handed out nothing. -/
theorem orderly_create {names : List String} {pageSize : Int} {after : Entries String Int}
    {limit : Option Int} (created : create names pageSize after limit = .ok c) :
    Orderly (names.map after.get?) [] [] c := by
  unfold create at created
  split at created
  · cases created
  split at created
  · cases created
  cases created
  refine ⟨by simp, fun i st hst => ?_, nofun, .nil, nofun, fun _ => rfl, nofun, nofun⟩
  simp only [List.getElem?_map, Option.map_eq_some_iff] at hst ⊢
  obtain ⟨name, hname, rfl⟩ := hst
  rw [hname]
  exact Stream.fed_start after name

/-- Whatever sources do and whichever calls are made, the events that are handed out ascend strictly by
key and stream. Those of a stream lie beyond the key that it starts after, and are, from the first on and
with none left out, rows of the pages of its source that ascend from where the stream had come. The
event that can be read is the last. -/
theorem hands_out_in_order {names : List String} {pageSize : Int}
    {after : Entries String Int} {limit : Option Int} {c : MergeCursor}
    (created : create names pageSize after limit = .ok c) (cs : List Call) :
    ∃ out : List Tagged, (calls fetch cs (c, s)).1 = out.map (·.1) ∧
      out.Pairwise Earlier ∧
      (∀ x ∈ out, ∃ name, names[x.2]? = some name ∧ (after.get? name).all (· < x.1.key) ∧
        ∃ page ∈ ofStream x.2 (pagesOf fetch cs (c, s)), x.1 ∈ page) ∧
      (∀ i name, names[i]? = some name → ofStream i out <+:
        Stream.accepted (after.get? name) (ofStream i (pagesOf fetch cs (c, s)))) ∧
      ∀ e, (calls fetch cs (c, s)).2.1.event = .ok e → out.getLast?.map (·.1) = some e := by
  obtain ⟨out, hout, orderly⟩ := calls_orderly fetch s cs (orderly_create created)
  have same := calls_recorded fetch c s [] cs
  rw [List.nil_append] at orderly
  simp only [pagesOf]
  generalize calls fetch.recorded cs (c, s, []) = next at hout orderly same ⊢
  obtain ⟨es, c', s', pages⟩ := next
  have given : ∀ i name, names[i]? = some name →
      ofStream i out <+: Stream.accepted (after.get? name) (ofStream i pages) := by
    intro i name hname
    have hi : i < c'.streams.length := by
      rw [orderly.size, List.length_map]
      exact (List.getElem?_eq_some_iff.mp hname).1
    have part := (orderly.fed i _ (List.getElem?_eq_getElem hi)).part
    simp only [List.getElem?_map, hname, Option.map_some, Option.join_some] at part
    exact (List.prefix_append ..).trans part
  refine ⟨out, same ▸ hout, orderly.ordered, fun x hx => ?_, given, fun e he => ?_⟩
  · have hlt : x.2 < names.length := by simpa using orderly.known x hx
    have hname := List.getElem?_eq_getElem hlt
    have hmem : x.1 ∈ ofStream x.2 out :=
      List.mem_map.mpr ⟨x, List.mem_filter.mpr ⟨hx, by simp⟩, rfl⟩
    have haccepted := (given x.2 _ hname).subset hmem
    exact ⟨_, hname, (Stream.goesOn_accepted ..).2 _ haccepted, Stream.exists_of_mem_accepted haccepted⟩
  · rw [← same] at he
    simp only [unrecorded, event] at he
    split at he <;> cases he
    obtain ⟨front, i, rfl⟩ := orderly.shown e ‹_›
    simp

/-- Sources that return more rows than asked for, a page that does not go on, and no page at all. -/
def unrulySources : List PageSource :=
  let item (key : Int) : CaptureEvent := ⟨.root "shop" "Item", .int 8, .update, key, "items"⟩
  let order (key : Int) : CaptureEvent := ⟨.root "shop" "Order", .int 7, .update, key, "orders"⟩
  [.ofPages "items" [.ok [item 2, item 3, item 5], .ok [item 5, item 6]],
    .ofPages "orders" [.ok [order 2]],
    .ofPages "parts" [.error (.outage ⟨.connection, some "lost"⟩)]]

/-- The first advance fails for want of a page, the sixth for a page that repeats a row. -/
theorem unruly_sources_in_order :
    ∃ (c : MergeCursor) (out : List Tagged),
      create ["items", "orders", "parts"] 2 [("items", 1)] none = .ok c ∧
      (calls PageSource.fetch [.advance, .advance, .advance, .read, .advance, .advance, .advance,
        .close, .advance] (c, unrulySources)).1 = out.map (·.1) ∧
      out.Pairwise Earlier ∧ out.map (·.1.key) = [2, 2, 3, 5] := by
  have created : ∃ c, create ["items", "orders", "parts"] 2 [("items", 1)] none = .ok c := ⟨_, rfl⟩
  obtain ⟨c, created⟩ := created
  obtain ⟨out, hout, ordered, -⟩ := hands_out_in_order PageSource.fetch unrulySources created
    [.advance, .advance, .advance, .read, .advance, .advance, .advance, .close, .advance]
  refine ⟨c, out, created, hout, ordered, ?_⟩
  cases created
  have keys := congrArg (List.map (·.key)) hout
  rw [List.map_map] at keys
  exact keys.symm

end MergeCursor
end IndexSync
