import IndexSync.Proofs.Merge.Calls
import IndexSync.Proofs.Merge.Drain

/-!
# Streams that failures leave behind

A fetch that fails leaves its stream without a page, and a failed start leaves so all streams after it.
Later advances look only at the stream whose page the advance before has used up. What is left of the
others is never handed out, and all else is.
-/
namespace IndexSync

variable {σ : Type}

/-- Fetches that answer with the rows of fixed tables or fail, in surroundings that stay fine. -/
def Fetch.ServesOrFails (fetch : Fetch σ) (Fine : σ → Prop) (tables : List (List CaptureEvent)) :
    Prop :=
  ∀ i rows, tables[i]? = some rows → ∀ after n s, Fine s → Fine (fetch i after n s).2 ∧
    ∀ answer, (fetch i after n s).1 = .ok answer → answer = (beyond (·.key) after rows).take n

instance (st : Stream) : Decidable st.HasHead := inferInstanceAs (Decidable (_ → _))

namespace MergeCursor

variable {fetch : Fetch σ} {Fine : σ → Prop} {tables : List (List CaptureEvent)} {c : MergeCursor}
  {s : σ}

/-- The next advance looks at stream `i`. -/
def Due (c : MergeCursor) (i : Nat) : Prop := c.started = false ∨ c.refill = some i

instance (c : MergeCursor) (i : Nat) : Decidable (c.Due i) := inferInstanceAs (Decidable (_ ∨ _))

/-- Stream `i` waits for a page that no advance will fetch. -/
def Stranded (c : MergeCursor) (i : Nat) : Prop := ¬ c.Due i ∧ ¬ HeadAt c.streams i

/-- The streams as advances go on with them: one that is stranded might as well be closed. -/
def inReach (c : MergeCursor) : List Stream :=
  c.streams.mapIdx fun i st => if c.Due i ∨ st.HasHead then st else st.close

/-- What advances can still hand out of each table. -/
def reach (tables : List (List CaptureEvent)) (c : MergeCursor) : List (List CaptureEvent) :=
  leftOf tables c.inReach

theorem headAt_iff {streams : List Stream} {i : Nat} {st : Stream} (h : streams[i]? = some st) :
    HeadAt streams i ↔ st.HasHead :=
  ⟨fun head => head st h, fun head _ h' => Option.some.inj (h.symm.trans h') ▸ head⟩

theorem getElem?_inReach (c : MergeCursor) (i : Nat) : c.inReach[i]? =
    c.streams[i]?.map fun st => if c.Due i ∨ st.HasHead then st else st.close :=
  List.getElem?_mapIdx

theorem Stranded.getElem?_reach (tables : List (List CaptureEvent)) {i : Nat} (h : c.Stranded i) :
    (c.reach tables)[i]? = (leftOf tables c.streams)[i]?.map fun _ => [] := by
  simp only [reach, leftOf, List.getElem?_zipWith, getElem?_inReach]
  cases hst : c.streams[i]? with
  | none => cases tables[i]? <;> rfl
  | some st =>
    have gone : ¬ (c.Due i ∨ st.HasHead) := not_or.mpr ⟨h.1, mt (headAt_iff hst).mpr h.2⟩
    cases tables[i]? with
    | none => rfl
    | some rows => simp [gone, Stream.close, Stream.left]

theorem getElem?_reach (tables : List (List CaptureEvent)) {i : Nat} (h : ¬ c.Stranded i) :
    (c.reach tables)[i]? = (leftOf tables c.streams)[i]? := by
  simp only [reach, leftOf, List.getElem?_zipWith, getElem?_inReach]
  cases hst : c.streams[i]? with
  | none => rfl
  | some st =>
    have kept : c.Due i ∨ st.HasHead := by
      rw [← headAt_iff hst]
      exact or_iff_not_and_not.mpr h
    cases tables[i]? with
    | none => rfl
    | some rows => simp [kept]

theorem length_flatten_eq_iff {kept tables : List (List CaptureEvent)}
    (h : List.Forall₂ List.Sublist kept tables) :
    kept.flatten.length = tables.flatten.length ↔ kept = tables := by
  refine ⟨fun hlen => ?_, fun heq => heq ▸ rfl⟩
  induction h with
  | nil => rfl
  | @cons rows rows' rest rest' first others ih =>
    have hfirst := first.length_le
    have hothers := ((PlainMerge.taggedFrom_sublist others 0).map (·.1)).length_le
    rw [PlainMerge.map_taggedFrom, PlainMerge.map_taggedFrom] at hothers
    simp only [List.flatten_cons, List.length_append] at hlen
    rw [first.eq_of_length (by omega), ih (by omega)]

/-- Tables of which some are emptied are parts of the tables. -/
theorem forall₂_sublist_of_emptied {kept tables : List (List CaptureEvent)}
    (h : ∀ i : Nat, kept[i]? = tables[i]? ∨ kept[i]? = tables[i]?.map fun _ => []) :
    List.Forall₂ List.Sublist kept tables := by
  induction tables generalizing kept with
  | nil =>
    cases kept with
    | nil => exact .nil
    | cons rows rest => simpa using h 0
  | cons rows rest ih =>
    cases kept with
    | nil => simpa using h 0
    | cons first others =>
      have hfirst := h 0
      simp only [List.getElem?_cons_zero, Option.map_some, Option.some.injEq] at hfirst
      refine .cons ?_ (ih fun i => h (i + 1))
      rcases hfirst with rfl | rfl
      · exact .refl _
      · exact List.nil_sublist _

/-- What is in reach is what is left, but for the streams that are stranded. -/
theorem reach_sublist (tables : List (List CaptureEvent)) (c : MergeCursor) :
    List.Forall₂ List.Sublist (c.reach tables) (leftOf tables c.streams) := by
  refine forall₂_sublist_of_emptied fun i => ?_
  by_cases stranded : c.Stranded i
  · exact .inr (stranded.getElem?_reach tables)
  · exact .inl (getElem?_reach tables stranded)

theorem ascending_reach (h : ∀ rows ∈ leftOf tables c.streams, Ascending (·.key) rows) :
    ∀ rows ∈ c.reach tables, Ascending (·.key) rows := by
  intro rows hrows
  obtain ⟨i, hi⟩ := List.mem_iff_getElem?.mp hrows
  by_cases stranded : c.Stranded i
  · rw [stranded.getElem?_reach tables, Option.map_eq_some_iff] at hi
    obtain ⟨_, -, rfl⟩ := hi
    exact .nil
  · rw [getElem?_reach tables stranded] at hi
    exact h rows (List.mem_of_getElem? hi)

theorem plainMerge_reach_eq_nil (idle : ∀ i, ¬ c.Due i) (empty : ∀ st ∈ c.streams, st.page = []) :
    plainMerge (c.reach tables) = [] := by
  refine plainMerge_eq_nil fun rows hrows => ?_
  obtain ⟨i, hi⟩ := List.mem_iff_getElem?.mp hrows
  simp only [reach, leftOf, List.getElem?_zipWith_eq_some, getElem?_inReach, idle, false_or,
    Option.map_eq_some_iff] at hi
  obtain ⟨table, _, -, ⟨st, hst, rfl⟩, rfl⟩ := hi
  have hpage := empty st (List.mem_of_getElem? hst)
  split
  · rename_i head
    simp [Stream.left, hpage, head hpage]
  · rfl

/-- Streams after refills of some that are due: of the others none is touched. -/
structure Touched (tables : List (List CaptureEvent)) (due : Nat → Prop) (old new : List Stream) :
    Prop where
  refilled : Refilled tables old new
  rest : ∀ i, new[i]? = old[i]? ∨ due i ∧ HeadAt new i

theorem Touched.refl (tables : List (List CaptureEvent)) (due : Nat → Prop)
    (streams : List Stream) : Touched tables due streams streams :=
  ⟨.refl streams, fun _ => .inl rfl⟩

theorem Touched.trans {due : Nat → Prop} {a b c : List Stream} (h : Touched tables due a b)
    (h' : Touched tables due b c) : Touched tables due a c := by
  refine ⟨h.refilled.trans h'.refilled, fun i => ?_⟩
  rcases h'.rest i with same | touched
  · rcases h.rest i with same' | ⟨hdue, head⟩
    · exact .inl (same.trans same')
    · exact .inr ⟨hdue, h'.refilled.heads i head⟩
  · exact .inr touched

section
variable (hf : fetch.ServesOrFails Fine tables) (hasc : ∀ rows ∈ tables, Ascending (·.key) rows)
include hf hasc

theorem fill_touches (due : Nat → Prop) {i : Nat} (hdue : due i)
    (hlen : c.streams.length = tables.length) (hn : 0 < c.pageSize) (hs : Fine s) :
    ∃ outcome streams s', fill fetch i (c, s) = (outcome, { c with streams := streams }, s') ∧
      Fine s' ∧ Touched tables due c.streams streams ∧ (outcome = .ok () → HeadAt streams i) := by
  have served {st : Stream} (lacks : c.Lacks i st) :
      ∃ rows, tables[i]? = some rows ∧ Fine (fetch i st.lastKey c.pageSize s).2 ∧
        ∀ answer, (fetch i st.lastKey c.pageSize s).1 = .ok answer →
          ∃ st', st.receive c.pageSize answer = .ok st' ∧ st'.left rows = st.left rows ∧
            st'.HasHead := by
    have hi : i < tables.length := hlen ▸ (List.getElem?_eq_some_iff.mp lacks.1).1
    obtain ⟨fine, answers⟩ := hf i _ (List.getElem?_eq_getElem hi) st.lastKey c.pageSize s hs
    refine ⟨_, List.getElem?_eq_getElem hi, fine, fun answer hanswer => ?_⟩
    rw [answers answer hanswer]
    exact Stream.receive_left (hasc _ (List.getElem_mem hi)) hn lacks.2.1 lacks.2.2
  have filled := fill_cases fetch i c s
  generalize fill fetch i (c, s) = next at filled ⊢
  cases filled with
  | idle head => exact ⟨_, c.streams, s, rfl, hs, .refl .., fun _ => head⟩
  | @failed st f s' lacks answer =>
    obtain ⟨rows, -, fine, -⟩ := served lacks
    rw [answer] at fine
    exact ⟨_, c.streams, s', rfl, fine, .refl .., nofun⟩
  | @refused st rows f s' lacks answer refuses =>
    obtain ⟨table, -, -, received⟩ := served lacks
    rw [answer] at received
    obtain ⟨st', hst', -⟩ := received rows rfl
    cases refuses.symm.trans hst'
  | @received st rows st' s' lacks answer receives =>
    obtain ⟨table, htable, fine, received⟩ := served lacks
    rw [answer] at fine received
    obtain ⟨st'', hst'', hleft, head⟩ := received rows rfl
    obtain rfl : st' = st'' := Except.ok.inj (receives.symm.trans hst'')
    have hset : (c.streams.set i st')[i]? = some st' :=
      List.getElem?_set_self (List.getElem?_eq_some_iff.mp lacks.1).1
    have there : HeadAt (c.streams.set i st') i := (headAt_iff hset).mpr head
    refine ⟨_, _, s', rfl, fine, ⟨.set htable lacks.1 hleft head, fun j => ?_⟩, fun _ => there⟩
    by_cases hij : i = j
    · exact .inr (hij ▸ ⟨hdue, there⟩)
    · exact .inl (List.getElem?_set_ne hij)

theorem fillAll_touches (due : Nat → Prop) (is : List Nat) (hdue : ∀ i, due i)
    (hlen : c.streams.length = tables.length) (hn : 0 < c.pageSize) (hs : Fine s) :
    ∃ outcome streams s', fillAll fetch is (c, s) = (outcome, { c with streams := streams }, s') ∧
      Fine s' ∧ Touched tables due c.streams streams ∧
      (outcome = .ok () → ∀ i ∈ is, HeadAt streams i) := by
  induction is generalizing c s with
  | nil => exact ⟨_, c.streams, s, rfl, hs, .refl .., fun _ i hi => absurd hi List.not_mem_nil⟩
  | cons i rest ih =>
    obtain ⟨outcome, streams, s₁, hfill, hs₁, touched, head⟩ :=
      fill_touches hf hasc due (hdue i) hlen hn hs
    simp only [fillAll, Action.bind_apply, hfill]
    cases outcome with
    | error f => exact ⟨_, streams, s₁, rfl, hs₁, touched, fun hok => by cases hok⟩
    | ok u =>
      obtain ⟨outcome, streams', s₂, hrest, hs₂, touched', heads⟩ :=
        ih (c := { c with streams := streams }) (touched.refilled.length.trans hlen) hn hs₁
      refine ⟨outcome, streams', s₂, hrest, hs₂, touched.trans touched', fun hok j hj => ?_⟩
      rcases List.mem_cons.mp hj with rfl | hj
      · exact touched'.refilled.heads j (head rfl)
      · exact heads hok j hj

/-- The preparation of an advance looks at the streams that are due, and gives each of them its head
unless it fails. -/
theorem prepare_touches (hlen : c.streams.length = tables.length) (hn : 0 < c.pageSize)
    (fresh : c.started = false → c.refill = none) (hs : Fine s) :
    ∃ outcome streams s', prepare fetch (c, s) =
        (outcome, { c with streams := streams, started := true, refill := none }, s') ∧ Fine s' ∧
      Touched tables c.Due c.streams streams ∧
      (outcome = .ok () → ∀ i, c.Due i → HeadAt streams i) := by
  cases hstarted : c.started with
  | false =>
    obtain ⟨outcome, streams, s', hfill, hs', touched, heads⟩ :=
      fillAll_touches hf hasc (c := { c with started := true }) c.Due
        (List.range c.streams.length) (fun _ => .inl hstarted) hlen hn hs
    refine ⟨outcome, streams, s', ?_, hs', touched, fun hok i _ => ?_⟩
    · simp only [prepare, hstarted, Bool.not_false, if_true]
      rw [hfill, fresh hstarted]
    · by_cases hlt : i < c.streams.length
      · exact heads hok i (List.mem_range.mpr hlt)
      · intro st hst
        exact absurd (touched.refilled.length ▸ (List.getElem?_eq_some_iff.mp hst).1) hlt
  | true =>
    cases hrefill : c.refill with
    | none =>
      refine ⟨.ok (), c.streams, s, ?_, hs, .refl .., fun _ i hdue => ?_⟩
      · simp only [prepare, hstarted, hrefill, Bool.not_true, Bool.false_eq_true, if_false]
        rw [← hstarted, ← hrefill]
      · simp [Due, hstarted, hrefill] at hdue
    | some i =>
      obtain ⟨outcome, streams, s', hfill, hs', touched, head⟩ :=
        fill_touches hf hasc (c := { c with refill := none }) c.Due (.inr hrefill) hlen hn hs
      refine ⟨outcome, streams, s', ?_, hs', touched, fun hok j hdue => ?_⟩
      · simp only [prepare, hstarted, hrefill, Bool.not_true, Bool.false_eq_true, if_false]
        rw [← hstarted, hfill]
      · obtain rfl : i = j := by simpa [Due, hstarted, hrefill] using hdue
        exact head hok

end

/-- A cursor whose streams have just been looked at. -/
def prepared (c : MergeCursor) (streams : List Stream) : MergeCursor :=
  { c with streams := streams, started := true, refill := none, current := none }

section
variable {streams : List Stream} (touched : Touched tables c.Due c.streams streams)

theorem not_due_prepared (c : MergeCursor) (streams : List Stream) (i : Nat) :
    ¬ (c.prepared streams).Due i := by
  simp [Due, prepared]

include touched

/-- The streams that were due and got no page are stranded, besides those that were so before. -/
theorem stranded_prepared (i : Nat) :
    (c.prepared streams).Stranded i ↔ c.Stranded i ∨ c.Due i ∧ ¬ HeadAt streams i := by
  constructor
  · rintro ⟨-, gone⟩
    rcases touched.rest i with same | ⟨-, head⟩
    · by_cases hdue : c.Due i
      · exact .inr ⟨hdue, gone⟩
      · exact .inl ⟨hdue, fun head => gone fun st hst => head st (same ▸ hst)⟩
    · exact absurd head gone
  · rintro (⟨hdue, gone⟩ | ⟨-, gone⟩)
    · rcases touched.rest i with same | ⟨hdue', -⟩
      · exact ⟨not_due_prepared c streams i, fun head => gone fun st hst => head st (same ▸ hst)⟩
      · exact absurd hdue' hdue
    · exact ⟨not_due_prepared c streams i, gone⟩

theorem reach_prepared_sublist :
    List.Forall₂ List.Sublist ((c.prepared streams).reach tables) (c.reach tables) := by
  have hleft : leftOf tables (c.prepared streams).streams = leftOf tables c.streams :=
    touched.refilled.left
  refine forall₂_sublist_of_emptied fun i => ?_
  by_cases before : c.Stranded i
  · have stranded := (stranded_prepared touched i).mpr (.inl before)
    rw [stranded.getElem?_reach tables, before.getElem?_reach tables, hleft]
    exact .inl rfl
  · rw [getElem?_reach tables before, ← hleft]
    by_cases stranded : (c.prepared streams).Stranded i
    · exact .inr (stranded.getElem?_reach tables)
    · exact .inl (getElem?_reach tables stranded)

theorem reach_prepared (heads : ∀ i, c.Due i → HeadAt streams i) :
    (c.prepared streams).reach tables = c.reach tables := by
  have hleft : leftOf tables streams = leftOf tables c.streams := touched.refilled.left
  refine List.ext_getElem? fun i => ?_
  have same : (c.prepared streams).Stranded i ↔ c.Stranded i := by
    rw [stranded_prepared touched]
    exact or_iff_left fun h => h.2 (heads i h.1)
  by_cases stranded : c.Stranded i
  · rw [(same.mpr stranded).getElem?_reach tables, stranded.getElem?_reach tables, ← hleft]
    rfl
  · rw [getElem?_reach tables stranded, getElem?_reach tables (mt same.mp stranded), ← hleft]
    rfl

end

section
variable {i : Nat} {st : Stream} {e : CaptureEvent} {rest : List CaptureEvent}
  (hstarted : c.started = true) (hrefill : c.refill = none)
include hstarted hrefill

theorem due_handOut {j : Nat} :
    (c.handOut i st e rest).Due j ↔ i = j ∧ rest = [] ∧ st.exhausted = false := by
  simp only [Due, handOut, hstarted, hrefill, Bool.true_eq_false, false_or]
  split
  · rename_i hmore
    simp only [Bool.and_eq_true, List.isEmpty_iff, Bool.not_eq_true'] at hmore
    simp [hmore]
  · rename_i hmore
    simp only [Bool.and_eq_true, List.isEmpty_iff, Bool.not_eq_true'] at hmore
    simp [hmore]

variable (hst : c.streams[i]? = some st)
include hst

/-- A stream that has handed out the last row of its page is due if it may have more. -/
theorem inReach_handOut :
    (c.handOut i st e rest).inReach = c.inReach.set i { st with page := rest } := by
  refine List.ext_getElem? fun j => ?_
  have idle : ¬ c.Due j := by simp [Due, hstarted, hrefill]
  simp only [getElem?_inReach, due_handOut hstarted hrefill]
  by_cases hij : i = j
  · subst hij
    have hlt : i < c.streams.length := (List.getElem?_eq_some_iff.mp hst).1
    have hset : (c.handOut i st e rest).streams[i]? = some { st with page := rest } :=
      List.getElem?_set_self hlt
    rw [List.getElem?_set_self (by simpa [inReach] using hlt), hset, Option.map_some, if_pos]
    simp only [Stream.HasHead, true_and]
    cases st.exhausted <;> simp [Classical.em]
  · have hset : (c.handOut i st e rest).streams[j]? = c.streams[j]? := List.getElem?_set_ne hij
    rw [List.getElem?_set_ne hij, hset, getElem?_inReach]
    simp [idle, hij]

variable (hpage : st.page = e :: rest)
include hpage

theorem stranded_handOut (j : Nat) : (c.handOut i st e rest).Stranded j ↔ c.Stranded j := by
  have idle : ¬ c.Due j := by simp [Due, hstarted, hrefill]
  simp only [Stranded, due_handOut hstarted hrefill, idle, not_false_eq_true, true_and]
  by_cases hij : i = j
  · subst hij
    have hset : (c.handOut i st e rest).streams[i]? = some { st with page := rest } :=
      List.getElem?_set_self (List.getElem?_eq_some_iff.mp hst).1
    rw [headAt_iff hset, headAt_iff hst]
    simp [Stream.HasHead, hpage]
  · have hset : (c.handOut i st e rest).streams[j]? = c.streams[j]? := List.getElem?_set_ne hij
    simp [HeadAt, hset, hij]

/-- The least head is the first row of all that is in reach. -/
theorem reach_handOut (hlen : c.streams.length = tables.length)
    (hasc : ∀ rows ∈ c.reach tables, Ascending (·.key) rows)
    (least : ∀ j st' e' rest', c.streams[j]? = some st' → st'.page = e' :: rest' →
      e.key < e'.key ∨ e.key = e'.key ∧ i ≤ j) :
    plainMerge (c.reach tables) = e :: plainMerge ((c.handOut i st e rest).reach tables) := by
  have idle (j : Nat) : ¬ c.Due j := by simp [Due, hstarted, hrefill]
  have kept : c.inReach[i]? = some st := by
    have head : st.HasHead := by simp [Stream.HasHead, hpage]
    simp [getElem?_inReach, hst, head]
  have heads (j : Nat) : HeadAt c.inReach j := by
    intro x hx
    simp only [getElem?_inReach, idle, false_or, Option.map_eq_some_iff] at hx
    obtain ⟨y, -, rfl⟩ := hx
    split
    · assumption
    · exact fun _ => rfl
  have least' : ∀ j st' e' rest', c.inReach[j]? = some st' → st'.page = e' :: rest' →
      e.key < e'.key ∨ e.key = e'.key ∧ i ≤ j := by
    intro j x e' rest' hx hpage'
    simp only [getElem?_inReach, idle, false_or, Option.map_eq_some_iff] at hx
    obtain ⟨y, hy, rfl⟩ := hx
    split at hpage'
    · exact least j y e' rest' hy hpage'
    · cases hpage'
  obtain ⟨rows, hrows, hset⟩ := leftOf_set (by simpa [inReach] using hlen) kept hpage
  have hrest : (c.handOut i st e rest).reach tables = (c.reach tables).set i rows := by
    rw [reach, inReach_handOut hstarted hrefill hst, hset]
    rfl
  rw [plainMerge_eq_cons hasc hrows (precedes_of_least hasc heads least'), hrest]

end

/-- What can come of an advance over tables. -/
inductive Went (tables : List (List CaptureEvent)) (Fine : σ → Prop) (c : MergeCursor) (s : σ) :
    Except Failure Bool × MergeCursor × σ → Prop
  | ended (full : (c.closed || c.limit.any (· ≤ c.returned)) = true) :
    Went tables Fine c s (.ok false, { c with current := none }, s)
  | failed {streams f s'} (fine : Fine s') (touched : Touched tables c.Due c.streams streams) :
    Went tables Fine c s (.error f, c.prepared streams, s')
  | spent {streams s'} (fine : Fine s') (touched : Touched tables c.Due c.streams streams)
    (heads : ∀ i, c.Due i → HeadAt streams i) (empty : ∀ st ∈ streams, st.page = []) :
    Went tables Fine c s (.ok false, c.prepared streams, s')
  | moved {streams s' i st e rest} (fine : Fine s')
    (touched : Touched tables c.Due c.streams streams) (heads : ∀ i, c.Due i → HeadAt streams i)
    (stream : streams[i]? = some st) (page : st.page = e :: rest)
    (least : ∀ j st' e' rest', streams[j]? = some st' → st'.page = e' :: rest' →
      e.key < e'.key ∨ e.key = e'.key ∧ i ≤ j) :
    Went tables Fine c s
      (.ok true, (c.prepared streams).handOut i st e rest, s')

/-- What holds of an open cursor over tables that has handed out some events. -/
structure Kept (tables all : List (List CaptureEvent)) (es : List CaptureEvent)
    (c : MergeCursor) : Prop where
  length : c.streams.length = tables.length
  pageSize : 0 < c.pageSize
  isOpen : c.closed = false
  fresh : c.started = false → c.refill = none
  ascending : ∀ rows ∈ leftOf tables c.streams, Ascending (·.key) rows
  returned : c.returned = es.length
  count : es.length + (leftOf tables c.streams).flatten.length = all.flatten.length
  ordered : (es ++ plainMerge (c.reach tables)).Sublist (plainMerge all)

variable {all : List (List CaptureEvent)} {es : List CaptureEvent}

theorem Kept.went (h : Kept tables all es c) (hf : fetch.ServesOrFails Fine tables)
    (hasc : ∀ rows ∈ tables, Ascending (·.key) rows) (hs : Fine s) :
    Went tables Fine c s (advance fetch (c, s)) := by
  obtain ⟨outcome, streams, s', hprepare, fine, touched, heads⟩ := prepare_touches hf hasc
    (c := { c with current := none }) h.length h.pageSize h.fresh hs
  have advanced := advance_cases fetch c s
  generalize advance fetch (c, s) = next at advanced ⊢
  cases advanced with
  | ended full => exact .ended full
  | failed open_ ready =>
    cases hprepare.symm.trans ready
    exact .failed fine touched
  | exhausted open_ ready empty =>
    cases hprepare.symm.trans ready
    exact .spent fine touched (heads rfl) empty
  | moved open_ ready stream page least =>
    cases hprepare.symm.trans ready
    exact .moved fine touched (heads rfl) stream page least

theorem Kept.prepared (h : Kept tables all es c) {streams : List Stream}
    (touched : Touched tables c.Due c.streams streams) :
    Kept tables all es (c.prepared streams) where
  length := touched.refilled.length.trans h.length
  pageSize := h.pageSize
  isOpen := h.isOpen
  fresh := nofun
  ascending rows hrows := h.ascending rows (touched.refilled.left ▸ hrows)
  returned := h.returned
  count := by
    rw [← h.count, ← touched.refilled.left]
    rfl
  ordered := by
    have fewer := plainMerge_sublist (ascending_reach h.ascending)
      (reach_prepared_sublist touched)
    exact ((List.Sublist.refl es).append fewer).trans h.ordered

theorem Kept.handOut (h : Kept tables all es c) (hstarted : c.started = true)
    (hrefill : c.refill = none) {i : Nat} {st : Stream} {e : CaptureEvent}
    {rest : List CaptureEvent} (hst : c.streams[i]? = some st) (hpage : st.page = e :: rest)
    (least : ∀ j st' e' rest', c.streams[j]? = some st' → st'.page = e' :: rest' →
      e.key < e'.key ∨ e.key = e'.key ∧ i ≤ j) :
    Kept tables all (es ++ [e]) (c.handOut i st e rest) := by
  obtain ⟨rows, hrows, hset⟩ := leftOf_set h.length hst hpage
  have hleft : leftOf tables (c.handOut i st e rest).streams = (leftOf tables c.streams).set i rows :=
    hset
  refine ⟨?_, h.pageSize, h.isOpen, fun fresh => ?_, ?_, ?_, ?_, ?_⟩
  · simpa [MergeCursor.handOut] using h.length
  · exact absurd (hstarted.symm.trans fresh) (by decide)
  · rw [hleft]
    intro x hx
    rcases List.mem_or_eq_of_mem_set hx with hx | rfl
    · exact h.ascending x hx
    · exact List.Pairwise.of_cons (h.ascending _ (List.mem_of_getElem? hrows))
  · simp [MergeCursor.handOut, h.returned]
  · have one := ((PlainMerge.taggedFrom_perm_cons (i := 0) hrows).map (·.1)).length_eq
    simp only [PlainMerge.map_taggedFrom, List.map_cons, List.length_cons] at one
    rw [← h.count, hleft, one, List.length_append, List.length_singleton]
    omega
  · rw [List.append_assoc, List.singleton_append, ← reach_handOut hstarted hrefill hst hpage h.length]
    · exact h.ordered
    · exact ascending_reach h.ascending
    · exact least

/-- An advance that fails before stream `i` has its page. -/
def FailsOn (fetch : Fetch σ) (i : Nat) (p : MergeCursor × σ) : Prop :=
  ∃ f p', advance fetch p = (.error f, p') ∧ p.1.Due i ∧ ¬ HeadAt p'.1.streams i

/-- An advance keeps what holds of a cursor, and strands the streams on which it fails. -/
theorem Kept.advance (h : Kept tables all es c) (hf : fetch.ServesOrFails Fine tables)
    (hasc : ∀ rows ∈ tables, Ascending (·.key) rows) (hs : Fine s) :
    Kept tables all (es ++ (call fetch .advance (c, s)).1) (call fetch .advance (c, s)).2.1 ∧
      Fine (call fetch .advance (c, s)).2.2 ∧
      (call fetch .advance (c, s)).2.1.limit = c.limit ∧
      ∀ i, (call fetch .advance (c, s)).2.1.Stranded i ↔ c.Stranded i ∨ FailsOn fetch i (c, s) := by
  have went := h.went hf hasc hs
  simp only [call, FailsOn]
  generalize MergeCursor.advance fetch (c, s) = next at went ⊢
  cases went with
  | ended full =>
    refine ⟨?_, hs, rfl, fun i => ?_⟩
    · rw [List.append_nil]
      exact ⟨h.length, h.pageSize, h.isOpen, h.fresh, h.ascending, h.returned, h.count, h.ordered⟩
    · simp [Stranded, Due]
  | @failed streams f s' fine touched =>
    refine ⟨?_, fine, rfl, fun i => ?_⟩
    · rw [List.append_nil]
      exact h.prepared touched
    · rw [stranded_prepared touched]
      refine or_congr Iff.rfl ⟨fun failed => ⟨f, _, rfl, failed⟩, ?_⟩
      rintro ⟨_, _, hfailed, failed⟩
      cases hfailed
      exact failed
  | @spent streams s' fine touched heads empty =>
    refine ⟨?_, fine, rfl, fun i => ?_⟩
    · rw [List.append_nil]
      exact h.prepared touched
    · rw [stranded_prepared touched]
      refine or_congr Iff.rfl ⟨fun failed => absurd (heads i failed.1) failed.2, ?_⟩
      rintro ⟨_, _, hfailed, -⟩
      cases hfailed
  | @moved streams s' i st e rest fine touched heads stream page least =>
    refine ⟨(h.prepared touched).handOut rfl rfl stream page least, fine, rfl, fun j => ?_⟩
    rw [stranded_handOut rfl rfl stream page, stranded_prepared touched]
    refine or_congr Iff.rfl ⟨fun failed => absurd (heads j failed.1) failed.2, ?_⟩
    rintro ⟨_, _, hfailed, -⟩
    cases hfailed

/-- After any number of advances the streams on which one of them failed are stranded. -/
theorem Kept.advances (h : Kept tables all [] c) (idle : ∀ i, ¬ c.Stranded i)
    (hf : fetch.ServesOrFails Fine tables) (hasc : ∀ rows ∈ tables, Ascending (·.key) rows)
    (hs : Fine s) (n : Nat) :
    ∃ es c' s', calls fetch (List.replicate n .advance) (c, s) = (es, c', s') ∧
      Kept tables all es c' ∧ Fine s' ∧ c'.limit = c.limit ∧ ∀ i, c'.Stranded i ↔
        ∃ k < n, FailsOn fetch i (calls fetch (List.replicate k .advance) (c, s)).2 := by
  induction n with
  | zero => exact ⟨[], c, s, rfl, h, hs, rfl, fun i => by simpa using idle i⟩
  | succ n ih =>
    obtain ⟨es, c', s', hcalls, kept, fine, hlimit, stranded⟩ := ih
    obtain ⟨kept', fine', hlimit', stranded'⟩ := kept.advance hf hasc fine
    refine ⟨_, _, _, ?_, kept', fine', hlimit'.trans hlimit, fun i => ?_⟩
    · simp only [List.replicate_succ', calls_append, hcalls, calls, List.append_nil]
    · rw [stranded', stranded]
      constructor
      · rintro (⟨k, hk, fails⟩ | fails)
        · exact ⟨k, by omega, fails⟩
        · exact ⟨n, by omega, hcalls ▸ fails⟩
      · rintro ⟨k, hk, fails⟩
        rcases Nat.lt_succ_iff_lt_or_eq.mp hk with hk | rfl
        · exact .inl ⟨k, hk, fails⟩
        · exact .inr (by simpa only [hcalls] using fails)

/-- All is there exactly if nothing is left of the streams that are stranded. -/
theorem Kept.whole_iff (h : Kept tables all es c) :
    es ++ plainMerge (c.reach tables) = plainMerge all ↔
      ∀ i rows, c.Stranded i → (leftOf tables c.streams)[i]? = some rows → rows = [] := by
  have counted : es ++ plainMerge (c.reach tables) = plainMerge all ↔
      (c.reach tables).flatten.length = (leftOf tables c.streams).flatten.length := by
    have hreach := (plainMerge_perm (c.reach tables)).length_eq
    have hall := (plainMerge_perm all).length_eq
    have hcount := h.count
    refine ⟨fun heq => ?_, fun hlen => h.ordered.eq_of_length ?_⟩
    · have := congrArg List.length heq
      rw [List.length_append] at this
      omega
    · rw [List.length_append]
      omega
  rw [counted, length_flatten_eq_iff (reach_sublist tables c)]
  constructor
  · intro heq i rows stranded hrows
    have hreach := stranded.getElem?_reach tables
    rw [heq, hrows] at hreach
    exact Option.some.inj hreach
  · intro nothing
    refine List.ext_getElem? fun i => ?_
    by_cases stranded : c.Stranded i
    · rw [stranded.getElem?_reach tables]
      cases hrows : (leftOf tables c.streams)[i]? with
      | none => rfl
      | some rows => rw [nothing i rows stranded hrows, Option.map_some]
    · exact getElem?_reach tables stranded

theorem kept_create {tables : List (String × List CaptureEvent)}
    (hasc : ∀ t ∈ tables, Ascending (·.key) t.2) {pageSize : Int} {after : Entries String Int}
    {limit : Option Int} (created : create (tables.map (·.1)) pageSize after limit = .ok c) :
    Kept (tables.map (·.2)) (pending after tables) [] c ∧ (∀ i, ¬ c.Stranded i) ∧
      c.limit = limit.map Int.toNat := by
  have accepted : 1 ≤ pageSize ∧ (∀ n, limit = some n → 0 ≤ n) ∧ c.started = false := by
    unfold create at created
    split at created
    · cases created
    split at created
    · cases created
    · rename_i hsize hlimit
      cases created
      exact ⟨by omega, fun n hn => by simpa [hn] using hlimit, rfl⟩
  obtain ⟨hsize, hlimit, fresh⟩ := accepted
  obtain ⟨c', hc', ready, hl, hreturned, hleft⟩ := ready_create hasc hsize after hlimit
  obtain rfl : c = c' := Except.ok.inj (created.symm.trans hc')
  have idle (i : Nat) : ¬ c.Stranded i := fun stranded => stranded.1 (.inl fresh)
  have hreach : c.reach (tables.map (·.2)) = pending after tables :=
    (List.ext_getElem? fun i => getElem?_reach _ (idle i)).trans hleft
  refine ⟨⟨ready.length, ready.pageSize, ready.isOpen, ready.fresh, ready.ascending, hreturned, ?_, ?_⟩,
    idle, hl⟩
  · rw [hleft, List.length_nil, Nat.zero_add]
  · rw [hreach]
    exact .refl _

/-- Advances over tables whose fetches may fail. What they hand out, and what later ones can still hand
out, stands in the merge of all rows; it is all of the merge exactly if nothing is left of the streams
that are stranded. These are the streams on which an advance has failed. The next advance hands out the
first row that is in reach, and says that there is none only if none is in reach or the limit is
reached. -/
theorem lost_with_stranded {tables : List (String × List CaptureEvent)}
    (hasc : ∀ t ∈ tables, Ascending (·.key) t.2) {pageSize : Int} {after : Entries String Int}
    {limit : Option Int} (created : create (tables.map (·.1)) pageSize after limit = .ok c)
    (hf : fetch.ServesOrFails Fine (tables.map (·.2))) (hs : Fine s) (n : Nat) :
    ∃ es c' s', calls fetch (List.replicate n .advance) (c, s) = (es, c', s') ∧
      (es ++ plainMerge (c'.reach (tables.map (·.2)))).Sublist (plainMerge (pending after tables)) ∧
      (es ++ plainMerge (c'.reach (tables.map (·.2))) = plainMerge (pending after tables) ↔
        ∀ i rows, c'.Stranded i → (leftOf (tables.map (·.2)) c'.streams)[i]? = some rows →
          rows = []) ∧
      (∀ i, c'.Stranded i ↔
        ∃ k < n, FailsOn fetch i (calls fetch (List.replicate k .advance) (c, s)).2) ∧
      (∀ c'' s'', advance fetch (c', s') = (.ok true, c'', s'') → ∃ e, c''.event = .ok e ∧
        plainMerge (c'.reach (tables.map (·.2))) = e :: plainMerge (c''.reach (tables.map (·.2)))) ∧
      ∀ c'' s'', advance fetch (c', s') = (.ok false, c'', s'') →
        plainMerge (c'.reach (tables.map (·.2))) = [] ∨ limit.any (·.toNat ≤ es.length) := by
  obtain ⟨kept, idle, hlimit⟩ := kept_create hasc created
  have hrows : ∀ rows ∈ tables.map (·.2), Ascending (·.key) rows := List.forall_mem_map.mpr hasc
  obtain ⟨es, c', s', hcalls, kept', fine, hlimit', stranded⟩ := kept.advances idle hf hrows hs n
  have went := kept'.went hf hrows fine
  refine ⟨es, c', s', hcalls, kept'.ordered, kept'.whole_iff, stranded, ?_, ?_⟩
  · intro c'' s'' hadvance
    rw [hadvance] at went
    cases went with
    | @moved streams _ i st e rest _ touched heads stream page least =>
      refine ⟨e, rfl, ?_⟩
      rw [← reach_prepared touched heads]
      exact reach_handOut rfl rfl stream page (kept'.prepared touched).length
        (ascending_reach (kept'.prepared touched).ascending) least
  · intro c'' s'' hadvance
    rw [hadvance] at went
    cases went with
    | ended full =>
      right
      rw [kept'.isOpen, Bool.false_or, hlimit', hlimit, kept'.returned] at full
      cases limit with
      | none => cases full
      | some n => exact full
    | @spent streams _ _ touched heads empty =>
      left
      rw [← reach_prepared touched heads]
      exact plainMerge_reach_eq_nil (not_due_prepared c' streams) empty

/-- Fetches on tables, counted. Those with the given numbers fail. -/
def faultyFetch (tables : List (List CaptureEvent)) (faults : List Nat) : Fetch Nat :=
  fun i after n count =>
    (if count ∈ faults then .error (.outage ⟨.connection, some "lost"⟩)
      else .ok ((beyond (·.key) after (tables[i]?.getD [])).take n), count + 1)

theorem servesOrFails_faultyFetch (tables : List (List CaptureEvent)) (faults : List Nat) :
    (faultyFetch tables faults).ServesOrFails (fun _ => True) tables := by
  refine fun i rows hrows after n s _ => ⟨trivial, fun answer hanswer => ?_⟩
  simp only [faultyFetch, hrows, Option.getD_some] at hanswer
  split at hanswer
  · cases hanswer
  · exact (Except.ok.inj hanswer).symm

/-- Two tables whose rows take turns. -/
def turns : List (String × List CaptureEvent) :=
  [("orders", [⟨.root "shop" "Order", .int 7, .insert, 1, "orders"⟩,
      ⟨.root "shop" "Order", .int 7, .delete, 4, "orders"⟩]),
    ("items", [⟨.root "shop" "Item", .int 8, .insert, 2, "items"⟩,
      ⟨.root "shop" "Item", .int 9, .insert, 3, "items"⟩])]

/-- The fetch of the second page of the orders fails, and the order on it is lost. -/
theorem order_lost_with_its_stream :
    ∃ (c : MergeCursor) (es : List CaptureEvent) (c' : MergeCursor) (s' : Nat),
      create (turns.map (·.1)) 1 [] none = .ok c ∧
      calls (faultyFetch (turns.map (·.2)) [2]) (List.replicate 4 .advance) (c, 0) = (es, c', s') ∧
      es.map (·.key) = [1, 2, 3] ∧
      es ++ plainMerge (c'.reach (turns.map (·.2))) ≠ plainMerge (pending [] turns) := by
  have created : ∃ c, create (turns.map (·.1)) 1 [] none = .ok c := ⟨_, rfl⟩
  obtain ⟨c, created⟩ := created
  obtain ⟨es, c', s', hcalls, -, whole, -⟩ := lost_with_stranded (by decide) created
    (servesOrFails_faultyFetch (turns.map (·.2)) [2]) (s := 0) trivial 4
  refine ⟨c, es, c', s', created, hcalls, ?_, fun all => ?_⟩
  · cases created
    obtain rfl : es = _ := (congrArg Prod.fst hcalls).symm
    rfl
  · cases created
    obtain rfl : c' = _ := (congrArg (·.2.1) hcalls).symm
    have nothing := whole.mp all 0 [⟨.root "shop" "Order", .int 7, .delete, 4, "orders"⟩]
      ⟨by decide, fun head => by cases head _ rfl rfl⟩ rfl
    cases nothing

/-- Advances after one that has failed are not lossless: with the first fetch of the items failed they
hand out the order, which is not the first row, and then say that there is no more. -/
theorem not_lossless :
    ¬ ∀ (tables : List (String × List CaptureEvent)) (fetch : Fetch Nat) (c : MergeCursor) (n : Nat),
      (∀ t ∈ tables, Ascending (·.key) t.2) →
      fetch.ServesOrFails (fun _ => True) (tables.map (·.2)) →
      create (tables.map (·.1)) 50 [] none = .ok c →
      (calls fetch (List.replicate n .advance) (c, 0)).1 <+: plainMerge (pending [] tables) ∧
        ∀ p, advance fetch (calls fetch (List.replicate n .advance) (c, 0)).2 = (.ok false, p) →
          (calls fetch (List.replicate n .advance) (c, 0)).1 = plainMerge (pending [] tables) := by
  intro claim
  let order : CaptureEvent := ⟨.root "shop" "Order", .int 7, .insert, 2, "orders"⟩
  let item : CaptureEvent := ⟨.root "shop" "Item", .int 8, .insert, 1, "items"⟩
  obtain ⟨first, -⟩ := claim [("orders", [order]), ("items", [item])]
    (faultyFetch [[order], [item]] [1]) _ 2 (by decide) (servesOrFails_faultyFetch _ _) rfl
  have merged : plainMerge (pending [] [("orders", [order]), ("items", [item])]) = [item, order] := by
    simp [pending, beyond, Entries.get?, plainMerge, PlainMerge.taggedFrom, PlainMerge.precedes,
      List.mergeSort, order, item]
  rw [merged] at first
  have same : order.key = item.key := congrArg (·.key) (List.cons_prefix_cons.mp first).1
  exact absurd same (by decide)

end MergeCursor
end IndexSync
