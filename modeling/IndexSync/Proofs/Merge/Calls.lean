import IndexSync.Proofs.Merge.PagedMerge

/-!
# Calls on a cursor

A cursor is advanced, read and closed in any order, and used on after a fetch has failed. What a call
does comes down to the pages that streams take in and the one event that is handed out.
-/
namespace IndexSync

variable {σ : Type}

/-- What belongs to stream `i`, in order. -/
def ofStream {α : Type} (i : Nat) (xs : List (α × Nat)) : List α :=
  (xs.filter (·.2 = i)).map (·.1)

theorem ofStream_append {α : Type} (i : Nat) (xs ys : List (α × Nat)) :
    ofStream i (xs ++ ys) = ofStream i xs ++ ofStream i ys := by
  simp [ofStream]

@[simp] theorem ofStream_self {α : Type} (i : Nat) (x : α) : ofStream i [(x, i)] = [x] := by
  simp [ofStream]

theorem ofStream_of_ne {α : Type} {i j : Nat} (h : i ≠ j) (x : α) : ofStream i [(x, j)] = [] := by
  simp [ofStream, Ne.symm h]

/-- The same fetches with a record of the pages that they return. -/
def Fetch.recorded (fetch : Fetch σ) : Fetch (σ × List (List CaptureEvent × Nat)) :=
  fun i after n (s, pages) =>
    match fetch i after n s with
    | (.ok rows, s) => (.ok rows, s, pages ++ [(rows, i)])
    | (.error f, s) => (.error f, s, pages)

namespace Stream

/-- What a stream is after it has taken in a page. -/
theorem receive_cases {n : Nat} {rows : List CaptureEvent} {st st' : Stream}
    (h : st.receive n rows = .ok st') :
    rows = [] ∧ st' = { st with exhausted := true } ∨
    ∃ last, rows.getLast? = some last ∧ disorder? st.lastKey rows = none ∧ st' = { st with
      page := st.page ++ rows
      lastKey := some last.key
      exhausted := rows.length < n } := by
  unfold receive at h
  split at h
  · rename_i hlast
    cases h
    exact .inl ⟨List.getLast?_eq_none_iff.mp hlast, rfl⟩
  · rename_i last hlast
    split at h
    · cases h
    · rename_i horder
      cases h
      exact .inr ⟨last, hlast, horder, rfl⟩

/-- A stream refuses a page only because of its order. -/
theorem disorder?_of_receive {n : Nat} {rows : List CaptureEvent} {st : Stream} {f : Failure}
    (h : st.receive n rows = .error f) : disorder? st.lastKey rows ≠ none := by
  unfold receive at h
  split at h
  · cases h
  · split at h
    · rename_i horder
      simp [horder]
    · cases h

end Stream

namespace MergeCursor

variable {fetch : Fetch σ} {c : MergeCursor} {s : σ}

/-- What a reader does with a cursor. -/
inductive Call
  | advance | read | close

/-- One call. An advance that moves gives the event that can then be read. -/
def call (fetch : Fetch σ) : Call → MergeCursor × σ → List CaptureEvent × MergeCursor × σ
  | .advance, p =>
    match advance fetch p with
    | (.ok true, c, s) => (c.event.toOption.toList, c, s)
    | (_, p) => ([], p)
  | .read, p => ([], p)
  | .close, (c, s) => ([], c.close, s)

/-- Calls one after the other, with all events that the advances among them give. -/
def calls (fetch : Fetch σ) : List Call → MergeCursor × σ → List CaptureEvent × MergeCursor × σ
  | [], p => ([], p)
  | first :: rest, p =>
    let (es, p) := call fetch first p
    let (more, p) := calls fetch rest p
    (es ++ more, p)

theorem calls_append (fetch : Fetch σ) (cs ds : List Call) (p : MergeCursor × σ) :
    calls fetch (cs ++ ds) p = ((calls fetch cs p).1 ++ (calls fetch ds (calls fetch cs p).2).1,
      (calls fetch ds (calls fetch cs p).2).2) := by
  induction cs generalizing p with
  | nil => rfl
  | cons first rest ih => simp only [List.cons_append, calls, ih, List.append_assoc]

/-- A stream whose next page is fetched when it is filled. -/
def Lacks (c : MergeCursor) (i : Nat) (st : Stream) : Prop :=
  c.streams[i]? = some st ∧ st.page = [] ∧ st.exhausted = false

/-- What can come of filling a stream. -/
inductive Filled (fetch : Fetch σ) (i : Nat) (c : MergeCursor) (s : σ) :
    Except Failure Unit × MergeCursor × σ → Prop
  | idle (head : HeadAt c.streams i) : Filled fetch i c s (.ok (), c, s)
  | failed {st f s'} (lacks : c.Lacks i st)
    (answer : fetch i st.lastKey c.pageSize s = (.error f, s')) :
    Filled fetch i c s (.error f, c, s')
  | refused {st rows f s'} (lacks : c.Lacks i st)
    (answer : fetch i st.lastKey c.pageSize s = (.ok rows, s'))
    (refuses : st.receive c.pageSize rows = .error f) : Filled fetch i c s (.error f, c, s')
  | received {st rows st' s'} (lacks : c.Lacks i st)
    (answer : fetch i st.lastKey c.pageSize s = (.ok rows, s'))
    (receives : st.receive c.pageSize rows = .ok st') :
    Filled fetch i c s (.ok (), c.setStream i st', s')

theorem fill_cases (fetch : Fetch σ) (i : Nat) (c : MergeCursor) (s : σ) :
    Filled fetch i c s (fill fetch i (c, s)) := by
  cases hst : c.streams[i]? with
  | none =>
    simp only [fill, hst]
    exact .idle fun st h => by simp [hst] at h
  | some st =>
    by_cases hskip : (st.exhausted || !st.page.isEmpty) = true
    · simp only [fill, hst, hskip, if_true]
      refine .idle fun st' h hpage => ?_
      obtain rfl : st = st' := Option.some.inj (hst.symm.trans h)
      simpa [hpage] using hskip
    · have lacks : c.Lacks i st := by
        simp only [Bool.or_eq_true, Bool.not_eq_true', not_or, Bool.not_eq_true,
          Bool.not_eq_false, List.isEmpty_iff] at hskip
        exact ⟨hst, hskip.2, hskip.1⟩
      simp only [fill, hst, hskip, if_false, Bool.false_eq_true]
      cases hanswer : fetch i st.lastKey c.pageSize s with
      | mk outcome s' =>
        cases outcome with
        | error f => exact .failed lacks hanswer
        | ok rows =>
          cases hreceive : st.receive c.pageSize rows with
          | error f =>
            simp only [hreceive]
            exact .refused lacks hanswer hreceive
          | ok st' =>
            simp only [hreceive]
            exact .received lacks hanswer hreceive

/-- A stream with the first event of its page handed out. -/
def handOut (c : MergeCursor) (i : Nat) (st : Stream) (e : CaptureEvent)
    (rest : List CaptureEvent) : MergeCursor :=
  { c with
    streams := c.streams.set i { st with page := rest }
    current := some e
    returned := c.returned + 1
    refill := if rest.isEmpty && !st.exhausted then some i else c.refill }

/-- What can come of an advance. -/
inductive Advanced (fetch : Fetch σ) (c : MergeCursor) (s : σ) :
    Except Failure Bool × MergeCursor × σ → Prop
  | ended (full : (c.closed || c.limit.any (· ≤ c.returned)) = true) :
    Advanced fetch c s (.ok false, { c with current := none }, s)
  | failed {f c' s'} (open_ : (c.closed || c.limit.any (· ≤ c.returned)) = false)
    (ready : prepare fetch ({ c with current := none }, s) = (.error f, c', s')) :
    Advanced fetch c s (.error f, c', s')
  | exhausted {c' s'} (open_ : (c.closed || c.limit.any (· ≤ c.returned)) = false)
    (ready : prepare fetch ({ c with current := none }, s) = (.ok (), c', s'))
    (empty : ∀ st ∈ c'.streams, st.page = []) : Advanced fetch c s (.ok false, c', s')
  | moved {c' s' i st e rest} (open_ : (c.closed || c.limit.any (· ≤ c.returned)) = false)
    (ready : prepare fetch ({ c with current := none }, s) = (.ok (), c', s'))
    (stream : c'.streams[i]? = some st) (page : st.page = e :: rest)
    (least : ∀ j st' e' rest', c'.streams[j]? = some st' → st'.page = e' :: rest' →
      e.key < e'.key ∨ e.key = e'.key ∧ i ≤ j) :
    Advanced fetch c s (.ok true, c'.handOut i st e rest, s')

theorem advance_cases (fetch : Fetch σ) (c : MergeCursor) (s : σ) :
    Advanced fetch c s (advance fetch (c, s)) := by
  simp only [advance]
  cases hover : (c.closed || c.limit.any (· ≤ c.returned)) with
  | true => exact .ended hover
  | false =>
    simp only [Bool.false_eq_true, if_false]
    cases hready : prepare fetch ({ c with current := none }, s) with
    | mk outcome rest =>
      obtain ⟨c', s'⟩ := rest
      cases outcome with
      | error f => exact .failed hover hready
      | ok u =>
        cases hleast : leastFrom 0 c'.streams with
        | none =>
          simp only [select, hleast]
          exact .exhausted hover hready (page_eq_nil_of_leastFrom hleast)
        | some least =>
          obtain ⟨k, j⟩ := least
          obtain ⟨i, st, e, rest, hj, hst, hpage, rfl, hbefore⟩ := leastFrom_eq_some hleast
          obtain rfl : j = i := by omega
          have htake : c'.take j = c'.handOut j st e rest := by
            simp only [take, hst, hpage, setStream, handOut]
          simp only [select, hleast, htake]
          exact .moved hover hready hst hpage hbefore

/-- An outcome without the record of the pages. -/
def unrecorded {α ρ : Type} : α × MergeCursor × σ × ρ → α × MergeCursor × σ :=
  fun (a, c, s, _) => (a, c, s)

section
variable (fetch : Fetch σ) (c : MergeCursor) (s : σ) (pages : List (List CaptureEvent × Nat))

theorem fill_recorded (i : Nat) :
    unrecorded (fill fetch.recorded i (c, s, pages)) = fill fetch i (c, s) := by
  simp only [fill, Fetch.recorded]
  split
  · rfl
  · rename_i st _
    split
    · rfl
    · cases fetch i st.lastKey c.pageSize s with
      | mk outcome s' =>
        cases outcome with
        | error f => rfl
        | ok rows =>
          simp only
          split <;> rfl

theorem fillAll_recorded (is : List Nat) :
    unrecorded (fillAll fetch.recorded is (c, s, pages)) = fillAll fetch is (c, s) := by
  induction is generalizing c s pages with
  | nil => rfl
  | cons i rest ih =>
    simp only [fillAll, Action.bind_apply]
    rw [← fill_recorded fetch c s pages i]
    obtain ⟨outcome, c', s', pages'⟩ := fill fetch.recorded i (c, s, pages)
    cases outcome with
    | error f => rfl
    | ok u => exact ih c' s' pages'

theorem prepare_recorded :
    unrecorded (prepare fetch.recorded (c, s, pages)) = prepare fetch (c, s) := by
  simp only [prepare]
  split
  · exact fillAll_recorded ..
  · split
    · exact fill_recorded ..
    · rfl

theorem advance_recorded :
    unrecorded (advance fetch.recorded (c, s, pages)) = advance fetch (c, s) := by
  simp only [advance]
  split
  · rfl
  · rw [← prepare_recorded fetch { c with current := none } s pages]
    obtain ⟨outcome, c', s', pages'⟩ :=
      prepare fetch.recorded ({ c with current := none }, s, pages)
    cases outcome <;> rfl

/-- The record does not change what comes of calls. -/
theorem calls_recorded (cs : List Call) :
    unrecorded (calls fetch.recorded cs (c, s, pages)) = calls fetch cs (c, s) := by
  induction cs generalizing c s pages with
  | nil => rfl
  | cons first rest ih =>
    have hfirst : unrecorded (call fetch.recorded first (c, s, pages)) = call fetch first (c, s) := by
      cases first with
      | advance =>
        simp only [call]
        rw [← advance_recorded fetch c s pages]
        obtain ⟨outcome, c', s', pages'⟩ := advance fetch.recorded (c, s, pages)
        rcases outcome with f | moved
        · rfl
        · cases moved <;> rfl
      | read => rfl
      | close => rfl
    simp only [calls]
    rw [← hfirst]
    obtain ⟨es, c', s', pages'⟩ := call fetch.recorded first (c, s, pages)
    have hrest := ih c' s' pages'
    simp only [unrecorded] at hrest ⊢
    rw [← hrest]

end

/-- The pages that the sources return in the course of calls, each with the number of its stream. -/
def pagesOf (fetch : Fetch σ) (cs : List Call) (p : MergeCursor × σ) :
    List (List CaptureEvent × Nat) :=
  (calls fetch.recorded cs (p.1, p.2, [])).2.2.2

end MergeCursor
end IndexSync
