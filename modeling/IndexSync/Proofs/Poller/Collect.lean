import IndexSync.Proofs.Entries
import IndexSync.Proofs.Merge.PagedMerge
import IndexSync.Proofs.Poller.Access
import Mathlib.Data.List.Induction

/-!
# What a tick collects

Whatever the order in which the cursor hands out rows, and whatever is written in the meantime: of each
capture table a tick collects the first rows after the last consumed key, none left out.
-/
namespace IndexSync

variable {σ : Type}

namespace Poller

/-- The events that stream `i` has handed out. -/
def share (i : Nat) (handed : List (Nat × CaptureEvent)) : List CaptureEvent :=
  (handed.filter (·.1 = i)).map (·.2)

theorem share_append (i : Nat) (xs ys : List (Nat × CaptureEvent)) :
    share i (xs ++ ys) = share i xs ++ share i ys := by
  simp [share]

/-- The first rows of a table after a key have been read: some events are handed out, the others wait
in the page of the stream. -/
def Follows (m : CaptureModel) (key : Option Int) (t : CaptureTables) (taken : List CaptureEvent)
    (st : Stream) : Prop :=
  ∃ rows, rows <+: t.after m.captureTable key ∧
    List.Forall₂ m.Reads rows (taken ++ st.page) ∧
    st.lastKey = (rows.getLast?.map (·.key)).or key

theorem Follows.grows {m : CaptureModel} {key : Option Int} {t u : CaptureTables}
    {taken : List CaptureEvent} {st : Stream} (h : Follows m key t taken st) (hg : t.Grows u) :
    Follows m key u taken st := by
  obtain ⟨rows, hrows, hread, hlast⟩ := h
  exact ⟨rows, hrows.trans (hg.after_prefix ..), hread, hlast⟩

theorem getLast?_map_key {m : CaptureModel} {rows : List CaptureRow} {events : List CaptureEvent}
    (h : List.Forall₂ m.Reads rows events) :
    rows.getLast?.map (·.key) = events.getLast?.map (·.key) := by
  have hkeys : rows.map (·.key) = events.map (·.key) := by
    induction h with
    | nil => rfl
    | cons hr _ ih => rw [List.map_cons, List.map_cons, ih, hr.fields.2.2.2.1]
  rw [← List.getLast?_map, ← List.getLast?_map, hkeys]

/-- A page that a stream takes in continues what was read before. -/
theorem Follows.receive {m : CaptureModel} {key : Option Int} {t : CaptureTables}
    {taken events : List CaptureEvent} {st st' : Stream} {n size : Nat}
    (h : Follows m key t taken st) (hpage : st.page = [])
    (hread : t.page m st.lastKey n = .ok events) (hreceive : st.receive size events = .ok st') :
    Follows m key t taken st' := by
  obtain ⟨rows, ⟨rest, hrest⟩, hrows, hlast⟩ := h
  have hnext := forall₂_of_mapM hread
  rw [hlast, CaptureTables.after_last hrest.symm] at hnext
  unfold Stream.receive at hreceive
  cases hl : events.getLast? with
  | none =>
    rw [hl] at hreceive
    cases hreceive
    exact ⟨rows, ⟨rest, hrest⟩, hrows, hlast⟩
  | some last =>
    rw [hl] at hreceive
    simp only at hreceive
    split at hreceive
    · cases hreceive
    · cases hreceive
      refine ⟨rows ++ rest.take n, ?_, ?_, ?_⟩
      · rw [← hrest]
        exact List.prefix_append_right_inj rows |>.mpr (List.take_prefix n rest)
      · simp only [hpage, List.append_nil, List.nil_append] at hrows ⊢
        exact List.rel_append hrows hnext
      · have hk := getLast?_map_key hnext
        rw [hl] at hk
        simp only [List.getLast?_append, Option.map_or, hk, Option.map_some, Option.some_or]

/-- A cursor over the capture tables of some models, each stream of which follows its table. -/
structure Attached (models : List CaptureModel) (cursors : Cursors) (t : CaptureTables)
    (handed : List (Nat × CaptureEvent)) (c : MergeCursor) : Prop where
  length : c.streams.length = models.length
  follows : ∀ i m st, models[i]? = some m → c.streams[i]? = some st →
    Follows m (cursors.get? m.captureTable) t (share i handed) st

theorem Attached.grows {models : List CaptureModel} {cursors : Cursors} {t u : CaptureTables}
    {handed : List (Nat × CaptureEvent)} {c : MergeCursor}
    (h : Attached models cursors t handed c) (hg : t.Grows u) :
    Attached models cursors u handed c :=
  ⟨h.length, fun i m st hm hst => (h.follows i m st hm hst).grows hg⟩

variable {access : CaptureAccess σ} {view : σ → CaptureTables} {Later : σ → σ → Prop} {p : Poller}
  {cursors : Cursors} {handed : List (Nat × CaptureEvent)}

/-- An outcome in a later state, where the streams still follow the tables unless there was a
failure. -/
def Holds {α : Type} (view : σ → CaptureTables) (Later : σ → σ → Prop) (p : Poller)
    (cursors : Cursors) (handed : List (Nat × CaptureEvent)) (s : σ)
    (next : Except Failure α × MergeCursor × σ) : Prop :=
  Later s next.2.2 ∧
    ∀ a, next.1 = .ok a → Attached p.models cursors (view next.2.2) handed next.2.1

theorem fill_holds (lawful : access.Lawful view Later) {c : MergeCursor} {s : σ}
    (h : Attached p.models cursors (view s) handed c) (i : Nat) :
    Holds view Later p cursors handed s (MergeCursor.fill (fetch access p) i (c, s)) := by
  cases hst : c.streams[i]? with
  | none =>
    simp only [MergeCursor.fill, hst]
    exact ⟨lawful.refl _, fun _ _ => h⟩
  | some st =>
    by_cases hskip : (st.exhausted || !st.page.isEmpty) = true
    · simp only [MergeCursor.fill, hst, hskip, if_true]
      exact ⟨lawful.refl _, fun _ _ => h⟩
    · have hi : i < p.models.length := h.length ▸ (List.getElem?_eq_some_iff.mp hst).1
      have hm : p.models[i]? = some p.models[i] := List.getElem?_eq_getElem hi
      have hpage : st.page = [] := by
        by_contra hne
        simp [hne] at hskip
      have hlater := lawful.page p.models[i] st.lastKey c.pageSize s
      have hread := lawful.read p.models[i] st.lastKey c.pageSize s
      simp only [MergeCursor.fill, hst, hskip, if_false, fetch, hm, Bool.false_eq_true]
      generalize access.page p.models[i] st.lastKey c.pageSize s = answer at hlater hread ⊢
      obtain ⟨outcome, after⟩ := answer
      have hgrows := lawful.grows hlater
      cases outcome with
      | error f => exact ⟨hlater, fun _ h => by cases h⟩
      | ok events =>
        cases hr : st.receive c.pageSize events with
        | error f =>
          simp only [hr]
          exact ⟨hlater, fun _ h => by cases h⟩
        | ok st' =>
          simp only [hr]
          refine ⟨hlater, fun _ _ => ⟨?_, ?_⟩⟩
          · simpa [MergeCursor.setStream] using h.length
          · intro j m x hmj hx
            rcases entry_of_set hx with ⟨rfl, rfl⟩ | ⟨-, hx⟩
            · cases hm.symm.trans hmj
              exact ((h.follows j _ st hm hst).grows hgrows).receive hpage (hread events rfl) hr
            · exact (h.follows j m x hmj hx).grows hgrows

theorem fillAll_holds (lawful : access.Lawful view Later) (is : List Nat) {c : MergeCursor} {s : σ}
    (h : Attached p.models cursors (view s) handed c) :
    Holds view Later p cursors handed s (MergeCursor.fillAll (fetch access p) is (c, s)) := by
  induction is generalizing c s with
  | nil => exact ⟨lawful.refl _, fun _ _ => h⟩
  | cons i rest ih =>
    have hfill := fill_holds lawful h i
    simp only [MergeCursor.fillAll, Action.bind_apply]
    generalize MergeCursor.fill (fetch access p) i (c, s) = filled at hfill ⊢
    obtain ⟨outcome, c', s'⟩ := filled
    cases outcome with
    | error f => exact ⟨hfill.1, fun _ h => by cases h⟩
    | ok u =>
      have hrest := ih (hfill.2 u rfl)
      exact ⟨lawful.trans hfill.1 hrest.1, hrest.2⟩

theorem prepare_holds (lawful : access.Lawful view Later) {c : MergeCursor} {s : σ}
    (h : Attached p.models cursors (view s) handed c) :
    Holds view Later p cursors handed s (MergeCursor.prepare (fetch access p) (c, s)) := by
  cases hs : c.started with
  | false =>
    simp only [MergeCursor.prepare, hs, Bool.not_false, if_true]
    exact fillAll_holds lawful _ ⟨h.length, h.follows⟩
  | true =>
    simp only [MergeCursor.prepare, hs, Bool.not_true, Bool.false_eq_true, if_false]
    cases hr : c.refill with
    | none => exact ⟨lawful.refl _, fun _ _ => h⟩
    | some i =>
      exact fill_holds lawful (c := { c with started := true, refill := none })
        ⟨h.length, h.follows⟩ i

/-- The head that is handed out is the first event that waits in the page of its stream. -/
theorem Attached.select {t : CaptureTables} {c : MergeCursor}
    (h : Attached p.models cursors t handed c) (moved : c.select.1 = true) :
    ∃ i e, i < p.models.length ∧ c.select.2.current = some e ∧
      Attached p.models cursors t (handed ++ [(i, e)]) c.select.2 := by
  unfold MergeCursor.select at moved ⊢
  cases hl : MergeCursor.leastFrom 0 c.streams with
  | none => simp [hl] at moved
  | some least =>
    obtain ⟨k, i⟩ := least
    obtain ⟨j, st, e, rest, hj, hst, hpage, -, -⟩ := MergeCursor.leastFrom_eq_some hl
    obtain rfl : i = j := by omega
    have hi : i < p.models.length := h.length ▸ (List.getElem?_eq_some_iff.mp hst).1
    refine ⟨i, e, hi, ?_, ?_, ?_⟩
    · simp [MergeCursor.take, hst, hpage]
    · simpa [MergeCursor.take, hst, hpage, MergeCursor.setStream] using h.length
    · intro j m x hm hx
      simp only [MergeCursor.take, hst, hpage] at hx
      rw [share_append]
      rcases entry_of_set hx with ⟨rfl, rfl⟩ | ⟨hne, hx⟩
      · obtain ⟨rows, hrows, hread, hlast⟩ := h.follows j m st hm hst
        refine ⟨rows, hrows, ?_, hlast⟩
        rw [hpage] at hread
        simpa [share] using hread
      · simpa [share, Ne.symm hne] using h.follows j m x hm hx

theorem advance_attached (lawful : access.Lawful view Later) {c c' : MergeCursor} {s s' : σ}
    {outcome : Except Failure Bool} (h : Attached p.models cursors (view s) handed c)
    (hadvance : MergeCursor.advance (fetch access p) (c, s) = (outcome, c', s')) :
    Later s s' ∧ (outcome = .ok true → ∃ i e, i < p.models.length ∧
      c'.current = some e ∧ Attached p.models cursors (view s') (handed ++ [(i, e)]) c') := by
  have hp := prepare_holds lawful (c := { c with current := none }) ⟨h.length, h.follows⟩
  simp only [MergeCursor.advance] at hadvance
  split at hadvance
  · cases hadvance
    exact ⟨lawful.refl _, fun h => by cases h⟩
  · generalize MergeCursor.prepare (fetch access p) ({ c with current := none }, s) = ready
      at hp hadvance
    obtain ⟨answer, c₁, s₁⟩ := ready
    cases answer with
    | error f =>
      cases hadvance
      exact ⟨hp.1, fun h => by cases h⟩
    | ok u =>
      cases hadvance
      exact ⟨hp.1, fun moved => (hp.2 u rfl).select (Except.ok.inj moved)⟩

/-- Of every capture table the events handed out are those of its first rows after the cursor. -/
def Shares (models : List CaptureModel) (cursors : Cursors) (t : CaptureTables)
    (handed : List (Nat × CaptureEvent)) : Prop :=
  (∀ x ∈ handed, x.1 < models.length) ∧
    ∀ i m, models[i]? = some m → ∃ rows,
      rows <+: t.after m.captureTable (cursors.get? m.captureTable) ∧
        List.Forall₂ m.Reads rows (share i handed)

theorem Shares.grows {models : List CaptureModel} {t u : CaptureTables}
    (h : Shares models cursors t handed) (hg : t.Grows u) : Shares models cursors u handed := by
  refine ⟨h.1, fun i m hm => ?_⟩
  obtain ⟨rows, hrows, hread⟩ := h.2 i m hm
  exact ⟨rows, hrows.trans (hg.after_prefix ..), hread⟩

theorem Attached.shares {models : List CaptureModel} {t : CaptureTables} {c : MergeCursor}
    (h : Attached models cursors t handed c) (tags : ∀ x ∈ handed, x.1 < models.length) :
    Shares models cursors t handed := by
  refine ⟨tags, fun i m hm => ?_⟩
  have hi : i < c.streams.length := h.length ▸ (List.getElem?_eq_some_iff.mp hm).1
  obtain ⟨rows, hrows, hread, -⟩ := h.follows i m _ hm (List.getElem?_eq_getElem hi)
  refine ⟨rows.take (share i handed).length, (List.take_prefix ..).trans hrows, ?_⟩
  have := List.forall₂_take (share i handed).length hread
  rwa [List.take_left] at this

/-- What was collected when the given events have been handed out. -/
def collected (handed : List (Nat × CaptureEvent)) : Collected :=
  (handed.map (·.2)).foldl Collected.add .empty

theorem collected_append (i : Nat) (e : CaptureEvent) :
    collected (handed ++ [(i, e)]) = (collected handed).add e := by
  simp [collected]

/-- The batch holds the events with known codes. -/
theorem collected_events (handed : List (Nat × CaptureEvent)) :
    (collected handed).events = (handed.map (·.2)).filter (·.kind ≠ .unknown) := by
  induction handed using List.reverseRecOn with
  | nil => rfl
  | append_singleton xs x ih =>
    obtain ⟨i, e⟩ := x
    rw [collected_append, Collected.add, ih]
    by_cases h : e.kind = .unknown <;> simp [h]

/-- The keys that are consumed are those of the events handed out. -/
theorem mem_consumed {handed : List (Nat × CaptureEvent)} {table : String} {keys : List Int}
    (h : (table, keys) ∈ (collected handed).consumed) {k : Int} (hk : k ∈ keys) :
    ∃ x ∈ handed, x.2.captureTable = table ∧ x.2.key = k := by
  induction handed using List.reverseRecOn generalizing table keys with
  | nil => cases h
  | append_singleton xs x ih =>
    obtain ⟨i, e⟩ := x
    rw [collected_append, Collected.add] at h
    rcases Entries.mem_put h with h | ⟨rfl, htable⟩
    · obtain ⟨x, hx, hkey⟩ := ih h hk
      exact ⟨x, List.mem_append_left _ hx, hkey⟩
    · have htable : table = e.captureTable := by
        rcases htable with htable | ⟨htable, -⟩
        · exact htable
        · simpa using htable
      rcases List.mem_append.mp hk with hk | hk
      · cases hg : (collected xs).consumed.get? e.captureTable with
        | none => simp [hg] at hk
        | some old =>
          simp only [hg, Option.getD_some] at hk
          obtain ⟨l, hl, hmem⟩ := Entries.mem_of_get? hg
          obtain rfl : l = table := (by simpa using hl : l = _).trans htable.symm
          obtain ⟨x, hx, hkey⟩ := ih hmem hk
          exact ⟨x, List.mem_append_left _ hx, hkey⟩
      · exact ⟨(i, e), by simp, htable.symm, (List.mem_singleton.mp hk).symm⟩

theorem gather_spec (lawful : access.Lawful view Later) (n : Nat) {c c' : MergeCursor} {s s' : σ}
    {outcome : Except Failure Collected} (h : Attached p.models cursors (view s) handed c)
    (tags : ∀ x ∈ handed, x.1 < p.models.length)
    (hgather : gather access p n (collected handed) (c, s) = (outcome, c', s')) :
    Later s s' ∧ ∀ done, outcome = .ok done →
      ∃ handed, done = collected handed ∧ Shares p.models cursors (view s') handed := by
  induction n generalizing handed c s with
  | zero =>
    cases hgather
    refine ⟨lawful.refl _, ?_⟩
    rintro done ⟨⟩
    exact ⟨handed, rfl, h.shares tags⟩
  | succ n ih =>
    cases hadvance : MergeCursor.advance (fetch access p) (c, s) with
    | mk answer rest =>
      obtain ⟨c₁, s₁⟩ := rest
      obtain ⟨hlater, hmoved⟩ := advance_attached lawful h hadvance
      simp only [gather, hadvance] at hgather
      cases answer with
      | error f =>
        cases hgather
        exact ⟨hlater, fun _ h => by cases h⟩
      | ok moved =>
        cases moved with
        | false =>
          cases hgather
          refine ⟨hlater, ?_⟩
          rintro done ⟨⟩
          exact ⟨handed, rfl, (h.shares tags).grows (lawful.grows hlater)⟩
        | true =>
          obtain ⟨i, e, hi, hcurrent, hnext⟩ := hmoved rfl
          simp only [hcurrent, ← collected_append i] at hgather
          have hnotice : Later s₁ (noticeOf access e s₁) := by
            unfold noticeOf
            split
            · exact lawful.report _ _
            · exact lawful.refl _
          obtain ⟨hrest, hdone⟩ := ih (hnext.grows (lawful.grows hnotice)) (by
            intro x hx
            rcases List.mem_append.mp hx with hx | hx
            · exact tags x hx
            · exact List.mem_singleton.mp hx ▸ hi) hgather
          exact ⟨lawful.trans (lawful.trans hlater hnotice) hrest, hdone⟩

theorem attached_create (t : CaptureTables) {pageSize : Int} {limit : Option Int} {c : MergeCursor}
    (h : MergeCursor.create (p.models.map (·.captureTable)) pageSize cursors limit = .ok c) :
    Attached p.models cursors t [] c := by
  unfold MergeCursor.create at h
  split at h
  · cases h
  · split at h
    · cases h
    · cases h
      refine ⟨by simp, fun i m st hm hst => ?_⟩
      simp only [List.getElem?_map, hm, Option.map_some, Option.some.injEq] at hst
      subst hst
      exact ⟨[], List.nil_prefix, .nil, rfl⟩

/-- A tick collects the first rows of every capture table after the cursors, which stay as they
are. -/
theorem collect_spec (lawful : access.Lawful view Later) {cursors' : Cursors} {s s' : σ}
    {outcome : Except Failure Collected}
    (hcollect : collect access p (cursors, s) = (outcome, cursors', s')) :
    cursors' = cursors ∧ Later s s' ∧ ∀ done, outcome = .ok done →
      ∃ handed, done = collected handed ∧ Shares p.models cursors (view s') handed := by
  have hconnect := lawful.connect s
  simp only [collect] at hcollect
  generalize access.connect s = connected at hconnect hcollect
  obtain ⟨answer, s₁⟩ := connected
  cases answer with
  | error f =>
    cases hcollect
    exact ⟨rfl, hconnect, fun _ h => by cases h⟩
  | ok u =>
    simp only at hcollect
    cases hcreate : MergeCursor.create (p.models.map (·.captureTable)) p.pageSize cursors
        (some (p.batchSize : Int)) with
    | error f =>
      simp only [hcreate] at hcollect
      cases hcollect
      exact ⟨rfl, hconnect, fun _ h => by cases h⟩
    | ok c =>
      simp only [hcreate] at hcollect
      generalize hgather : gather access p p.batchSize .empty (c, s₁) = gathered at hcollect
      obtain ⟨r, c', s₂⟩ := gathered
      cases hcollect
      obtain ⟨hlater, hdone⟩ :=
        gather_spec lawful p.batchSize (attached_create (view s₁) hcreate) (by simp) hgather
      exact ⟨rfl, lawful.trans hconnect hlater, hdone⟩

end Poller
end IndexSync
