import IndexSync.Proofs.Convergence.Ahead

/-!
# What writers change

A write about an entity is ahead of the cursors, wherever they stand. So an entity of which no row is
ahead has been left alone by writers since its last row was read.
-/
namespace IndexSync.Registry

variable {R : Registry}

theorem Write.known (w : R.Write) : R.Known w.identity :=
  ⟨⟨w.model, w.watched, rfl⟩, w.possible⟩

namespace World

/-- Rows tell of known entities, entities fit their ids, documents stand under the keys of known
entities, and only entities that exist are misled. -/
structure Sane (s : World R) : Prop where
  recorded : R.Recorded s.tables
  fits : ∀ i, R.Known i → ∀ e ∈ s.entities i, R.Fits i e
  tidy : R.Tidy s.index.index
  misled : ∀ i, s.misled i = true → (s.entities i).isSome

/-- The cursors stand at rows that were written. -/
def Reached (s : World R) (cursors : Cursors) : Prop :=
  ∀ table k, cursors.get? table = some k → ∃ r ∈ s.tables.written, r.table = table ∧ r.key = k

/-- What the index comes to show of an entity. -/
def expected (s : World R) (i : Identity) : Option Entity :=
  if s.misled i then none else s.entities i

/-- Writers have left an entity alone, or their last row about it is ahead of all cursors. -/
inductive Passes (s t : World R) (i : Identity) : Prop
  | untouched (entity : t.entities i = s.entities i) (misled : t.misled i = s.misled i)
      (ahead : ∀ cursors, s.Reached cursors → t.ahead cursors i = s.ahead cursors i)
  | renewed (kind : EventKind) (misled : t.misled i = false)
      (ended : kind = .delete → t.entities i = none)
      (ahead : ∀ cursors, s.Reached cursors → t.ahead cursors i = some kind)

/-- Writers have been at work, and nothing else has happened. -/
structure Later (s t : World R) : Prop where
  grows : s.tables.Grows t.tables
  index : t.index = s.index
  sane : s.Sane → t.Sane
  passes : ∀ i, R.Known i → Passes s t i

theorem Reached.grows {s t : World R} {cursors : Cursors} (h : s.Reached cursors)
    (grows : s.tables.Grows t.tables) : t.Reached cursors := by
  intro table k hk
  obtain ⟨r, hr, hrow⟩ := h table k hk
  exact ⟨r, grows.mem_written hr, hrow⟩

theorem Passes.trans {s t u : World R} {i : Identity} (grows : s.tables.Grows t.tables)
    (h : Passes s t i) (h' : Passes t u i) : Passes s u i := by
  cases h' with
  | renewed kind misled ended ahead =>
    exact .renewed kind misled ended fun cursors hc => ahead cursors (hc.grows grows)
  | untouched entity misled ahead =>
    cases h with
    | untouched entity' misled' ahead' =>
      exact .untouched (entity.trans entity') (misled.trans misled') fun cursors hc =>
        (ahead cursors (hc.grows grows)).trans (ahead' cursors hc)
    | renewed kind misled' ended ahead' =>
      exact .renewed kind (misled.trans misled') (fun hk => entity.trans (ended hk))
        fun cursors hc => (ahead cursors (hc.grows grows)).trans (ahead' cursors hc)

theorem Later.trans {s t u : World R} (h : Later s t) (h' : Later t u) : Later s u where
  grows := h.grows.trans h'.grows
  index := h'.index.trans h.index
  sane sane := h'.sane (h.sane sane)
  passes i hi := (h.passes i hi).trans h.grows (h'.passes i hi)

/-- Which moments are to come makes no difference. -/
theorem later_moments (s : World R) (moments : List R.Moment) :
    Later s { s with moments := moments } where
  grows := .refl _
  index := rfl
  sane sane := ⟨sane.recorded, sane.fits, sane.tidy, sane.misled⟩
  passes _ _ := .untouched rfl rfl fun _ _ => rfl

theorem Later.refl (s : World R) : Later s s := later_moments s s.moments

theorem kindOf_spec {old new : Option Entity} {kind : EventKind} (h : kindOf old new = some kind) :
    kind ≠ .unknown ∧ (kind = .delete → new = none) := by
  cases old <;> cases new <;> cases h <;> simp

theorem row_reads (w : R.Write) (kind : EventKind) :
    w.model.Reads (rowOf w kind) ⟨w.model.entityType, w.id, kind, w.key, w.model.captureTable⟩ := by
  have hcode : EventKind.ofCode (.int (kind.code?.getD 0)) = .ok kind := by
    cases kind <;> rfl
  simp only [CaptureModel.Reads, CaptureModel.eventOfRow, rowOf, w.read, hcode]
  rfl

theorem beyond_append {t : CaptureTables} {r : CaptureRow} {cursors : Cursors}
    (fresh : ∀ w ∈ t.written, w.table = r.table → w.key < r.key)
    (reached : ∀ k, cursors.get? r.table = some k → ∃ w ∈ t.written, w.table = r.table ∧ w.key = k) :
    (t.append r).beyond cursors = t.beyond cursors ++ [r] := by
  have hrows : (t.append r).rows = t.rows ++ [r] := by
    unfold CaptureTables.append
    rw [dif_pos fresh]
  have hbeyond : (cursors.get? r.table).all (· < r.key) = true := by
    rw [Option.all_eq_true]
    intro k hk
    obtain ⟨w, hw, htable, rfl⟩ := reached k hk
    simpa using fresh w hw htable
  unfold CaptureTables.beyond
  rw [hrows, List.filter_append, List.filter_singleton, hbeyond]
  rfl

/-- The row of a write says what happened to its entity, and nothing of others. -/
theorem lastKind_row (w : R.Write) (kind : EventKind) (i : Identity) :
    R.lastKind i [rowOf w kind] = if w.identity == i then some kind else none := by
  unfold lastKind lastAbout
  rw [List.filterMap_cons_some (eventOf_eq w.watched rfl (row_reads w kind)), List.filterMap_nil,
    List.filter_singleton]
  change Option.map _ (List.getLast? (bif w.identity == i then _ else _)) = _
  cases w.identity == i <;> rfl

theorem write_cases (w : R.Write) (s : World R) :
    s.write w = s ∨ ∃ kind, kindOf (s.entities w.identity) w.entity = some kind ∧
      (∀ r ∈ s.tables.written, r.table = w.model.captureTable → r.key < w.key) ∧
      s.write w = { s with
        entities := fun i => if i == w.identity then w.entity else s.entities i
        tables := s.tables.append (rowOf w kind)
        misled := fun i => if i == w.identity then false else s.misled i } := by
  unfold write
  cases hk : kindOf (s.entities w.identity) w.entity with
  | none => exact .inl rfl
  | some kind =>
    simp only
    split
    · rename_i fresh
      exact .inr ⟨kind, rfl, fresh, rfl⟩
    · exact .inl rfl

theorem write_later (w : R.Write) (s : World R) : Later s (s.write w) := by
  rcases write_cases w s with h | ⟨kind, hkind, fresh, h⟩
  · rw [h]
    exact .refl s
  obtain ⟨hknown, hended⟩ := kindOf_spec hkind
  have happend : s.tables.append (rowOf w kind) =
      ⟨s.tables.written ++ [rowOf w kind], s.tables.rows ++ [rowOf w kind], _, _⟩ := dif_pos fresh
  rw [h]
  refine ⟨CaptureTables.append_grows .., rfl, fun sane => ⟨?_, ?_, sane.tidy, ?_⟩, ?_⟩
  · intro r hr
    simp only [happend, List.mem_append, List.mem_singleton] at hr
    rcases hr with hr | rfl
    · exact sane.recorded r hr
    · exact ⟨w.model, w.watched, rfl, _, row_reads w kind, hknown, w.known⟩
  · intro i hi e he
    by_cases hsame : (i == w.identity) = true
    · obtain rfl := (hi.same_iff w.known).mp hsame
      simp only [hsame, if_true] at he
      exact w.fits e he
    · simp only [hsame] at he
      exact sane.fits i hi e he
  · intro i hmisled
    cases hsame : i == w.identity with
    | true => simp [hsame] at hmisled
    | false =>
      simp only [hsame] at hmisled ⊢
      exact sane.misled i hmisled
  · intro i hi
    have hahead : ∀ cursors, s.Reached cursors →
        R.lastKind i ((s.tables.append (rowOf w kind)).beyond cursors) =
          (if w.identity == i then some kind else none).or (s.ahead cursors i) := by
      intro cursors reached
      rw [beyond_append fresh fun k hk => reached _ k hk, lastKind_append, lastKind_row]
      rfl
    by_cases hsame : (i == w.identity) = true
    · obtain rfl := (hi.same_iff w.known).mp hsame
      refine .renewed kind (by simp [hsame]) (by simpa [hsame] using hended) fun cursors reached => ?_
      rw [ahead, hahead cursors reached, if_pos hsame]
      rfl
    · have hother : (w.identity == i) = false := by
        rw [Bool.eq_false_iff]
        rintro h
        obtain rfl := (w.known.same_iff hi).mp h
        exact hsame h
      refine .untouched (by simp [hsame]) (by simp [hsame]) fun cursors reached => ?_
      rw [ahead, hahead cursors reached, hother]
      rfl

theorem writes_later (writes : List R.Write) (s : World R) :
    Later s (writes.foldl (fun s w => s.write w) s) := by
  induction writes generalizing s with
  | nil => exact .refl s
  | cons w rest ih => exact (write_later w s).trans (ih _)

theorem moment_later (s : World R) : Later s (moment s).2 := by
  unfold moment
  split
  · exact .refl s
  · rename_i t rest _
    have := (later_moments s rest).trans (writes_later t.writes _)
    split <;> exact this

theorem captures_lawful : captures.Lawful (σ := World R) tables Later :=
  CaptureAccess.paced_lawful .refl .trans Later.grows moment_later

end World
end IndexSync.Registry
