import IndexSync.Proofs.Convergence.Tracked

/-!
# A dispatch step by step

Whatever fault strikes, a step of a dispatch changes nothing but the index, and that only for entities
of which rows are ahead of the cursors.
-/
namespace IndexSync.Registry
open Search Dispatch

variable {R : Registry}

namespace World

/-- The index has been changed at most for entities of which rows are ahead. -/
structure Keeps (s : World R) (cursors : Cursors) (b : Backend) : Prop where
  tidy : R.Tidy b.index
  cells : ∀ i, R.Known i → s.ahead cursors i = none → R.cell b.index i = R.cell s.index.index i

variable {s : World R} {cursors moved : Cursors} {events : List CaptureEvent} {i : Identity}
  {t : Nat} {task : Task} {rest more : List Task}

theorem Keeps.of_index {b : Backend} (sane : s.Sane) (h : b.index = s.index.index) :
    s.Keeps cursors b :=
  ⟨h ▸ sane.tidy, fun _ _ _ => by rw [h]⟩

theorem strike_cases (fault : Option Fault) (s : World R) :
    strike fault s = (.ok (), s) ∨ ∃ f, strike fault s = (.error f, s) := by
  cases fault with
  | none => exact .inl rfl
  | some fault => cases fault <;> exact .inr ⟨_, rfl⟩

theorem containing_of_known (hi : R.Known i) :
    ∃ m ∈ R.mappings.list, m.indexedType = i.type ∧ R.mappings.containing i.type = [m] := by
  obtain ⟨m, hm, ht⟩ := hi.mapping
  exact ⟨m, hm, ht, ht ▸ R.separate.containing_eq hm⟩

/-- The change that a staged request asks for sets the document of the entity, and is right for it. -/
theorem Due.change {r : Request} (due : s.Due moved events i (.stage r)) (hi : R.Known i)
    {change : Option Change} (h : Transaction.requestChange R.mappings r = .ok change) :
    ∃ made d, change = some made ∧ R.Sets i made d ∧ s.Right moved i d := by
  obtain ⟨m, hm, ht⟩ := hi.mapping
  cases due with
  | @stage r e request fits found =>
    have written : ∃ renew, Transaction.writeChange R.mappings renew e = .ok change := by
      rcases request with rfl | rfl
      · exact ⟨false, h⟩
      · exact ⟨true, h⟩
    obtain ⟨renew, hw⟩ := written
    obtain ⟨hmapping, documents⟩ := fits m hm ht
    simp only [Transaction.writeChange, hmapping] at hw
    obtain ⟨doc, hdoc, hw⟩ := ok_of_bind hw
    obtain ⟨key, hkey, hw⟩ := ok_of_bind hw
    have carries := documents doc hdoc
    rw [carries m hm ht, Option.getD_some, indexValue_key hm hi ht] at hkey
    cases hkey
    cases hw
    exact ⟨_, _, rfl, .write hm ht carries, fun quiet =>
      (found quiet).symm ▸ ⟨m, hm, ht, doc, hdoc, rfl⟩⟩

/-- The deletion of an entity takes its document away. -/
theorem Due.deletion {m : Mapping} (due : s.Due moved events i (.delete m i)) (hi : R.Known i) :
    ∃ r made, deleteRequest m i = .ok (some r) ∧
      Transaction.requestChange R.mappings r = .ok (some made) ∧ R.Sets i made none ∧
      s.Right moved i none := by
  cases due with
  | delete hm ht found =>
    have hfield : m.idFieldFor i.type = some m.ownIdField := ht ▸ R.separate.idFieldFor_own hm
    refine ⟨.delete m.indexedType m.ownIdField.name (R.key i), _, ?_, rfl, .delete hm ht,
      fun quiet => (found quiet).symm ▸ rfl⟩
    simp only [deleteRequest, hfield, indexValue_key hm hi ht]
    rfl

/-- A task that leads to others is replaced by them. -/
theorem Working.replace (working : s.Working moved events t (task :: rest))
    (due : ∀ x ∈ more, ∃ i, R.Mentioned events i ∧ s.Due moved events i x)
    (covered : ∀ i, R.Mentioned events i → s.Due moved events i task →
      ∃ x ∈ more, s.Due moved events i x) : s.Working moved events t (more ++ rest) := by
  refine ⟨working.opened, fun x hx => ?_, working.staged, fun i hi => ?_⟩
  · rcases List.mem_append.mp hx with hx | hx
    · exact due x hx
    · exact working.due x (List.mem_cons_of_mem _ hx)
  · rcases working.covered i hi with ⟨x, hx, hdue⟩ | hstaged
    · left
      rcases List.mem_cons.mp hx with rfl | hx
      · obtain ⟨y, hy, hdue⟩ := covered i hi hdue
        exact ⟨y, List.mem_append_left _ hy, hdue⟩
      · exact ⟨x, List.mem_append_right _ hx, hdue⟩
    · exact .inr hstaged

theorem Due.onIndex (due : s.Due moved events i task) (b : Backend) :
    Due { s with index := b } moved events i task := by
  cases due with
  | settle known last ends => exact .settle known last ends
  | stage request fits found => exact .stage request fits found
  | delete mem type found => exact .delete mem type found

/-- A task that stages a change is replaced by the change. -/
theorem Working.stage (working : s.Working moved events t (task :: rest)) {change : Change}
    (due : ∃ i d, R.Mentioned events i ∧ R.Sets i change d ∧ s.Right moved i d)
    (covered : ∀ i, R.Mentioned events i → s.Due moved events i task → ∃ d, R.Sets i change d)
    {b : Backend} (hb : b = s.index.setTransaction t
      ⟨(s.index.transaction t).staged ++ [change], false⟩) :
    Working { s with index := b } moved events t rest := by
  have hset : b.transaction t = ⟨(s.index.transaction t).staged ++ [change], false⟩ :=
    hb ▸ Backend.transaction_set (Backend.lt_of_open working.opened) _
  refine ⟨congrArg Transaction.closed hset, fun x hx => ?_, ?_, fun i hi => ?_⟩
  · obtain ⟨i, hi, due⟩ := working.due x (List.mem_cons_of_mem _ hx)
    exact ⟨i, hi, due.onIndex b⟩
  · rw [hset]
    intro c hc
    rcases List.mem_append.mp hc with hc | hc
    · exact working.staged c hc
    · exact List.mem_singleton.mp hc ▸ due
  · rw [hset]
    rcases working.covered i hi with ⟨x, hx, hdue⟩ | ⟨c, hc, hsets⟩
    · rcases List.mem_cons.mp hx with rfl | hx
      · exact .inr ⟨change, List.mem_append_right _ List.mem_cons_self, covered i hi hdue⟩
      · exact .inl ⟨x, hx, hdue.onIndex b⟩
    · exact .inr ⟨c, List.mem_append_left _ hc, hsets⟩

/-- Staging a request fails, or takes in the change that the request asks for. -/
theorem stage_cases (fault : Option Fault) (opened : (s.index.transaction t).closed = false)
    (r : Request) :
    (∃ f, (surroundings fault).stage t r s = (.error f, s)) ∨
      ∃ change, Transaction.requestChange R.mappings r = .ok change ∧
        (surroundings fault).stage t r s = (.ok (), { s with
          index := s.index.setTransaction t
            ⟨(s.index.transaction t).staged ++ change.toList, false⟩ }) := by
  change (∃ f, (strike fault >>= fun _ => onIndex (Backend.stage R.mappings t r)) s = _) ∨
    ∃ change, _ ∧ (strike fault >>= fun _ => onIndex (Backend.stage R.mappings t r)) s = _
  rw [Action.bind_apply]
  rcases strike_cases fault s with h | ⟨f, h⟩
  · rw [h]
    rcases Backend.stage_cases R.mappings opened r with ⟨f, h⟩ | ⟨change, hc, h⟩
    · left
      exact ⟨f, by simp only [onIndex, h]⟩
    · right
      exact ⟨change, hc, by simp only [onIndex, h]⟩
  · rw [h]
    exact .inl ⟨f, rfl⟩

theorem snapshot_cases (fault : Option Fault) (s : World R) (i : Identity) :
    (∃ f, (surroundings fault).snapshot i.type i.id s = (.error f, s)) ∨
      (surroundings fault).snapshot i.type i.id s = (.ok (s.entities i), s) := by
  change (∃ f, (strike fault >>= fun _ => snapshot i) s = _) ∨
    (strike fault >>= fun _ => snapshot i) s = _
  rw [Action.bind_apply]
  rcases strike_cases fault s with h | ⟨f, h⟩
  · rw [h]
    exact .inr rfl
  · rw [h]
    exact .inl ⟨f, rfl⟩

/-- Deletions take the place of an entity that is known to be gone. -/
theorem Working.ended {kind : EventKind} (working : s.Working moved events t (.settle i kind :: rest))
    (hi : R.Mentioned events i) (found : s.Found moved i none) :
    s.Working moved events t (deletions R.mappings i ++ rest) := by
  obtain ⟨m, hm, ht, hcontaining⟩ := containing_of_known hi.1
  rw [deletions, hcontaining]
  refine working.replace ?_ ?_
  · rintro x hx
    exact ⟨i, hi, List.mem_singleton.mp hx ▸ .delete hm ht found⟩
  · rintro j hj hdue
    cases hdue
    exact ⟨_, List.mem_cons_self, .delete hm ht found⟩

/-- A snapshot leads to the document of the entity, or to its deletions. -/
theorem Working.snapshot {kind : EventKind} (sane : s.Sane)
    (working : s.Working moved events t (.settle i kind :: rest)) (hi : R.Mentioned events i)
    (found : s.Found moved i (s.entities i)) :
    s.Working moved events t (afterSnapshot R.mappings i kind (s.entities i) ++ rest) := by
  cases hentity : s.entities i with
  | none => exact working.ended hi (hentity ▸ found)
  | some e =>
    have hstage : s.Due moved events i (.stage (if kind = .insert then .index e else .update e)) := by
      refine .stage ?_ (sane.fits i hi.1 e hentity) (hentity ▸ found)
      split
      · exact .inl rfl
      · exact .inr rfl
    refine working.replace ?_ ?_
    · rintro x hx
      exact ⟨i, hi, List.mem_singleton.mp hx ▸ hstage⟩
    · rintro j hj hdue
      cases hdue
      exact ⟨_, List.mem_cons_self, hstage⟩

/-- A task fails, or leaves the work that it leads to. -/
theorem perform_spec {c : Poller.Collected} (fault : Option Fault) (sane : s.Sane)
    (collects : s.Collects cursors c) (tracked : ∀ i, R.Known i → s.Tracked cursors i)
    (hmoved : moved = Poller.moveCursors cursors c.consumed)
    (working : s.Working moved c.events t (task :: rest)) :
    ∃ b, (perform (surroundings fault) R.mappings t task s).2 = { s with index := b } ∧
      b.index = s.index.index ∧
      ∀ more, (perform (surroundings fault) R.mappings t task s).1 = .ok more →
        Working { s with index := b } moved c.events t (more ++ rest) := by
  obtain ⟨i, hi, due⟩ := working.due task List.mem_cons_self
  cases task with
  | settle j kind =>
    cases due with
    | @settle _ e known last ends =>
    obtain ⟨m, hm, ht, hcontaining⟩ := containing_of_known hi.1
    have found := hmoved ▸ collects.found sane hi.1 (tracked i hi.1) last
    refine ⟨s.index, ?_⟩
    simp only [perform, hcontaining, List.isEmpty_cons, Bool.false_eq_true, if_false]
    by_cases hkind : kind = .delete
    · subst hkind
      rw [if_pos (ends.mp rfl)] at found
      refine ⟨rfl, trivial, ?_⟩
      rintro more ⟨⟩
      exact working.ended hi found
    · rw [if_neg (hkind ∘ ends.mpr)] at found
      have hwrite : (kind = .insert || kind = .update : Bool) = true := by
        cases kind <;> simp_all
      simp only [hwrite, if_true, Action.bind_apply]
      rcases snapshot_cases fault s i with ⟨f, h⟩ | h
      · rw [h]
        exact ⟨rfl, trivial, fun _ h => by cases h⟩
      · rw [h]
        refine ⟨rfl, trivial, ?_⟩
        rintro more ⟨⟩
        exact working.snapshot sane hi found
  | stage r =>
    simp only [perform, Action.bind_apply]
    rcases stage_cases fault working.opened r with ⟨f, h⟩ | ⟨change, hchange, h⟩
    · rw [h]
      exact ⟨s.index, rfl, rfl, fun _ h => by cases h⟩
    · rw [h]
      obtain ⟨made, d, rfl, sets, right⟩ := due.change hi.1 hchange
      refine ⟨_, rfl, rfl, ?_⟩
      rintro more ⟨⟩
      refine working.stage ⟨i, d, hi, sets, right⟩ (fun j hj hdue => ?_) rfl
      -- The request names no entity; the same change is made for any that it is due for.
      obtain ⟨made', d', hmade, sets', -⟩ := hdue.change hj.1 hchange
      cases hmade
      exact ⟨d', sets'⟩
  | delete m j =>
    have hji : j = i := by
      cases due
      rfl
    subst hji
    obtain ⟨r, made, hdelete, hchange, sets, right⟩ := due.deletion hi.1
    simp only [perform, hdelete, Action.bind_apply, Action.ofExcept, Action.pure]
    rcases stage_cases fault working.opened r with ⟨f, h⟩ | ⟨change, hchange', h⟩
    · rw [h]
      exact ⟨s.index, rfl, rfl, fun _ h => by cases h⟩
    · cases hchange.symm.trans hchange'
      rw [h]
      refine ⟨_, rfl, rfl, ?_⟩
      rintro more ⟨⟩
      refine working.stage ⟨j, none, hi, sets, right⟩ (fun k hk hdue => ?_) rfl
      cases hdue
      exact ⟨none, sets⟩

theorem Collects.ahead_of_mentioned {c : Poller.Collected} (collects : s.Collects cursors c)
    (sane : s.Sane) (hi : R.Mentioned c.events i) : s.ahead cursors i ≠ none := by
  rw [collects.ahead sane hi.1]
  obtain ⟨e, he⟩ := Option.isSome_iff_exists.mp hi.2
  simp [he]

theorem Working.sets (working : s.Working moved events t tasks) {change : Change}
    (hc : change ∈ (s.index.transaction t).staged) : ∃ i d, R.Known i ∧ R.Sets i change d := by
  obtain ⟨i, d, hi, sets, -⟩ := working.staged change hc
  exact ⟨i, d, hi.1, sets⟩

/-- Staged changes touch only entities of which rows are ahead, also if only some of them are made. -/
theorem Working.keeps {c : Poller.Collected} (sane : s.Sane) (collects : s.Collects cursors c)
    (working : s.Working moved c.events t tasks) {changes : List Change}
    (staged : ∀ change ∈ changes, change ∈ (s.index.transaction t).staged) {b : Backend}
    (hb : b.index = (Index.applyAll R.mappings changes s.index.index).2) : s.Keeps cursors b := by
  obtain ⟨-, tidy, right⟩ :=
    applyAll_sets changes sane.tidy fun change hc => working.sets (staged change hc)
  refine ⟨hb ▸ tidy, fun i hi quiet => ?_⟩
  rw [hb]
  refine right i hi (· = R.cell s.index.index i) (fun change hc d hd => ?_) (.inl rfl)
  -- What is staged is about mentioned entities, whose rows the cursors have not passed yet.
  obtain ⟨j, d', hj, sets, -⟩ := working.staged change (staged change hc)
  obtain rfl := sets.unique hd hj.1 hi
  exact absurd quiet (collects.ahead_of_mentioned sane hj)

/-- When all staged changes are made, the index shows every mentioned entity. -/
theorem Working.made (sane : s.Sane) (working : s.Working moved events t []) :
    (Index.applyAll R.mappings (s.index.transaction t).staged s.index.index).1 = .ok () ∧
      ∀ i, R.Mentioned events i → s.Right moved i
        (R.cell (Index.applyAll R.mappings (s.index.transaction t).staged s.index.index).2 i) := by
  obtain ⟨hok, -, right⟩ :=
    applyAll_sets (s.index.transaction t).staged sane.tidy fun change hc => working.sets hc
  refine ⟨hok, fun i hi => right i hi.1 (s.Right moved i) (fun change hc d hd => ?_) ?_⟩
  · obtain ⟨j, d', hj, sets, hright⟩ := working.staged change hc
    obtain rfl := sets.unique hd hj.1 hi.1
    rw [← hd.result_eq, sets.result_eq]
    exact hright
  · rcases working.covered i hi with ⟨task, ht, -⟩ | hstaged
    · cases ht
    · exact .inr hstaged

theorem commit_spec {c : Poller.Collected} (fault : Option Fault) (sane : s.Sane)
    (collects : s.Collects cursors c) (working : s.Working moved c.events t []) :
    ∃ b, (commit fault t s).2 = { s with index := b } ∧ s.Keeps cursors b ∧
      ∀ u, (commit fault t s).1 = .ok u → ∀ i, R.Mentioned c.events i →
        s.Right moved i (R.cell b.index i) := by
  cases fault with
  | none =>
    obtain ⟨hok, right⟩ := working.made sane
    simp only [commit, onIndex, Backend.commit_of_open working.opened]
    exact ⟨_, rfl, working.keeps sane collects (fun _ h => h) rfl, fun _ _ => right⟩
  | some fault =>
    cases fault with
    | failure f => exact ⟨s.index, rfl, .of_index sane rfl, fun _ h => by cases h⟩
    | brokenOff n f =>
      simp only [commit, onIndex, breakOff, working.opened, Bool.false_eq_true, if_false]
      refine ⟨_, rfl, working.keeps sane collects (fun _ h => ?_) rfl, fun _ h => by cases h⟩
      exact List.mem_of_mem_take h

/-- A batch begins with a task for each net change. -/
theorem working_begin {batch : NetBatch} (nets : Nets events batch)
    (sound : ∀ e ∈ events, R.Sound e) {b : Backend} (hb : b = (Backend.begin s.index).2) :
    Working { s with index := b } moved events s.index.transactions.length
      (batch.changes.map fun (i, k) => .settle i k) := by
  have fresh : b.transaction s.index.transactions.length = .fresh :=
    hb ▸ Backend.transaction_begin s.index
  have known {e : CaptureEvent} {i : Identity} (last : lastAbout i events = some e) :
      R.Known e.identity := (sound e (mem_of_lastAbout last).1).2
  refine ⟨by rw [fresh]; rfl, ?_, by simp [fresh, Transaction.fresh], ?_⟩
  · intro task ht
    obtain ⟨⟨i, kind⟩, hmem, rfl⟩ := List.mem_map.mp ht
    obtain ⟨hkind, e, last, rfl, ends⟩ := nets.last i kind hmem
    exact ⟨_, ⟨known last, by rw [last]; rfl⟩, .settle hkind last ends⟩
  · intro i hi
    left
    obtain ⟨e, last⟩ := Option.isSome_iff_exists.mp hi.2
    obtain ⟨hmem, hsame⟩ := mem_of_lastAbout last
    obtain rfl := ((known last).same_iff hi.1).mp hsame
    obtain ⟨kind, hk⟩ := nets.complete e hmem
    obtain ⟨hkind, e', last', -, ends⟩ := nets.last _ kind hk
    exact ⟨_, List.mem_map.mpr ⟨_, hk, rfl⟩, .settle hkind last' ends⟩

/-- A step of a dispatch leaves the rest of the world alone. -/
theorem advance_spec {c : Poller.Collected} {p : Phase Nat} (fault : Option Fault) (sane : s.Sane)
    (collects : s.Collects cursors c) (tracked : ∀ i, R.Known i → s.Tracked cursors i)
    (hmoved : moved = Poller.moveCursors cursors c.consumed) (onWay : s.OnWay moved c.events p) :
    ∃ b, (Dispatch.step (surroundings fault) R.mappings p s).2 = { s with index := b } ∧
      s.Keeps cursors b ∧ OnWay { s with index := b } moved c.events
        (Dispatch.step (surroundings fault) R.mappings p s).1 := by
  have same : s.Keeps cursors s.index := .of_index sane rfl
  cases p with
  | opening net =>
    simp only [Dispatch.step]
    rcases strike_cases fault s with h | ⟨f, h⟩
    · simp only [surroundings, h]
      exact ⟨s.index, rfl, same, onWay⟩
    · simp only [surroundings, h]
      exact ⟨s.index, rfl, same, trivial⟩
  | beginning net =>
    obtain ⟨batch, nets, rfl⟩ := onWay
    simp only [Dispatch.step, surroundings, Action.bind_apply]
    rcases strike_cases fault s with h | ⟨f, h⟩
    · simp only [h, onIndex]
      exact ⟨_, rfl, .of_index sane rfl, working_begin nets (collects.sound sane) rfl⟩
    · simp only [h]
      exact ⟨s.index, rfl, same, trivial⟩
  | working t tasks =>
    cases tasks with
    | nil => exact ⟨s.index, rfl, same, onWay⟩
    | cons task rest =>
      obtain ⟨b, hstate, hindex, hmore⟩ := perform_spec fault sane collects tracked hmoved onWay
      simp only [Dispatch.step]
      generalize perform (surroundings fault) R.mappings t task s = performed at hstate hmore ⊢
      obtain ⟨outcome, after⟩ := performed
      cases outcome with
      | error f => exact ⟨b, hstate, .of_index sane hindex, trivial⟩
      | ok more => exact ⟨b, hstate, .of_index sane hindex, hmore more rfl⟩
  | committing t =>
    obtain ⟨b, hstate, keeps, right⟩ := commit_spec fault sane collects onWay
    simp only [Dispatch.step, surroundings]
    generalize commit fault t s = committed at hstate right ⊢
    obtain ⟨outcome, after⟩ := committed
    cases outcome with
    | error f => exact ⟨b, hstate, keeps, trivial⟩
    | ok u => exact ⟨b, hstate, keeps, right u rfl⟩
  | undoing t f =>
    exact ⟨_, rfl, .of_index sane (Backend.index_rollback t s.index), trivial⟩
  | leaving outcome =>
    refine ⟨s.index, rfl, same, ?_⟩
    cases outcome with
    | error f => trivial
    | ok u => exact onWay
  | closing outcome =>
    simp only [Dispatch.step, surroundings]
    rcases strike_cases fault s with h | ⟨f, h⟩
    · simp only [h]
      refine ⟨s.index, rfl, same, ?_⟩
      cases outcome with
      | error f => trivial
      | ok u => exact onWay
    · simp only [h]
      exact ⟨s.index, rfl, same, trivial⟩
  | done outcome => exact ⟨s.index, rfl, same, onWay⟩

end World
end IndexSync.Registry
