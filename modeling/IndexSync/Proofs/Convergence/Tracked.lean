import IndexSync.Proofs.Convergence.Writers

/-!
# What a tick on its way holds

A tick has something to do for every entity that its batch mentions. What it has found out about an
entity, and what it has staged for it, counts as long as no more is ahead of the entity than the batch.
-/
namespace IndexSync.Registry
open Search Dispatch

variable {R : Registry}

/-- A known entity that some events are about. -/
def Mentioned (R : Registry) (events : List CaptureEvent) (i : Identity) : Prop :=
  R.Known i ∧ (lastAbout i events).isSome

namespace World

/-- The index shows what is expected of an entity, unless rows about it are ahead. The last of these
tells what is expected. -/
def Tracked (s : World R) (cursors : Cursors) (i : Identity) : Prop :=
  match s.ahead cursors i with
  | none => R.Shows i (s.expected i) (R.cell s.index.index i)
  | some .delete => s.expected i = none
  | some _ => s.expected i = s.entities i

/-- What is expected of an entity, unless more is ahead. -/
def Found (s : World R) (moved : Cursors) (i : Identity) (entity : Option Entity) : Prop :=
  s.ahead moved i = none → s.expected i = entity

/-- What the index has to show of an entity, unless more is ahead. -/
def Right (s : World R) (moved : Cursors) (i : Identity) (d : Option Document) : Prop :=
  s.ahead moved i = none → R.Shows i (s.expected i) d

/-- A piece of work that is to be done for an entity. -/
inductive Due (s : World R) (moved : Cursors) (events : List CaptureEvent) (i : Identity) :
    Task → Prop
  | settle {kind : EventKind} {e : CaptureEvent} (known : kind ≠ .unknown)
      (last : lastAbout i events = some e) (ends : kind = .delete ↔ e.kind = .delete) :
      Due s moved events i (.settle i kind)
  | stage {r : Request} {e : Entity} (request : r = .index e ∨ r = .update e) (fits : R.Fits i e)
      (found : s.Found moved i (some e)) : Due s moved events i (.stage r)
  | delete {m : Mapping} (mem : m ∈ R.mappings.list) (type : m.indexedType = i.type)
      (found : s.Found moved i none) : Due s moved events i (.delete m i)

/-- An open transaction with work to do: each mentioned entity has a task or a staged change, and all
of these are right. -/
structure Working (s : World R) (moved : Cursors) (events : List CaptureEvent) (t : Nat)
    (tasks : List Task) : Prop where
  opened : (s.index.transaction t).closed = false
  due : ∀ task ∈ tasks, ∃ i, R.Mentioned events i ∧ s.Due moved events i task
  staged : ∀ change ∈ (s.index.transaction t).staged,
    ∃ i d, R.Mentioned events i ∧ R.Sets i change d ∧ s.Right moved i d
  covered : ∀ i, R.Mentioned events i → (∃ task ∈ tasks, s.Due moved events i task) ∨
    ∃ change ∈ (s.index.transaction t).staged, ∃ d, R.Sets i change d

/-- What a dispatch has made sure of by the phase it has come to. -/
def OnWay (s : World R) (moved : Cursors) (events : List CaptureEvent) : Phase Nat → Prop
  | .opening net | .beginning net => ∃ batch : NetBatch, Nets events batch ∧ batch.changes = net
  | .working t tasks => s.Working moved events t tasks
  | .committing t => s.Working moved events t []
  | .leaving (.ok _) | .closing (.ok _) | .done (.ok _) =>
    ∀ i, R.Mentioned events i → s.Right moved i (R.cell s.index.index i)
  | _ => True

/-- The batch holds the first events after the cursors, from every table. -/
def Collects (s : World R) (cursors : Cursors) (c : Poller.Collected) : Prop :=
  ∃ handed, c = Poller.collected handed ∧
    Poller.Shares R.poller.models cursors s.tables handed

variable {s t : World R} {cursors moved : Cursors} {events : List CaptureEvent} {i : Identity}

/-- An entity of which no row is ahead has been left alone. -/
theorem Later.quiet (h : Later s t) (hi : R.Known i) (reached : s.Reached cursors)
    (quiet : t.ahead cursors i = none) :
    s.ahead cursors i = none ∧ t.expected i = s.expected i := by
  cases h.passes i hi with
  | untouched entity misled ahead =>
    exact ⟨(ahead cursors reached).symm.trans quiet, by rw [expected, expected, entity, misled]⟩
  | renewed kind misled ended ahead =>
    rw [ahead cursors reached] at quiet
    cases quiet

theorem Tracked.later (tracked : s.Tracked cursors i) (h : Later s t) (hi : R.Known i)
    (reached : s.Reached cursors) : t.Tracked cursors i := by
  unfold Tracked at tracked ⊢
  cases h.passes i hi with
  | untouched entity misled ahead =>
    have hexpected : t.expected i = s.expected i := by rw [expected, expected, entity, misled]
    rw [ahead cursors reached, hexpected, entity, h.index]
    exact tracked
  | renewed kind misled ended ahead =>
    have hexpected : t.expected i = t.entities i := by simp [expected, misled]
    rw [ahead cursors reached, hexpected]
    cases kind with
    | delete => exact ended rfl
    | _ => rfl

theorem Found.later {entity : Option Entity} (found : s.Found moved i entity) (h : Later s t)
    (hi : R.Known i) (reached : s.Reached moved) : t.Found moved i entity := by
  intro quiet
  obtain ⟨hquiet, hexpected⟩ := h.quiet hi reached quiet
  exact hexpected.trans (found hquiet)

theorem Right.later {d : Option Document} (right : s.Right moved i d) (h : Later s t)
    (hi : R.Known i) (reached : s.Reached moved) : t.Right moved i d := by
  intro quiet
  obtain ⟨hquiet, hexpected⟩ := h.quiet hi reached quiet
  exact hexpected ▸ right hquiet

theorem Due.later {task : Task} (due : s.Due moved events i task) (h : Later s t)
    (hi : R.Known i) (reached : s.Reached moved) : t.Due moved events i task := by
  cases due with
  | settle known last ends => exact .settle known last ends
  | stage request fits found => exact .stage request fits (found.later h hi reached)
  | delete mem type found => exact .delete mem type (found.later h hi reached)

theorem Working.later {n : Nat} {tasks : List Task} (working : s.Working moved events n tasks)
    (h : Later s t) (reached : s.Reached moved) : t.Working moved events n tasks := by
  refine ⟨h.index ▸ working.opened, fun task ht => ?_, ?_, ?_⟩
  · obtain ⟨i, hi, due⟩ := working.due task ht
    exact ⟨i, hi, due.later h hi.1 reached⟩
  · rw [h.index]
    intro change hc
    obtain ⟨i, d, hi, sets, right⟩ := working.staged change hc
    exact ⟨i, d, hi, sets, right.later h hi.1 reached⟩
  · rw [h.index]
    intro i hi
    rcases working.covered i hi with ⟨task, ht, due⟩ | hstaged
    · exact .inl ⟨task, ht, due.later h hi.1 reached⟩
    · exact .inr hstaged

/-- Writers do not disturb a dispatch. -/
theorem OnWay.later {p : Phase Nat} (onWay : s.OnWay moved events p) (h : Later s t)
    (reached : s.Reached moved) : t.OnWay moved events p := by
  have shown (all : ∀ i, R.Mentioned events i → s.Right moved i (R.cell s.index.index i)) :
      ∀ i, R.Mentioned events i → t.Right moved i (R.cell t.index.index i) := fun i hi =>
    h.index ▸ (all i hi).later h hi.1 reached
  cases p with
  | opening net => exact onWay
  | beginning net => exact onWay
  | working n tasks => exact Working.later onWay h reached
  | committing n => exact Working.later onWay h reached
  | undoing n f => trivial
  | leaving outcome | closing outcome | done outcome =>
    cases outcome with
    | error f => trivial
    | ok u => exact shown onWay

section Batch

variable {c : Poller.Collected}

theorem Collects.later (collects : s.Collects cursors c) (h : Later s t) : t.Collects cursors c := by
  obtain ⟨handed, rfl, shares⟩ := collects
  exact ⟨handed, rfl, shares.grows h.grows⟩

theorem Collects.sound (collects : s.Collects cursors c) (sane : s.Sane) :
    ∀ e ∈ c.events, R.Sound e := by
  obtain ⟨handed, rfl, shares⟩ := collects
  exact batch_sound sane.recorded shares

/-- The rows after the cursors say what those after the batch say, or else what the batch says. -/
theorem Collects.ahead (collects : s.Collects cursors c) (sane : s.Sane) (hi : R.Known i) :
    s.ahead cursors i = (s.ahead (Poller.moveCursors cursors c.consumed) i).or
      ((lastAbout i c.events).map (·.kind)) := by
  obtain ⟨handed, rfl, shares⟩ := collects
  exact lastKind_batch sane.recorded hi shares

/-- The cursors move to rows that were written. -/
theorem Collects.reached (collects : s.Collects cursors c) (reached : s.Reached cursors) :
    s.Reached (Poller.moveCursors cursors c.consumed) := by
  obtain ⟨handed, rfl, shares⟩ := collects
  refine Poller.moveCursors_induction reached fun table keys hmem k hk => ?_
  obtain ⟨x, hx, htable, hkey⟩ := Poller.mem_consumed hmem hk
  obtain ⟨m, r, -, hr, hrt, hread⟩ := shares.tag hx
  refine ⟨r, s.tables.left.subset hr, ?_, hread.fields.2.2.2.1.symm.trans hkey⟩
  rw [hrt, ← hread.fields.2.2.2.2, htable]

/-- What a batch says of an entity is what is expected of it, unless more is ahead. -/
theorem Collects.found (collects : s.Collects cursors c) (sane : s.Sane) (hi : R.Known i)
    (tracked : s.Tracked cursors i) {e : CaptureEvent} (last : lastAbout i c.events = some e) :
    s.Found (Poller.moveCursors cursors c.consumed) i
      (if e.kind = .delete then none else s.entities i) := by
  intro quiet
  have hahead : s.ahead cursors i = some e.kind := by
    rw [collects.ahead sane hi, quiet, last]
    rfl
  -- The row of the event is ahead of the cursors that have not moved yet.
  unfold Tracked at tracked
  rw [hahead] at tracked
  by_cases hkind : e.kind = .delete
  · rw [if_pos hkind]
    simpa [hkind] using tracked
  · rw [if_neg hkind]
    cases hk : e.kind <;> simp_all

end Batch
end World
end IndexSync.Registry
