import IndexSync.Proofs.Dispatch.Planned
import IndexSync.Proofs.Dispatch.Recorded

/-!
# A batch turn by turn

The net changes of a batch have their turns one after the other. Each turn asks for the entity at most once,
and what it stages depends on that answer alone. What a batch has staged when it commits is what its turns
have, part by part.
-/
namespace IndexSync.Dispatch
open Search

/-- A net change and, if the entity was asked for, the answer. -/
structure Turn where
  identity : Identity
  kind : EventKind
  answer : Option Entity

namespace Turn

def change (turn : Turn) : Identity × EventKind := (turn.identity, turn.kind)

/-- The turn asks for the entity. -/
def asks (ms : Mappings) (turn : Turn) : Bool := asksFor ms turn.identity turn.kind

def answered (turn : Turn) : Answered := (turn.identity, .ok turn.answer)

/-- The changes that a turn leads to. -/
def Makes (ms : Mappings) (turn : Turn) (changes : List Change) : Prop :=
  Leads ms (fun _ => turn.answer) [.settle turn.identity turn.kind] changes

end Turn

/-- The answers that turns are given. -/
def answersOf (ms : Mappings) (turns : List Turn) : List Answered :=
  (turns.filter (Turn.asks ms)).map Turn.answered

variable {reader : EntityReader Site} {ms : Mappings} {ix : Index} {net : Entries Identity EventKind}
  {events : List CaptureEvent} {s : Site}

theorem answersOf_append (ms : Mappings) (turns more : List Turn) :
    answersOf ms (turns ++ more) = answersOf ms turns ++ answersOf ms more := by
  rw [answersOf, List.filter_append, List.map_append]
  rfl

/-- No answer leads to more to settle. -/
theorem settled_of_mem_follow {i : Identity} {kind : EventKind} {e : Option Entity} {task : Task}
    (h : task ∈ follow ms i kind e) (j : Identity) (other : EventKind) : task ≠ .settle j other := by
  have deletes (hdel : task ∈ deletions ms i) : task ≠ .settle j other := by
    obtain ⟨m, -, rfl⟩ := List.mem_map.mp hdel
    rintro ⟨⟩
  unfold follow at h
  split at h
  · cases h
  · split at h
    · cases e with
      | none => exact deletes h
      | some e =>
        rw [afterSnapshot, List.mem_singleton] at h
        rw [h]
        rintro ⟨⟩
    · exact deletes h

/-- To settle a net change is to follow the answer, if one is asked for. -/
theorem follow_of_perform (spares : reader.SparesIndex) {t : Nat} {i : Identity} {kind : EventKind}
    {after : Site} {more : List Task}
    (h : perform (Site.surroundings reader ms) ms t (.settle i kind) s = (.ok more, after)) :
    after.index = s.index ∧ ∃ answer, more = follow ms i kind answer ∧
      answersTo (Site.surroundings reader ms) ms s (.settle i kind) =
        answersOf ms [⟨i, kind, answer⟩] := by
  have single (answer : Option Entity) : answersOf ms [⟨i, kind, answer⟩] =
      if asksFor ms i kind then [(i, .ok answer)] else [] := by
    rw [answersOf, List.filter_singleton, Turn.asks]
    cases asksFor ms i kind <;> rfl
  simp only [single, answersTo, asksFor, follow]
  simp only [perform] at h
  split at h
  · rename_i hempty
    cases h
    exact ⟨rfl, none, by simp [hempty]⟩
  · rename_i hmapped
    split at h
    · rename_i hkind
      have same := spares.reading i.type i.id s
      simp only [Site.surroundings, Action.bind_apply] at h ⊢
      generalize reader.snapshot i.type i.id s = read at h same ⊢
      obtain ⟨outcome, s'⟩ := read
      cases outcome with
      | error f => cases h
      | ok answer =>
        cases h
        exact ⟨same, answer, by simp [hmapped, hkind]⟩
    · rename_i hkind
      cases h
      exact ⟨rfl, none, by simp [hmapped, hkind]⟩

/-- While a batch is dispatched, some turns have been taken. What has been staged and what the last turn has
still to do make up their parts. -/
def OnCourse (ms : Mappings) (net : Entries Identity EventKind) :
    Phase Nat → List Answered → Site → Prop
  | .opening n, record, _ | .beginning n, record, _ => n = net ∧ record = []
  | .working t tasks, record, s => ∃ turns left pending answer, net = turns.map Turn.change ++ left ∧
      tasks = pending ++ settling left ∧ record = answersOf ms turns ∧
      (∀ task ∈ pending, ∀ i kind, task ≠ .settle i kind) ∧
      ∀ changes, Leads ms (fun _ => answer) pending changes → ∃ parts,
        (s.index.transaction t).staged ++ changes = parts.flatten ∧
          List.Forall₂ (Turn.Makes ms) turns parts
  | .committing t, record, s => ∃ turns parts, net = turns.map Turn.change ∧
      record = answersOf ms turns ∧ (s.index.transaction t).staged = parts.flatten ∧
      List.Forall₂ (Turn.Makes ms) turns parts
  | _, _, _ => True

/-- A task that is done belongs to the last turn, or is a turn of its own. -/
theorem onCourse_perform (spares : reader.SparesIndex) {t : Nat} {task : Task} {rest more : List Task}
    {record : List Answered} {after : Site} (opened : (s.index.transaction t).closed = false)
    (h : OnCourse ms net (.working t (task :: rest)) record s)
    (hperform : perform (Site.surroundings reader ms) ms t task s = (.ok more, after)) :
    OnCourse ms net (.working t (more ++ rest))
      (record ++ answersTo (Site.surroundings reader ms) ms s task) after := by
  obtain ⟨turns, left, pending, answer, hnet, htasks, rfl, hpending, staged⟩ := h
  cases pending with
  | nil =>
    -- The last turn is over. The next net change has its turn.
    cases left with
    | nil => cases htasks
    | cons first left =>
      obtain ⟨i, kind⟩ := first
      obtain ⟨rfl, rfl⟩ := List.cons_eq_cons.mp htasks
      obtain ⟨same, answer, rfl, hanswers⟩ := follow_of_perform spares hperform
      refine ⟨turns ++ [⟨i, kind, answer⟩], left, _, answer, ?_, rfl, ?_,
        fun task htask => settled_of_mem_follow htask, fun changes leads => ?_⟩
      · rw [hnet, List.map_append, List.append_assoc]
        rfl
      · rw [hanswers, answersOf_append]
      · obtain ⟨parts, hparts, makes⟩ := staged [] .nil
        refine ⟨parts ++ [changes], ?_, ?_⟩
        · rw [same, ← List.append_nil (s.index.transaction t).staged, hparts, List.flatten_append,
            List.flatten_singleton]
        · exact List.rel_append makes (.cons (leads_settle_iff.mpr leads) .nil)
  | cons first pending =>
    obtain ⟨rfl, rfl⟩ := List.cons_eq_cons.mp htasks
    rw [List.forall_mem_cons] at hpending
    obtain ⟨rfl, -, c, asks, hstaged⟩ := perform_asks opened hpending.1 hperform
    refine ⟨turns, left, pending, answer, hnet, rfl, ?_, hpending.2, fun changes leads => ?_⟩
    · have unasked : answersTo (Site.surroundings reader ms) ms s task = [] := by
        cases task with
        | settle i kind => exact absurd rfl (hpending.1 i kind)
        | stage r => rfl
        | delete m i => rfl
      rw [unasked, List.append_nil]
    · rw [hstaged, List.append_assoc]
      exact staged _ (.ask asks leads)

theorem onCourse_step (spares : reader.SparesIndex) (p : Phase Nat) (record : List Answered) (s : Site)
    (notCommit : ∀ t, p ≠ .committing t) (untouched : Untouched ms ix p s)
    (h : OnCourse ms net p record s) :
    OnCourse ms net (step (Site.surroundings reader ms) ms p s).1
      (record ++ answersAt (Site.surroundings reader ms) ms s p)
      (step (Site.surroundings reader ms) ms p s).2 := by
  cases p with
  | opening n =>
    obtain ⟨rfl, rfl⟩ := h
    simp only [step]
    split
    · exact ⟨rfl, rfl⟩
    · trivial
  | beginning n =>
    obtain ⟨rfl, rfl⟩ := h
    simp only [step, Site.surroundings, Action.bind_apply, Site.pass]
    cases (s.outages.pass .beginBatch).1 with
    | error f => trivial
    | ok u =>
      refine ⟨[], n, [], none, rfl, rfl, rfl, fun _ hm => absurd hm List.not_mem_nil, ?_⟩
      rintro changes ⟨⟩
      refine ⟨[], ?_, .nil⟩
      change ((Backend.begin s.index).2.transaction s.index.transactions.length).staged ++ [] = []
      rw [Backend.transaction_begin]
      rfl
  | working t tasks =>
    cases tasks with
    | nil =>
      obtain ⟨turns, left, pending, answer, hnet, htasks, rfl, -, staged⟩ := h
      obtain ⟨rfl, hleft⟩ := List.append_eq_nil_iff.mp htasks.symm
      obtain rfl : left = [] := List.map_eq_nil_iff.mp hleft
      obtain ⟨parts, hparts, makes⟩ := staged [] .nil
      rw [List.append_nil] at hnet hparts
      exact ⟨turns, parts, hnet, List.append_nil _, hparts, makes⟩
    | cons task rest =>
      simp only [step, answersAt]
      split
      · rename_i more after hperform
        exact onCourse_perform spares untouched.2.1.opened h hperform
      · trivial
  | committing t => exact absurd rfl (notCommit t)
  | undoing t f => trivial
  | leaving outcome => trivial
  | closing outcome =>
    simp only [step]
    split <;> trivial
  | done outcome => trivial

/-- When a batch comes to its commit, every net change has had its turn. -/
theorem onCourse_of_commitOf (spares : reader.SparesIndex) {t : Nat} {at_ : Site}
    (h : commitOf reader ms events s = some (t, at_)) :
    OnCourse ms (NetBatch.collapse events).2.changes (.committing t)
      (batch (Site.surroundings reader ms).recorded ms events ([], s)).2.1 at_ := by
  have hstart : OnCourse ms (NetBatch.collapse events).2.changes
      (start (Site.surroundings reader ms) events s).1 []
      (start (Site.surroundings reader ms) events s).2 := by
    rcases start_cases reader ms events s with ⟨outcome, hphase⟩ | hphase <;> rw [hphase]
    · trivial
    · exact ⟨rfl, rfl⟩
  let Kept (p : Phase Nat) (at_ : List Answered × Site) : Prop :=
    Untouched ms s.index.index p at_.2 ∧
      OnCourse ms (NetBatch.collapse events).2.changes p at_.1 at_.2
  have kept : ∀ p at_, (∀ t, p ≠ .committing t) → Kept p at_ →
      Kept (step (Site.surroundings reader ms).recorded ms p at_).1
        (step (Site.surroundings reader ms).recorded ms p at_).2 := by
    rintro p ⟨record, s'⟩ notCommit hkept
    rw [step_recorded]
    exact ⟨untouched_step spares p s' notCommit hkept.1,
      onCourse_step spares p record s' notCommit hkept.1 hkept.2⟩
  have hcommit := commitPoint_induction (Site.surroundings reader ms).recorded ms kept _ ([], _)
    ⟨untouched_start reader ms events s, hstart⟩
  have same := commitPoint_recorded (Site.surroundings reader ms) ms []
    (start (Site.surroundings reader ms) events s).2 (start (Site.surroundings reader ms) events s).1
  unfold commitOf at h
  rw [h] at same
  obtain ⟨⟨t', record, at'⟩, hpoint, heq⟩ := Option.map_eq_some_iff.mp same
  cases heq
  rw [hpoint] at hcommit
  rw [batch_eq_run, start_recorded, hcommit.2, run_committing_recorded]
  exact hcommit.1.2

/-- A batch that commits gives each of its net changes a turn, and changes the index by what the turns lead
to. Nothing else is asked for. -/
theorem Commits.turns (spares : reader.SparesIndex) (h : Commits reader ms events s) :
    ∃ turns parts, turns.map Turn.change = (NetBatch.collapse events).2.changes ∧
      (batch (Site.surroundings reader ms).recorded ms events ([], s)).2.1 = answersOf ms turns ∧
      List.Forall₂ (Turn.Makes ms) turns parts ∧
      (∀ change ∈ parts.flatten, change.Mapped ms) ∧
      Index.applyAll ms parts.flatten s.index.index =
        (.ok (), (batch (Site.surroundings reader ms) ms events s).2.index.index) := by
  have hindex := batch_index spares ms events s
  rcases h with ⟨t, at_, hc, hok⟩ | ⟨hcollapse, nothing⟩
  · rw [hc] at hindex
    obtain ⟨same, staging, hbatch⟩ := hindex
    obtain ⟨turns, parts, hnet, hrecord, hparts, makes⟩ := onCourse_of_commitOf spares hc
    have passed : (Site.pass .commitBatch at_).1 = .ok () := by
      cases hp : (Site.pass .commitBatch at_).1 with
      | ok u => rfl
      | error f =>
        simp only [Site.surroundings, Site.pass, Action.bind_apply] at hp hok
        rw [hp] at hok
        cases hok
    obtain ⟨houtcome, hmade⟩ := commit_of_pass reader ms passed staging.opened
    refine ⟨turns, parts, hnet.symm, hrecord, makes, ?_, ?_⟩
    · rw [← hparts]
      exact staging.mapped
    · rw [hbatch, hmade, ← same, ← hok, houtcome, hparts]
  · have hstart : (start (Site.surroundings reader ms) events s).1 = .done (.ok ()) :=
      start_of_nothing hcollapse nothing
    rw [commitOf_of_done hstart] at hindex
    refine ⟨[], [], nothing.symm, ?_, .nil, fun c hc => absurd hc List.not_mem_nil, ?_⟩
    · rw [batch_eq_run, start_recorded, hstart, run_of_done]
      rfl
    · rw [hindex]
      rfl

end IndexSync.Dispatch
