import IndexSync.Proofs.Dispatch.Planned

/-!
# Batches that nothing disturbs

Where every question is answered and no outage strikes a transaction, a batch commits if its net changes
lead to changes that can all be made.
-/
namespace IndexSync
open Search

/-- A reader that answers every question at once. -/
def EntityReader.ofAnswers (answers : Identity → Option Entity) : EntityReader Site where
  openSession := pure ()
  snapshot type id := pure (answers ⟨type, id⟩)
  leaveSession := id
  closeSession := pure ()

theorem EntityReader.ofAnswers_unchanging (answers : Identity → Option Entity) :
    (EntityReader.ofAnswers answers).Unchanging (fun _ => True) answers where
  opening _ := rfl
  reading _ _ _ := rfl
  leaving _ := rfl
  closing _ := rfl
  keptOpening _ _ := trivial
  keptReading _ _ _ _ := trivial
  answered type id s e _ h := by
    cases h
    rfl

/-- A reader that opens a session and answers every question whenever it is asked to, and meets no outage. -/
structure EntityReader.Ready (reader : EntityReader Site) (held : Store.Database → Prop) : Prop where
  opened : ∀ s, held s.database → (reader.openSession s).1 = .ok ()
  told : ∀ type id s, held s.database → ∃ e, (reader.snapshot type id s).1 = .ok e
  openingOutages : ∀ s, (reader.openSession s).2.outages = s.outages
  readingOutages : ∀ type id s, (reader.snapshot type id s).2.outages = s.outages

theorem EntityReader.ofAnswers_ready (answers : Identity → Option Entity) :
    (EntityReader.ofAnswers answers).Ready fun _ => True where
  opened _ _ := rfl
  told _ _ _ _ := ⟨_, rfl⟩
  openingOutages _ := rfl
  readingOutages _ _ _ := rfl

/-- No outage strikes where a transaction begins or commits. -/
structure Site.Calm (s : Site) : Prop where
  begins : s.outages.get? .beginBatch = none
  commits : s.outages.get? .commitBatch = none

theorem Outages.pass_of_none {point : OutagePoint} {outages : Outages}
    (h : outages.get? point = none) : outages.pass point = (.ok (), outages) := by
  simp only [pass, h]

theorem Site.pass_of_none {point : OutagePoint} {s : Site} (h : s.outages.get? point = none) :
    Site.pass point s = (.ok (), s) := by
  simp only [Site.pass, Outages.pass_of_none h]

namespace Dispatch

variable {reader : EntityReader Site} {held : Store.Database → Prop} {ms : Mappings}
  {answers : Identity → Option Entity} {events : List CaptureEvent} {t : Nat} {s : Site}

/-- A net change is settled without changing the index. -/
theorem perform_settle (unchanging : reader.Unchanging held answers) (ready : reader.Ready held)
    (ms : Mappings) (t : Nat) (shows : held s.database) (i : Identity) (kind : EventKind) :
    ∃ after, perform (Site.surroundings reader ms) ms t (.settle i kind) s =
        (.ok (follow ms i kind (answers i)), after) ∧
      after.index = s.index ∧ after.outages = s.outages ∧ held after.database := by
  simp only [perform, follow]
  split
  · exact ⟨_, rfl, rfl, rfl, shows⟩
  · split
    · obtain ⟨e, told⟩ := ready.told i.type i.id s shows
      have read : reader.snapshot i.type i.id s =
          (.ok (answers i), (reader.snapshot i.type i.id s).2) :=
        Prod.ext (unchanging.answered i.type i.id s e shows told ▸ told) rfl
      have asked : (Site.surroundings reader ms).snapshot i.type i.id s =
          (.ok (answers i), (reader.snapshot i.type i.id s).2) := read
      simp only [Action.bind_apply, asked]
      exact ⟨_, rfl, unchanging.reading i.type i.id s, ready.readingOutages i.type i.id s,
        unchanging.keptReading i.type i.id s shows⟩
    · exact ⟨s, rfl, rfl, rfl, shows⟩

/-- A task that asks for a change stages it. -/
theorem perform_of_asks (reader : EntityReader Site) {task : Task} {c : Option Change}
    (opened : (s.index.transaction t).closed = false) (h : Asks ms task c) :
    ∃ after, perform (Site.surroundings reader ms) ms t task s = (.ok [], after) ∧
      after.index.index = s.index.index ∧ after.outages = s.outages ∧ after.database = s.database ∧
      after.index.transaction t = ⟨(s.index.transaction t).staged ++ c.toList, false⟩ := by
  have staged := Backend.transaction_set (Backend.lt_of_open opened)
    ⟨(s.index.transaction t).staged ++ c.toList, false⟩
  cases h with
  | stage change =>
    simp only [perform, Action.bind_apply, Site.surroundings, Site.onIndex,
      Backend.stage_of_request opened change]
    exact ⟨_, rfl, rfl, rfl, rfl, staged⟩
  | skip request =>
    simp only [perform, Action.bind_apply, request]
    refine ⟨s, rfl, rfl, rfl, rfl, ?_⟩
    rw [Option.toList_none, List.append_nil, ← opened]
  | delete request change =>
    simp only [perform, request, Action.bind_apply, Action.ofExcept, Action.pure, Site.surroundings,
      Site.onIndex, Backend.stage_of_request opened change]
    exact ⟨_, rfl, rfl, rfl, rfl, staged⟩

/-- Tasks that lead to changes are done, and the changes staged. -/
theorem reaches_commit (unchanging : reader.Unchanging held answers) (ready : reader.Ready held)
    {tasks : List Task} {changes : List Change} (h : Leads ms answers tasks changes)
    (shows : held s.database) (opened : (s.index.transaction t).closed = false) :
    ∃ n at_, steps (Site.surroundings reader ms) ms n (.working t tasks, s) =
        (.committing t, at_) ∧ at_.index.index = s.index.index ∧ at_.outages = s.outages ∧
      at_.index.transaction t = ⟨(s.index.transaction t).staged ++ changes, false⟩ := by
  induction h generalizing s with
  | nil =>
    refine ⟨1, s, rfl, rfl, rfl, ?_⟩
    rw [List.append_nil, ← opened]
  | @settle i kind rest changes _ ih =>
    obtain ⟨after, hperform, hindex, houtages, shows'⟩ :=
      perform_settle unchanging ready ms t shows i kind
    rw [← hindex] at opened ⊢
    obtain ⟨n, at_, hsteps, hat, hout, hstaged⟩ := ih shows' opened
    refine ⟨n + 1, at_, ?_, hat, hout.trans houtages, hstaged⟩
    rw [steps, step, hperform]
    exact hsteps
  | @ask task c rest changes asks _ ih =>
    obtain ⟨after, hperform, hindex, houtages, hdatabase, hafter⟩ :=
      perform_of_asks reader opened asks
    obtain ⟨n, at_, hsteps, hat, hout, hstaged⟩ :=
      ih (hdatabase ▸ shows) (congrArg Transaction.closed hafter)
    refine ⟨n + 1, at_, ?_, hat.trans hindex, hout.trans houtages, ?_⟩
    · rw [steps, step, hperform]
      exact hsteps
    · rw [hstaged, hafter, List.append_assoc]

/-- A batch commits if all changes that its net changes lead to can be made. -/
theorem commits_of_leads (unchanging : reader.Unchanging held answers) (ready : reader.Ready held)
    (shows : held s.database) (calm : s.Calm) (hcollapse : (NetBatch.collapse events).1 = .ok ())
    {changes : List Change} {after : Index}
    (leads : Leads ms answers (settling (NetBatch.collapse events).2.changes) changes)
    (made : Index.applyAll ms changes s.index.index = (.ok (), after)) :
    Commits reader ms events s := by
  by_cases nothing : (NetBatch.collapse events).2.changes = []
  · exact .inr ⟨hcollapse, nothing⟩
  left
  let world := Site.surroundings reader ms
  obtain ⟨s', hstart, hindex', houtages', shows'⟩ : ∃ s',
      start world events s = (.opening (NetBatch.collapse events).2.changes, s') ∧
        s'.index = s.index ∧ s'.outages = s.outages ∧ held s'.database := by
    obtain ⟨hindex, hdatabase, houtages⟩ := start_site reader ms events s
    exact ⟨_, Prod.ext (start_of_changes hcollapse nothing) rfl, hindex, houtages,
      by rw [hdatabase]; exact shows⟩
  let s₀ := (reader.openSession s').2
  have entered : step world ms (.opening (NetBatch.collapse events).2.changes) s' =
      (.beginning (NetBatch.collapse events).2.changes, s₀) := by
    have opened : world.openSession s' = (.ok (), s₀) := Prod.ext (ready.opened s' shows') rfl
    simp only [step, opened]
  have hindex : s₀.index = s.index := (unchanging.opening s').trans hindex'
  have houtages : s₀.outages = s.outages := (ready.openingOutages s').trans houtages'
  have passed : Site.pass .beginBatch s₀ = (.ok (), s₀) :=
    Site.pass_of_none (houtages ▸ calm.begins)
  have begun : step world ms (.beginning (NetBatch.collapse events).2.changes) s₀ =
      (.working s₀.index.transactions.length (settling (NetBatch.collapse events).2.changes),
        { s₀ with index := (Backend.begin s₀.index).2 }) := by
    simp only [world, step, Site.surroundings, Action.bind_apply, passed]
    rfl
  have fresh := Backend.transaction_begin s₀.index
  have opened : ((Backend.begin s₀.index).2.transaction
      s₀.index.transactions.length).closed = false := by
    rw [fresh]
    rfl
  obtain ⟨n, at_, hsteps, hat, hout, hstaged⟩ :=
    reaches_commit unchanging ready (s := { s₀ with index := (Backend.begin s₀.index).2 }) leads
      (unchanging.keptOpening s' shows') opened
  have hcommit : commitOf reader ms events s =
      some (s₀.index.transactions.length, at_) := by
    refine commitPoint_of_steps world ms (n := n + 2) ?_
    rw [hstart, steps, steps, entered, begun]
    exact hsteps
  refine ⟨_, at_, hcommit, ?_⟩
  have passed' : (Site.pass .commitBatch at_).1 = .ok () := by
    rw [Site.pass_of_none]
    rw [hout]
    exact houtages ▸ calm.commits
  have houtcome := (commit_of_pass reader ms passed'
    (congrArg Transaction.closed hstaged)).1
  have hbefore : at_.index.index = s.index.index := by
    rw [hat, ← hindex]
    rfl
  rw [houtcome, hstaged, fresh, hbefore]
  exact congrArg Prod.fst made

end Dispatch
end IndexSync
