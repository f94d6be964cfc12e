import Mathlib
import IndexSync.Proofs.Dispatch.Steps
import IndexSync.Proofs.Search.Changes
import IndexSync.Sync.Reader

/-!
# What a batch leaves in the index

Up to the commit of its transaction a batch leaves the index alone. A commit that breaks off keeps the
changes it has made, and the rollback that follows finds the transaction closed.
-/
namespace IndexSync
open Search

/-- A reader that has no hand on the index. -/
structure EntityReader.SparesIndex (reader : EntityReader Site) : Prop where
  opening : ∀ s, (reader.openSession s).2.index = s.index
  reading : ∀ type id s, (reader.snapshot type id s).2.index = s.index
  leaving : ∀ s, (reader.leaveSession s).index = s.index
  closing : ∀ s, (reader.closeSession s).2.index = s.index

theorem EntityReader.ofList_sparesIndex (entities : Entries Identity Entity) :
    (EntityReader.ofList entities).SparesIndex where
  opening _ := rfl
  reading type id s := by
    simp only [EntityReader.ofList, Action.bind_apply]
    split <;> rename_i h <;> exact congrArg (fun r => r.2.index) h.symm
  leaving _ := rfl
  closing _ := rfl

theorem Site.rows_sparesIndex (mapped : List TableMapping) : (Site.rows mapped).SparesIndex where
  opening s := by
    simp only [Site.rows, Site.openSession]
    split <;> rfl
  reading type id s := by
    simp only [Site.rows, Site.snapshot]
    split
    · rfl
    · split <;> rfl
  leaving _ := rfl
  closing _ := rfl

namespace Dispatch

variable {reader : EntityReader Site} {ms : Mappings} {ix : Index}

def Task.Mapped (ms : Mappings) : Task → Prop
  | .settle .. => True
  | .stage r => r.Mapped ms
  | .delete m _ => m ∈ ms.list

/-- A phase at which the index is still the given one. While work goes on, the transaction is open, and
all deletions are under types with mappings. -/
def Untouched (ms : Mappings) (ix : Index) : Phase Nat → Site → Prop
  | .working t tasks, s =>
    s.index.index = ix ∧ Backend.Staging ms s.index t ∧ ∀ task ∈ tasks, task.Mapped ms
  | .committing t, s => s.index.index = ix ∧ Backend.Staging ms s.index t
  | _, s => s.index.index = ix

theorem deletions_mapped (ms : Mappings) (identity : Identity) :
    ∀ task ∈ deletions ms identity, task.Mapped ms := by
  intro task ht
  obtain ⟨m, hm, rfl⟩ := List.mem_map.mp ht
  exact (List.mem_filter.mp hm).1

theorem afterSnapshot_mapped (ms : Mappings) (identity : Identity) (kind : EventKind)
    (e : Option Entity) : ∀ task ∈ afterSnapshot ms identity kind e, task.Mapped ms := by
  cases e with
  | none => exact deletions_mapped ms identity
  | some e =>
    intro task ht
    rw [List.mem_singleton.mp ht]
    by_cases h : kind = .insert <;> simp [h, Task.Mapped, Request.Mapped]

theorem deleteRequest_mapped {m : Mapping} {identity : Identity} {r : Request} (hm : m ∈ ms.list)
    (h : deleteRequest m identity = .ok (some r)) : r.Mapped ms := by
  unfold deleteRequest at h
  split at h
  · cases h
  · obtain ⟨v, -, h⟩ := ok_of_bind h
    cases h
    simp [Request.Mapped, Mappings.mappingFor_of_mem hm]

/-- An outcome at which the index is as in the state before, and the work ahead is about types with
mappings. -/
def Continues (ms : Mappings) (t : Nat) (s : Site) (next : Except Failure (List Task) × Site) : Prop :=
  next.2.index.index = s.index.index ∧ Backend.Staging ms next.2.index t ∧
    ∀ more, next.1 = .ok more → ∀ task ∈ more, task.Mapped ms

theorem continues_of_spared {t : Nat} {s after : Site} {r : Except Failure (List Task)}
    (staging : Backend.Staging ms s.index t) (same : after.index = s.index)
    (mapped : ∀ more, r = .ok more → ∀ task ∈ more, task.Mapped ms) :
    Continues ms t s (r, after) :=
  ⟨congrArg (·.index) same, same ▸ staging, mapped⟩

theorem continues_stage {t : Nat} {s : Site} {r : Request}
    (staging : Backend.Staging ms s.index t) (mapped : r.Mapped ms) :
    Continues ms t s
      ((do (Site.surroundings reader ms).stage t r; return [] : Action Site (List Task)) s) := by
  obtain ⟨same, staging⟩ := Backend.stage_spec staging mapped
  simp only [Site.surroundings, Site.onIndex, Action.bind_apply]
  generalize Backend.stage ms t r s.index = staged at same staging ⊢
  obtain ⟨outcome, b⟩ := staged
  cases outcome with
  | error f => exact ⟨same, staging, fun _ h => by cases h⟩
  | ok u =>
    refine ⟨same, staging, ?_⟩
    rintro more ⟨⟩
    exact fun _ h => absurd h List.not_mem_nil

theorem perform_continues (spares : reader.SparesIndex) {t : Nat} {task : Task} {s : Site}
    (staging : Backend.Staging ms s.index t) (mapped : task.Mapped ms) :
    Continues ms t s (perform (Site.surroundings reader ms) ms t task s) := by
  cases task with
  | settle identity kind =>
    simp only [perform]
    split
    · refine continues_of_spared staging rfl ?_
      rintro more ⟨⟩
      exact fun _ h => absurd h List.not_mem_nil
    · split
      · have same := spares.reading identity.type identity.id s
        simp only [Site.surroundings, Action.bind_apply]
        generalize reader.snapshot identity.type identity.id s = read at same ⊢
        obtain ⟨outcome, after⟩ := read
        cases outcome with
        | error f => exact continues_of_spared staging same fun _ h => by cases h
        | ok e =>
          refine continues_of_spared staging same ?_
          rintro more ⟨⟩
          exact afterSnapshot_mapped ms identity kind e
      · refine continues_of_spared staging rfl ?_
        rintro more ⟨⟩
        exact deletions_mapped ms identity
  | stage r => exact continues_stage staging mapped
  | delete m identity =>
    simp only [perform, Action.bind_apply]
    cases hr : deleteRequest m identity with
    | error f => exact continues_of_spared staging rfl fun _ h => by cases h
    | ok request =>
      cases request with
      | none =>
        refine continues_of_spared staging rfl ?_
        rintro more ⟨⟩
        exact fun _ h => absurd h List.not_mem_nil
      | some r => exact continues_stage staging (deleteRequest_mapped mapped hr)

/-- No step before the commit changes the index. -/
theorem untouched_step (spares : reader.SparesIndex) (p : Phase Nat) (s : Site)
    (notCommit : ∀ t, p ≠ .committing t) (h : Untouched ms ix p s) :
    Untouched ms ix (step (Site.surroundings reader ms) ms p s).1
      (step (Site.surroundings reader ms) ms p s).2 := by
  cases p with
  | opening net =>
    have same := spares.opening s
    simp only [step, Site.surroundings]
    generalize reader.openSession s = opened at same ⊢
    obtain ⟨outcome, after⟩ := opened
    have kept : after.index.index = ix := by rw [same]; exact h
    cases outcome <;> exact kept
  | beginning net =>
    simp only [step, Site.surroundings, Action.bind_apply, Site.pass]
    cases (s.outages.pass .beginBatch).1 with
    | error f => exact h
    | ok u =>
      refine ⟨h, Backend.staging_begin s.index, ?_⟩
      intro task ht
      obtain ⟨entry, -, rfl⟩ := List.mem_map.mp ht
      trivial
  | working t tasks =>
    obtain ⟨same, staging, mapped⟩ := h
    cases tasks with
    | nil => exact ⟨same, staging⟩
    | cons task rest =>
      rw [List.forall_mem_cons] at mapped
      obtain ⟨kept, staging, more⟩ := perform_continues spares staging mapped.1
      simp only [step]
      generalize perform (Site.surroundings reader ms) ms t task s = next at kept staging more ⊢
      obtain ⟨outcome, after⟩ := next
      cases outcome with
      | error f => exact kept.trans same
      | ok tasks =>
        refine ⟨kept.trans same, staging, ?_⟩
        intro task ht
        rcases List.mem_append.mp ht with h | h
        · exact more tasks rfl task h
        · exact mapped.2 task h
  | committing t => exact absurd rfl (notCommit t)
  | undoing t f => exact (congrArg id (Backend.index_rollback t s.index)).trans h
  | leaving outcome => exact (congrArg Backend.index (spares.leaving s)).trans h
  | closing outcome =>
    have same := spares.closing s
    simp only [step, Site.surroundings]
    generalize reader.closeSession s = closed at same ⊢
    obtain ⟨r, after⟩ := closed
    have kept : after.index.index = ix := by rw [same]; exact h
    cases r <;> exact kept
  | done outcome => exact h

theorem run_leaving_index (spares : reader.SparesIndex) (outcome : Except Failure Unit) (s : Site) :
    (run (Site.surroundings reader ms) ms (.leaving outcome) s).2.index = s.index := by
  rw [run_step, step, run_step, step]
  have same := (spares.closing (reader.leaveSession s)).trans (spares.leaving s)
  simp only [Site.surroundings]
  generalize reader.closeSession (reader.leaveSession s) = closed at same ⊢
  obtain ⟨r, after⟩ := closed
  cases r <;> rw [run_of_done] <;> exact same

/-- What follows the commit, a rollback included, changes nothing more. -/
theorem run_committing_index (spares : reader.SparesIndex) (t : Nat) (s : Site) :
    (run (Site.surroundings reader ms) ms (.committing t) s).2.index.index =
      ((Site.surroundings reader ms).commit t s).2.index.index := by
  rw [run_step, step]
  split <;> rename_i u after hc
  · rw [run_leaving_index spares, hc]
  · rw [run_step, step, run_leaving_index spares, hc]
    exact Backend.index_rollback t after.index

/-- The transaction that a batch comes to commit, with the site at that point. -/
def commitOf (reader : EntityReader Site) (ms : Mappings) (events : List CaptureEvent) (s : Site) :
    Option (Nat × Site) :=
  commitPoint (Site.surroundings reader ms) ms (start (Site.surroundings reader ms) events s).1
    (start (Site.surroundings reader ms) events s).2

/-- The transaction of a batch completes: its commit is reached and goes well. -/
def Completes (reader : EntityReader Site) (ms : Mappings) (events : List CaptureEvent) (s : Site) :
    Prop :=
  ∃ t at_, commitOf reader ms events s = some (t, at_) ∧
    ((Site.surroundings reader ms).commit t at_).1 = .ok ()

/-- The commit of a batch breaks off when it has made the given changes: no outage strikes before
it, and the change that comes next fails. -/
def BreaksOffAfter (reader : EntityReader Site) (ms : Mappings) (events : List CaptureEvent)
    (s : Site) (made : List Change) : Prop :=
  ∃ t at_ change rest ix f, commitOf reader ms events s = some (t, at_) ∧
    (Site.pass .commitBatch at_).1 = .ok () ∧
    (at_.index.transaction t).staged = made ++ change :: rest ∧
    Index.applyAll ms made at_.index.index = (.ok (), ix) ∧ ix.apply ms change = .error f

/-- A batch starts where it is dispatched: all that is done before is to report. -/
theorem start_site (reader : EntityReader Site) (ms : Mappings) (events : List CaptureEvent) (s : Site) :
    (start (Site.surroundings reader ms) events s).2.index = s.index ∧
      (start (Site.surroundings reader ms) events s).2.database = s.database ∧
      (start (Site.surroundings reader ms) events s).2.outages = s.outages := by
  have reported (notices : List Notice) (s : Site) :
      (notices.foldl (fun s n => Site.report n s) s).index = s.index ∧
        (notices.foldl (fun s n => Site.report n s) s).database = s.database ∧
        (notices.foldl (fun s n => Site.report n s) s).outages = s.outages := by
    induction notices generalizing s with
    | nil => exact ⟨rfl, rfl, rfl⟩
    | cons n rest ih => exact ih (s.report n)
  unfold start
  simp only [Site.surroundings]
  obtain ⟨outcome, net⟩ := NetBatch.collapse events
  cases outcome with
  | error f => exact reported net.notices s
  | ok u =>
    simp only
    split <;> exact reported net.notices s

theorem start_of_error {s : Site} {f : Failure} (h : (NetBatch.collapse events).1 = .error f) :
    (start (Site.surroundings reader ms) events s).1 = .done (.error f) := by
  simp only [start, h]

theorem start_of_nothing {s : Site} (h : (NetBatch.collapse events).1 = .ok ())
    (nothing : (NetBatch.collapse events).2.changes = []) :
    (start (Site.surroundings reader ms) events s).1 = .done (.ok ()) := by
  simp only [start, h, nothing]
  rfl

theorem start_of_changes {s : Site} (h : (NetBatch.collapse events).1 = .ok ())
    (some : (NetBatch.collapse events).2.changes ≠ []) :
    (start (Site.surroundings reader ms) events s).1 =
      .opening (NetBatch.collapse events).2.changes := by
  simp only [start, h, List.isEmpty_iff, some, if_false]

/-- A batch starts with nothing to do, or opens a session. -/
theorem start_cases (reader : EntityReader Site) (ms : Mappings) (events : List CaptureEvent)
    (s : Site) :
    (∃ outcome, (start (Site.surroundings reader ms) events s).1 = .done outcome) ∨
      (start (Site.surroundings reader ms) events s).1 =
        .opening (NetBatch.collapse events).2.changes := by
  cases h : (NetBatch.collapse events).1 with
  | error f => exact .inl ⟨_, start_of_error h⟩
  | ok u =>
    by_cases nothing : (NetBatch.collapse events).2.changes = []
    · exact .inl ⟨_, start_of_nothing h nothing⟩
    · exact .inr (start_of_changes h nothing)

theorem untouched_start (reader : EntityReader Site) (ms : Mappings) (events : List CaptureEvent)
    (s : Site) :
    Untouched ms s.index.index (start (Site.surroundings reader ms) events s).1
      (start (Site.surroundings reader ms) events s).2 := by
  have same := congrArg Backend.index (start_site reader ms events s).1
  rcases start_cases reader ms events s with ⟨outcome, h⟩ | h <;> rw [h] <;> exact same

/-- A batch leaves the index as it is until its commit, and then makes the staged changes. -/
theorem batch_index (spares : reader.SparesIndex) (ms : Mappings) (events : List CaptureEvent)
    (s : Site) :
    match commitOf reader ms events s with
    | some (t, at_) => at_.index.index = s.index.index ∧ Backend.Staging ms at_.index t ∧
        (batch (Site.surroundings reader ms) ms events s).2.index.index =
          ((Site.surroundings reader ms).commit t at_).2.index.index
    | none => (batch (Site.surroundings reader ms) ms events s).2.index.index = s.index.index := by
  have h := commitPoint_induction (Site.surroundings reader ms) ms (untouched_step spares) _ _
    (untouched_start reader ms events s)
  rw [← batch_eq_run] at h
  unfold commitOf
  split <;> rename_i hc <;> rw [hc] at h
  · obtain ⟨⟨same, staging⟩, hrun⟩ := h
    refine ⟨same, staging, ?_⟩
    rw [hrun, run_committing_index spares]
  · obtain ⟨outcome, after, same, hrun⟩ := h
    rw [hrun]
    exact same

theorem commit_of_outage {t : Nat} {s : Site} {f : Failure}
    (h : (Site.pass .commitBatch s).1 = .error f) :
    ((Site.surroundings reader ms).commit t s).2.index = s.index := by
  simp only [Site.surroundings, Site.pass, Action.bind_apply] at h ⊢
  rw [h]

theorem commit_of_pass (reader : EntityReader Site) (ms : Mappings) {t : Nat} {s : Site}
    (h : (Site.pass .commitBatch s).1 = .ok ()) (opened : (s.index.transaction t).closed = false) :
    ((Site.surroundings reader ms).commit t s).1 =
        (Index.applyAll ms (s.index.transaction t).staged s.index.index).1 ∧
      ((Site.surroundings reader ms).commit t s).2.index.index =
        (Index.applyAll ms (s.index.transaction t).staged s.index.index).2 := by
  simp only [Site.surroundings, Site.pass, Action.bind_apply] at h ⊢
  rw [h]
  simp only [Site.onIndex, Backend.commit_of_open opened]
  exact ⟨trivial, rfl⟩

/-- A batch whose transaction does not complete leaves documents and log as they were exactly if its
commit does not break off after a change. -/
theorem index_kept_iff (spares : reader.SparesIndex) (events : List CaptureEvent) (s : Site)
    (broken : ¬ Completes reader ms events s) :
    ((∀ type, (batch (Site.surroundings reader ms) ms events s).2.index.index.docs type =
          s.index.index.docs type) ∧
        (batch (Site.surroundings reader ms) ms events s).2.index.index.operations =
          s.index.index.operations) ↔
      ¬ ∃ made, made ≠ [] ∧ BreaksOffAfter reader ms events s made := by
  have h := batch_index spares ms events s
  generalize (batch (Site.surroundings reader ms) ms events s).2.index.index = final at h ⊢
  constructor
  · rintro ⟨-, log⟩ ⟨made, nonempty, t, at_, change, rest, ix, f, hc, passed, staged, all, fails⟩
    rw [hc] at h
    obtain ⟨same, staging, rfl⟩ := h
    rw [(commit_of_pass reader ms passed staging.opened).2, staged, Index.applyAll_append all] at log
    have mapped : ∀ change ∈ made, change.Mapped ms := fun c hm =>
      staging.mapped c (staged ▸ List.mem_append_left _ hm)
    simp only [Index.applyAll, fails] at log
    rw [Index.applyAll_operations mapped all, same] at log
    exact nonempty (by simpa using log)
  · intro unbroken
    suffices hk : final = s.index.index from ⟨fun type => by rw [hk], by rw [hk]⟩
    cases hc : commitOf reader ms events s with
    | none => rwa [hc] at h
    | some point =>
      obtain ⟨t, at_⟩ := point
      rw [hc] at h
      obtain ⟨same, staging, rfl⟩ := h
      cases passed : (Site.pass .commitBatch at_).1 with
      | error f => rw [commit_of_outage passed, same]
      | ok u =>
        obtain ⟨outcome, index⟩ := commit_of_pass reader ms passed staging.opened
        obtain ⟨made, left, staged, all, last⟩ :=
          Index.applyAll_split ms (at_.index.transaction t).staged at_.index.index
        rw [index]
        split at last
        · rename_i ho
          exact absurd ⟨t, at_, hc, outcome.trans ho⟩ broken
        · obtain ⟨change, rest, rfl, fails⟩ := last
          have none_made : made = [] := by
            by_contra nonempty
            exact unbroken ⟨made, nonempty, t, at_, change, rest, _, _, hc, passed, staged, all, fails⟩
          subst none_made
          exact (congrArg Prod.snd all).symm.trans same

/-! A register of houses. Its documents hold the number of the owner, which the first house has not
got. -/

def house : EntityType := .root "register" "House"

def owner : EntityType := .root "register" "Owner"

def houses : Mapping where
  indexedType := house
  idFields := [(house, ⟨"id", .long, none⟩), (owner, ⟨"owner", .string, some Encoder.integer.codec⟩)]
  fields := ["id", "owner"]
  document := none
  name := "House"
  mapped := rfl

def register : Mappings := ⟨[houses], by simp⟩

def ownerless : Site where
  database := ⟨[], []⟩
  index := ⟨⟨[(house, [(.int 1, [("id", .int 1), ("owner", .null)])])], []⟩, []⟩
  sessionOpen := false
  outages := []
  notices := []

def secondHouse : EntityReader Site :=
  .ofList [(⟨house, .int 2⟩, ⟨house, [("id", .int 2), ("owner", .int 7)]⟩)]

/-- A second house is built, and an owner is gone. -/
def twoChanges : List CaptureEvent :=
  [⟨house, .int 2, .insert, 1, "houses"⟩, ⟨owner, .int 7, .delete, 1, "owners"⟩]

def secondDocument : Change :=
  .write false house "id" (.int 2) [("id", .int 2), ("owner", .int 7)]

def seventhOwner : Change := .delete house "owner" (.text "7")

/-- The register when both changes are staged. -/
def bothStaged : Site :=
  { ownerless with index := ⟨ownerless.index.index, [⟨[secondDocument, seventhOwner], false⟩]⟩ }

/-- The register with the second house. -/
def twoHouses : Index :=
  ⟨[(house, [(.int 1, [("id", .int 1), ("owner", .null)]),
      (.int 2, [("id", .int 2), ("owner", .int 7)])])], [⟨.index, house, "id", .int 2⟩]⟩

theorem secondHouse_spares : secondHouse.SparesIndex := EntityReader.ofList_sparesIndex _

theorem commitOf_twoChanges :
    commitOf secondHouse register twoChanges ownerless = some (0, bothStaged) := by
  have h : steps (Site.surroundings secondHouse register) register 7
      (start (Site.surroundings secondHouse register) twoChanges ownerless) =
      (.committing 0, bothStaged) := by cbv
  exact commitPoint_of_steps _ _ h

theorem make_secondDocument :
    Index.applyAll register [secondDocument] ownerless.index.index = (.ok (), twoHouses) := by cbv

/-- The first house has no owner whose number could be compared. -/
theorem make_seventhOwner : twoHouses.apply register seventhOwner =
    .error (.conversion (.notNumeric "NoneType")) := by cbv

/-- The second house is written, and then the missing number of the first owner cannot be read. -/
theorem twoChanges_break : ¬ Completes secondHouse register twoChanges ownerless := by
  rintro ⟨t, at_, hc, hok⟩
  rw [commitOf_twoChanges] at hc
  cases hc
  have hf : ((Site.surroundings secondHouse register).commit 0 bothStaged).1 =
      .error (.conversion (.notNumeric "NoneType")) := by cbv
  rw [hf] at hok
  cases hok

/-- The second house is kept in the index although its batch has failed. -/
theorem index_not_kept_of_twoChanges :
    ¬ ((∀ type, (batch (Site.surroundings secondHouse register) register twoChanges
            ownerless).2.index.index.docs type = ownerless.index.index.docs type) ∧
        (batch (Site.surroundings secondHouse register) register twoChanges
            ownerless).2.index.index.operations = ownerless.index.index.operations) := by
  intro kept
  refine (index_kept_iff secondHouse_spares twoChanges ownerless twoChanges_break).mp kept ?_
  exact ⟨[secondDocument], by simp, 0, bothStaged, seventhOwner, [], twoHouses, _,
    commitOf_twoChanges, rfl, rfl, make_secondDocument, make_seventhOwner⟩

/-- A batch is not all or nothing: a transaction that does not complete can leave a document and an
entry in the log. -/
theorem not_all_or_nothing :
    ¬ ∀ (reader : EntityReader Site) (ms : Mappings) (events : List CaptureEvent) (s : Site),
      reader.SparesIndex → (Mappings.ofList ms.list).map (·.list) = .ok ms.list →
      ms.validate = .ok () → ¬ Completes reader ms events s →
      (∀ type, (batch (Site.surroundings reader ms) ms events s).2.index.index.docs type =
          s.index.index.docs type) ∧
        (batch (Site.surroundings reader ms) ms events s).2.index.index.operations =
          s.index.index.operations := by
  intro h
  obtain ⟨-, log⟩ := h secondHouse register twoChanges ownerless
    secondHouse_spares (by cbv) (by cbv) twoChanges_break
  have made := batch_index secondHouse_spares register twoChanges ownerless
  rw [commitOf_twoChanges] at made
  have left : ((Site.surroundings secondHouse register).commit 0 bothStaged).2.index.index =
      twoHouses := by cbv
  rw [made.2.2, left] at log
  cases log

end Dispatch
end IndexSync
