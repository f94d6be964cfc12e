import IndexSync.Proofs.Dispatch.Atomicity

/-!
# The changes that a batch comes to

As long as the answers about entities do not change, the changes that a batch has staged when it commits
depend on its net changes alone.
-/
namespace IndexSync
open Search

/-- A reader that leaves the index alone and gives always the same answers, if it answers, on databases
of which something holds. -/
structure EntityReader.Unchanging (reader : EntityReader Site) (held : Store.Database → Prop)
    (answers : Identity → Option Entity) : Prop extends reader.SparesIndex where
  keptOpening : ∀ s, held s.database → held (reader.openSession s).2.database
  keptReading : ∀ type id s, held s.database → held (reader.snapshot type id s).2.database
  answered : ∀ type id s e, held s.database → (reader.snapshot type id s).1 = .ok e →
    e = answers ⟨type, id⟩

theorem EntityReader.ofList_unchanging (entities : Entries Identity Entity) :
    (EntityReader.ofList entities).Unchanging (fun _ => True) (entities.get? ·) where
  toSparesIndex := ofList_sparesIndex entities
  keptOpening _ _ := trivial
  keptReading _ _ _ _ := trivial
  answered type id s e _ h := by
    simp only [EntityReader.ofList, Action.bind_apply] at h
    split at h
    · cases h
      rfl
    · cases h

/-- What the mapped tables of a database show of an entity. -/
def Site.shown (mapped : List TableMapping) (db : Store.Database) (i : Identity) : Option Entity :=
  (mapped.find? (·.type = i.type)).bind fun m =>
    match m.find i.id db with
    | .ok e => e
    | .error _ => none

/-- Rows are read from the mapped tables alone. -/
theorem Site.rows_unchanging (mapped : List TableMapping) (db : Store.Database) :
    (Site.rows mapped).Unchanging
      (fun now => ∀ m ∈ mapped, now.table m.table.name = db.table m.table.name)
      (Site.shown mapped db) where
  toSparesIndex := rows_sparesIndex mapped
  keptOpening s h := by
    simp only [Site.rows, Site.openSession]
    split <;> exact h
  keptReading type id s h := by
    simp only [Site.rows, Site.snapshot]
    split
    · exact h
    · split <;> exact h
  answered type id s e h hread := by
    simp only [Site.rows, Site.snapshot] at hread
    split at hread
    · cases hread
    · cases hm : mapped.find? (·.type = type) with
      | none => simp [hm] at hread
      | some m =>
        simp only [hm] at hread
        have same : m.find id s.database = m.find id db := by
          unfold TableMapping.find
          rw [h m (List.mem_of_find?_eq_some hm)]
        rw [same] at hread
        simp only [shown, hm, Option.bind_some, hread]

namespace Dispatch

variable {reader : EntityReader Site} {ms : Mappings} {held : Store.Database → Prop}
  {answers : Identity → Option Entity} {events : List CaptureEvent}

/-- The work that a net change leads to, once the entity has been looked up. -/
def follow (ms : Mappings) (i : Identity) (kind : EventKind) (e : Option Entity) : List Task :=
  if (ms.containing i.type).isEmpty then []
  else if kind = .insert || kind = .update then afterSnapshot ms i kind e
  else deletions ms i

/-- The change that a task asks for, if any. -/
inductive Asks (ms : Mappings) : Task → Option Change → Prop
  | stage {r : Request} {c : Option Change} (change : Transaction.requestChange ms r = .ok c) :
      Asks ms (.stage r) c
  | skip {m : Mapping} {i : Identity} (request : deleteRequest m i = .ok none) :
      Asks ms (.delete m i) none
  | delete {m : Mapping} {i : Identity} {r : Request} {c : Option Change}
      (request : deleteRequest m i = .ok (some r))
      (change : Transaction.requestChange ms r = .ok c) : Asks ms (.delete m i) c

/-- The changes that tasks lead to, one after the other. -/
inductive Leads (ms : Mappings) (answers : Identity → Option Entity) :
    List Task → List Change → Prop
  | nil : Leads ms answers [] []
  | settle {i : Identity} {kind : EventKind} {rest : List Task} {changes : List Change}
      (all : Leads ms answers (follow ms i kind (answers i) ++ rest) changes) :
      Leads ms answers (.settle i kind :: rest) changes
  | ask {task : Task} {c : Option Change} {rest : List Task} {changes : List Change}
      (asks : Asks ms task c) (others : Leads ms answers rest changes) :
      Leads ms answers (task :: rest) (c.toList ++ changes)

theorem Asks.unique {task : Task} {c d : Option Change} (h : Asks ms task c) (h' : Asks ms task d) :
    c = d := by
  cases h with
  | stage change =>
    cases h' with
    | stage change' =>
      cases change.symm.trans change'
      rfl
  | skip request =>
    cases h' with
    | skip => rfl
    | delete request' => cases request.symm.trans request'
  | delete request change =>
    cases h' with
    | skip request' => cases request.symm.trans request'
    | delete request' change' =>
      cases request.symm.trans request'
      cases change.symm.trans change'
      rfl

/-- Tasks lead to at most one list of changes. -/
theorem Leads.unique {tasks : List Task} {changes others : List Change}
    (h : Leads ms answers tasks changes) (h' : Leads ms answers tasks others) : changes = others := by
  induction h generalizing others with
  | nil =>
    cases h'
    rfl
  | settle _ ih =>
    cases h' with
    | settle all => exact ih all
    | ask asks => cases asks
  | ask asks _ ih =>
    cases h' with
    | settle => cases asks
    | ask asks' rest => rw [asks.unique asks', ih rest]

theorem leads_settle_iff {i : Identity} {kind : EventKind} {changes : List Change} :
    Leads ms answers [.settle i kind] changes ↔
      Leads ms answers (follow ms i kind (answers i)) changes := by
  constructor
  · intro h
    cases h with
    | settle all => rwa [List.append_nil] at all
    | ask asks => cases asks
  · intro h
    refine .settle ?_
    rwa [List.append_nil]

theorem leads_ask {task : Task} {c : Option Change} (asks : Asks ms task c) :
    Leads ms answers [task] c.toList := by
  have h : Leads ms answers [task] (c.toList ++ []) := .ask asks .nil
  rwa [List.append_nil] at h

/-- A task that is not to be settled first leads to the change that it asks for. -/
theorem Leads.of_ask {task : Task} {changes : List Change} (h : Leads ms answers [task] changes)
    (settled : ∀ i kind, task ≠ .settle i kind) : ∃ c, Asks ms task c ∧ changes = c.toList := by
  cases h with
  | settle => exact absurd rfl (settled _ _)
  | ask asks others =>
    cases others
    exact ⟨_, asks, List.append_nil _⟩

/-- A mapping asks for one deletion of an entity if it lists its type, and for none otherwise. -/
theorem Asks.of_delete {m : Mapping} {i : Identity} {c : Option Change} (h : Asks ms (.delete m i) c) :
    (m.idFieldFor i.type = none ∧ c = none) ∨
      ∃ field value, m.idFieldFor i.type = some field ∧ field.indexValue i.id = .ok value ∧
        c = some (.delete m.indexedType field.name value) := by
  cases hfield : m.idFieldFor i.type with
  | none =>
    have request : deleteRequest m i = .ok none := by simp only [deleteRequest, hfield]
    exact .inl ⟨rfl, h.unique (.skip request)⟩
  | some field =>
    right
    cases h with
    | skip request =>
      simp only [deleteRequest, hfield] at request
      obtain ⟨value, -, hr⟩ := ok_of_bind request
      cases hr
    | delete request change =>
      simp only [deleteRequest, hfield] at request
      obtain ⟨value, hvalue, hr⟩ := ok_of_bind request
      cases hr
      cases change
      exact ⟨field, value, rfl, hvalue, rfl⟩

/-- The deletions that mappings ask for are those of the mappings that list the type. -/
theorem mem_of_leads_deletions {mapped : List Mapping} {i : Identity} {changes : List Change}
    (h : Leads ms answers (mapped.map (.delete · i)) changes) (c : Change) :
    c ∈ changes ↔ ∃ m ∈ mapped, ∃ field value, m.idFieldFor i.type = some field ∧
      field.indexValue i.id = .ok value ∧ c = .delete m.indexedType field.name value := by
  induction mapped generalizing changes with
  | nil =>
    cases h
    simp
  | cons m rest ih =>
    cases h with
    | ask asks others =>
      rw [List.mem_append, ih others, List.exists_mem_cons_iff, Option.mem_toList]
      refine or_congr ?_ Iff.rfl
      rcases asks.of_delete with ⟨hfield, rfl⟩ | ⟨field, value, hfield, hvalue, rfl⟩
      · simp [hfield]
      · constructor
        · intro hc
          exact ⟨field, value, hfield, hvalue, (Option.some.inj hc).symm⟩
        · rintro ⟨field', value', hfield', hvalue', rfl⟩
          cases hfield.symm.trans hfield'
          cases hvalue.symm.trans hvalue'
          rfl

theorem Leads.append {tasks more : List Task} {changes others : List Change}
    (h : Leads ms answers tasks changes) (h' : Leads ms answers more others) :
    Leads ms answers (tasks ++ more) (changes ++ others) := by
  induction h with
  | nil => exact h'
  | settle _ ih =>
    rw [List.append_assoc] at ih
    exact .settle ih
  | ask asks _ ih =>
    rw [List.append_assoc]
    exact .ask asks ih

theorem Leads.split {tasks more : List Task} {all : List Change}
    (h : Leads ms answers (tasks ++ more) all) :
    ∃ changes others, all = changes ++ others ∧ Leads ms answers tasks changes ∧
      Leads ms answers more others := by
  generalize htasks : tasks ++ more = row at h
  induction h generalizing tasks with
  | nil =>
    obtain ⟨rfl, rfl⟩ := List.append_eq_nil_iff.mp htasks
    exact ⟨[], [], rfl, .nil, .nil⟩
  | @settle i kind rest all h ih =>
    cases tasks with
    | nil => exact ⟨[], all, rfl, .nil, by rw [show more = _ from htasks]; exact .settle h⟩
    | cons task tasks =>
      obtain ⟨rfl, rfl⟩ := List.cons_eq_cons.mp htasks
      obtain ⟨changes, others, rfl, first, second⟩ := ih (List.append_assoc ..)
      exact ⟨changes, others, rfl, .settle first, second⟩
  | @ask task c rest all asks h ih =>
    cases tasks with
    | nil => exact ⟨[], _, rfl, .nil, by rw [show more = _ from htasks]; exact .ask asks h⟩
    | cons first tasks =>
      obtain ⟨rfl, rfl⟩ := List.cons_eq_cons.mp htasks
      obtain ⟨changes, others, rfl, first, second⟩ := ih rfl
      exact ⟨_, others, (List.append_assoc ..).symm, .ask asks first, second⟩

/-- The tasks of the net changes of a batch. -/
def settling (net : Entries Identity EventKind) : List Task :=
  net.map fun (i, k) => .settle i k

/-- While a batch is dispatched, what has been staged and what is still to do make up the changes of its
net changes. -/
def OnPlan (ms : Mappings) (held : Store.Database → Prop) (answers : Identity → Option Entity)
    (net : Entries Identity EventKind) : Phase Nat → Site → Prop
  | .opening n, s | .beginning n, s => n = net ∧ held s.database
  | .working t tasks, s => held s.database ∧ ∀ changes, Leads ms answers tasks changes →
      Leads ms answers (settling net) ((s.index.transaction t).staged ++ changes)
  | .committing t, s => Leads ms answers (settling net) (s.index.transaction t).staged
  | _, _ => True

/-- A task that is not to be settled first stages the change that it asks for, and leads to no more work. -/
theorem perform_asks {t : Nat} {task : Task} {s after : Site} {more : List Task}
    (opened : (s.index.transaction t).closed = false) (settled : ∀ i kind, task ≠ .settle i kind)
    (h : perform (Site.surroundings reader ms) ms t task s = (.ok more, after)) :
    more = [] ∧ after.database = s.database ∧ ∃ c, Asks ms task c ∧
      (after.index.transaction t).staged = (s.index.transaction t).staged ++ c.toList := by
  have staged {r : Request}
      (h : (do (Site.surroundings reader ms).stage t r; return [] : Action Site (List Task)) s =
        (.ok more, after)) :
      more = [] ∧ after.database = s.database ∧ ∃ c, Transaction.requestChange ms r = .ok c ∧
        (after.index.transaction t).staged = (s.index.transaction t).staged ++ c.toList := by
    simp only [Site.surroundings, Site.onIndex, Action.bind_apply] at h
    rcases Backend.stage_cases ms opened r with ⟨f, hf⟩ | ⟨c, hc, hstage⟩
    · rw [hf] at h
      cases h
    · rw [hstage] at h
      cases h
      refine ⟨rfl, rfl, c, hc, ?_⟩
      rw [Backend.transaction_set (Backend.lt_of_open opened)]
  cases task with
  | settle i kind => exact absurd rfl (settled i kind)
  | stage r =>
    obtain ⟨hmore, hdb, c, hc, hstaged⟩ := staged h
    exact ⟨hmore, hdb, c, .stage hc, hstaged⟩
  | delete m i =>
    simp only [perform, Action.bind_apply] at h
    cases hr : deleteRequest m i with
    | error f =>
      rw [hr] at h
      cases h
    | ok request =>
      rw [hr] at h
      cases request with
      | none =>
        cases h
        exact ⟨rfl, rfl, none, .skip hr, (List.append_nil _).symm⟩
      | some r =>
        obtain ⟨hmore, hdb, c, hc, hstaged⟩ := staged h
        exact ⟨hmore, hdb, c, .delete hr hc, hstaged⟩

/-- A task that is done has staged some changes, and leaves the work for the others. -/
theorem perform_leads (unchanging : reader.Unchanging held answers) {t : Nat} {task : Task}
    {s after : Site} {more : List Task} (staging : Backend.Staging ms s.index t)
    (hheld : held s.database)
    (h : perform (Site.surroundings reader ms) ms t task s = (.ok more, after)) :
    held after.database ∧ ∃ new,
      (after.index.transaction t).staged = (s.index.transaction t).staged ++ new ∧
      ∀ rest changes, Leads ms answers (more ++ rest) changes →
        Leads ms answers (task :: rest) (new ++ changes) := by
  have asked (settled : ∀ i kind, task ≠ .settle i kind) :
      held after.database ∧ ∃ new,
        (after.index.transaction t).staged = (s.index.transaction t).staged ++ new ∧
        ∀ rest changes, Leads ms answers (more ++ rest) changes →
          Leads ms answers (task :: rest) (new ++ changes) := by
    obtain ⟨rfl, hdb, c, asks, hstaged⟩ := perform_asks staging.opened settled h
    exact ⟨hdb ▸ hheld, c.toList, hstaged, fun rest changes others => .ask asks others⟩
  cases task with
  | settle i kind =>
    have expand (e : Option Entity) (he : e = answers i) (hmore : more = follow ms i kind e) :
        ∀ rest changes, Leads ms answers (more ++ rest) changes →
          Leads ms answers (.settle i kind :: rest) ([] ++ changes) := by
      subst he hmore
      exact fun rest changes all => .settle all
    simp only [perform] at h
    split at h
    · rename_i hempty
      cases h
      refine ⟨hheld, [], (List.append_nil _).symm, expand (answers i) rfl ?_⟩
      rw [follow, if_pos hempty]
    · rename_i hmapped
      split at h
      · rename_i hkind
        simp only [Site.surroundings, Action.bind_apply] at h
        have hindex := unchanging.reading i.type i.id s
        have hkept := unchanging.keptReading i.type i.id s hheld
        have hanswer := unchanging.answered i.type i.id s
        generalize reader.snapshot i.type i.id s = read at h hindex hkept hanswer
        obtain ⟨outcome, s'⟩ := read
        cases outcome with
        | error f => cases h
        | ok e =>
          cases h
          refine ⟨hkept, [], ?_, expand e (hanswer e hheld rfl) ?_⟩
          · rw [hindex, List.append_nil]
          · rw [follow, if_neg hmapped, if_pos hkind]
      · rename_i hkind
        cases h
        refine ⟨hheld, [], (List.append_nil _).symm, expand (answers i) rfl ?_⟩
        rw [follow, if_neg hmapped, if_neg hkind]
  | stage r => exact asked (by simp)
  | delete m i => exact asked (by simp)

theorem onPlan_step (unchanging : reader.Unchanging held answers) {ix : Index}
    {net : Entries Identity EventKind} (p : Phase Nat) (s : Site)
    (notCommit : ∀ t, p ≠ .committing t) (untouched : Untouched ms ix p s)
    (h : OnPlan ms held answers net p s) :
    OnPlan ms held answers net (step (Site.surroundings reader ms) ms p s).1
      (step (Site.surroundings reader ms) ms p s).2 := by
  cases p with
  | opening n =>
    have hkept := unchanging.keptOpening s h.2
    simp only [step, Site.surroundings]
    generalize reader.openSession s = opened at hkept ⊢
    obtain ⟨outcome, after⟩ := opened
    cases outcome with
    | ok u => exact ⟨h.1, hkept⟩
    | error f => trivial
  | beginning n =>
    obtain ⟨rfl, hheld⟩ := h
    simp only [step, Site.surroundings, Action.bind_apply, Site.pass]
    cases (s.outages.pass .beginBatch).1 with
    | error f => trivial
    | ok u =>
      refine ⟨hheld, fun changes hchanges => ?_⟩
      change Leads ms answers (settling n)
        (((Backend.begin s.index).2.transaction s.index.transactions.length).staged ++ changes)
      rw [Backend.transaction_begin]
      exact hchanges
  | working t tasks =>
    obtain ⟨hheld, hleads⟩ := h
    cases tasks with
    | nil =>
      have done := hleads [] .nil
      rw [List.append_nil] at done
      exact done
    | cons task rest =>
      simp only [step]
      split
      · rename_i more after hperform
        obtain ⟨hkept, new, hstaged, hmore⟩ :=
          perform_leads unchanging untouched.2.1 hheld hperform
        refine ⟨hkept, fun changes hchanges => ?_⟩
        rw [hstaged, List.append_assoc]
        exact hleads _ (hmore rest changes hchanges)
      · trivial
  | committing t => exact absurd rfl (notCommit t)
  | undoing t f => trivial
  | leaving outcome => trivial
  | closing outcome =>
    simp only [step]
    split <;> trivial
  | done outcome => trivial

/-- What a batch has staged when it comes to commit are the changes that its net changes lead to. -/
theorem leads_of_commitOf (unchanging : reader.Unchanging held answers) {s : Site}
    (hheld : held s.database) {t : Nat} {at_ : Site}
    (h : commitOf reader ms events s = some (t, at_)) :
    Leads ms answers (settling (NetBatch.collapse events).2.changes)
      (at_.index.transaction t).staged := by
  have hstart : OnPlan ms held answers (NetBatch.collapse events).2.changes
      (start (Site.surroundings reader ms) events s).1
      (start (Site.surroundings reader ms) events s).2 := by
    have same := (start_site reader ms events s).2.1
    rcases start_cases reader ms events s with ⟨outcome, hphase⟩ | hphase <;> rw [hphase]
    · trivial
    · exact ⟨rfl, same.symm ▸ hheld⟩
  let Kept (p : Phase Nat) (s' : Site) : Prop := Untouched ms s.index.index p s' ∧
    OnPlan ms held answers (NetBatch.collapse events).2.changes p s'
  have kept : ∀ p s', (∀ t, p ≠ .committing t) → Kept p s' →
      Kept (step (Site.surroundings reader ms) ms p s').1
        (step (Site.surroundings reader ms) ms p s').2 := fun p s' notCommit hkept =>
    ⟨untouched_step unchanging.toSparesIndex p s' notCommit hkept.1,
      onPlan_step unchanging p s' notCommit hkept.1 hkept.2⟩
  have hcommit := commitPoint_induction (Site.surroundings reader ms) ms kept _ _
    ⟨untouched_start reader ms events s, hstart⟩
  unfold commitOf at h
  rw [h] at hcommit
  exact hcommit.1.2

/-- The changes that a batch has staged when it comes to commit. -/
def stagedOf (reader : EntityReader Site) (ms : Mappings) (events : List CaptureEvent) (s : Site) :
    List Change :=
  match commitOf reader ms events s with
  | some (t, at_) => (at_.index.transaction t).staged
  | none => []

/-- A batch commits: its transaction completes, or it comes to nothing and needs none. -/
def Commits (reader : EntityReader Site) (ms : Mappings) (events : List CaptureEvent) (s : Site) :
    Prop :=
  Completes reader ms events s ∨
    ((NetBatch.collapse events).1 = .ok () ∧ (NetBatch.collapse events).2.changes = [])

/-- A phase from which no success can come but through a commit. -/
def Unfinished : Phase Nat → Prop
  | .leaving outcome | .closing outcome | .done outcome => ∃ f, outcome = .error f
  | _ => True

theorem unfinished_step {p : Phase Nat} (s : Site) (notCommit : ∀ t, p ≠ .committing t)
    (h : Unfinished p) : Unfinished (step (Site.surroundings reader ms) ms p s).1 := by
  cases p with
  | opening net =>
    simp only [step]
    split
    · trivial
    · exact ⟨_, rfl⟩
  | beginning net =>
    simp only [step]
    split
    · trivial
    · exact ⟨_, rfl⟩
  | working t tasks =>
    cases tasks with
    | nil => trivial
    | cons task rest =>
      simp only [step]
      split <;> trivial
  | committing t => exact absurd rfl (notCommit t)
  | undoing t f => exact ⟨f, rfl⟩
  | leaving outcome => exact h
  | closing outcome =>
    simp only [step]
    split
    · exact h
    · exact ⟨_, rfl⟩
  | done outcome => exact h

/-- A commit that fails makes the batch fail. -/
theorem run_committing_failed {t : Nat} {s : Site} {f : Failure}
    (h : ((Site.surroundings reader ms).commit t s).1 = .error f) :
    ∃ f, (run (Site.surroundings reader ms) ms (.committing t) s).1 = .error f := by
  rw [run_step, step]
  generalize (Site.surroundings reader ms).commit t s = committed at h
  obtain ⟨outcome, after⟩ := committed
  cases h
  simp only
  rw [run_step, step, run_step, step, run_step, step]
  split <;> exact ⟨_, congrArg Prod.fst (run_of_done ..)⟩

/-- A batch that is dispatched without a failure commits. -/
theorem commits_of_ok {s : Site}
    (h : (batch (Site.surroundings reader ms) ms events s).1 = .ok ()) :
    Commits reader ms events s := by
  by_cases nothing : (NetBatch.collapse events).1 = .ok () ∧ (NetBatch.collapse events).2.changes = []
  · exact .inr nothing
  · have hstart : Unfinished (start (Site.surroundings reader ms) events s).1 := by
      cases hcollapse : (NetBatch.collapse events).1 with
      | error f =>
        rw [start_of_error hcollapse]
        exact ⟨f, rfl⟩
      | ok u =>
        rw [start_of_changes hcollapse fun none => nothing ⟨hcollapse, none⟩]
        trivial
    have kept : ∀ p (s : Site), (∀ t, p ≠ .committing t) → Unfinished p →
        Unfinished (step (Site.surroundings reader ms) ms p s).1 :=
      fun p s notCommit hp => unfinished_step s notCommit hp
    have hrun := commitPoint_induction (Site.surroundings reader ms) ms kept _
      (start (Site.surroundings reader ms) events s).2 hstart
    rw [batch_eq_run] at h
    left
    cases hc : commitOf reader ms events s with
    | none =>
      unfold commitOf at hc
      rw [hc] at hrun
      obtain ⟨outcome, s', ⟨f, rfl⟩, hrun⟩ := hrun
      rw [hrun] at h
      cases h
    | some point =>
      obtain ⟨t, at_⟩ := point
      refine ⟨t, at_, hc, ?_⟩
      unfold commitOf at hc
      rw [hc] at hrun
      cases hcommit : ((Site.surroundings reader ms).commit t at_).1 with
      | ok u => rfl
      | error f =>
        obtain ⟨f, hf⟩ := run_committing_failed hcommit
        rw [hrun.2, hf] at h
        cases h

theorem commitOf_of_done {s : Site} {outcome : Except Failure Unit}
    (h : (start (Site.surroundings reader ms) events s).1 = .done outcome) :
    commitOf reader ms events s = none := by
  rw [commitOf, h, commitPoint]
  · rfl
  · rintro t ⟨⟩

/-- A batch that commits has ids that can be keys. -/
theorem Commits.collapse_ok {s : Site} (h : Commits reader ms events s) :
    (NetBatch.collapse events).1 = .ok () := by
  rcases h with ⟨t, at_, hc, -⟩ | ⟨h, -⟩
  · cases hcollapse : (NetBatch.collapse events).1 with
    | ok u => rfl
    | error f =>
      rw [commitOf_of_done (start_of_error hcollapse)] at hc
      cases hc
  · exact h

/-- A batch that commits makes the changes that its net changes lead to. -/
theorem Commits.spec (unchanging : reader.Unchanging held answers) {s : Site}
    (hheld : held s.database) (h : Commits reader ms events s) :
    Leads ms answers (settling (NetBatch.collapse events).2.changes) (stagedOf reader ms events s) ∧
      Index.applyAll ms (stagedOf reader ms events s) s.index.index =
        (.ok (), (batch (Site.surroundings reader ms) ms events s).2.index.index) := by
  have hindex := batch_index unchanging.toSparesIndex ms events s
  unfold stagedOf
  rcases h with ⟨t, at_, hc, hok⟩ | ⟨hcollapse, nothing⟩
  · rw [hc] at hindex ⊢
    obtain ⟨same, staging, hbatch⟩ := hindex
    have passed : (Site.pass .commitBatch at_).1 = .ok () := by
      cases hp : (Site.pass .commitBatch at_).1 with
      | ok u => rfl
      | error f =>
        simp only [Site.surroundings, Site.pass, Action.bind_apply] at hp hok
        rw [hp] at hok
        cases hok
    obtain ⟨houtcome, hmade⟩ := commit_of_pass reader ms passed staging.opened
    refine ⟨leads_of_commitOf unchanging hheld hc, ?_⟩
    rw [hbatch, hmade, ← same, ← hok, houtcome]
  · rw [commitOf_of_done (start_of_nothing hcollapse nothing)] at hindex ⊢
    refine ⟨?_, ?_⟩
    · rw [nothing]
      exact .nil
    · rw [hindex]
      rfl

end Dispatch
end IndexSync
