import IndexSync.Capture.Collapse
import IndexSync.Search.Transaction

/-! Dispatching one batch of captured changes to the index. The batch is collapsed, snapshots are
fetched in one session, and all changes are made in one transaction. A dispatch goes on step by
step, so that several of them can be interleaved. -/
namespace IndexSync
open Search

/-- What a dispatch works with. `σ` is the state of its surroundings and `τ` names a transaction. A
session is given up first, which makes room for the next one, and closed after that. -/
structure Surroundings (σ τ : Type) where
  openSession : Action σ Unit
  snapshot : EntityType → Value → Action σ (Option Entity)
  leaveSession : σ → σ
  closeSession : Action σ Unit
  begin : Action σ τ
  stage : τ → Request → Action σ Unit
  commit : τ → Action σ Unit
  rollback : τ → σ → σ
  report : Notice → σ → σ

namespace Dispatch

/-- Pieces of work inside the transaction. -/
inductive Task
  | settle (identity : Identity) (kind : EventKind)
  | stage (request : Request)
  | delete (mapping : Mapping) (identity : Identity)

/-- How far a dispatch has come. -/
inductive Phase (τ : Type)
  | opening (net : Entries Identity EventKind)
  | beginning (net : Entries Identity EventKind)
  | working (transaction : τ) (tasks : List Task)
  | committing (transaction : τ)
  | undoing (transaction : τ) (cause : Failure)
  | leaving (outcome : Except Failure Unit)
  | closing (outcome : Except Failure Unit)
  | done (outcome : Except Failure Unit)

variable {σ τ : Type}

/-- The deletions of one entity, one for each mapping whose documents hold its id. -/
def deletions (ms : Mappings) (identity : Identity) : List Task :=
  (ms.containing identity.type).map (.delete · identity)

/-- The deletion request for one mapping. A mapping without a field for the type asks for
nothing. -/
def deleteRequest (m : Mapping) (identity : Identity) : Except Failure (Option Request) :=
  match m.idFieldFor identity.type with
  | none => .ok none
  | some field => do
    return some (.delete m.indexedType field.name (← field.indexValue identity.id))

/-- The work that a snapshot leads to: a document for an entity that exists, deletions for one that
does not. -/
def afterSnapshot (ms : Mappings) (identity : Identity) (kind : EventKind) :
    Option Entity → List Task
  | none => deletions ms identity
  | some e => [.stage (if kind = .insert then .index e else .update e)]

/-- One piece of work: the work it leads to. -/
def perform (world : Surroundings σ τ) (ms : Mappings) (t : τ) : Task → Action σ (List Task)
  | .settle identity kind =>
    if (ms.containing identity.type).isEmpty then do
      Action.update (world.report (.unindexed identity.type identity.id))
      return []
    else if kind = .insert || kind = .update then do
      return afterSnapshot ms identity kind (← world.snapshot identity.type identity.id)
    else return deletions ms identity
  | .stage request => do
    world.stage t request
    return []
  | .delete m identity => do
    match ← Action.ofExcept (deleteRequest m identity) with
    | some request => do
      world.stage t request
      return []
    | none => return []

/-- One step of a dispatch. -/
def step (world : Surroundings σ τ) (ms : Mappings) (p : Phase τ) (s : σ) : Phase τ × σ :=
  match p with
  | .opening net =>
    match world.openSession s with
    | (.ok _, s) => (.beginning net, s)
    | (.error f, s) => (.done (.error f), s)
  | .beginning net =>
    match world.begin s with
    | (.ok t, s) => (.working t (net.map fun (i, k) => .settle i k), s)
    | (.error f, s) => (.leaving (.error f), s)
  | .working t [] => (.committing t, s)
  | .working t (task :: rest) =>
    match perform world ms t task s with
    | (.ok more, s) => (.working t (more ++ rest), s)
    | (.error f, s) => (.undoing t f, s)
  | .committing t =>
    match world.commit t s with
    | (.ok _, s) => (.leaving (.ok ()), s)
    | (.error f, s) => (.undoing t f, s)
  | .undoing t f => (.leaving (.error f), world.rollback t s)
  | .leaving outcome => (.closing outcome, world.leaveSession s)
  | .closing outcome =>
    match world.closeSession s with
    | (.ok _, s) => (.done outcome, s)
    | (.error f, s) => (.done (.error f), s)
  | .done outcome => (.done outcome, s)

/-- The work that a task stands for, itself and what it may lead to. -/
def Task.weight (ms : Mappings) : Task → Nat
  | .settle .. => ms.list.length + 2
  | _ => 1

def weight (ms : Mappings) : List Task → Nat
  | [] => 0
  | task :: rest => task.weight ms + weight ms rest

/-- An upper bound for the steps that are left. -/
def Phase.left (ms : Mappings) : Phase τ → Nat
  | .opening net => net.length * (ms.list.length + 2) + 7
  | .beginning net => net.length * (ms.list.length + 2) + 6
  | .working _ tasks => weight ms tasks + 5
  | .committing _ => 4
  | .undoing .. => 3
  | .leaving _ => 2
  | .closing _ => 1
  | .done _ => 0

theorem weight_settle (ms : Mappings) (net : Entries Identity EventKind) :
    weight ms (net.map fun (i, k) => Task.settle i k) = net.length * (ms.list.length + 2) := by
  induction net with
  | nil => simp [weight]
  | cons e rest ih =>
    simp only [List.map_cons, weight, Task.weight, List.length_cons]
    rw [ih]
    rw [Nat.succ_mul]
    omega

theorem weight_append (ms : Mappings) (xs ys : List Task) :
    weight ms (xs ++ ys) = weight ms xs + weight ms ys := by
  induction xs with
  | nil => simp [weight]
  | cons task rest ih => simp [weight, ih, Nat.add_assoc]

theorem weight_deletions_le (ms : Mappings) (identity : Identity) :
    weight ms (deletions ms identity) ≤ ms.list.length := by
  have h : weight ms (deletions ms identity) = (ms.containing identity.type).length := by
    unfold deletions
    induction ms.containing identity.type with
    | nil => rfl
    | cons m rest ih => simp [weight, Task.weight, ih]; omega
  rw [h]
  exact List.length_filter_le ..

theorem weight_afterSnapshot_le (ms : Mappings) (identity : Identity) (kind : EventKind)
    (e : Option Entity) : weight ms (afterSnapshot ms identity kind e) ≤ ms.list.length + 1 := by
  cases e with
  | none => exact Nat.le_succ_of_le (weight_deletions_le ms identity)
  | some e => simp [afterSnapshot, weight, Task.weight]

/-- Work leads to less work. -/
theorem weight_perform_lt (world : Surroundings σ τ) (ms : Mappings) (t : τ) (task : Task)
    {s s' : σ} {more : List Task} (h : perform world ms t task s = (.ok more, s')) :
    weight ms more < task.weight ms := by
  cases task with
  | settle identity kind =>
    simp only [perform] at h
    have hd := weight_deletions_le ms identity
    split at h
    · cases h; simp [weight, Task.weight]
    · split at h
      · simp only [Action.bind_apply] at h
        split at h
        · cases h
          have := weight_afterSnapshot_le ms identity kind ‹_›
          simp only [Task.weight]; omega
        · cases h
      · cases h; simp only [Task.weight]; omega
  | stage request =>
    simp only [perform, Action.bind_apply] at h
    split at h <;> cases h
    simp [weight, Task.weight]
  | delete m identity =>
    simp only [perform, Action.bind_apply] at h
    split at h
    · split at h
      · simp only [Action.bind_apply] at h
        split at h <;> cases h
        simp [weight, Task.weight]
      · cases h; simp [weight, Task.weight]
    · cases h

def Phase.outcome? : Phase τ → Option (Except Failure Unit)
  | .done outcome => some outcome
  | _ => none

theorem left_step_lt (world : Surroundings σ τ) (ms : Mappings) (p : Phase τ) (s : σ)
    (h : p.outcome? = none) : (step world ms p s).1.left ms < p.left ms := by
  cases p with
  | opening net =>
    simp only [step]
    split <;> simp [Phase.left]
  | beginning net =>
    simp only [step]
    split <;> simp only [Phase.left, weight_settle] <;> omega
  | working t tasks =>
    cases tasks with
    | nil => simp [step, Phase.left, weight]
    | cons task rest =>
      simp only [step]
      split
      · have := weight_perform_lt world ms t task ‹_›
        simp only [Phase.left, weight_append]
        simp only [weight]
        omega
      · simp only [Phase.left]; omega
  | committing t =>
    simp only [step]
    split <;> simp [Phase.left]
  | undoing t f => simp [step, Phase.left]
  | leaving outcome => simp [step, Phase.left]
  | closing outcome =>
    simp only [step]
    split <;> simp [Phase.left]
  | done outcome => simp [Phase.outcome?] at h

/-- Goes on to the end. -/
def run (world : Surroundings σ τ) (ms : Mappings) (p : Phase τ) (s : σ) :
    Except Failure Unit × σ :=
  match _h : p.outcome? with
  | some outcome => (outcome, s)
  | none =>
    let next := step world ms p s
    run world ms next.1 next.2
termination_by p.left ms
decreasing_by exact left_step_lt world ms p s _h

/-- Dispatches a batch. A batch that comes to nothing touches nothing. -/
def batch (world : Surroundings σ τ) (ms : Mappings) (events : List CaptureEvent) :
    Action σ Unit := fun s =>
  let (outcome, net) := NetBatch.collapse events
  let s := net.notices.foldl (fun s n => world.report n s) s
  match outcome with
  | .error f => (.error f, s)
  | .ok _ => if net.changes.isEmpty then (.ok (), s) else run world ms (.opening net.changes) s

end Dispatch
end IndexSync
