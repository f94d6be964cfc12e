import IndexSync.Proofs.Dispatch.Observed
import Mathlib.Data.List.Basic

/-!
# The scope of a dispatch

Everything that a dispatch asks of its surroundings is written down with the answer, and every answer may be a
failure. A session that was opened is closed once, after all that was done in it. A transaction that was begun is
committed or, after what went wrong, rolled back. The failure of a batch is the last one of which it was told.
-/
namespace IndexSync

open Search

/-- What a dispatch asks of its surroundings, with the answer. -/
inductive Exchange (τ : Type)
  | opened (answer : Except Failure Unit)
  | begun (answer : Except Failure τ)
  | asked (identity : Identity) (answer : Except Failure (Option Entity))
  | staged (t : τ) (request : Request) (answer : Except Failure Unit)
  | committed (t : τ) (answer : Except Failure Unit)
  | rolledBack (t : τ)
  | closed (answer : Except Failure Unit)

/-- The failure that is in an answer. -/
def Failure.ofAnswer? {α : Type} : Except Failure α → Option Failure
  | .error f => some f
  | .ok _ => none

namespace Exchange

variable {τ : Type}

def failure? : Exchange τ → Option Failure
  | opened answer | staged _ _ answer | committed _ answer | closed answer => Failure.ofAnswer? answer
  | begun answer => Failure.ofAnswer? answer
  | asked _ answer => Failure.ofAnswer? answer
  | rolledBack _ => none

/-- A session that is there from now on. -/
def isOpening : Exchange τ → Bool
  | opened (.ok _) => true
  | _ => false

def isClosing : Exchange τ → Bool
  | closed _ => true
  | _ => false

/-- The end of a transaction, or an attempt at it. -/
def isEnding : Exchange τ → Bool
  | committed .. | rolledBack _ => true
  | _ => false

end Exchange

namespace Surroundings

variable {σ τ α : Type}

/-- An action that is written down with its answer. -/
def overheard (tell : Except Failure α → Exchange τ) (x : Action σ α) :
    Action (List (Exchange τ) × σ) α := fun (l, s) =>
  let (answer, s) := x s
  (answer, l ++ [tell answer], s)

/-- The surroundings with a transcript of all that is asked of them. -/
def transcribed (world : Surroundings σ τ) : Surroundings (List (Exchange τ) × σ) τ where
  openSession := overheard .opened world.openSession
  snapshot type id := overheard (.asked ⟨type, id⟩) (world.snapshot type id)
  leaveSession := fun (l, s) => (l, world.leaveSession s)
  closeSession := overheard .closed world.closeSession
  begin := overheard .begun world.begin
  stage t r := overheard (.staged t r) (world.stage t r)
  commit t := overheard (.committed t) (world.commit t)
  rollback t := fun (l, s) => (l ++ [.rolledBack t], world.rollback t s)
  report n := fun (l, s) => (l, world.report n s)

theorem transcribed_observes (world : Surroundings σ τ) : world.transcribed.Observes world :=
  ⟨fun _ _ => rfl, fun _ _ _ _ => rfl, fun _ _ => rfl, fun _ _ => rfl, fun _ _ => rfl, fun _ _ _ _ => rfl,
    fun _ _ _ => rfl, fun _ _ _ => rfl, fun _ _ _ => rfl⟩

theorem overheard_apply (tell : Except Failure α → Exchange τ) (x : Action σ α)
    (l : List (Exchange τ)) (s : σ) :
    overheard tell x (l, s) = ((x s).1, l ++ [tell (x s).1], (x s).2) := rfl

end Surroundings

namespace Dispatch

variable {σ τ : Type} {world : Surroundings σ τ} {ms : Mappings}
  {net : Entries Identity EventKind} {t : τ} {l : List (Exchange τ)}

/-- Something asked for in the course of the work: an entity, or a change in the transaction. -/
inductive InWork (t : τ) : Exchange τ → Prop
  | asked (identity : Identity) (answer : Except Failure (Option Entity)) : InWork t (.asked identity answer)
  | staged (r : Request) (answer : Except Failure Unit) : InWork t (.staged t r answer)

/-- Work in which all answers are good. -/
def GoodWork (t : τ) (work : List (Exchange τ)) : Prop :=
  ∀ e ∈ work, InWork t e ∧ e.failure? = none

/-- An id of the batch has no encoded form for the deletion of documents. -/
def Unencodable (ms : Mappings) (net : Entries Identity EventKind) (f : Failure) : Prop :=
  ∃ i kind, (i, kind) ∈ net ∧ ∃ m ∈ ms.containing i.type, deleteRequest m i = .error f

/-- What goes wrong in a transaction: the last answer is a failure, in the course of the work or at the commit, or
there is nothing to be asked for. -/
inductive Fault (ms : Mappings) (net : Entries Identity EventKind) (t : τ) (f : Failure) :
    List (Exchange τ) → Prop
  | work {e : Exchange τ} (within : InWork t e) (failed : e.failure? = some f) : Fault ms net t f [e]
  | commit : Fault ms net t f [.committed t (.error f)]
  | unencodable (h : Unencodable ms net f) : Fault ms net t f []

/-- The failures that a session was told of account for its outcome. -/
def Accounts (ms : Mappings) (net : Entries Identity EventKind) :
    Except Failure Unit → List Failure → Prop
  | .ok _, told => told = []
  | .error f, told => told = [f] ∨ told = [] ∧ Unencodable ms net f

/-- What is done in a session, and what it comes to. -/
inductive Held (ms : Mappings) (net : Entries Identity EventKind) :
    List (Exchange τ) → Except Failure Unit → Prop
  | unbegun (f : Failure) : Held ms net [.begun (.error f)] (.error f)
  | kept {t : τ} {work : List (Exchange τ)} (good : GoodWork t work) :
    Held ms net (.begun (.ok t) :: work ++ [.committed t (.ok ())]) (.ok ())
  | undone {t : τ} {work fault : List (Exchange τ)} {f : Failure} (good : GoodWork t work)
    (wrong : Fault ms net t f fault) :
    Held ms net (.begun (.ok t) :: work ++ fault ++ [.rolledBack t]) (.error f)

/-- A failure at the closing takes the place of what went before. -/
def closingOutcome (outcome : Except Failure Unit) : Except Failure Unit → Except Failure Unit
  | .ok _ => outcome
  | .error f => .error f

/-- The ways in which a batch with changes goes, and what they come to. -/
inductive Course (ms : Mappings) (net : Entries Identity EventKind) :
    List (Exchange τ) → Except Failure Unit → Prop
  | unopened (f : Failure) : Course ms net [.opened (.error f)] (.error f)
  | opened {inner : List (Exchange τ)} {outcome : Except Failure Unit} (held : Held ms net inner outcome)
    (last : Except Failure Unit) :
    Course ms net (.opened (.ok ()) :: inner ++ [.closed last]) (closingOutcome outcome last)

/-- A task that goes back to a change of the batch. -/
def Task.IsFrom (ms : Mappings) (net : Entries Identity EventKind) : Task → Prop
  | .settle i kind => (i, kind) ∈ net
  | .stage _ => True
  | .delete m i => m ∈ ms.containing i.type ∧ ∃ kind, (i, kind) ∈ net

/-- How a batch has come to a phase. -/
def CameTo (ms : Mappings) (net : Entries Identity EventKind) : Phase τ → List (Exchange τ) → Prop
  | .opening changes, l => changes = net ∧ l = []
  | .beginning changes, l => changes = net ∧ l = [.opened (.ok ())]
  | .working t tasks, l => (∀ task ∈ tasks, task.IsFrom ms net) ∧
      ∃ work, GoodWork t work ∧ l = .opened (.ok ()) :: .begun (.ok t) :: work
  | .committing t, l => ∃ work, GoodWork t work ∧ l = .opened (.ok ()) :: .begun (.ok t) :: work
  | .undoing t f, l => ∃ work fault, GoodWork t work ∧ Fault ms net t f fault ∧
      l = .opened (.ok ()) :: .begun (.ok t) :: work ++ fault
  | .leaving outcome, l | .closing outcome, l => ∃ inner, Held ms net inner outcome ∧ l = .opened (.ok ()) :: inner
  | .done outcome, l => Course ms net l outcome

theorem isFrom_deletions {i : Identity} {kind : EventKind} (h : (i, kind) ∈ net) :
    ∀ task ∈ deletions ms i, task.IsFrom ms net := by
  intro task ht
  obtain ⟨m, hm, rfl⟩ := List.mem_map.mp ht
  exact ⟨hm, kind, h⟩

theorem isFrom_afterSnapshot {i : Identity} {kind : EventKind} (h : (i, kind) ∈ net)
    (e : Option Entity) : ∀ task ∈ afterSnapshot ms i kind e, task.IsFrom ms net := by
  cases e with
  | none => exact isFrom_deletions h
  | some e =>
    intro task ht
    rw [afterSnapshot, List.mem_singleton] at ht
    rw [ht]
    trivial

/-- What one task leaves in the transcript: nothing or a good answer when it goes well, a fault when it fails. -/
def Adds (ms : Mappings) (net : Entries Identity EventKind) (t : τ) (l : List (Exchange τ)) :
    Except Failure (List Task) × List (Exchange τ) × σ → Prop
  | (.ok more, l', _) => (∀ task ∈ more, task.IsFrom ms net) ∧ ∃ work, GoodWork t work ∧ l' = l ++ work
  | (.error f, l', _) => ∃ fault, Fault ms net t f fault ∧ l' = l ++ fault

theorem adds_nothing {more : List Task} (h : ∀ task ∈ more, task.IsFrom ms net) (s : σ) :
    Adds ms net t l (.ok more, l, s) :=
  ⟨h, [], fun _ he => absurd he List.not_mem_nil, (List.append_nil l).symm⟩

theorem adds_one {more : List Task} {e : Exchange τ} (h : ∀ task ∈ more, task.IsFrom ms net)
    (within : InWork t e) (good : e.failure? = none) (s : σ) :
    Adds ms net t l (.ok more, l ++ [e], s) := by
  refine ⟨h, [e], fun d hd => ?_, rfl⟩
  rw [List.mem_singleton.mp hd]
  exact ⟨within, good⟩

theorem stage_adds (world : Surroundings σ τ) (t : τ) (r : Request) (l : List (Exchange τ)) (s : σ) :
    Adds ms net t l ((do world.transcribed.stage t r; return [] :
      Action (List (Exchange τ) × σ) (List Task)) (l, s)) := by
  simp only [Action.bind_apply, Surroundings.transcribed, Surroundings.overheard_apply]
  rcases world.stage t r s with ⟨f | _, s'⟩
  · exact ⟨_, .work (.staged r _) rfl, rfl⟩
  · exact adds_one (fun _ h => absurd h List.not_mem_nil) (.staged r _) rfl s'

theorem perform_adds (world : Surroundings σ τ) {task : Task} (h : task.IsFrom ms net) (t : τ)
    (l : List (Exchange τ)) (s : σ) :
    Adds ms net t l (perform world.transcribed ms t task (l, s)) := by
  cases task with
  | settle i kind =>
    simp only [perform]
    split
    · exact adds_nothing (fun _ h => absurd h List.not_mem_nil) _
    · split
      · simp only [Action.bind_apply, Surroundings.transcribed, Surroundings.overheard_apply]
        rcases world.snapshot i.type i.id s with ⟨f | e, s'⟩
        · exact ⟨_, .work (.asked i _) rfl, rfl⟩
        · exact adds_one (isFrom_afterSnapshot h e) (.asked i _) rfl s'
      · exact adds_nothing (isFrom_deletions h) _
  | stage r => exact stage_adds world t r l s
  | delete m i =>
    obtain ⟨hm, kind, hi⟩ := h
    simp only [perform]
    rcases hr : deleteRequest m i with f | _ | r
    · exact ⟨[], .unencodable ⟨i, kind, hi, m, hm, hr⟩, (List.append_nil l).symm⟩
    · exact adds_nothing (fun _ h => absurd h List.not_mem_nil) _
    · exact stage_adds world t r l s

/-- Every step goes on with the transcript as the phase that it comes to requires. -/
theorem cameTo_step (world : Surroundings σ τ) {p : Phase τ} (h : CameTo ms net p l) (s : σ) :
    CameTo ms net (step world.transcribed ms p (l, s)).1 (step world.transcribed ms p (l, s)).2.1 := by
  cases p with
  | opening changes =>
    obtain ⟨rfl, rfl⟩ := h
    simp only [step, Surroundings.transcribed, Surroundings.overheard_apply]
    rcases world.openSession s with ⟨f | _, s'⟩
    · exact .unopened f
    · exact ⟨rfl, rfl⟩
  | beginning changes =>
    obtain ⟨rfl, rfl⟩ := h
    simp only [step, Surroundings.transcribed, Surroundings.overheard_apply]
    rcases world.begin s with ⟨f | t, s'⟩
    · exact ⟨_, .unbegun f, rfl⟩
    · refine ⟨fun task ht => ?_, [], fun _ he => absurd he List.not_mem_nil, rfl⟩
      obtain ⟨change, hc, rfl⟩ := List.mem_map.mp ht
      exact hc
  | working t tasks =>
    obtain ⟨from_, work, good, rfl⟩ := h
    cases tasks with
    | nil => exact ⟨work, good, rfl⟩
    | cons task rest =>
      obtain ⟨first, others⟩ := List.forall_mem_cons.mp from_
      have adds := perform_adds world first t (.opened (.ok ()) :: .begun (.ok t) :: work) s
      simp only [step]
      generalize perform world.transcribed ms t task _ = performed at adds ⊢
      obtain ⟨f | more, l', s'⟩ := performed
      · obtain ⟨fault, wrong, rfl⟩ := adds
        exact ⟨work, fault, good, wrong, rfl⟩
      · obtain ⟨new, work', good', rfl⟩ := adds
        refine ⟨fun task ht => ?_, work ++ work', ?_, by simp⟩
        · exact (List.mem_append.mp ht).elim (new task) (others task)
        · exact fun e he => (List.mem_append.mp he).elim (good e) (good' e)
  | committing t =>
    obtain ⟨work, good, rfl⟩ := h
    simp only [step, Surroundings.transcribed, Surroundings.overheard_apply]
    rcases world.commit t s with ⟨f | _, s'⟩
    · exact ⟨work, _, good, .commit, rfl⟩
    · exact ⟨_, .kept good, rfl⟩
  | undoing t f =>
    obtain ⟨work, fault, good, wrong, rfl⟩ := h
    exact ⟨_, .undone good wrong, rfl⟩
  | leaving outcome => exact h
  | closing outcome =>
    simp only [step, Surroundings.transcribed, Surroundings.overheard_apply]
    obtain ⟨inner, held, rfl⟩ := h
    have course := Course.opened held (world.closeSession s).1
    generalize world.closeSession s = answered at course ⊢
    obtain ⟨f | _, s'⟩ := answered <;> exact course
  | done outcome => exact h

theorem course_of_cameTo (world : Surroundings σ τ) {p : Phase τ} {state : List (Exchange τ) × σ}
    (h : CameTo ms net p state.1) :
    Course ms net (run world.transcribed ms p state).2.1 (run world.transcribed ms p state).1 := by
  induction p, state using run.induct world.transcribed ms with
  | case1 p state outcome hp =>
    obtain rfl : p = .done outcome := by
      cases p <;> simp_all [Phase.outcome?]
    rw [run_of_done]
    exact h
  | case2 p state going next ih =>
    rw [run_step]
    exact ih (cameTo_step world h state.2)

/-- A transaction that was begun is committed once, and then nothing has failed but perhaps the closing. Or it is
rolled back once, after what went wrong. -/
def Ends (ms : Mappings) (net : Entries Identity EventKind) (t : τ) (calls : List (Exchange τ)) : Prop :=
  (calls.filter (·.isEnding) = [.committed t (.ok ())] ∧
      ∀ e ∈ calls, e.failure? ≠ none → e.isClosing = true) ∨
    ∃ before last f, calls = before ++ [.rolledBack t, .closed last] ∧
      (before.filter (·.isEnding) = [] ∨ before.filter (·.isEnding) = [.committed t (.error f)]) ∧
      (f ∈ before.filterMap (·.failure?) ∨ Unencodable ms net f)

/-- A dispatch in its scope. -/
structure Scoped (ms : Mappings) (net : Entries Identity EventKind) (calls : List (Exchange τ))
    (outcome : Except Failure Unit) : Prop where
  /-- One attempt is made to open a session. -/
  opening : ∃ answer, calls.head? = some (.opened answer)
  /-- A session is closed exactly once if it was opened, and never otherwise. -/
  closing : calls.countP (·.isClosing) = if calls.head?.any (·.isOpening) then 1 else 0
  /-- Entities are asked for between the opening and the closing. -/
  within : ∀ before i answer after, calls = before ++ .asked i answer :: after →
    .opened (.ok ()) ∈ before ∧ ∃ last, .closed last ∈ after
  ending : ∀ t, .begun (.ok t) ∈ calls → Ends ms net t calls
  /-- Without a transaction there is neither a commit nor a rollback. -/
  unbegun : (∀ t, .begun (.ok t) ∉ calls) → calls.filter (·.isEnding) = []
  /-- The last failure is the one that remains. -/
  failure : ∀ f, (calls.filterMap (·.failure?)).getLast? = some f → outcome = .error f
  /-- A batch that was told of no failure is committed, or an id of its has no encoded form. -/
  success : calls.filterMap (·.failure?) = [] →
    outcome = .ok () ∨ ∃ f, Unencodable ms net f ∧ outcome = .error f

theorem between {α : Type} {xs before after : List α} {first last x : α}
    (h : first :: xs ++ [last] = before ++ x :: after) (hfirst : x ≠ first) (hlast : x ≠ last) :
    first ∈ before ∧ last ∈ after := by
  constructor
  · cases before with
    | nil => exact absurd (List.cons.inj h).1.symm hfirst
    | cons y before => exact (List.cons.inj h).1 ▸ List.mem_cons_self
  · have ends := congrArg List.getLast? h
    rw [List.getLast?_concat, List.getLast?_append_of_ne_nil before (List.cons_ne_nil x after)] at ends
    exact (List.mem_cons.mp (List.mem_of_getLast? ends.symm)).resolve_left hlast.symm

theorem GoodWork.filter_isEnding {work : List (Exchange τ)} (h : GoodWork t work) :
    work.filter (·.isEnding) = [] := by
  rw [List.filter_eq_nil_iff]
  intro e he
  cases (h e he).1 <;> exact Bool.false_ne_true

theorem GoodWork.failures {work : List (Exchange τ)} (h : GoodWork t work) :
    work.filterMap (·.failure?) = [] :=
  List.filterMap_eq_nil_iff.mpr fun e he => (h e he).2

theorem GoodWork.countP_isClosing {work : List (Exchange τ)} (h : GoodWork t work) :
    work.countP (·.isClosing) = 0 := by
  rw [List.countP_eq_zero]
  intro e he
  cases (h e he).1 <;> exact Bool.false_ne_true

theorem GoodWork.not_begun {work : List (Exchange τ)} (h : GoodWork t work)
    (answer : Except Failure τ) : .begun answer ∉ work :=
  fun he => nomatch (h _ he).1

namespace Fault

variable {f : Failure} {fault : List (Exchange τ)}

theorem countP_isClosing (h : Fault ms net t f fault) : fault.countP (·.isClosing) = 0 := by
  cases h with
  | work within failed => cases within <;> rfl
  | commit => rfl
  | unencodable h => rfl

theorem filter_isEnding (h : Fault ms net t f fault) :
    fault.filter (·.isEnding) = [] ∨ fault.filter (·.isEnding) = [.committed t (.error f)] := by
  cases h with
  | work within failed => cases within <;> exact .inl rfl
  | commit => exact .inr rfl
  | unencodable h => exact .inl rfl

theorem not_begun (h : Fault ms net t f fault) (answer : Except Failure τ) : .begun answer ∉ fault := by
  intro he
  cases h with
  | work within failed => cases List.mem_singleton.mp he ▸ within
  | commit => simp at he
  | unencodable h => simp at he

theorem failures (h : Fault ms net t f fault) :
    fault.filterMap (·.failure?) = [f] ∨
      fault.filterMap (·.failure?) = [] ∧ Unencodable ms net f := by
  cases h with
  | work within failed => exact .inl (by simp [failed])
  | commit => exact .inl rfl
  | unencodable h => exact .inr ⟨rfl, h⟩

end Fault

namespace Held

variable {inner : List (Exchange τ)} {outcome : Except Failure Unit}

/-- Nothing that is done in a session closes it. -/
theorem countP_isClosing (h : Held ms net inner outcome) : inner.countP (·.isClosing) = 0 := by
  cases h with
  | unbegun f => rfl
  | kept good =>
    rw [List.cons_append, List.countP_cons, List.countP_append, good.countP_isClosing]
    rfl
  | undone good wrong =>
    rw [List.cons_append, List.cons_append, List.countP_cons, List.countP_append, List.countP_append,
      good.countP_isClosing, wrong.countP_isClosing]
    rfl

/-- A transaction that was begun in a session comes to its end there. -/
theorem ending (h : Held ms net inner outcome) (last : Except Failure Unit) {t : τ}
    (begun : .begun (.ok t) ∈ .opened (.ok ()) :: inner ++ [.closed last]) :
    Ends ms net t (.opened (.ok ()) :: inner ++ [.closed last]) := by
  cases h with
  | unbegun f => simp at begun
  | @kept t' work good =>
    obtain rfl : t = t' := by
      simpa [good.not_begun] using begun
    refine .inl ⟨?_, fun e he failed => ?_⟩
    · simp only [List.cons_append, List.filter_cons, List.filter_append, good.filter_isEnding]
      rfl
    · simp only [List.cons_append, List.mem_cons, List.mem_append, List.not_mem_nil, or_false] at he
      rcases he with rfl | rfl | (he | rfl) | rfl
      · exact absurd rfl failed
      · exact absurd rfl failed
      · exact absurd (good e he).2 failed
      · exact absurd rfl failed
      · rfl
  | @undone t' work fault f good wrong =>
    obtain rfl : t = t' := by
      simpa [good.not_begun, wrong.not_begun] using begun
    refine .inr ⟨.opened (.ok ()) :: .begun (.ok t) :: work ++ fault, last, f, by simp, ?_, ?_⟩
    · simp only [List.cons_append, List.filter_cons, List.filter_append, good.filter_isEnding]
      exact wrong.filter_isEnding
    · refine wrong.failures.imp (fun told => ?_) And.right
      rw [List.filterMap_append, told]
      exact List.mem_append_right _ (List.mem_singleton_self f)

/-- The failure that a session comes to is the one that it was told of, or there was none to be told. -/
theorem accounts (h : Held ms net inner outcome) :
    Accounts ms net outcome (inner.filterMap (·.failure?)) := by
  cases h with
  | unbegun f => exact .inl rfl
  | kept good =>
    rw [List.cons_append, List.filterMap_cons_none rfl, List.filterMap_append, good.failures]
    rfl
  | undone good wrong =>
    rw [List.cons_append, List.cons_append, List.filterMap_cons_none rfl, List.filterMap_append,
      List.filterMap_append, good.failures, List.nil_append, List.filterMap_cons_none rfl,
      List.filterMap_nil, List.append_nil]
    exact wrong.failures

end Held

theorem closingOutcome_of_told {outcome last : Except Failure Unit} {told : List Failure} {f : Failure}
    (accounts : Accounts ms net outcome told)
    (h : (told ++ (Failure.ofAnswer? last).toList).getLast? = some f) :
    closingOutcome outcome last = .error f := by
  cases last with
  | error g =>
    rw [Failure.ofAnswer?, Option.toList_some, List.getLast?_concat] at h
    exact congrArg Except.error (Option.some.inj h)
  | ok u =>
    rw [Failure.ofAnswer?, Option.toList_none, List.append_nil] at h
    cases outcome with
    | ok u =>
      rw [show told = [] from accounts] at h
      exact absurd h nofun
    | error g =>
      rcases accounts with rfl | ⟨rfl, -⟩
      · exact congrArg Except.error (Option.some.inj h)
      · exact absurd h nofun

theorem Course.scoped {outcome : Except Failure Unit} (h : Course ms net l outcome) :
    Scoped ms net l outcome := by
  cases h with
  | unopened f =>
    refine ⟨⟨_, rfl⟩, rfl, fun before i answer after h => ?_, by simp, fun _ => rfl, ?_, ?_⟩
    · have asked : Exchange.asked i answer ∈ [Exchange.opened (τ := τ) (.error f)] := by simp [h]
      simp at asked
    · rintro g ⟨⟩
      rfl
    · rintro ⟨⟩
  | @opened inner outcome held last =>
    have failures : (.opened (.ok ()) :: inner ++ [.closed last] : List (Exchange τ)).filterMap
        (·.failure?) = inner.filterMap (·.failure?) ++ (Failure.ofAnswer? last).toList := by
      rw [List.cons_append, List.filterMap_cons_none rfl, List.filterMap_append]
      cases last <;> rfl
    refine ⟨⟨_, rfl⟩, ?_, fun before i answer after h => ?_, fun t ht => ?_, fun none => ?_, ?_, ?_⟩
    · rw [List.cons_append, List.countP_cons, List.countP_append, held.countP_isClosing]
      rfl
    · exact (between h nofun nofun).imp_right fun h => ⟨_, h⟩
    · exact held.ending last ht
    · cases held with
      | unbegun f => rfl
      | @kept t work good => exact absurd (by simp) (none t)
      | @undone t work fault f good wrong => exact absurd (by simp) (none t)
    · intro f told
      rw [failures] at told
      exact closingOutcome_of_told held.accounts told
    · intro none
      rw [failures, List.append_eq_nil_iff] at none
      obtain ⟨none, good⟩ := none
      have accounts := held.accounts
      rw [none] at accounts
      cases last with
      | error g => simp [Failure.ofAnswer?] at good
      | ok u =>
        cases outcome with
        | ok u => exact .inl rfl
        | error g => exact .inr ⟨g, by simpa [Accounts] using accounts, rfl⟩

theorem reports_transcribed (world : Surroundings σ τ) (notices : List Notice) (l : List (Exchange τ)) (s : σ) :
    (notices.foldl (fun s n => world.transcribed.report n s) (l, s)).1 = l := by
  induction notices generalizing s with
  | nil => rfl
  | cons n rest ih => exact ih (world.report n s)

/-- A dispatch goes, with a transcript, as it goes without. A batch that comes to nothing, or that cannot be collapsed,
asks for nothing; each other batch is dispatched in its scope, whatever fails. -/
theorem batch_scoped (world : Surroundings σ τ) (ms : Mappings) (events : List CaptureEvent) (s : σ) :
    withoutNotes (batch world.transcribed ms events ([], s)) = batch world ms events s ∧
      let outcome := (batch world.transcribed ms events ([], s)).1
      let calls := (batch world.transcribed ms events ([], s)).2.1
      match NetBatch.collapse events with
      | (.error f, _) => calls = [] ∧ outcome = .error f
      | (.ok _, net) => if net.changes = [] then calls = [] ∧ outcome = .ok ()
        else Scoped ms net.changes calls outcome := by
  refine ⟨batch_observed world.transcribed_observes ms [] s events, ?_⟩
  simp only [batch]
  obtain ⟨collapsed, net⟩ := NetBatch.collapse events
  have unheard := reports_transcribed world net.notices [] s
  cases collapsed with
  | error f => exact ⟨unheard, rfl⟩
  | ok u =>
    by_cases nothing : net.changes = []
    · simp only [nothing, List.isEmpty_nil, if_true]
      exact ⟨unheard, trivial⟩
    · simp only [List.isEmpty_iff, nothing, if_false]
      have came : CameTo ms net.changes (.opening net.changes)
          (net.notices.foldl (fun s n => world.transcribed.report n s) ([], s)).1 := ⟨rfl, unheard⟩
      exact (course_of_cameTo world came).scoped

/-- Surroundings in which nothing fails but the commit. -/
def uncommittable (f : Failure) : Surroundings Unit Unit where
  openSession := pure ()
  snapshot _ _ := pure none
  leaveSession := id
  closeSession := pure ()
  begin := pure ()
  stage _ _ := pure ()
  commit _ := Action.ofExcept (.error f)
  rollback _ s := s
  report _ s := s

/-- The transaction is rolled back after its commit has failed. -/
example (f : Failure) (house : EntityType) :
    (batch (uncommittable f).transcribed .empty [⟨house, .int 2, .insert, 1, "houses"⟩] ([], ())).2.1 =
      [.opened (.ok ()), .begun (.ok ()), .committed () (.error f), .rolledBack (), .closed (.ok ())] := by
  cbv

end Dispatch
end IndexSync
