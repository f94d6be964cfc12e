import IndexSync.Proofs.Poller.Collect

/-!
# A poller at work

Rows are written at any time, callers ask for ticks, every use of the database and of the consumer may
fail, and the poller may be replaced by a new one.
-/
namespace IndexSync

/-- What happens just before one use of the database or of the consumer: rows are written, and a fault
may strike. -/
structure Turn where
  appended : List CaptureRow
  fault : Option Failure

/-- The capture tables, the turns to come, and the batches that the consumer has accepted. -/
structure Scene where
  tables : CaptureTables
  turns : List Turn
  accepted : List (List CaptureEvent)

namespace Scene

/-- Takes the next turn. When there is none, nothing happens. -/
def turn : Action Scene Unit := fun s =>
  match s.turns with
  | [] => (.ok (), s)
  | t :: rest =>
    let s := { s with tables := s.tables.appendAll t.appended, turns := rest }
    match t.fault with
    | none => (.ok (), s)
    | some f => (.error f, s)

/-- The capture tables over connections that a fault can break. -/
def access : CaptureAccess Scene :=
  .paced turn tables fun s tables => { s with tables := tables }

/-- A consumer that accepts a batch unless it fails. -/
def consume (batch : List CaptureEvent) : Action Scene Unit := do
  turn
  Action.update fun s => { s with accepted := s.accepted ++ [batch] }

/-- Rows have been written, and nothing else has happened. -/
structure Later (s s' : Scene) : Prop where
  grows : s.tables.Grows s'.tables
  accepted : s'.accepted = s.accepted

theorem Later.refl (s : Scene) : Later s s := ⟨.refl _, rfl⟩

theorem Later.trans {s t u : Scene} (h : Later s t) (h' : Later t u) : Later s u :=
  ⟨h.grows.trans h'.grows, h'.accepted.trans h.accepted⟩

theorem turn_later (s : Scene) : Later s (turn s).2 := by
  unfold turn
  split
  · exact .refl s
  · split <;> exact ⟨CaptureTables.appendAll_grows .., rfl⟩

theorem access_lawful : access.Lawful tables Later :=
  CaptureAccess.paced_lawful .refl .trans Later.grows turn_later

theorem consume_spec (batch : List CaptureEvent) (s : Scene) :
    ∃ t, Later s t ∧ (consume batch s = (.ok (), { t with accepted := t.accepted ++ [batch] }) ∨
      ∃ f, consume batch s = (.error f, t)) := by
  have h := turn_later s
  simp only [consume, Action.bind_apply]
  generalize turn s = turned at h ⊢
  obtain ⟨outcome, t⟩ := turned
  cases outcome with
  | error f => exact ⟨t, h, .inr ⟨f, rfl⟩⟩
  | ok u => exact ⟨t, h, .inl rfl⟩

end Scene

/-- A poller at work: the last keys it has consumed, the tick that holds its lock, the callers that wait
for the lock, and ticks of earlier pollers that have not come to their end. -/
structure Floor where
  poller : Poller
  cursors : Cursors
  scene : Scene
  tick : Option Poller.Collected
  waiting : Nat
  orphans : List (Poller × Poller.Collected)

namespace Floor

/-- A poller over new tables. -/
def start (p : Poller) : Floor := ⟨p, [], ⟨.empty, [], []⟩, none, 0, []⟩

inductive Move
  | append (rows : List CaptureRow)
  | ask
  | begin (turns : List Turn)
  | finish (turns : List Turn)
  | restart (p : Poller)
  | finishOrphan (i : Nat) (turns : List Turn)

/-- One move. Of the callers one at a time gets the lock and ticks. A new poller starts without
cursors; a tick of the old one may still end later, or never. -/
def step (f : Floor) : Move → Floor
  | .append rows => { f with scene := { f.scene with tables := f.scene.tables.appendAll rows } }
  | .ask => { f with waiting := f.waiting + 1 }
  | .begin turns =>
    if f.tick.isSome || f.waiting = 0 then f
    else
      let (outcome, cursors, scene) :=
        f.poller.collect Scene.access (f.cursors, { f.scene with turns := turns })
      { f with
        cursors := cursors
        scene := scene
        tick := outcome.toOption
        waiting := f.waiting - 1 }
  | .finish turns =>
    match f.tick with
    | none => f
    | some c =>
      let (_, cursors, scene) :=
        f.poller.dispatch Scene.access Scene.consume c (f.cursors, { f.scene with turns := turns })
      { f with cursors := cursors, scene := scene, tick := none }
  | .restart p =>
    { f with
      poller := p
      cursors := []
      tick := none
      waiting := 0
      orphans := f.orphans ++ f.tick.toList.map (f.poller, ·) }
  | .finishOrphan i turns =>
    match f.orphans[i]? with
    | none => f
    | some (p, c) =>
      let (_, _, scene) :=
        p.dispatch Scene.access Scene.consume c ([], { f.scene with turns := turns })
      { f with scene := scene, orphans := f.orphans.eraseIdx i }

def run (f : Floor) (moves : List Move) : Floor := moves.foldl step f

end Floor
end IndexSync
