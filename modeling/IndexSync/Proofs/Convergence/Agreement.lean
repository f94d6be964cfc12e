import Mathlib
import IndexSync.Proofs.Convergence.Invariant

/-!
# When the index agrees with the database

The index agrees with the database on every entity of which no row waits, with one exception: a deletion
that was left in its table and is read again after a restart takes the document of an entity that has
come back since.
-/
namespace IndexSync
namespace Registry
open Search Dispatch

variable {R : Registry}

namespace World

theorem Later.calm {s t : World R} (h : Later s t) {i : Identity} (hi : R.Known i)
    (calm : s.misled i = false) : t.misled i = false := by
  cases h.passes i hi with
  | untouched entity misled ahead => exact misled.trans calm
  | renewed kind misled ended ahead => exact misled

end World

namespace System

variable {s : System R}

/-- No row that has been consumed is left in its table. -/
def Cleared (s : System R) : Prop :=
  ∀ r ∈ s.world.tables.rows, ∀ k ∈ s.cursors.get? r.table, k < r.key

/-- Nobody is misled but by a restart, and not by a restart that finds no consumed row. -/
theorem step_calm (h : s.Invariant) {move : Move R} (cleared : move = .restart → s.Cleared)
    {i : Identity} (hi : R.Known i) (calm : s.world.misled i = false) :
    (s.step move).world.misled i = false := by
  cases move with
  | write w => exact (World.write_later w s.world).calm hi calm
  | begin moments =>
    rcases begin_cases s moments with hs | ⟨w, later, hs | ⟨c, collects, hs⟩⟩
    · rw [hs]
      exact calm
    · rw [hs]
      exact later.calm hi calm
    · obtain ⟨p, hp, -⟩ := handOn_spec (later.sane h.sane) collects
      rw [hs, hp]
      exact later.calm hi calm
  | advance fault =>
    cases ht : s.tick with
    | none =>
      simp only [step, ht]
      exact calm
    | some tick =>
      obtain ⟨c, p⟩ := tick
      obtain ⟨collects, onWay⟩ := h.tick c p ht
      obtain ⟨b, hstate, -⟩ := World.advance_spec fault h.sane collects h.tracked rfl onWay
      simp only [step, ht]
      rw [hstate]
      exact calm
  | settle moments =>
    rcases settle_cases s moments with hs | ⟨w, later, hs | ⟨c, -, hs | hs⟩⟩
    · rw [hs]
      exact calm
    all_goals
      rw [hs]
      exact later.calm hi calm
  | restart =>
    have hrows : s.world.tables.beyond s.cursors = s.world.tables.rows :=
      List.filter_eq_self.mpr fun r hr => by
        simpa [Option.all_eq_true] using cleared rfl r hr
    -- All rows are ahead, so a last row that is a deletion is about an entity that is gone.
    have tracked := h.tracked i hi
    rw [World.Tracked, World.ahead, hrows] at tracked
    simp only [step, World.mislead]
    cases hlast : R.lastKind i s.world.tables.rows with
    | none => exact calm
    | some kind =>
      cases kind with
      | delete =>
        rw [hlast] at tracked
        simp only [World.expected, calm] at tracked
        simpa using tracked
      | _ => rfl

theorem run_append (s : System R) (xs ys : List (Move R)) : s.run (xs ++ ys) = (s.run xs).run ys :=
  List.foldl_append

/-- Convergence: when every restart finds no consumed row, the index agrees with the database on every
entity of which no row waits. -/
theorem agrees_of_cleared {entities : Identity → Option Entity} {index : Backend}
    (fits : ∀ i, R.Known i → ∀ e ∈ entities i, R.Fits i e)
    (mirrors : R.Mirrors entities index.index) {moves : List (Move R)}
    (cleared : ∀ before after, moves = before ++ .restart :: after →
      ((start entities index).run before).Cleared) {i : Identity} (known : R.Known i)
    (quiet : ¬ ((start entities index).run moves).Waits i) :
    ((start entities index).run moves).world.Agrees i := by
  have invariant := invariant_run (invariant_start fits mirrors)
  refine ((invariant moves).agrees_iff known quiet).mpr ?_
  clear quiet
  induction moves using List.reverseRecOn with
  | nil => rfl
  | append_singleton xs move ih =>
    rw [run_append]
    refine step_calm (invariant xs) ?_ known (ih fun before after h => ?_)
    · rintro rfl
      exact cleared xs [] rfl
    · exact cleared before (after ++ [move]) (by simp [h])

/-- At any time the index agrees with the database on an entity of which no row waits, unless a restart
has brought back a deletion although the entity is there again. -/
theorem agrees_iff_not_misled {entities : Identity → Option Entity} {index : Backend}
    (fits : ∀ i, R.Known i → ∀ e ∈ entities i, R.Fits i e)
    (mirrors : R.Mirrors entities index.index) (moves : List (Move R)) {i : Identity}
    (known : R.Known i) (quiet : ¬ ((start entities index).run moves).Waits i) :
    ((start entities index).run moves).world.Agrees i ↔
      ((start entities index).run moves).world.misled i = false :=
  (invariant_run (invariant_start fits mirrors) moves).agrees_iff known quiet

/-! A gazetteer of places with their numbers. The fifth place is razed and built again. -/

def place : EntityType := .root "gazetteer" "Place"

def places : Mapping where
  indexedType := place
  idFields := [(place, ⟨"id", .long, none⟩)]
  fields := ["id"]
  document := none
  name := "Place"
  mapped := rfl

def placeUpdates : CaptureModel :=
  ⟨place, "place_updates", "place", [⟨"placefk", "id", "BIGINT"⟩], "eventcase", "updateid"⟩

theorem int_same_iff (m n : Int) :
    (Value.int m == Value.int n) = true ↔ Value.int m = Value.int n := by
  change Value.same (.int m) (.int n) = true ↔ _
  simp [Value.same, Value.sameNumber, Value.number?]

def gazetteer : Registry where
  poller := ⟨[placeUpdates], 5, 50, 1, 1, "default"⟩
  mappings := ⟨[places], by simp⟩
  ids _ id := ∃ n, id = .int n
  own := by
    simp only [List.mem_singleton, forall_eq]
    exact ⟨_, rfl⟩
  unrelated := by simp
  mapped := by simp [placeUpdates, places]
  tables := by simp
  types := by simp
  same := by
    rintro _ _ _ ⟨m, rfl⟩ ⟨n, rfl⟩
    exact int_same_iff m n
  hashable := by
    rintro _ _ ⟨n, rfl⟩
    rfl
  encoded := by
    simp only [List.mem_singleton, forall_eq]
    rintro _ ⟨n, rfl⟩
    exact ⟨_, rfl⟩
  injective := by
    simp only [List.mem_singleton, forall_eq]
    rintro _ _ _ _ ⟨m, rfl⟩ ⟨n, rfl⟩ ⟨⟩ ⟨⟩
    exact int_same_iff m n

def fifth : Identity := ⟨place, .int 5⟩

def fifthPlace : Entity := ⟨place, [("id", .int 5)]⟩

theorem known_fifth : gazetteer.Known fifth :=
  ⟨⟨placeUpdates, List.mem_singleton_self _, rfl⟩, 5, rfl⟩

theorem fits_fifthPlace : gazetteer.Fits fifth fifthPlace := by
  intro m hm _
  obtain rfl := List.mem_singleton.mp hm
  refine ⟨Mappings.mappingFor_of_mem hm, fun doc hdoc n hn _ => ?_⟩
  obtain rfl := List.mem_singleton.mp hn
  have hbuilt : places.buildDocument fifthPlace = .ok [("id", .int 5)] := by cbv
  cases hbuilt.symm.trans hdoc
  rfl

def writeFifth (key : Int) (entity : Option Entity) (h : ∀ e ∈ entity, e = fifthPlace) :
    gazetteer.Write where
  model := placeUpdates
  id := .int 5
  columns := [.int 5]
  key := key
  entity := entity
  watched := List.mem_singleton_self _
  possible := ⟨5, rfl⟩
  read := rfl
  fits e he := h e he ▸ fits_fifthPlace

def build (key : Int) : Move gazetteer := .write (writeFifth key (some fifthPlace) (by simp))

def raze (key : Int) : Move gazetteer := .write (writeFifth key none (by simp))

/-- A tick whose dispatch goes well. -/
def tickOnce (moments : List gazetteer.Moment) : List (Move gazetteer) :=
  .begin [] :: List.replicate 8 (.advance none) ++ [.settle moments]

/-- The rows of the first tick cannot be deleted, and are read again after a restart. -/
def readAgain : List (Move gazetteer) :=
  [build 1, raze 2] ++ tickOnce [⟨[], some (.outage ⟨.connection, none⟩)⟩] ++
    [build 3] ++ tickOnce [] ++ [.restart] ++ tickOnce []

/-- The gazetteer at the end. -/
def ending : System gazetteer := (start (fun _ => none) .empty).run readAgain

theorem mirrors_empty : gazetteer.Mirrors (fun _ => none) Backend.empty.index where
  shows _ _ := rfl
  only _ _ _ _ h := absurd h List.not_mem_nil

theorem ending_quiet : ¬ ending.Waits fifth := by
  have hrows : ending.world.tables.rows = [] := by cbv
  rintro ⟨m, -, r, hr, -⟩
  rw [hrows] at hr
  cases hr

/-- The fifth place is there, and has no document. -/
theorem fifthPlace_lost : ¬ ending.world.Agrees fifth := by
  have hmisled : ending.world.misled fifth = true := by cbv
  have agrees := agrees_iff_not_misled (by simp) mirrors_empty readAgain known_fifth ending_quiet
  intro h
  exact absurd (agrees.mp h) (by simpa [ending] using hmisled)

/-- There is no convergence when a deletion can be left behind and read again. -/
theorem not_convergent :
    ¬ ∀ (R : Registry) (entities : Identity → Option Entity) (index : Backend)
      (moves : List (Move R)) (i : Identity), (∀ i, R.Known i → ∀ e ∈ entities i, R.Fits i e) →
      R.Mirrors entities index.index → R.Known i →
      ((start entities index).run moves).tick.isNone → ¬ ((start entities index).run moves).Waits i →
      ((start entities index).run moves).world.Agrees i := by
  intro h
  have hidle : ending.tick.isNone = true := by cbv
  have agrees : ending.world.Agrees fifth := h gazetteer (fun _ => none) .empty readAgain fifth
    (by simp) mirrors_empty known_fifth hidle ending_quiet
  have hentity : ending.world.entities fifth = some fifthPlace := by cbv
  have hcell : gazetteer.cell ending.world.index.index fifth = none := by cbv
  rw [World.Agrees, hentity, hcell] at agrees
  obtain ⟨m, -, -, doc, -, hfound⟩ := agrees
  cases hfound

end System
end Registry
end IndexSync
