import IndexSync.Proofs.Merge.Orderly

/-!
# Where a cursor fetches

A stream asks for the rows after the key that it has come to, and never for those before its start. What a
source would answer there does not bear on what the cursor does.
-/
namespace IndexSync

variable {σ : Type}

/-- A key is at a start or beyond it. Where there is no start, every key is. -/
def AtLeast (start after : Option Int) : Prop := ∀ k ∈ start, ∃ l ∈ after, k ≤ l

theorem AtLeast.refl (start : Option Int) : AtLeast start start := fun k hk => ⟨k, hk, Int.le_refl k⟩

/-- Fetches from tables that nothing changes. -/
def fixedFetch (tables : List (List CaptureEvent)) : Fetch σ := fun i after n s =>
  (.ok ((beyond (·.key) after (tables[i]?.getD [])).take n), s)

theorem serves_fixedFetch (tables : List (List CaptureEvent)) (s : σ) :
    (fixedFetch tables).Serves (· = s) tables := by
  rintro i rows hrows after n s' rfl
  exact ⟨s', by rw [fixedFetch, hrows]; rfl, rfl⟩

/-- Fetches that answer with the rows of fixed tables and change nothing, for keys from the starts on. -/
def Fetch.ServesFrom (fetch : Fetch σ) (starts : List (Option Int)) (tables : List (List CaptureEvent))
    (s : σ) : Prop :=
  ∀ i start, starts[i]? = some start → ∀ after, AtLeast start after → ∀ n,
    fetch i after n s = fixedFetch tables i after n s

/-- A stream goes up by the pages that it takes in. -/
theorem Stream.atLeast_receive {start : Option Int} {n : Nat} {rows : List CaptureEvent} {st st' : Stream}
    (reached : AtLeast start st.lastKey) (h : st.receive n rows = .ok st') : AtLeast start st'.lastKey := by
  rcases receive_cases h with ⟨-, rfl⟩ | ⟨last, hlast, horder, rfl⟩
  · exact reached
  · intro k hk
    obtain ⟨l, hl, hle⟩ := reached k hk
    have hlt := (disorder?_eq_none_iff.mp horder).2 last (List.mem_of_getLast? hlast)
    rw [Option.mem_def.mp hl, Option.all_some, decide_eq_true_eq] at hlt
    exact ⟨last.key, rfl, by omega⟩

/-- Pages that go on from a key come to a key beyond it. -/
theorem Stream.GoesOn.atLeast {after : Option Int} {rows : List CaptureEvent} (h : GoesOn after rows) :
    AtLeast after (keyAfter after rows) := by
  cases hlast : rows.getLast? with
  | none => simpa [keyAfter, hlast] using AtLeast.refl after
  | some last =>
    have hlt := h.2 last (List.mem_of_getLast? hlast)
    rintro k hk
    rw [Option.mem_def.mp hk, Option.all_some, decide_eq_true_eq] at hlt
    exact ⟨last.key, by simp [keyAfter, hlast], Int.le_of_lt hlt⟩

namespace MergeCursor

variable {fetch : Fetch σ} {starts : List (Option Int)} {tables : List (List CaptureEvent)}
  {c : MergeCursor} {s : σ}

/-- Every stream is at its start or beyond it. -/
def Onward (starts : List (Option Int)) (streams : List Stream) : Prop :=
  ∀ (i : Nat) (st : Stream), streams[i]? = some st →
    ∃ start, starts[i]? = some start ∧ AtLeast start st.lastKey

/-- An outcome that changes nothing but the cursor, whose streams go on. -/
def GoesOnward {α : Type} (starts : List (Option Int)) (s : σ) (x : Except Failure α × MergeCursor × σ) :
    Prop :=
  x.2.2 = s ∧ Onward starts x.2.1.streams

theorem Onward.set {streams : List Stream} (h : Onward starts streams) {i : Nat} {st : Stream}
    {start : Option Int} (hstart : starts[i]? = some start) (reached : AtLeast start st.lastKey) :
    Onward starts (streams.set i st) := by
  intro j x hx
  rcases entry_of_set hx with ⟨rfl, rfl⟩ | ⟨-, hx⟩
  · exact ⟨start, hstart, reached⟩
  · exact h j x hx

theorem fill_from (hf : fetch.ServesFrom starts tables s) (h : Onward starts c.streams) (i : Nat) :
    fill fetch i (c, s) = fill (fixedFetch tables) i (c, s) ∧
      GoesOnward starts s (fill fetch i (c, s)) := by
  cases hst : c.streams[i]? with
  | none =>
    simp only [fill, hst, true_and]
    exact ⟨rfl, h⟩
  | some st =>
    obtain ⟨start, hstart, reached⟩ := h i st hst
    have answer := hf i start hstart st.lastKey reached c.pageSize
    simp only [fill, hst, answer, true_and]
    split
    · exact ⟨rfl, h⟩
    · simp only [fixedFetch]
      split
      · exact ⟨rfl, h⟩
      · exact ⟨rfl, h.set hstart (Stream.atLeast_receive reached ‹_›)⟩

theorem fillAll_from (hf : fetch.ServesFrom starts tables s) (is : List Nat) (h : Onward starts c.streams) :
    fillAll fetch is (c, s) = fillAll (fixedFetch tables) is (c, s) ∧
      GoesOnward starts s (fillAll fetch is (c, s)) := by
  induction is generalizing c with
  | nil => exact ⟨rfl, rfl, h⟩
  | cons i rest ih =>
    obtain ⟨same, goes⟩ := fill_from hf h i
    simp only [fillAll, Action.bind_apply, ← same]
    generalize fill fetch i (c, s) = filled at goes ⊢
    obtain ⟨outcome, c', s'⟩ := filled
    obtain ⟨rfl, goes⟩ := goes
    cases outcome with
    | error f => exact ⟨rfl, rfl, goes⟩
    | ok u => exact ih goes

theorem prepare_from (hf : fetch.ServesFrom starts tables s) (h : Onward starts c.streams) :
    prepare fetch (c, s) = prepare (fixedFetch tables) (c, s) ∧
      GoesOnward starts s (prepare fetch (c, s)) := by
  simp only [prepare]
  split
  · exact fillAll_from hf (c := { c with started := true }) _ h
  · split
    · exact fill_from hf (c := { c with refill := none }) h _
    · exact ⟨rfl, rfl, h⟩

theorem Onward.select (h : Onward starts c.streams) : Onward starts c.select.2.streams := by
  unfold MergeCursor.select
  split
  · exact h
  · rename_i i _
    simp only [take]
    split
    · exact h
    · rename_i st hst
      split
      · exact h
      · obtain ⟨start, hstart, reached⟩ := h i st hst
        refine h.set hstart ?_
        exact reached

/-- An advance does what it would do if the source answered below its start as well. -/
theorem advance_from (hf : fetch.ServesFrom starts tables s) (h : Onward starts c.streams) :
    advance fetch (c, s) = advance (fixedFetch tables) (c, s) ∧
      GoesOnward starts s (advance fetch (c, s)) := by
  obtain ⟨same, goes⟩ := prepare_from hf (c := { c with current := none }) h
  simp only [advance, ← same, true_and]
  split
  · exact ⟨rfl, h⟩
  · generalize prepare fetch ({ c with current := none }, s) = prepared at goes ⊢
    obtain ⟨outcome, c', s'⟩ := prepared
    obtain ⟨rfl, goes⟩ := goes
    cases outcome with
    | error f => exact ⟨rfl, goes⟩
    | ok u => exact ⟨rfl, goes.select⟩

theorem onward_create {names : List String} {pageSize : Int} {after : Entries String Int}
    {limit : Option Int} (h : create names pageSize after limit = .ok c) :
    Onward (names.map fun name => after.get? name) c.streams := by
  unfold create at h
  split at h
  · cases h
  · split at h <;> cases h
    intro i st hst
    simp only [List.getElem?_map, Option.map_eq_some_iff] at hst ⊢
    obtain ⟨name, hname, rfl⟩ := hst
    exact ⟨_, ⟨name, hname, rfl⟩, .refl _⟩

end MergeCursor
end IndexSync
