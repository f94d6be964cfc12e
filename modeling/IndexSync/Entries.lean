/-! Entries of keys and values in the order of first mention. Writing under a known key keeps the
key's form and place; taking an entry out and writing again moves it to the end. -/
namespace IndexSync

abbrev Entries (κ α : Type) := List (κ × α)

namespace Entries

variable {κ α : Type} [BEq κ]

def get? (k : κ) : Entries κ α → Option α
  | [] => none
  | (l, a) :: rest => if l == k then some a else get? k rest

def has (k : κ) (entries : Entries κ α) : Bool :=
  (entries.get? k).isSome

def put (k : κ) (a : α) : Entries κ α → Entries κ α
  | [] => [(k, a)]
  | (l, b) :: rest => if l == k then (l, a) :: rest else (l, b) :: put k a rest

def erase (k : κ) (entries : Entries κ α) : Entries κ α :=
  entries.filter fun (l, _) => !(l == k)

def keys (entries : Entries κ α) : List κ := entries.map (·.1)
def values (entries : Entries κ α) : List α := entries.map (·.2)

/-- Later entries write over earlier ones. -/
def ofList (entries : List (κ × α)) : Entries κ α :=
  entries.foldl (fun kept (k, a) => kept.put k a) []

@[simp] theorem get?_nil (k : κ) : get? k ([] : Entries κ α) = none := rfl

theorem get?_put_self [ReflBEq κ] (k : κ) (a : α) (entries : Entries κ α) :
    (entries.put k a).get? k = some a := by
  induction entries with
  | nil => simp [put, get?]
  | cons e rest ih =>
    obtain ⟨l, b⟩ := e
    by_cases h : l == k <;> simp [put, get?, h, ih]

theorem get?_put_of_ne [PartialEquivBEq κ] {k m : κ} (h : (k == m) = false) (a : α)
    (entries : Entries κ α) : (entries.put k a).get? m = entries.get? m := by
  induction entries with
  | nil => simp [put, get?, h]
  | cons e rest ih =>
    obtain ⟨l, b⟩ := e
    by_cases hl : l == k
    · have : (l == m) = false := by
        cases hm : l == m
        · rfl
        · exact absurd (BEq.trans (BEq.symm hl) hm) (by simp [h])
      simp [put, get?, hl, this]
    · simp [put, get?, hl, ih]

end Entries
end IndexSync
