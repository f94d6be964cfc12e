/-! Cutting texts at a separator. The first occurrence from the left counts, and occurrences do
not overlap. -/
namespace IndexSync.Text

/-- What stands before the first `sep` and what follows it. -/
def cut? (sep : List Char) : List Char → Option (List Char × List Char)
  | [] => if sep.isEmpty then some ([], []) else none
  | c :: cs =>
    if sep.isPrefixOf (c :: cs) then some ([], (c :: cs).drop sep.length)
    else (cut? sep cs).map fun (before, after) => (c :: before, after)

theorem length_of_cut? {sep cs before after : List Char} (h : cut? sep cs = some (before, after)) :
    before.length + sep.length + after.length = cs.length := by
  induction cs generalizing before with
  | nil =>
    simp only [cut?] at h
    split at h <;> simp_all
  | cons c cs ih =>
    simp only [cut?] at h
    split at h
    next hp =>
      obtain ⟨rfl, rfl⟩ := by simpa using h
      have := (List.isPrefixOf_iff_prefix.1 hp).length_le
      simp only [List.length_nil, List.length_drop]
      omega
    next =>
      obtain ⟨⟨b, a⟩, hb, he⟩ := Option.map_eq_some_iff.1 h
      obtain ⟨rfl, rfl⟩ := by simpa using he
      have := ih hb
      simp only [List.length_cons]
      omega

/-- The pieces of a text between the occurrences of a separator. -/
def split (sep : List Char) (cs : List Char) : List (List Char) :=
  if _hs : sep = [] then [cs]
  else
    match _h : cut? sep cs with
    | none => [cs]
    | some (before, after) => before :: split sep after
termination_by cs.length
decreasing_by
  have := length_of_cut? _h
  have := List.length_pos_iff.2 _hs
  omega

/-- The pieces joined by the separator. -/
def join (sep : List Char) : List (List Char) → List Char
  | [] => []
  | [piece] => piece
  | piece :: rest => piece ++ sep ++ join sep rest

/-- What stands before the last `c` and what follows it. -/
def cutLast? (c : Char) : List Char → Option (List Char × List Char)
  | [] => none
  | d :: ds =>
    match cutLast? c ds with
    | some (before, after) => some (d :: before, after)
    | none => if d = c then some ([], ds) else none

/-- The text at the first `sep`, as texts. -/
def cutText? (sep text : String) : Option (String × String) :=
  (cut? sep.toList text.toList).map fun (before, after) => (String.ofList before, String.ofList after)

def cutLastText? (c : Char) (text : String) : Option (String × String) :=
  (cutLast? c text.toList).map fun (before, after) => (String.ofList before, String.ofList after)

def splitText (sep text : String) : List String :=
  (split sep.toList text.toList).map String.ofList

def contains (sep text : String) : Bool :=
  (cut? sep.toList text.toList).isSome

/-- Every occurrence of a pattern replaced; an empty pattern replaces nothing. -/
def replace (pattern replacement : List Char) (cs : List Char) : List Char :=
  join replacement (split pattern cs)

end IndexSync.Text
