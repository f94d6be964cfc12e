import IndexSync.Text.Blank
import Mathlib.Data.List.DropRight

/-!
# Trimmed texts

Trimming takes the blanks from both ends of a text and nothing else, and this determines what is left.
-/
namespace IndexSync.Text

variable {p : Char → Bool} {cs front back : List Char} {text trimmed : String}

/-- No character of the class stands at either end. -/
def Bare (p : Char → Bool) (cs : List Char) : Prop :=
  cs.head?.any p = false ∧ cs.getLast?.any p = false

theorem head?_dropWhile (p : Char → Bool) (cs : List Char) : (cs.dropWhile p).head?.any p = false := by
  have h := List.head?_dropWhile_not p cs
  cases hhead : (cs.dropWhile p).head? with
  | none => rfl
  | some c => simpa [hhead] using h

theorem dropWhile_of_head? (h : cs.head?.any p = false) : cs.dropWhile p = cs := by
  cases cs with
  | nil => rfl
  | cons c cs => exact List.dropWhile_cons_of_neg (by simpa using h)

theorem trimBy_eq (p : Char → Bool) (cs : List Char) : trimBy p cs = (cs.dropWhile p).rdropWhile p := rfl

theorem bare_trimBy (p : Char → Bool) (cs : List Char) : Bare p (trimBy p cs) := by
  constructor
  · -- what is left begins as the text does without the blanks before it
    have first := head?_dropWhile p cs
    obtain ⟨back, hback⟩ := List.rdropWhile_prefix p (cs.dropWhile p)
    rw [← hback, ← trimBy_eq] at first
    cases htrim : trimBy p cs with
    | nil => rfl
    | cons c rest => simpa [htrim] using first
  · rw [trimBy, List.getLast?_reverse]
    exact head?_dropWhile p _

/-- What is taken away stands at the ends, and is of the class. -/
theorem around_trimBy (p : Char → Bool) (cs : List Char) : ∃ front back,
    cs = front ++ trimBy p cs ++ back ∧ (∀ c ∈ front, p c = true) ∧ ∀ c ∈ back, p c = true := by
  refine ⟨cs.takeWhile p, (cs.dropWhile p).rtakeWhile p, ?_, fun c hc => ?_, fun c hc => ?_⟩
  · rw [trimBy_eq, List.append_assoc, List.rdropWhile_append_rtakeWhile, List.takeWhile_append_dropWhile]
  · exact List.mem_takeWhile_imp hc
  · exact List.mem_rtakeWhile_imp hc

/-- What stands between blanks is left. -/
theorem trimBy_of_bare (bare : Bare p cs) (before : ∀ c ∈ front, p c = true)
    (after : ∀ c ∈ back, p c = true) : trimBy p (front ++ cs ++ back) = cs := by
  have last : cs.reverse.head?.any p = false := by
    rw [List.head?_reverse]
    exact bare.2
  have later : ∀ c ∈ back.reverse, p c = true := fun c hc => after c (List.mem_reverse.mp hc)
  rw [trimBy, List.append_assoc, List.dropWhile_append_of_pos before]
  cases cs with
  | nil =>
    rw [List.nil_append, List.dropWhile_eq_nil_iff.mpr after]
    rfl
  | cons c rest =>
    have first : (c :: rest ++ back).dropWhile p = c :: rest ++ back := dropWhile_of_head? bare.1
    rw [first, List.reverse_append,
      List.dropWhile_append_of_pos later, dropWhile_of_head? last, List.reverse_reverse]

theorem trimBy_of_none (h : ∀ c ∈ cs, p c = false) : trimBy p cs = cs := by
  have bare : Bare p cs := by
    constructor
    · cases hfirst : cs.head? with
      | none => rfl
      | some c => exact h c (List.mem_of_head? hfirst)
    · cases hlast : cs.getLast? with
      | none => rfl
      | some c => exact h c (List.mem_of_getLast? hlast)
  have none : ∀ c ∈ [], p c = true := nofun
  simpa using trimBy_of_bare bare none none

theorem trimBy_eq_nil_iff : trimBy p cs = [] ↔ ∀ c ∈ cs, p c = true := by
  constructor
  · intro h
    obtain ⟨front, back, heq, before, after⟩ := around_trimBy p cs
    rw [heq, h, List.append_nil]
    exact List.forall_mem_append.mpr ⟨before, after⟩
  · intro h
    have bare : Bare p [] := ⟨rfl, rfl⟩
    have after : ∀ c ∈ [], p c = true := nofun
    simpa using trimBy_of_bare bare h after

/-- There is nothing but blanks in a text. -/
def Blank (text : String) : Prop := ∀ c ∈ text.toList, isBlank c = true

/-- A text without the blanks around it. -/
structure Trimmed (text trimmed : String) : Prop where
  around : ∃ front back, text.toList = front ++ trimmed.toList ++ back ∧
    (∀ c ∈ front, isBlank c = true) ∧ ∀ c ∈ back, isBlank c = true
  bare : Bare isBlank trimmed.toList

theorem trimmed_trim (text : String) : Trimmed text (trim text) := by
  refine ⟨?_, ?_⟩ <;> rw [trim, String.toList_ofList]
  · exact around_trimBy isBlank text.toList
  · exact bare_trimBy isBlank text.toList

/-- There is one way to trim a text. -/
theorem trimmed_iff : Trimmed text trimmed ↔ trimmed = trim text := by
  constructor
  · rintro ⟨⟨front, back, heq, before, after⟩, bare⟩
    rw [trim, heq, trimBy_of_bare bare before after, String.ofList_toList]
  · rintro rfl
    exact trimmed_trim text

/-- There is nothing to trim in a text without blanks around it. -/
theorem trim_of_bare (bare : Bare isBlank text.toList) : trim text = text := by
  have none : ∀ c ∈ [], isBlank c = true := nofun
  exact (trimmed_iff.mp ⟨⟨[], [], by simp, none, none⟩, bare⟩).symm

theorem nonBlank?_eq_some_iff : nonBlank? text = some trimmed ↔ ¬ Blank text ∧ Trimmed text trimmed := by
  have blank : (trim text).isEmpty = true ↔ Blank text := by
    rw [String.isEmpty_iff, trim, String.ofList_eq_empty_iff, trimBy_eq_nil_iff, Blank]
  rw [nonBlank?, trimmed_iff, ← blank]
  split <;> rename_i h
  · exact iff_of_false nofun fun solid => solid.1 h
  · exact ⟨fun same => ⟨h, (Option.some.inj same).symm⟩, fun solid => congrArg some solid.2.symm⟩

theorem nonBlank?_eq_none_iff : nonBlank? text = none ↔ Blank text := by
  rw [Option.eq_none_iff_forall_ne_some]
  constructor
  · intro h
    by_contra solid
    exact h _ (nonBlank?_eq_some_iff.mpr ⟨solid, trimmed_trim text⟩)
  · exact fun h _ some => (nonBlank?_eq_some_iff.mp some).1 h

end IndexSync.Text
