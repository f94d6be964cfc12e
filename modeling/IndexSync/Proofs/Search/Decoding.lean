import IndexSync.Proofs.Search.Encoding

/-!
# Texts of the index and what is read from them

Where all parts of an id are texts, what is read from a text of the index has just that text. No piece of a
text holds the separator at which it was cut, at whatever level, so that the encoder refuses nothing that has
been read.
-/
namespace IndexSync.Search.Encoder

mutual

/-- An encoder of texts, or of composite ids whose parts have such encoders. -/
def Textual : Encoder → Prop
  | string => True
  | composite parts separator =>
    compose parts separator = .ok (composite parts separator) ∧ AreTextual parts
  | _ => False

def AreTextual : List Encoder → Prop
  | [] => True
  | part :: parts => Textual part ∧ AreTextual parts

end

variable {parts : List Encoder} {separator text : String} {v : Value} {items : List Value}

/-- What is read from the text of a composite id is a tuple. -/
theorem tuple_of_fromIndex (h : fromIndex (composite parts separator) text = .ok v) :
    ∃ items, v = .tuple items := by
  rw [fromIndex] at h
  split at h
  · obtain ⟨items, -, h⟩ := ok_of_bind h
    cases h
    exact ⟨items, rfl⟩
  · cases h

theorem length_of_fitParts (fits : FitParts parts items) : items.length = parts.length := by
  induction parts generalizing items with
  | nil =>
    cases items with
    | nil => rfl
    | cons v vs => exact fits.elim
  | cons part parts ih =>
    cases items with
    | nil => exact fits.elim
    | cons v vs => rw [List.length_cons, List.length_cons, ih fits.2]

/-- A tuple has the joined texts of its items, if none of these holds the separator. -/
theorem toIndex_tuple {texts : List String} (hlength : items.length = parts.length)
    (htexts : toIndexParts parts items = .ok texts)
    (free : ∀ piece ∈ texts, Text.contains separator piece = false) :
    toIndex (composite parts separator) (.tuple items) = .ok (String.intercalate separator texts) := by
  have none : texts.find? (Text.contains separator) = none :=
    List.find?_eq_none.mpr fun piece hpiece => by simp [free piece hpiece]
  rw [toIndex]
  simp only [Value.items?, hlength, if_true, htexts]
  change joinParts separator texts = _
  rw [joinParts, none]

/-- The pieces of a text, joined again. -/
theorem intercalate_splitText (h : separator.toList ≠ []) :
    String.intercalate separator (Text.splitText separator text) = text := by
  rw [← String.toList_inj, String.toList_intercalate, ← join_eq_intercalate, Text.splitText, List.map_map]
  simpa [Function.comp_def] using Text.join_split h text.toList

theorem contains_of_mem_splitText (h : separator.toList ≠ []) :
    ∀ piece ∈ Text.splitText separator text, Text.contains separator piece = false := by
  intro piece hpiece
  obtain ⟨chars, hchars, rfl⟩ := List.mem_map.mp hpiece
  rw [Text.contains, String.toList_ofList, Text.cut?_of_mem_split h hchars, Option.isSome_none]

mutual

/-- What is read has the shape that the encoder is for, and the text that it was read from. -/
theorem toIndex_of_fromIndex {e : Encoder} {text : String} {v : Value} (textual : Textual e)
    (h : fromIndex e text = .ok v) : Fits e v ∧ toIndex e v = .ok text := by
  cases e with
  | string =>
    cases h
    exact ⟨trivial, rfl⟩
  | composite parts separator =>
    obtain ⟨composed, textual⟩ := textual
    obtain ⟨items, rfl⟩ := tuple_of_fromIndex h
    obtain ⟨hlength, hitems⟩ := fromIndex_composite.mp h
    obtain ⟨fits, htexts⟩ := toIndexParts_of_fromIndexParts textual hlength hitems
    have hsep := (separator_ne_nil composed).1
    refine ⟨⟨composed, fits⟩, ?_⟩
    rw [toIndex_tuple (length_of_fitParts fits) htexts (contains_of_mem_splitText hsep),
      intercalate_splitText hsep]
  | _ => exact textual.elim

theorem toIndexParts_of_fromIndexParts {parts : List Encoder} {texts : List String} {vs : List Value}
    (textual : AreTextual parts) (hlength : texts.length = parts.length)
    (h : fromIndexParts parts texts = .ok vs) : FitParts parts vs ∧ toIndexParts parts vs = .ok texts := by
  cases parts with
  | nil =>
    obtain rfl := List.eq_nil_of_length_eq_zero hlength
    cases h
    exact ⟨trivial, rfl⟩
  | cons part parts =>
    cases texts with
    | nil => cases hlength
    | cons text texts =>
      rw [fromIndexParts] at h
      obtain ⟨v, hv, h⟩ := ok_of_bind h
      obtain ⟨vs, hvs, h⟩ := ok_of_bind h
      cases h
      obtain ⟨fit, htext⟩ := toIndex_of_fromIndex textual.1 hv
      obtain ⟨fits, htexts⟩ := toIndexParts_of_fromIndexParts textual.2 (Nat.succ.inj hlength) hvs
      refine ⟨⟨fit, fits⟩, ?_⟩
      rw [toIndexParts, htext, htexts]
      rfl

end

/-- What is read from a text has that text again. Of the ids of this text it is the one in which each separator is
found where it was put. -/
theorem fromIndex_eq_ok_iff {e : Encoder} (textual : Textual e) (text : String) (v : Value) :
    fromIndex e text = .ok v ↔ Fits e v ∧ toIndex e v = .ok text ∧ Separable e v := by
  constructor
  · intro h
    obtain ⟨fits, accepted⟩ := toIndex_of_fromIndex textual h
    exact ⟨fits, accepted, (fromIndex_toIndex_iff fits accepted).mp h⟩
  · rintro ⟨fits, accepted, separable⟩
    exact (fromIndex_toIndex_iff fits accepted).mpr separable

/-- A text before a composite id of one text, both with the same separator. -/
def nested : Encoder := composite [string, composite [string] "aa"] "aa"

/-- The first part is empty, since the separator is found at once. -/
theorem fromIndex_nested : Textual nested ∧
    fromIndex nested "aaaxa" = .ok (.tuple [.text "", .tuple [.text "axa"]]) ∧
    toIndex nested (.tuple [.text "", .tuple [.text "axa"]]) = .ok "aaaxa" := by
  have textual : Textual nested := by simp [nested, Textual, AreTextual, compose]
  have accepted : toIndex nested (.tuple [.text "", .tuple [.text "axa"]]) = .ok "aaaxa" := by rfl
  have fits : Fits nested (.tuple [.text "", .tuple [.text "axa"]]) := by
    simp [nested, Fits, FitParts, compose]
  have separable : Separable nested (.tuple [.text "", .tuple [.text "axa"]]) := by
    refine ⟨fun texts htexts => ?_, trivial, ⟨fun texts htexts => ?_, trivial, trivial⟩, trivial⟩ <;>
      cases htexts <;> decide
  exact ⟨textual, (fromIndex_eq_ok_iff textual _ _).mpr ⟨fits, accepted, separable⟩, accepted⟩

end IndexSync.Search.Encoder
