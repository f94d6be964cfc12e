import IndexSync.Proofs.Outcome
import IndexSync.Proofs.Value.Reading
import IndexSync.Search.Encoder

/-!
# Ids and their texts in the index

An id is read back from its text in the index, unless a separator of several characters is found too
early in it: then the text is cut where it was not joined, and may be that of another id.
-/
namespace IndexSync.Search.Encoder

mutual

/-- An id of the shape that an encoder is for: a text, an integer, an identifier, or a tuple of as many
such ids as there are parts. -/
def Fits : Encoder → Value → Prop
  | string, .text _ => True
  | integer, .int _ => True
  | uuid, .uuid n => n < 2 ^ 128
  | composite parts separator, .tuple items =>
    compose parts separator = .ok (composite parts separator) ∧ FitParts parts items
  | _, _ => False

def FitParts : List Encoder → List Value → Prop
  | [], [] => True
  | part :: parts, v :: vs => Fits part v ∧ FitParts parts vs
  | _, _ => False

end

mutual

/-- Each separator in the text of an id is found where it was put. -/
def Separable : Encoder → Value → Prop
  | composite parts separator, .tuple items =>
    (∀ texts, toIndexParts parts items = .ok texts →
      ∀ text ∈ texts.dropLast, Text.Ends separator.toList text.toList) ∧
    SeparableParts parts items
  | _, _ => True

def SeparableParts : List Encoder → List Value → Prop
  | part :: parts, v :: vs => Separable part v ∧ SeparableParts parts vs
  | _, _ => True

end

variable {part : Encoder} {parts : List Encoder} {separator text : String} {v : Value}
  {items : List Value}

theorem convert_eq_ok {α : Type} {x : Except ConversionError α} {a : α} :
    convert x = .ok a ↔ x = .ok a := by
  cases x <;> simp [convert, Except.mapError]

/-- What a converter gives that wraps what it reads. -/
theorem convert_map_eq_ok {α β : Type} {x : Except ConversionError α} {wrap : α → β} {a : α}
    (inj : ∀ b, wrap b = wrap a → b = a) : convert (x.map wrap) = .ok (wrap a) ↔ x = .ok a := by
  rw [convert_eq_ok]
  cases x with
  | error e => simp [Except.map]
  | ok b => simpa [Except.map] using ⟨inj b, congrArg wrap⟩

theorem toIndexParts_cons {vs : List Value} {texts : List String}
    (h : toIndexParts (part :: parts) (v :: vs) = .ok texts) :
    ∃ text rest, toIndex part v = .ok text ∧ toIndexParts parts vs = .ok rest ∧
      texts = text :: rest := by
  rw [toIndexParts] at h
  obtain ⟨text, htext, h⟩ := ok_of_bind h
  obtain ⟨rest, hrest, h⟩ := ok_of_bind h
  cases h
  exact ⟨text, rest, htext, hrest, rfl⟩

theorem fromIndexParts_cons {texts : List String} {vs : List Value} :
    fromIndexParts (part :: parts) (text :: texts) = .ok (v :: vs) ↔
      fromIndex part text = .ok v ∧ fromIndexParts parts texts = .ok vs := by
  rw [fromIndexParts]
  constructor
  · intro h
    obtain ⟨w, hw, h⟩ := ok_of_bind h
    obtain ⟨ws, hws, h⟩ := ok_of_bind h
    cases h
    exact ⟨hw, hws⟩
  · rintro ⟨hv, hvs⟩
    rw [hv, hvs]
    rfl

theorem length_toIndexParts {texts : List String} (fits : FitParts parts items)
    (h : toIndexParts parts items = .ok texts) : texts.length = parts.length := by
  induction parts generalizing items texts with
  | nil =>
    rw [toIndexParts] at h
    · cases h
      rfl
    · simp
  | cons part parts ih =>
    cases items with
    | nil => exact fits.elim
    | cons v vs =>
      obtain ⟨_, rest, -, hrest, rfl⟩ := toIndexParts_cons h
      simp [ih fits.2 hrest]

theorem join_eq_intercalate (sep : List Char) (pieces : List (List Char)) :
    Text.join sep pieces = sep.intercalate pieces := by
  induction pieces with
  | nil => rfl
  | cons piece rest ih =>
    cases rest with
    | nil => simp [Text.join]
    | cons next others => rw [Text.join_cons sep piece (by simp), ih]; simp

/-- The text of a composite id is its encoded parts, joined; none of them holds the separator. -/
theorem toIndex_composite (h : toIndex (composite parts separator) (.tuple items) = .ok text) :
    ∃ texts, toIndexParts parts items = .ok texts ∧
      (∀ piece ∈ texts.map String.toList, Text.cut? separator.toList piece = none) ∧
      text.toList = Text.join separator.toList (texts.map String.toList) := by
  rw [toIndex] at h
  simp only [Value.items?] at h
  split at h
  · obtain ⟨texts, htexts, h⟩ := ok_of_bind h
    unfold joinParts at h
    split at h
    · cases h
    · rename_i hfree
      cases h
      refine ⟨texts, htexts, ?_, ?_⟩
      · rw [List.forall_mem_map]
        intro piece hpiece
        simpa [Text.contains] using List.find?_eq_none.mp hfree piece hpiece
      · rw [String.toList_intercalate, join_eq_intercalate]
  · cases h

theorem fromIndex_composite : fromIndex (composite parts separator) text = .ok (.tuple items) ↔
    (Text.splitText separator text).length = parts.length ∧
      fromIndexParts parts (Text.splitText separator text) = .ok items := by
  rw [fromIndex]
  constructor
  · intro h
    split at h
    · rename_i hlength
      obtain ⟨vs, hvs, h⟩ := ok_of_bind h
      cases h
      exact ⟨hlength, hvs⟩
    · cases h
  · rintro ⟨hlength, hitems⟩
    simp only [hlength, if_true, hitems]
    rfl

theorem separator_ne_nil (h : compose parts separator = .ok (composite parts separator)) :
    separator.toList ≠ [] ∧ parts ≠ [] := by
  unfold compose at h
  split at h
  · cases h
  split at h
  · cases h
  · rename_i hparts hseparator
    exact ⟨by simpa using hseparator, by simpa using hparts⟩

mutual

/-- An id is read from its text, if at all, and from nothing else with which its text begins. -/
theorem eq_of_fromIndex {e : Encoder} {v : Value} {text s : String} (fits : Fits e v)
    (h : toIndex e v = .ok text) (hpre : s.toList <+: text.toList)
    (hread : fromIndex e s = .ok v) : s = text := by
  cases e with
  | string =>
    cases v with
    | text t =>
      cases h
      cases hread
      rfl
    | _ => exact fits.elim
  | integer =>
    cases v with
    | int n =>
      rw [toIndex, Value.toInteger, convert_eq_ok] at h
      rw [fromIndex, convert_map_eq_ok (by simp)] at hread
      exact (Value.integerOfText_iff h hpre).mp hread
    | _ => exact fits.elim
  | uuid =>
    cases v with
    | uuid n =>
      rw [toIndex, Except.ok.injEq] at h
      subst h
      rw [fromIndex, convert_map_eq_ok (by simp)] at hread
      exact (Value.uuidOfText_iff fits hpre).mp hread
    | _ => exact fits.elim
  | composite parts separator =>
    cases v with
    | tuple items =>
      obtain ⟨composed, fits⟩ := fits
      obtain ⟨texts, htexts, free, hjoin⟩ := toIndex_composite h
      obtain ⟨hlength, hitems⟩ := fromIndex_composite.mp hread
      have hsep := (separator_ne_nil composed).1
      have same := eq_of_fromIndexParts hsep fits htexts free (hjoin ▸ hpre) hlength hitems
      rw [← String.toList_inj, hjoin, ← same, Text.join_split hsep]
    | _ => exact fits.elim

theorem eq_of_fromIndexParts {parts : List Encoder} {vs : List Value} {texts : List String}
    {sep cs : List Char} (hsep : sep ≠ []) (fits : FitParts parts vs)
    (h : toIndexParts parts vs = .ok texts)
    (free : ∀ piece ∈ texts.map String.toList, Text.cut? sep piece = none)
    (hpre : cs <+: Text.join sep (texts.map String.toList))
    (hlength : ((Text.split sep cs).map String.ofList).length = parts.length)
    (hread : fromIndexParts parts ((Text.split sep cs).map String.ofList) = .ok vs) :
    Text.split sep cs = texts.map String.toList := by
  cases parts with
  | nil => exact absurd hlength (by simpa using Text.split_ne_nil hsep cs)
  | cons part parts =>
    cases vs with
    | nil => exact fits.elim
    | cons v vs =>
      obtain ⟨fit, fits⟩ := fits
      obtain ⟨text, rest, htext, hrest, rfl⟩ := toIndexParts_cons h
      obtain ⟨-, free⟩ := List.forall_mem_cons.mp free
      have hrestlen := length_toIndexParts fits hrest
      rw [List.map_cons] at hpre ⊢
      cases hcut : Text.cut? sep cs with
      | none =>
        -- one piece is read, so that there is one part
        rw [Text.split_of_cut?_none hsep hcut] at hlength hread ⊢
        obtain rfl : parts = [] := by simpa using hlength
        obtain rfl : rest = [] := List.eq_nil_of_length_eq_zero hrestlen
        have first := eq_of_fromIndex (s := String.ofList cs) fit htext (by simpa [Text.join] using hpre)
          (fromIndexParts_cons.mp hread).1
        rw [← first]
        simp
      | some cut =>
        obtain ⟨before, after⟩ := cut
        have hcs := Text.eq_of_cut? hcut
        rw [Text.split_of_cut? hsep hcut] at hlength hread ⊢
        simp only [List.map_cons, List.length_cons, Nat.add_right_cancel_iff] at hlength
        obtain ⟨hfirst, hothers⟩ := fromIndexParts_cons.mp hread
        have hsome : rest.map String.toList ≠ [] := by
          have := List.length_pos_iff.mpr (Text.split_ne_nil hsep after)
          refine List.ne_nil_of_length_pos ?_
          rw [List.length_map] at hlength ⊢
          omega
        rw [Text.join_cons sep _ hsome] at hpre
        have hbegins : before <+: text.toList :=
          Text.before_prefix_of_cut? hcut hpre
        have first := eq_of_fromIndex (s := String.ofList before) fit htext (by simpa using hbegins) hfirst
        obtain rfl : before = text.toList := by rw [← first, String.toList_ofList]
        rw [hcs, List.append_assoc, List.append_assoc, List.prefix_append_right_inj,
          List.prefix_append_right_inj] at hpre
        rw [eq_of_fromIndexParts hsep fits hrest free hpre (by simpa using hlength) hothers]

end

mutual

/-- An id is read back from its text exactly if each separator is found where it was put. -/
theorem fromIndex_toIndex_iff {e : Encoder} {v : Value} {text : String} (fits : Fits e v)
    (h : toIndex e v = .ok text) : fromIndex e text = .ok v ↔ Separable e v := by
  cases e with
  | string =>
    cases v with
    | text t =>
      cases h
      exact iff_of_true rfl trivial
    | _ => exact fits.elim
  | integer =>
    cases v with
    | int n =>
      rw [toIndex, Value.toInteger, convert_eq_ok] at h
      rw [fromIndex, convert_map_eq_ok (by simp)]
      exact iff_of_true ((Value.integerOfText_iff h (List.prefix_refl _)).mpr rfl) trivial
    | _ => exact fits.elim
  | uuid =>
    cases v with
    | uuid n =>
      rw [toIndex, Except.ok.injEq] at h
      subst h
      rw [fromIndex, convert_map_eq_ok (by simp)]
      exact iff_of_true ((Value.uuidOfText_iff fits (List.prefix_refl _)).mpr rfl) trivial
    | _ => exact fits.elim
  | composite parts separator =>
    cases v with
    | tuple items =>
      obtain ⟨composed, fits⟩ := fits
      obtain ⟨texts, htexts, free, hjoin⟩ := toIndex_composite h
      obtain ⟨hsep, hparts⟩ := separator_ne_nil composed
      have hlen := length_toIndexParts fits htexts
      have hsome : texts.map String.toList ≠ [] := by
        refine List.ne_nil_of_length_pos ?_
        rw [List.length_map, hlen]
        exact List.length_pos_iff.mpr hparts
      have ends : (∀ texts, toIndexParts parts items = .ok texts →
          ∀ text ∈ texts.dropLast, Text.Ends separator.toList text.toList) ↔
          Text.split separator.toList text.toList = texts.map String.toList := by
        rw [hjoin, Text.split_join_iff hsep hsome free, ← List.map_dropLast, List.forall_mem_map]
        refine ⟨fun all => all texts htexts, fun all texts' htexts' => ?_⟩
        cases htexts.symm.trans htexts'
        exact all
      have pieces (same : Text.split separator.toList text.toList = texts.map String.toList) :
          Text.splitText separator text = texts := by
        rw [Text.splitText, same, List.map_map]
        simp [Function.comp_def]
      rw [fromIndex_composite, Separable, ends]
      constructor
      · rintro ⟨hlength, hitems⟩
        have same := eq_of_fromIndexParts hsep fits htexts free (hjoin ▸ List.prefix_refl _) hlength
          hitems
        rw [pieces same] at hitems
        exact ⟨same, (fromIndexParts_toIndexParts_iff fits htexts).mp hitems⟩
      · rintro ⟨same, separable⟩
        rw [pieces same]
        exact ⟨hlen, (fromIndexParts_toIndexParts_iff fits htexts).mpr separable⟩
    | _ => exact fits.elim

theorem fromIndexParts_toIndexParts_iff {parts : List Encoder} {vs : List Value}
    {texts : List String} (fits : FitParts parts vs) (h : toIndexParts parts vs = .ok texts) :
    fromIndexParts parts texts = .ok vs ↔ SeparableParts parts vs := by
  cases parts with
  | nil =>
    cases vs with
    | nil =>
      cases h
      exact iff_of_true rfl trivial
    | cons v vs => exact fits.elim
  | cons part parts =>
    cases vs with
    | nil => exact fits.elim
    | cons v vs =>
      obtain ⟨text, rest, htext, hrest, rfl⟩ := toIndexParts_cons h
      rw [fromIndexParts_cons, SeparableParts, fromIndex_toIndex_iff fits.1 htext,
        fromIndexParts_toIndexParts_iff fits.2 hrest]

end

mutual

/-- No separator has a border, as none of a single character has. -/
def Unbordered : Encoder → Prop
  | composite parts separator => Text.Unbordered separator.toList ∧ AreUnbordered parts
  | _ => True

def AreUnbordered : List Encoder → Prop
  | [] => True
  | part :: parts => Unbordered part ∧ AreUnbordered parts

end

mutual

theorem separable_of_unbordered {e : Encoder} {v : Value} {text : String} (fits : Fits e v)
    (h : toIndex e v = .ok text) (unbordered : e.Unbordered) : Separable e v := by
  cases e with
  | composite parts separator =>
    cases v with
    | tuple items =>
      obtain ⟨texts, htexts, free, -⟩ := toIndex_composite h
      refine ⟨fun texts' htexts' piece hpiece => ?_,
        separableParts_of_unbordered fits.2 htexts unbordered.2⟩
      cases htexts.symm.trans htexts'
      exact Text.ends_of_unbordered unbordered.1
        (free _ (List.mem_map_of_mem ((List.dropLast_subset _) hpiece)))
    | _ => exact fits.elim
  | _ => simp only [Separable]

theorem separableParts_of_unbordered {parts : List Encoder} {vs : List Value}
    {texts : List String} (fits : FitParts parts vs) (h : toIndexParts parts vs = .ok texts)
    (unbordered : AreUnbordered parts) : SeparableParts parts vs := by
  cases parts with
  | nil => simp only [SeparableParts]
  | cons part parts =>
    cases vs with
    | nil => exact fits.elim
    | cons v vs =>
      obtain ⟨_, _, htext, hrest, -⟩ := toIndexParts_cons h
      exact ⟨separable_of_unbordered fits.1 htext unbordered.1,
        separableParts_of_unbordered fits.2 hrest unbordered.2⟩

end

/-- An accepted id is read back from its text exactly if it is separable, as any id is where no separator
has a border. Of the ids with one text at most one is separable. -/
theorem read_back_iff_separable {e : Encoder} {v : Value} {text : String} (fits : Fits e v)
    (accepted : toIndex e v = .ok text) :
    (fromIndex e text = .ok v ↔ Separable e v) ∧ (e.Unbordered → Separable e v) ∧
      ∀ w, Fits e w → toIndex e w = .ok text → Separable e v → Separable e w → w = v := by
  refine ⟨fromIndex_toIndex_iff fits accepted, separable_of_unbordered fits accepted,
    fun w fits' accepted' separable separable' => ?_⟩
  have hv := (fromIndex_toIndex_iff fits accepted).mpr separable
  have hw := (fromIndex_toIndex_iff fits' accepted').mpr separable'
  cases hv.symm.trans hw
  rfl

theorem unbordered_of_single {c : Char} (h : separator.toList = [c]) (hparts : AreUnbordered parts) :
    (composite parts separator).Unbordered :=
  ⟨h ▸ Text.unbordered_singleton c, hparts⟩

example : (composite [integer, string] "_").Unbordered :=
  unbordered_of_single rfl ⟨trivial, trivial, trivial⟩

/-- Ids of two texts with a separator that overlaps itself. -/
def doubled : Encoder := composite [string, string] "aa"

def late : Value := .tuple [.text "xa", .text "y"]

def early : Value := .tuple [.text "x", .text "ay"]

theorem fits_doubled (first second : String) :
    Fits doubled (.tuple [.text first, .text second]) := by
  simp [doubled, Fits, FitParts, compose]

theorem separable_doubled (first second : String) :
    Separable doubled (.tuple [.text first, .text second]) ↔ Text.Ends ['a', 'a'] first.toList := by
  simp only [doubled, Separable, SeparableParts, and_true]
  constructor
  · exact fun h => h [first, second] rfl first (by simp)
  · intro h texts htexts
    cases htexts
    simpa [Value.toText] using h

/-- The text that two ids have in common is read as the one in which the separator comes first. -/
theorem late_read_as_early : toIndex doubled late = .ok "xaaay" ∧
    toIndex doubled early = .ok "xaaay" ∧ fromIndex doubled "xaaay" = .ok early ∧
    fromIndex doubled "xaaay" ≠ .ok late := by
  have hlate : toIndex doubled late = .ok "xaaay" := by rfl
  have hearly : toIndex doubled early = .ok "xaaay" := by rfl
  have read := (read_back_iff_separable (fits_doubled "x" "ay") hearly).1
  have unread := (read_back_iff_separable (fits_doubled "xa" "y") hlate).1
  rw [separable_doubled] at read unread
  exact ⟨hlate, hearly, read.mpr (by decide), fun h => absurd (unread.mp h) (by decide)⟩

/-- Ids are not encoded without ambiguity: one can be read as another, and two can have one text. -/
theorem not_unambiguous :
    (¬ ∀ (e : Encoder) (v : Value) (text : String), Fits e v → toIndex e v = .ok text →
      fromIndex e text = .ok v) ∧
    ¬ ∀ (e : Encoder) (v w : Value) (text : String), Fits e v → Fits e w →
      toIndex e v = .ok text → toIndex e w = .ok text → v = w := by
  have hlate : toIndex doubled late = .ok "xaaay" := by rfl
  have hearly : toIndex doubled early = .ok "xaaay" := by rfl
  constructor
  · intro claim
    have read := claim doubled late _ (fits_doubled "xa" "y") hlate
    rw [claim doubled early _ (fits_doubled "x" "ay") hearly] at read
    simp [early, late] at read
  · intro claim
    have same :=
      claim doubled late early _ (fits_doubled "xa" "y") (fits_doubled "x" "ay") hlate hearly
    simp [early, late] at same

end IndexSync.Search.Encoder
