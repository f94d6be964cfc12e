import IndexSync.Proofs.Trigger.Reading
import IndexSync.Trigger.Resolution

/-!
# Names in quotation marks

What is read as a name was quoted. A quoted name ends where its quotation ends and no sooner, whatever it
holds, so that two names are never written alike.
-/
namespace IndexSync

open Trigger

namespace Trigger.Reading

variable {q : Char}

/-- A name is read exactly off its quoted form, up to where no token follows. -/
theorem name_eq_some_iff {cs rest : List Char} {text : String} : name q cs = some (text, rest) ↔
    cs = (quote (String.singleton q) text).toList ++ rest ∧ rest.head? ≠ some q := by
  refine ⟨fun h => ?_, fun ⟨hcs, hrest⟩ => by rw [hcs, name_quote hrest]⟩
  cases cs with
  | nil => cases h
  | cons c cs =>
    rw [name] at h
    split at h
    case isFalse => cases h
    case isTrue hc =>
      obtain ⟨⟨chars, rest⟩, hread, he⟩ := Option.map_eq_some_iff.mp h
      cases he
      obtain ⟨hcs, hrest⟩ := eq_of_nameRest hread
      refine ⟨?_, hrest⟩
      rw [toList_quote, String.toList_ofList, hc, hcs]
      simp

/-- What is left after the rest of a name was at its end. -/
theorem suffix_of_nameRest {cs text rest : List Char} (h : nameRest q cs = some (text, rest)) :
    rest <:+ cs := by
  rw [(eq_of_nameRest h).1]
  exact (List.suffix_cons q rest).trans (List.suffix_append _ _)

/-- Nothing of a quoted name is left by what is read from it. Where one more token follows, the name that is
read goes on beyond the quotation, or does not end at all. -/
theorem suffix_of_name_quote {text text' : String} {more rest : List Char}
    (h : name q ((quote (String.singleton q) text).toList ++ more) = some (text', rest)) :
    rest <:+ more := by
  rw [name_quote_append] at h
  obtain ⟨⟨chars, left⟩, hread, he⟩ := Option.map_eq_some_iff.mp h
  cases he
  cases more with
  | nil =>
    rw [nameRest_token (by simp)] at hread
    cases hread
    exact List.suffix_refl []
  | cons d more =>
    by_cases hd : d = q
    · rw [nameRest, if_neg (by simp), if_pos hd] at hread
      obtain ⟨⟨others, left⟩, hread, he⟩ := Option.map_eq_some_iff.mp hread
      cases he
      exact (suffix_of_nameRest hread).trans (List.suffix_cons d more)
    · rw [nameRest_token (by simpa using hd)] at hread
      cases hread
      exact List.suffix_refl _

/-- Names that are written alike are the same. -/
theorem quote_injective (q : Char) : Function.Injective (quote (String.singleton q)) := by
  intro a b same
  have read (text : String) : name q ((quote (String.singleton q) text).toList ++ []) = some (text, []) :=
    name_quote (by simp) text
  have ha := read a
  rw [same, read b] at ha
  exact (Prod.mk.inj (Option.some.inj ha)).1.symm

end Trigger.Reading

/-- The names that a source quotes are read back, each in full and nothing beyond it, and they are the only
ones that are. -/
structure TriggerSource.QuotesExactly (s : TriggerSource) (q : Char) : Prop where
  /-- A name is read and a text left of those texts alone in which the quoted name stands before that text,
  and no token follows. -/
  read : ∀ cs text rest, Reading.name q cs = some (text, rest) ↔
    cs = (quote s.token text).toList ++ rest ∧ rest.head? ≠ some q
  /-- No name ends its own quotation, whatever follows. -/
  whole : ∀ text more text' rest,
    Reading.name q ((quote s.token text).toList ++ more) = some (text', rest) → rest <:+ more
  /-- Different names have different quoted forms. -/
  apart : Function.Injective (quote s.token)

/-- A source quotes exactly if its token is one character, and the tokens of all shipped sources are. -/
theorem quotesExactly_of_singleton :
    (∀ s ∈ shippedSources.map (·.2), ∃ q, s.token = String.singleton q) ∧
    ∀ (s : TriggerSource) (q : Char), s.token = String.singleton q → s.QuotesExactly q := by
  constructor
  · have tokens : ∀ s ∈ shippedSources.map (·.2),
        s.token = String.singleton '\x22' ∨ s.token = String.singleton '\x60' := by decide
    intro s hs
    rcases tokens s hs with h | h <;> exact ⟨_, h⟩
  · intro s q h
    constructor <;> rw [h]
    · exact fun _ _ _ => Reading.name_eq_some_iff
    · exact fun _ _ _ _ => Reading.suffix_of_name_quote
    · exact Reading.quote_injective q

/-- A name that begins, goes on and ends with tokens. -/
theorem tokens_quotesExactly :
    TriggerSource.mysql ∈ shippedSources.map (·.2) ∧
      TriggerSource.mysql.token = String.singleton '\x60' ∧ TriggerSource.mysql.QuotesExactly '\x60' ∧
      Reading.name '\x60' "\x60\x60\x60a\x60\x60\x60\x60\x60\x60b\x60\x60\x60 INT".toList =
        some ("\x60a\x60\x60\x60b\x60", " INT".toList) :=
  have token : TriggerSource.mysql.token = String.singleton '\x60' := rfl
  have exactly := quotesExactly_of_singleton.2 .mysql '\x60' token
  ⟨by simp [shippedSources], token, exactly,
    (exactly.read _ _ _).mpr ⟨by rw [token, Reading.toList_quote]; decide, by decide⟩⟩

end IndexSync
