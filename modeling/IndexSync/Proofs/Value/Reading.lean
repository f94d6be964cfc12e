import Mathlib
import IndexSync.Proofs.Text.Split
import IndexSync.Proofs.Text.Trim
import IndexSync.Value.Conversion

/-!
# Integers and identifiers read back

The text of an integer and that of an identifier are read back as what they stand for. A text that has
lost its end is read as something else, if it can be read at all.
-/
namespace IndexSync

namespace Number

variable {base : Nat} {c : Char} {cs : List Char}

theorem digit_bounds {d : Nat} (h : Text.baseDigit? base c = some d) :
    48 ≤ c.toNat ∧ c.toNat ≤ 122 ∧ c ≠ '_' := by
  have ascii : 48 ≤ c.toNat ∧ c.toNat ≤ 122 := by
    simp only [Text.baseDigit?, Option.filter_eq_some_iff] at h
    obtain ⟨h, -⟩ := h
    simp only [Bool.and_eq_true, decide_eq_true_eq, Char.le_def, UInt32.le_iff_toNat_le] at h
    split at h
    · rename_i hdigit
      change 48 ≤ c.toNat ∧ c.toNat ≤ 57 at hdigit
      omega
    split at h
    · rename_i hlower
      change 97 ≤ c.toNat ∧ c.toNat ≤ 122 at hlower
      omega
    split at h
    · rename_i hupper
      change 65 ≤ c.toNat ∧ c.toNat ≤ 90 at hupper
      omega
    · cases h
  refine ⟨ascii.1, ascii.2, ?_⟩
  rintro rfl
  cases h

/-- All characters are digits in a base. -/
def AreDigits (base : Nat) (cs : List Char) : Prop := ∀ c ∈ cs, (Text.baseDigit? base c).isSome

/-- The number that digits stand for. -/
def valueOf (base : Nat) (cs : List Char) : Nat :=
  ofDigits base (cs.map fun c => (Text.baseDigit? base c).getD 0)

theorem AreDigits.bounds (h : AreDigits base cs) (hc : c ∈ cs) :
    48 ≤ c.toNat ∧ c.toNat ≤ 122 ∧ c ≠ '_' := by
  obtain ⟨d, hd⟩ := Option.isSome_iff_exists.mp (h c hc)
  exact digit_bounds hd

theorem readDigits_of_areDigits (h : AreDigits base cs) (afterDigit : Bool)
    (hsome : afterDigit = true ∨ cs ≠ []) : readDigits base afterDigit cs =
      some (cs.map fun c => (Text.baseDigit? base c).getD 0, []) := by
  induction cs generalizing afterDigit with
  | nil =>
    obtain rfl := hsome.resolve_right (by simp)
    rfl
  | cons c rest ih =>
    obtain ⟨hc, hrest⟩ := List.forall_mem_cons.mp h
    obtain ⟨d, hd⟩ := Option.isSome_iff_exists.mp hc
    simp only [readDigits, (digit_bounds hd).2.2, if_false, hd, ih hrest true (.inl rfl),
      Option.map_some, List.map_cons, Option.getD_some]

theorem plainChar_of_areDigits (h : AreDigits base cs) : cs.map plainChar = cs := by
  refine (List.map_congr_left fun c hc => ?_).trans (List.map_id cs)
  have bounds := h.bounds hc
  rw [plainChar, if_pos (by omega)]
  rfl

theorem dropBaseMark_of_areDigits (h : AreDigits base cs)
    (marks : ∀ c ∈ baseMarks base, Text.baseDigit? base c = none) : dropBaseMark base cs = cs := by
  unfold dropBaseMark
  split
  · rename_i mark rest
    split
    · rename_i hmark
      have hnone := marks mark (List.contains_iff_mem.mp hmark)
      have hsome := h mark (by simp)
      rw [hnone] at hsome
      cases hsome
    · rfl
  · rfl

theorem readSign_of_areDigits (h : AreDigits base cs) (hne : cs ≠ []) (negative : Bool) :
    readSign ((((if negative then ['-'] else []) ++ cs).map plainChar).dropWhile
      Text.isPlainBlank) = (negative, cs) := by
  have minus : plainChar '-' = '-' := by decide
  have solid : Text.isPlainBlank '-' = false := by decide
  rw [List.map_append, plainChar_of_areDigits h]
  cases negative with
  | true => simp [minus, solid, readSign]
  | false =>
    obtain ⟨c, rest, rfl⟩ := List.exists_cons_of_ne_nil hne
    have bounds := h.bounds List.mem_cons_self
    have visible : Text.isPlainBlank c = false := by
      have notSpace : c ≠ ' ' := by
        rintro rfl
        exact absurd bounds.1 (by decide)
      simp only [Text.isPlainBlank, Bool.or_eq_false_iff, Bool.and_eq_false_iff, decide_eq_false_iff_not,
        beq_eq_false_iff_ne]
      exact ⟨by omega, notSpace⟩
    simp only [Bool.false_eq_true, if_false, List.map_nil, List.nil_append,
      List.dropWhile_cons_of_neg (by simpa using visible)]
    unfold readSign
    split
    · rename_i hsign
      cases hsign
      exact absurd bounds.1 (by decide)
    · rename_i hsign
      cases hsign
      exact absurd bounds.1 (by decide)
    · rfl

/-- A sign and digits are read as the number they stand for. -/
theorem readInteger_of_areDigits (h : AreDigits base cs) (hne : cs ≠ [])
    (marks : ∀ c ∈ baseMarks base, Text.baseDigit? base c = none) (negative : Bool) :
    readInteger base ((if negative then ['-'] else []) ++ cs) =
      if base = 10 && digitLimit < cs.length then .error (.tooLong cs.length)
      else .ok (if negative then -(valueOf base cs : Int) else valueOf base cs) := by
  simp only [readInteger, readSign_of_areDigits h hne, dropBaseMark_of_areDigits h marks,
    readDigits_of_areDigits h false (.inr hne), List.length_map, List.all_nil, if_true]
  rfl

/-- A sign alone is no integer. -/
theorem readInteger_sign (base : Nat) (negative : Bool) :
    readInteger base (if negative then ['-'] else []) = .error .malformed := by
  cases negative with
  | true => rfl
  | false => rfl

theorem valueOf_concat (base : Nat) (cs : List Char) (c : Char) :
    valueOf base (cs ++ [c]) = valueOf base cs * base + (Text.baseDigit? base c).getD 0 := by
  simp [valueOf, ofDigits]

theorem valueOf_lt (h : AreDigits base cs) : valueOf base cs < base ^ cs.length := by
  induction cs using List.reverseRecOn with
  | nil => exact Nat.one_pos
  | append_singleton front c ih =>
    obtain ⟨d, hd⟩ := Option.isSome_iff_exists.mp (h c (by simp))
    have hlt : d < base := by
      have := Option.filter_eq_some_iff.mp hd
      simpa using this.2
    have hfront := ih fun x hx => h x (by simp [hx])
    rw [valueOf_concat, hd, Option.getD_some, List.length_append, List.length_singleton, Nat.pow_succ]
    calc valueOf base front * base + d < valueOf base front * base + base := by omega
      _ = (valueOf base front + 1) * base := by rw [Nat.add_mul, Nat.one_mul]
      _ ≤ base ^ front.length * base := Nat.mul_le_mul_right _ hfront

theorem baseDigit?_digitChar {d : Nat} (hd : d < base) (hbase : base ≤ 16) :
    Text.baseDigit? base (Nat.digitChar d) = some d := by
  have sixteen : ∀ d < 16, Text.baseDigit? 16 (Nat.digitChar d) = some d := by decide
  have h := sixteen d (by omega)
  simp only [Text.baseDigit?, Option.filter_eq_some_iff] at h ⊢
  exact ⟨h.1, decide_eq_true hd⟩

theorem areDigits_concat {d : Nat} (h : AreDigits base cs) (hd : d < base) (hbase : base ≤ 16) :
    AreDigits base (cs ++ [Nat.digitChar d]) := by
  intro c hc
  rcases List.mem_append.mp hc with hc | hc
  · exact h c hc
  · rw [List.mem_singleton.mp hc, baseDigit?_digitChar hd hbase]
    rfl

/-- The digits of a number in base ten. -/
theorem digits_of_toDigits (n : Nat) :
    AreDigits 10 (Nat.toDigits 10 n) ∧ valueOf 10 (Nat.toDigits 10 n) = n := by
  induction n using Nat.strongRecOn with
  | ind n ih =>
    rw [Nat.toDigits_eq_if (by decide)]
    split
    · rename_i hlt
      have one : AreDigits 10 ([] ++ [Nat.digitChar n]) :=
        areDigits_concat (by simp [AreDigits]) hlt (by decide)
      refine ⟨one, ?_⟩
      simp [baseDigit?_digitChar hlt, valueOf, ofDigits]
    · rename_i hge
      obtain ⟨digits, value⟩ := ih (n / 10) (by omega)
      have hlt : n % 10 < 10 := Nat.mod_lt _ (by decide)
      refine ⟨areDigits_concat digits hlt (by decide), ?_⟩
      rw [valueOf_concat, value, baseDigit?_digitChar hlt (by decide), Option.getD_some]
      omega

/-- No proper beginning of the digits of a number stands for it. -/
theorem eq_of_valueOf {n : Nat} (hpre : cs <+: Nat.toDigits 10 n) (hne : cs ≠ [])
    (value : valueOf 10 cs = n) : cs = Nat.toDigits 10 n := by
  have small := valueOf_lt fun c hc => (digits_of_toDigits n).1 c (hpre.subset hc)
  rw [value, ← Nat.length_toDigits_le_iff (by decide) (List.length_pos_iff.mpr hne)] at small
  exact hpre.eq_of_length (Nat.le_antisymm hpre.length_le small)

/-- The sign of an integer. -/
def signOf (n : Int) : List Char := if n < 0 then ['-'] else []

/-- An integer is read from its sign and its digits, and from nothing else with which they begin. -/
theorem readInteger_iff {n : Int} (short : (Nat.toDigits 10 n.natAbs).length ≤ digitLimit)
    (hpre : cs <+: signOf n ++ Nat.toDigits 10 n.natAbs) :
    readInteger 10 cs = .ok n ↔ cs = signOf n ++ Nat.toDigits 10 n.natAbs := by
  obtain ⟨digits, value⟩ := digits_of_toDigits n.natAbs
  have hsome : 0 < (Nat.toDigits 10 n.natAbs).length := List.length_pos_iff.mpr Nat.toDigits_ne_nil
  have bare (negative : Bool) (hcs : cs = if negative then ['-'] else [])
      (hle : cs.length ≤ (signOf n).length) :
      readInteger 10 cs = .ok n ↔ cs = signOf n ++ Nat.toDigits 10 n.natAbs := by
    refine iff_of_false (fun h => ?_) fun h => ?_
    · rw [hcs, readInteger_sign] at h
      cases h
    · have := congrArg List.length h
      rw [List.length_append] at this
      omega
  have sign : signOf n = if decide (n < 0) then ['-'] else [] := by simp [signOf]
  rcases List.prefix_or_prefix_of_prefix hpre (List.prefix_append ..) with hshort | ⟨ds, rfl⟩
  · by_cases hcs : cs = []
    · exact bare false hcs hshort.length_le
    · refine bare (decide (n < 0)) ?_ hshort.length_le
      rw [← sign]
      refine hshort.eq_of_length_le ?_
      have : 0 < cs.length := List.length_pos_iff.mpr hcs
      unfold signOf at *
      split
      · simpa using Nat.succ_le_of_lt this
      · simp
  · have hds : ds <+: Nat.toDigits 10 n.natAbs := (List.prefix_append_right_inj _).mp hpre
    by_cases hnil : ds = []
    · subst hnil
      exact bare (decide (n < 0)) (by rw [List.append_nil, sign]) (by simp)
    · have hdigits : AreDigits 10 ds := fun c hc => digits c (hds.subset hc)
      have hread := readInteger_of_areDigits hdigits hnil (by simp [baseMarks]) (decide (n < 0))
      have fits : ¬ digitLimit < ds.length := Nat.not_lt.mpr (Nat.le_trans hds.length_le short)
      rw [sign, hread, List.append_cancel_left_eq]
      simp only [fits, decide_true, decide_false, Bool.and_false, Bool.false_eq_true, if_false,
        Except.ok.injEq, decide_eq_true_eq]
      constructor
      · intro h
        refine eq_of_valueOf hds hnil ?_
        split at h <;> omega
      · rintro rfl
        rw [value]
        split <;> omega

/-- The digits of a number in base sixteen. -/
theorem digits_of_hex (width n : Nat) : (Text.Quoted.hex width n).length = width ∧
    AreDigits 16 (Text.Quoted.hex width n) ∧ valueOf 16 (Text.Quoted.hex width n) = n % 16 ^ width := by
  induction width generalizing n with
  | zero => exact ⟨rfl, by simp [Text.Quoted.hex, AreDigits], (Nat.mod_one n).symm⟩
  | succ width ih =>
    obtain ⟨length, digits, value⟩ := ih (n / 16)
    have hlt : n % 16 < 16 := Nat.mod_lt _ (by decide)
    refine ⟨by simp [Text.Quoted.hex, length], areDigits_concat digits hlt (by decide), ?_⟩
    rw [Text.Quoted.hex, valueOf_concat, value, baseDigit?_digitChar hlt (by decide),
      Option.getD_some, Nat.pow_succ', Nat.mod_mul]
    omega

end Number

namespace Value

open Number

theorem toList_toString (n : Int) :
    (toString n).toList = signOf n ++ Nat.toDigits 10 n.natAbs := by
  rw [Int.toString_eq_repr]
  cases n with
  | ofNat m => simp [signOf, Int.repr, Nat.repr_eq_ofList_toDigits]
  | negSucc m => simp [signOf, Int.repr, Nat.repr_eq_ofList_toDigits, Int.negSucc_lt_zero]

theorem readInteger_ok_iff {base : Nat} {cs : List Char} {shown : String} {n : Int} :
    readInteger base cs shown = .ok n ↔ Number.readInteger base cs = .ok n := by
  unfold readInteger
  split
  · rename_i h
    rw [h]
    simp
  · rename_i h
    simp [h]
  · rename_i h
    simp [h]

/-- The text of an integer is read as that integer, and nothing else with which it begins is. -/
theorem integerOfText_iff {n : Int} {s text : String} (h : integerText n = .ok text)
    (hpre : s.toList <+: text.toList) : integerOfText s = .ok n ↔ s = text := by
  unfold integerText at h
  split at h
  · cases h
  rename_i hlimit
  cases h
  rw [toList_toString] at hpre
  rw [integerOfText, readInteger_ok_iff, readInteger_iff (Nat.not_lt.mp hlimit) hpre,
    ← toList_toString, String.toList_inj]

/-- The digits of an identifier are all of its text but the dashes, and the text ends with digits. -/
theorem uuidText_dashed (n : Nat) :
    ∃ front, (uuidText n).toList = front ++ (Text.Quoted.hex 32 n).drop 20 ∧
      (uuidText n).toList.filter (· ≠ '-') = Text.Quoted.hex 32 n := by
  obtain ⟨length, digits, -⟩ := Number.digits_of_hex 32 n
  generalize hcs : Text.Quoted.hex 32 n = cs at length digits
  have hlast : (cs.drop 20).take 12 = cs.drop 20 :=
    List.take_of_length_le (by simp [length])
  have written : (uuidText n).toList = cs.take 8 ++ ('-' :: ((cs.drop 8).take 4 ++
      '-' :: ((cs.drop 12).take 4 ++ '-' :: ((cs.drop 16).take 4 ++ '-' :: cs.drop 20)))) := by
    simp [uuidText, hcs, hlast]
  have solid {part : List Char} (h : part ⊆ cs) : part.filter (· ≠ '-') = part := by
    refine List.filter_eq_self.mpr fun c hc => ?_
    have bounds := digits.bounds (h hc)
    rw [decide_eq_true_eq]
    rintro rfl
    exact absurd bounds.1 (by decide)
  have part (count first : Nat) : (cs.drop first).take count ⊆ cs :=
    fun _ h => List.mem_of_mem_drop (List.mem_of_mem_take h)
  have next (count first : Nat) : (cs.drop first).take count ++ cs.drop (first + count) =
      cs.drop first := by
    rw [← List.drop_drop, List.take_append_drop]
  refine ⟨cs.take 8 ++ ('-' :: ((cs.drop 8).take 4 ++ '-' :: ((cs.drop 12).take 4 ++
    '-' :: ((cs.drop 16).take 4 ++ ['-'])))), by simp [written], ?_⟩
  have solid' {part : List Char} (h : part ⊆ cs) :
      ('-' :: part).filter (· ≠ '-') = part := by
    rw [List.filter_cons_of_neg (by simp), solid h]
  rw [written]
  simp only [← List.cons_append, List.filter_append, solid' (part 4 _), solid' (List.drop_subset 20 cs),
    solid (List.take_subset 8 cs)]
  rw [next 4 16, next 4 12, next 4 8, List.take_append_drop]

/-- What is read from digits of base sixteen and dashes. -/
theorem uuidOfText_of_dashed {s : String}
    (h : ∀ c ∈ s.toList, c = '-' ∨ (Text.baseDigit? 16 c).isSome) :
    uuidOfText s = if (s.toList.filter (· ≠ '-')).length = 32
      then .ok (Number.valueOf 16 (s.toList.filter (· ≠ '-'))) else .error .malformedUuid := by
  have lacks (c : Char) (hc : ¬ (c = '-' ∨ (Text.baseDigit? 16 c).isSome)) : c ∉ s.toList :=
    fun hmem => hc (h c hmem)
  have braces : ∀ c ∈ s.toList, (decide (c = '\x7b') || decide (c = '\x7d')) = false := by
    intro c hc
    rw [Bool.or_eq_false_iff, decide_eq_false_iff_not, decide_eq_false_iff_not]
    refine ⟨?_, ?_⟩ <;> rintro rfl
    · exact lacks '\x7b' (by decide) hc
    · exact lacks '\x7d' (by decide) hc
  have digits : Number.AreDigits 16 (s.toList.filter (· ≠ '-')) := by
    intro c hc
    obtain ⟨hmem, hne⟩ := List.mem_filter.mp hc
    exact (h c hmem).resolve_left (by simpa using hne)
  have urn : Text.replace "urn:".toList [] s.toList = s.toList :=
    Text.replace_of_not_mem (c := 'u') (by decide) (lacks 'u' (by decide)) []
  have mark : Text.replace "uuid:".toList [] s.toList = s.toList :=
    Text.replace_of_not_mem (c := 'u') (by decide) (lacks 'u' (by decide)) []
  simp only [uuidOfText, urn, mark, Text.trimBy_of_none braces]
  split
  · rename_i hlen
    have hsome : s.toList.filter (· ≠ '-') ≠ [] := List.ne_nil_of_length_pos (by rw [hlen]; decide)
    have marks : ∀ c ∈ Number.baseMarks 16, Text.baseDigit? 16 c = none := by
      simp only [Number.baseMarks, List.forall_mem_cons]
      exact ⟨rfl, rfl, fun c hc => absurd hc List.not_mem_nil⟩
    have hread := Number.readInteger_of_areDigits digits hsome marks false
    simp only [Bool.false_eq_true, if_false, List.nil_append] at hread
    rw [readInteger_ok_iff.mpr hread]
    rfl
  · rfl

/-- An identifier is read from its text, and from nothing else with which its text begins. -/
theorem uuidOfText_iff {n : Nat} {s : String} (hn : n < 2 ^ 128)
    (hpre : s.toList <+: (uuidText n).toList) : uuidOfText s = .ok n ↔ s = uuidText n := by
  obtain ⟨front, hfront, hbare⟩ := uuidText_dashed n
  obtain ⟨hlength, hdigits, hvalue⟩ := Number.digits_of_hex 32 n
  have dashed : ∀ c ∈ (uuidText n).toList, c = '-' ∨ (Text.baseDigit? 16 c).isSome := by
    intro c hc
    by_cases hdash : c = '-'
    · exact .inl hdash
    · refine .inr (hdigits c ?_)
      rw [← hbare]
      exact List.mem_filter.mpr ⟨hc, by simpa using hdash⟩
  rw [uuidOfText_of_dashed fun c hc => dashed c (hpre.subset hc)]
  constructor
  · intro h
    split at h
    · rename_i hlen
      -- all digits are there, so that what is missing are dashes: but the text ends with digits
      obtain ⟨rest, hrest⟩ := hpre
      have onlyDashes : rest.filter (· ≠ '-') = [] := by
        rw [← hrest, List.filter_append] at hbare
        have := congrArg List.length hbare
        rw [List.length_append, hlen, hlength] at this
        exact List.eq_nil_of_length_eq_zero (by omega)
      cases hlast : rest.getLast? with
      | none =>
        rw [List.getLast?_eq_none_iff.mp hlast, List.append_nil] at hrest
        exact String.toList_inj.mp hrest
      | some last =>
        have hdigit : last ∈ (Text.Quoted.hex 32 n).drop 20 := by
          have hsame := congrArg List.getLast? (hrest.trans hfront)
          have hsome : (Text.Quoted.hex 32 n).drop 20 ≠ [] :=
            List.ne_nil_of_length_pos (by simp [hlength])
          rw [List.getLast?_append, List.getLast?_append, hlast, List.getLast?_eq_some_getLast hsome,
            Option.some_or, Option.some_or, Option.some.injEq] at hsame
          exact hsame ▸ List.getLast_mem hsome
        have bounds := hdigits.bounds (List.mem_of_mem_drop hdigit)
        have hdash := List.filter_eq_nil_iff.mp onlyDashes last (List.mem_of_getLast? hlast)
        obtain rfl : last = '-' := by simpa using hdash
        exact absurd bounds.1 (by decide)
    · cases h
  · rintro rfl
    rw [hbare, if_pos hlength, hvalue, Nat.mod_eq_of_lt (by simpa using hn)]

end Value
end IndexSync
