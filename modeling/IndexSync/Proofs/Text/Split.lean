import IndexSync.Text.Split
import Mathlib.Tactic.Common

/-!
# Cutting and joining

A text that was joined is cut into the same pieces only where each separator is found at its place. A
separator of several characters can be found too early, with its first characters at the end of a piece.
-/
namespace IndexSync.Text

variable {sep cs piece before after : List Char} {pieces : List (List Char)}

/-- A separator that is put after a piece is found there. -/
def Ends (sep piece : List Char) : Prop := cut? sep (piece ++ sep) = some (piece, [])

instance (sep piece : List Char) : Decidable (Ends sep piece) := inferInstanceAs (Decidable (_ = _))

theorem eq_of_cut? (h : cut? sep cs = some (before, after)) : cs = before ++ sep ++ after := by
  induction cs generalizing before with
  | nil =>
    simp only [cut?] at h
    split at h
    · rename_i hsep
      cases h
      simpa using hsep
    · cases h
  | cons c rest ih =>
    simp only [cut?] at h
    split at h
    · rename_i hpre
      cases h
      obtain ⟨rest', hrest'⟩ := List.isPrefixOf_iff_prefix.mp hpre
      rw [← hrest', List.nil_append, List.drop_left]
    · obtain ⟨⟨b, a⟩, hcut, heq⟩ := Option.map_eq_some_iff.mp h
      cases heq
      rw [ih hcut, List.cons_append, List.cons_append]

theorem cut?_self (sep rest : List Char) : cut? sep (sep ++ rest) = some ([], rest) := by
  cases hcs : sep ++ rest with
  | nil =>
    obtain ⟨rfl, rfl⟩ := List.append_eq_nil_iff.mp hcs
    rfl
  | cons c cs =>
    have hpre : sep.isPrefixOf (c :: cs) = true := List.isPrefixOf_iff_prefix.mpr ⟨rest, hcs⟩
    rw [cut?, if_pos hpre, ← hcs, List.drop_left]

/-- A text is cut no later than at a separator that it holds. -/
theorem cut?_le (sep front rest : List Char) : ∃ before after,
    cut? sep (front ++ sep ++ rest) = some (before, after) ∧ before.length ≤ front.length := by
  induction front with
  | nil => exact ⟨[], rest, cut?_self sep rest, Nat.le_refl _⟩
  | cons c front ih =>
    simp only [List.cons_append, cut?]
    split
    · exact ⟨[], _, rfl, Nat.zero_le _⟩
    · obtain ⟨before, after, hcut, hle⟩ := ih
      exact ⟨c :: before, after, by rw [hcut, Option.map_some], Nat.succ_le_succ hle⟩

theorem cut?_isSome_iff (sep cs : List Char) : (cut? sep cs).isSome = true ↔ sep <:+: cs := by
  constructor
  · intro h
    obtain ⟨⟨before, after⟩, hcut⟩ := Option.isSome_iff_exists.mp h
    exact ⟨before, after, (eq_of_cut? hcut).symm⟩
  · rintro ⟨front, rest, rfl⟩
    obtain ⟨before, after, hcut, -⟩ := cut?_le sep front rest
    rw [hcut, Option.isSome_some]

/-- The beginning of a text that holds a separator is cut within what stands before that. -/
theorem before_prefix_of_cut? {rest : List Char} (h : cut? sep cs = some (before, after))
    (hpre : cs <+: piece ++ sep ++ rest) : before <+: piece := by
  have hbefore : before <+: cs := ⟨sep ++ after, by rw [eq_of_cut? h, List.append_assoc]⟩
  have hpiece : piece <+: piece ++ sep ++ rest := ⟨sep ++ rest, by rw [List.append_assoc]⟩
  refine List.prefix_of_prefix_length_le (hbefore.trans hpre) hpiece ?_
  by_contra hlate
  -- the text reaches beyond the separator, so that it would have been cut there
  have hlong : (piece ++ sep).length ≤ cs.length := by
    rw [eq_of_cut? h]
    simp only [List.length_append]
    omega
  obtain ⟨late, rfl⟩ : piece ++ sep <+: cs :=
    List.prefix_of_prefix_length_le (List.prefix_append ..) hpre hlong
  obtain ⟨_, _, hcut, hle⟩ := cut?_le sep piece late
  cases h.symm.trans hcut
  exact hlate hle

/-- What follows a separator does not bear on where it is found. -/
theorem cut?_append_iff (sep piece rest : List Char) :
    cut? sep (piece ++ sep ++ rest) = some (piece, rest) ↔ Ends sep piece := by
  unfold Ends
  induction piece with
  | nil =>
    have alone := cut?_self sep []
    rw [List.append_nil] at alone
    exact iff_of_true (cut?_self sep rest) alone
  | cons c piece ih =>
    have same : sep.isPrefixOf (c :: (piece ++ sep ++ rest)) =
        sep.isPrefixOf (c :: (piece ++ sep)) := by
      rw [Bool.eq_iff_iff, List.isPrefixOf_iff_prefix, List.isPrefixOf_iff_prefix]
      have hlong : c :: (piece ++ sep) <+: c :: (piece ++ sep ++ rest) := ⟨rest, rfl⟩
      refine ⟨fun h => List.prefix_of_prefix_length_le h hlong ?_, fun h => h.trans hlong⟩
      simp only [List.length_cons, List.length_append]
      omega
    have shift (x : Option (List Char × List Char)) (tail : List Char) :
        (x.map fun p => (c :: p.1, p.2)) = some (c :: piece, tail) ↔ x = some (piece, tail) := by
      cases x <;> simp [Prod.ext_iff]
    simp only [List.cons_append, cut?, same]
    split
    · simp
    · rw [shift, shift]
      exact ih

theorem split_of_cut?_none (hsep : sep ≠ []) (h : cut? sep cs = none) : split sep cs = [cs] := by
  rw [split, dif_neg hsep]
  split
  · rfl
  · rename_i hcut
    cases h.symm.trans hcut

theorem split_of_cut? (hsep : sep ≠ []) (h : cut? sep cs = some (before, after)) :
    split sep cs = before :: split sep after := by
  rw [split, dif_neg hsep]
  split
  · rename_i hcut
    cases h.symm.trans hcut
  · rename_i hcut
    cases h.symm.trans hcut
    rfl

theorem cut?_eq_none_of_not_mem {c : Char} (hc : c ∈ sep) (h : c ∉ cs) : cut? sep cs = none := by
  rw [Option.eq_none_iff_forall_ne_some]
  rintro ⟨before, after⟩ hcut
  refine h ?_
  rw [eq_of_cut? hcut]
  simp [hc]

/-- A text stays as it is if it lacks a character of the pattern. -/
theorem replace_of_not_mem {c : Char} (hc : c ∈ sep) (h : c ∉ cs) (replacement : List Char) :
    replace sep replacement cs = cs := by
  rw [replace, split_of_cut?_none (List.ne_nil_of_mem hc) (cut?_eq_none_of_not_mem hc h), join]

theorem split_ne_nil (hsep : sep ≠ []) (cs : List Char) : split sep cs ≠ [] := by
  cases hcut : cut? sep cs with
  | none => simp [split_of_cut?_none hsep hcut]
  | some parts => simp [split_of_cut? hsep hcut]

theorem join_cons (sep piece : List Char) (h : pieces ≠ []) :
    join sep (piece :: pieces) = piece ++ sep ++ join sep pieces := by
  cases pieces with
  | nil => exact absurd rfl h
  | cons next rest => rfl

/-- What stands before the first separator does not hold it. -/
theorem cut?_before (hsep : sep ≠ []) (h : cut? sep cs = some (before, after)) : cut? sep before = none := by
  rw [← Option.not_isSome_iff_eq_none, cut?_isSome_iff]
  rintro ⟨front, rest, rfl⟩
  obtain ⟨_, _, hcut, hle⟩ := cut?_le sep front (rest ++ sep ++ after)
  rw [eq_of_cut? h, List.append_assoc _ sep after, List.append_assoc _ rest, ← List.append_assoc rest, hcut] at h
  cases h
  have := List.length_pos_iff.mpr hsep
  simp only [List.length_append] at hle
  omega

/-- No piece of a text holds the separator. -/
theorem cut?_of_mem_split (hsep : sep ≠ []) (h : piece ∈ split sep cs) : cut? sep piece = none := by
  induction hlen : cs.length using Nat.strongRecOn generalizing cs with
  | ind n ih =>
    cases hcut : cut? sep cs with
    | none =>
      rw [split_of_cut?_none hsep hcut, List.mem_singleton] at h
      rw [h, hcut]
    | some cut =>
      obtain ⟨first, rest⟩ := cut
      have hshort : rest.length < n := by
        have := length_of_cut? hcut
        have := List.length_pos_iff.mpr hsep
        omega
      rw [split_of_cut? hsep hcut, List.mem_cons] at h
      rcases h with rfl | h
      · exact cut?_before hsep hcut
      · exact ih rest.length hshort h rfl

/-- A single character is replaced wherever it stands. -/
theorem replace_singleton (q : Char) (replacement cs : List Char) :
    replace [q] replacement cs = cs.flatMap fun c => if c = q then replacement else [c] := by
  have one : [q] ≠ [] := List.cons_ne_nil q []
  induction cs with
  | nil =>
    have missing : cut? [q] [] = none := rfl
    rw [replace, split_of_cut?_none one missing]
    rfl
  | cons c cs ih =>
    rw [List.flatMap_cons, ← ih]
    by_cases hc : c = q
    · have hcut : cut? [q] (c :: cs) = some ([], cs) := by simp [cut?, hc]
      rw [replace, split_of_cut? one hcut, join_cons _ _ (split_ne_nil one cs), if_pos hc]
      rfl
    · have away : cut? [q] (c :: cs) = (cut? [q] cs).map (Prod.map (c :: ·) id) := by
        rw [cut?, if_neg (by simp [Ne.symm hc])]
        rfl
      rw [if_neg hc, replace, replace]
      cases hcut : cut? [q] cs with
      | none =>
        rw [split_of_cut?_none one hcut, split_of_cut?_none one (by rw [away, hcut, Option.map_none])]
        rfl
      | some cut =>
        rw [split_of_cut? one hcut, split_of_cut? one (by rw [away, hcut, Option.map_some]),
          join_cons _ _ (split_ne_nil one _), join_cons _ _ (split_ne_nil one _)]
        rfl

/-- The pieces of a text make it up. -/
theorem join_split (hsep : sep ≠ []) (cs : List Char) : join sep (split sep cs) = cs := by
  induction hlen : cs.length using Nat.strongRecOn generalizing cs with
  | ind n ih =>
    cases hcut : cut? sep cs with
    | none => rw [split_of_cut?_none hsep hcut, join]
    | some cut =>
      obtain ⟨before, after⟩ := cut
      have hshort : after.length < n := by
        have := length_of_cut? hcut
        have := List.length_pos_iff.mpr hsep
        omega
      rw [split_of_cut? hsep hcut, join_cons sep before (split_ne_nil hsep after),
        ih after.length hshort after rfl, ← eq_of_cut? hcut]

/-- The pieces of a text that was joined are those that were joined exactly if each separator is found
where it was put. -/
theorem split_join_iff (hsep : sep ≠ []) (hne : pieces ≠ [])
    (free : ∀ piece ∈ pieces, cut? sep piece = none) :
    split sep (join sep pieces) = pieces ↔ ∀ piece ∈ pieces.dropLast, Ends sep piece := by
  induction pieces with
  | nil => exact absurd rfl hne
  | cons piece rest ih =>
    obtain ⟨first, others⟩ := List.forall_mem_cons.mp free
    cases rest with
    | nil => simp [join, split_of_cut?_none hsep first]
    | cons next more =>
      obtain ⟨before, after, hcut, -⟩ := cut?_le sep piece (join sep (next :: more))
      have hends := cut?_append_iff sep piece (join sep (next :: more))
      rw [join_cons sep piece (by simp), split_of_cut? hsep hcut, List.dropLast_cons_cons,
        List.forall_mem_cons, ← hends, hcut, ← ih (by simp) others]
      constructor
      · intro h
        obtain ⟨rfl, hrest⟩ := List.cons.inj h
        have hwhole := eq_of_cut? hcut
        obtain rfl : join sep (next :: more) = after := List.append_cancel_left hwhole
        exact ⟨rfl, hrest⟩
      · rintro ⟨h, hrest⟩
        cases h
        rw [hrest]

/-- No beginning of a separator is its end, but for the empty one and the whole. -/
def Unbordered (sep : List Char) : Prop :=
  ∀ part, part <+: sep → part <:+ sep → part = [] ∨ part = sep

theorem unbordered_singleton (c : Char) : Unbordered [c] := by
  intro part hpre _
  rcases List.prefix_cons_iff.mp hpre with h | ⟨rest, h, hrest⟩
  · exact .inl h
  · exact .inr (by rw [h, List.prefix_nil.mp hrest])

/-- A separator without borders is found where it is put. -/
theorem ends_of_unbordered (unbordered : Unbordered sep) (free : cut? sep piece = none) :
    Ends sep piece := by
  obtain ⟨before, after, hcut, hle⟩ := cut?_le sep piece []
  rw [List.append_nil] at hcut
  have hwhole := eq_of_cut? hcut
  obtain ⟨late, rfl⟩ : before <+: piece :=
    List.prefix_of_prefix_length_le ⟨sep ++ after, by rw [hwhole, List.append_assoc]⟩
      (List.prefix_append piece sep) hle
  have hover : late ++ sep = sep ++ after := by
    rw [List.append_assoc, List.append_assoc] at hwhole
    exact List.append_cancel_left hwhole
  rcases Nat.lt_or_ge late.length sep.length with hshort | hlong
  · -- what is late is a beginning of the separator, so that the rest of it is a border
    obtain ⟨border, rfl⟩ : late <+: sep :=
      List.prefix_of_prefix_length_le (List.prefix_append late sep) ⟨after, hover.symm⟩
        (Nat.le_of_lt hshort)
    rw [List.append_assoc] at hover
    have hborder : late ++ border = border ++ after := List.append_cancel_left hover
    rcases unbordered border ⟨after, hborder.symm⟩ ⟨late, rfl⟩ with rfl | hall
    · simp at hshort
    · have hlate : late = [] := by simpa using hall
      have hafter : after = [] := by simpa [hlate] using hborder
      subst hlate hafter
      simpa only [Ends, List.append_nil] using hcut
  · obtain ⟨rest, rfl⟩ : sep <+: late :=
      List.prefix_of_prefix_length_le ⟨after, hover.symm⟩ (List.prefix_append late sep) hlong
    obtain ⟨_, _, hfound, -⟩ := cut?_le sep before rest
    rw [← List.append_assoc, hfound] at free
    cases free

/-- A text is cut at a separator without borders exactly if nothing before it holds the separator. -/
theorem cut?_eq_some_iff (hsep : sep ≠ []) (unbordered : Unbordered sep) :
    cut? sep cs = some (before, after) ↔ cs = before ++ sep ++ after ∧ ¬ sep <:+: before := by
  rw [← cut?_isSome_iff, Option.not_isSome_iff_eq_none]
  constructor
  · exact fun h => ⟨eq_of_cut? h, cut?_before hsep h⟩
  · rintro ⟨rfl, free⟩
    exact (cut?_append_iff sep before after).mpr (ends_of_unbordered unbordered free)

/-- A text is cut at the first place where a character stands. -/
theorem cut?_singleton {c : Char} (h : c ∉ before) (after : List Char) :
    cut? [c] (before ++ c :: after) = some (before, after) := by
  have free : cut? [c] before = none := cut?_eq_none_of_not_mem (List.mem_singleton_self c) h
  simpa using (cut?_append_iff [c] before after).mpr (ends_of_unbordered (unbordered_singleton c) free)

/-- What stands before the first place of a character and what follows it make up one text only. -/
theorem eq_of_append_cons {c : Char} {before' after' : List Char} (h : c ∉ before) (h' : c ∉ before')
    (same : before ++ c :: after = before' ++ c :: after') : before = before' ∧ after = after' := by
  have cut := cut?_singleton h after
  rw [same, cut?_singleton h' after', Option.some.injEq, Prod.mk.injEq] at cut
  exact ⟨cut.1.symm, cut.2.symm⟩

theorem cutLast?_eq_none_iff {c : Char} : cutLast? c cs = none ↔ c ∉ cs := by
  induction cs with
  | nil => simp [cutLast?]
  | cons d ds ih =>
    rw [cutLast?]
    cases h : cutLast? c ds with
    | some cut =>
      have later : c ∈ ds := by
        by_contra absent
        cases h.symm.trans (ih.mpr absent)
      simp [later]
    | none =>
      have absent := ih.mp h
      by_cases hd : d = c
      · simp [hd]
      · simp [hd, absent, Ne.symm hd]

/-- A text is cut at the last place where a character stands. -/
theorem cutLast?_append_cons (c : Char) (front rest : List Char) :
    cutLast? c (front ++ c :: rest) =
      some ((cutLast? c rest).elim (front, rest) fun cut => (front ++ c :: cut.1, cut.2)) := by
  induction front with
  | nil => cases h : cutLast? c rest <;> simp [cutLast?, h]
  | cons d front ih =>
    rw [List.cons_append, cutLast?, ih]
    cases cutLast? c rest <;> rfl

end IndexSync.Text
