import Mathlib.Data.List.Forall2
import Mathlib.Tactic.Common

/-! Taking apart computations that went well, one by one and in lists. -/
namespace IndexSync

variable {ε α β : Type} {x : Except ε α} {next : α → Except ε β}

theorem ok_of_bind {b : β} (h : x >>= next = .ok b) : ∃ a, x = .ok a ∧ next a = .ok b := by
  cases x with
  | error e => cases h
  | ok a => exact ⟨a, rfl, h⟩

theorem ok_of_toOption {a : α} (h : x.toOption = some a) : x = .ok a := by
  cases x with
  | error e => cases h
  | ok b => exact congrArg _ (Option.some.inj h)

theorem exists_ok_of_isOk (h : x.isOk = true) : ∃ a, x = .ok a := by
  cases x with
  | error e => cases h
  | ok a => exact ⟨a, rfl⟩

theorem forall₂_of_mapM {f : α → Except ε β} {as : List α} {bs : List β}
    (h : as.mapM f = .ok bs) : List.Forall₂ (fun a b => f a = .ok b) as bs := by
  induction as generalizing bs with
  | nil =>
    cases h
    exact .nil
  | cons a rest ih =>
    rw [List.mapM_cons] at h
    obtain ⟨b, hb, h⟩ := ok_of_bind h
    obtain ⟨others, hrest, h⟩ := ok_of_bind h
    cases h
    exact .cons hb (ih hrest)

theorem mapM_of_ok {f : α → Except ε β} {as : List α} (h : ∀ a ∈ as, ∃ b, f a = .ok b) :
    as.mapM f = .ok (as.filterMap fun a => (f a).toOption) := by
  induction as with
  | nil => rfl
  | cons a rest ih =>
    obtain ⟨b, hb⟩ := h a List.mem_cons_self
    rw [List.mapM_cons, ih fun c hc => h c (List.mem_cons_of_mem _ hc), hb]
    simp [hb, Except.toOption]
    rfl

/-- Where all that is refused is refused alike, a list with something refused is. -/
theorem mapM_of_error {f : α → Except ε β} {as : List α} {e : ε}
    (alike : ∀ a ∈ as, (∃ b, f a = .ok b) ∨ f a = .error e) (refused : ∃ a ∈ as, f a = .error e) :
    as.mapM f = .error e := by
  induction as with
  | nil =>
    obtain ⟨a, ha, -⟩ := refused
    cases ha
  | cons a rest ih =>
    rw [List.forall_mem_cons] at alike
    rw [List.mapM_cons]
    rcases alike.1 with ⟨b, hb⟩ | ha
    · have later : ∃ c ∈ rest, f c = .error e := by
        obtain ⟨c, hc, hfc⟩ := refused
        rcases List.mem_cons.mp hc with rfl | hc
        · cases hb.symm.trans hfc
        · exact ⟨c, hc, hfc⟩
      rw [hb, ih alike.2 later]
      rfl
    · rw [ha]
      rfl

theorem error_of_mapM {f : α → Except ε β} {as : List α} {e : ε} (h : as.mapM f = .error e) :
    ∃ a ∈ as, f a = .error e := by
  induction as with
  | nil => cases h
  | cons a rest ih =>
    rw [List.mapM_cons] at h
    cases ha : f a with
    | error e' =>
      rw [ha] at h
      cases h
      exact ⟨a, List.mem_cons_self, ha⟩
    | ok b =>
      rw [ha] at h
      cases hrest : rest.mapM f with
      | ok bs =>
        simp only [hrest] at h
        cases h
      | error e' =>
        simp only [hrest] at h
        cases h
        obtain ⟨c, hc, hfc⟩ := ih hrest
        exact ⟨c, List.mem_cons_of_mem _ hc, hfc⟩

theorem exists_right_of_forall₂ {R : α → β → Prop} {as : List α} {bs : List β}
    (h : List.Forall₂ R as bs) {a : α} (ha : a ∈ as) : ∃ b ∈ bs, R a b := by
  induction h with
  | nil => cases ha
  | cons hr _ ih =>
    rcases List.mem_cons.mp ha with rfl | ha
    · exact ⟨_, List.mem_cons_self, hr⟩
    · obtain ⟨b, hb, hab⟩ := ih ha
      exact ⟨b, List.mem_cons_of_mem _ hb, hab⟩

theorem exists_left_of_forall₂ {R : α → β → Prop} {as : List α} {bs : List β}
    (h : List.Forall₂ R as bs) {b : β} (hb : b ∈ bs) : ∃ a ∈ as, R a b :=
  exists_right_of_forall₂ (List.Forall₂.flip (R := flip R) h) hb

end IndexSync
