import IndexSync.Entity
import Mathlib.Tactic.Common

/-!
# Values that can be keys

Two of them are the same exactly if they have one form, so that sameness is symmetric and transitive
among them. The undefined number has no form.
-/
namespace IndexSync.Value

/-- What is left of a value that can be a key when the kinds of numbers are not told apart. -/
inductive Form
  | null
  | number (q : Rat)
  | infinite (negative : Bool)
  | text (s : String)
  | uuid (n : Nat)
  | bytes (bs : List UInt8)
  | tuple (items : List Form)
  | foreign (typeName text : String)

/-- The form of a number. -/
def numberForm? (v : Value) : Option Form :=
  match number? v, v with
  | some q, _ => some (.number q)
  | none, float (.infinite negative) => some (.infinite negative)
  | none, _ => none

mutual

def form? : Value → Option Form
  | null => some .null
  | text s => some (.text s)
  | uuid n => some (.uuid n)
  | bytes bs => some (.bytes bs)
  | tuple items => (forms? items).map .tuple
  | foreign name s => some (.foreign name s)
  | v => numberForm? v

def forms? : List Value → Option (List Form)
  | [] => some []
  | x :: xs => (form? x).bind fun f => (forms? xs).map (f :: ·)

end

/-- Two values have one form. -/
def Alike (a b : Value) : Prop := ∃ f, form? a = some f ∧ form? b = some f

theorem unhashableItem?_cons {x : Value} {xs : List Value} :
    unhashablePart?.unhashableItem? (x :: xs) = none ↔
      x.unhashablePart? = none ∧ unhashablePart?.unhashableItem? xs = none := by
  rw [unhashablePart?.unhashableItem?, Option.or_eq_none_iff]

theorem sameNumber_iff {a b : Value} :
    sameNumber a b = true ↔ ∃ f, numberForm? a = some f ∧ numberForm? b = some f := by
  unfold sameNumber numberForm?
  cases number? a with
  | some q =>
    cases number? b with
    | some r => simp [eq_comm]
    | none =>
      simp only [Bool.false_eq_true, Option.some.injEq, exists_eq_left', false_iff]
      split <;> simp_all
  | none =>
    cases number? b with
    | some r =>
      simp only [Bool.false_eq_true, false_iff]
      split <;> simp_all
    | none =>
      simp only
      split
      · simp [eq_comm]
      · rename_i apart
        simp only [Bool.false_eq_true, false_iff]
        rintro ⟨f, ha, hb⟩
        split at ha <;> simp_all

/-- The truth values are numbers, too. -/
def isNumber : Value → Bool
  | bool _ | int _ | float _ => true
  | _ => false

theorem same_of_isNumber {a b : Value} (h : a.isNumber ∨ b.isNumber) :
    same a b = sameNumber a b := by
  unfold same
  split <;> first | rfl | simp [isNumber] at h

theorem form?_of_isNumber {a : Value} (h : a.isNumber) : form? a = numberForm? a := by
  cases a <;> first | rfl | cases h

theorem numberForm?_of_not_isNumber {a : Value} (h : ¬ a.isNumber) : numberForm? a = none := by
  cases a <;> first | rfl | exact absurd rfl h

/-- No number has the form of a value that is none. -/
theorem form?_ne_numberForm? {a b : Value} (ha : ¬ a.isNumber) {f : Form}
    (hb : numberForm? b = some f) : form? a ≠ some f := by
  unfold numberForm? at hb
  split at hb <;> cases hb <;> cases a <;> simp_all [form?, numberForm?, number?, isNumber]

/-- If one of two values is a number, they have one form only as numbers. -/
theorem alike_iff_of_isNumber {a b : Value} (h : a.isNumber ∨ b.isNumber) :
    Alike a b ↔ ∃ f, numberForm? a = some f ∧ numberForm? b = some f := by
  by_cases ha : a.isNumber
  · by_cases hb : b.isNumber
    · rw [Alike, form?_of_isNumber ha, form?_of_isNumber hb]
    · rw [Alike, form?_of_isNumber ha, numberForm?_of_not_isNumber hb]
      constructor
      · rintro ⟨f, hfa, hfb⟩
        exact absurd hfb (form?_ne_numberForm? hb hfa)
      · rintro ⟨f, -, hfb⟩
        cases hfb
  · have hb : b.isNumber := h.resolve_left ha
    rw [Alike, form?_of_isNumber hb, numberForm?_of_not_isNumber ha]
    constructor
    · rintro ⟨f, hfa, hfb⟩
      exact absurd hfa (form?_ne_numberForm? ha hfb)
    · rintro ⟨f, hfa, -⟩
      cases hfa

mutual

theorem same_iff_alike {a b : Value} (ha : a.unhashablePart? = none)
    (hb : b.unhashablePart? = none) : same a b = true ↔ Alike a b := by
  by_cases number : a.isNumber ∨ b.isNumber
  · rw [same_of_isNumber number, sameNumber_iff, alike_iff_of_isNumber number]
  · rw [not_or] at number
    cases a with
    | tuple xs =>
      cases b with
      | tuple ys =>
        rw [same, sameItems_iff_alike ha hb]
        simp [Alike, form?]
      | _ => simp_all [same, sameNumber, number?, form?, Alike, isNumber, unhashablePart?]
    | _ =>
      cases b <;>
        simp [same, sameNumber, number?, form?, Alike, isNumber, unhashablePart?] at * <;> grind

theorem sameItems_iff_alike {xs ys : List Value}
    (hx : unhashablePart?.unhashableItem? xs = none)
    (hy : unhashablePart?.unhashableItem? ys = none) :
    sameItems xs ys = true ↔ ∃ fs, forms? xs = some fs ∧ forms? ys = some fs := by
  cases xs with
  | nil =>
    cases ys with
    | nil => simp [sameItems, forms?]
    | cons y ys => simp [sameItems, forms?, Option.bind_eq_some_iff]
  | cons x xs =>
    cases ys with
    | nil => simp [sameItems, forms?, Option.bind_eq_some_iff]
    | cons y ys =>
      rw [unhashableItem?_cons] at hx hy
      rw [sameItems, Bool.and_eq_true, same_iff_alike hx.1 hy.1, sameItems_iff_alike hx.2 hy.2]
      simp only [Alike, forms?, Option.bind_eq_some_iff, Option.map_eq_some_iff]
      constructor
      · rintro ⟨⟨f, hfx, hfy⟩, fs, hxs, hys⟩
        exact ⟨f :: fs, ⟨f, hfx, fs, hxs, rfl⟩, f, hfy, fs, hys, rfl⟩
      · rintro ⟨_, ⟨f, hfx, fs, hxs, rfl⟩, g, hgy, gs, hys, heq⟩
        cases heq
        exact ⟨⟨f, hfx, hgy⟩, fs, hxs, hys⟩

end

/-- A value that can be a key. -/
def Hashable (v : Value) : Prop := v.requireKey = .ok ()

theorem hashable_iff {v : Value} : v.Hashable ↔ v.unhashablePart? = none := by
  unfold Hashable requireKey
  cases v.unhashablePart? <;> simp

variable {a b c : Value}

theorem beq_iff_alike (ha : a.Hashable) (hb : b.Hashable) : (a == b) = true ↔ Alike a b :=
  same_iff_alike (hashable_iff.mp ha) (hashable_iff.mp hb)

theorem beq_comm (ha : a.Hashable) (hb : b.Hashable) : (a == b) = (b == a) := by
  rw [Bool.eq_iff_iff, beq_iff_alike ha hb, beq_iff_alike hb ha]
  constructor <;> exact fun ⟨f, hf, hg⟩ => ⟨f, hg, hf⟩

theorem beq_trans (ha : a.Hashable) (hb : b.Hashable) (hc : c.Hashable) (hab : (a == b) = true)
    (hbc : (b == c) = true) : (a == c) = true := by
  obtain ⟨f, hfa, hfb⟩ := (beq_iff_alike ha hb).mp hab
  obtain ⟨g, hgb, hgc⟩ := (beq_iff_alike hb hc).mp hbc
  obtain rfl := Option.some.inj (hfb.symm.trans hgb)
  exact (beq_iff_alike ha hc).mpr ⟨f, hfa, hgc⟩

/-- Values that are the same are the same as the same others. -/
theorem beq_congr (ha : a.Hashable) (hb : b.Hashable) (hc : c.Hashable) (hab : (a == b) = true) :
    (a == c) = (b == c) := by
  rw [Bool.eq_iff_iff]
  constructor
  · exact beq_trans hb ha hc (beq_comm ha hb ▸ hab)
  · exact beq_trans ha hb hc hab

mutual

/-- An integer, a text, or a tuple of such values. -/
def isPlain : Value → Bool
  | int _ | text _ => true
  | tuple items => arePlain items
  | _ => false

def arePlain : List Value → Bool
  | [] => true
  | x :: xs => isPlain x && arePlain xs

end

mutual

theorem unhashablePart?_of_isPlain {v : Value} (h : v.isPlain) : v.unhashablePart? = none := by
  cases v with
  | tuple items => exact unhashableItem?_of_arePlain h
  | int n => rfl
  | text s => rfl
  | _ => cases h

theorem unhashableItem?_of_arePlain {vs : List Value} (h : arePlain vs) :
    unhashablePart?.unhashableItem? vs = none := by
  cases vs with
  | nil => rfl
  | cons x xs =>
    rw [arePlain, Bool.and_eq_true] at h
    exact unhashableItem?_cons.mpr ⟨unhashablePart?_of_isPlain h.1, unhashableItem?_of_arePlain h.2⟩

end

theorem hashable_of_isPlain (h : a.isPlain) : a.Hashable :=
  hashable_iff.mpr (unhashablePart?_of_isPlain h)

mutual

theorem same_iff_eq {a b : Value} (ha : a.isPlain) (hb : b.isPlain) : same a b = true ↔ a = b := by
  cases a with
  | int m =>
    cases b with
    | int n => simp [same, sameNumber, number?]
    | text s => simp [same, sameNumber, number?]
    | tuple ys => simp [same, sameNumber, number?]
    | _ => cases hb
  | text s =>
    cases b with
    | int n => simp [same, sameNumber, number?]
    | text t => simp [same]
    | tuple ys => simp [same, sameNumber, number?]
    | _ => cases hb
  | tuple xs =>
    cases b with
    | int n => simp [same, sameNumber, number?]
    | text t => simp [same, sameNumber, number?]
    | tuple ys => rw [same, sameItems_iff_eq ha hb, tuple.injEq]
    | _ => cases hb
  | _ => cases ha

theorem sameItems_iff_eq {xs ys : List Value} (hx : arePlain xs) (hy : arePlain ys) :
    sameItems xs ys = true ↔ xs = ys := by
  cases xs with
  | nil => cases ys <;> simp [sameItems]
  | cons x xs =>
    cases ys with
    | nil => simp [sameItems]
    | cons y ys =>
      rw [arePlain, Bool.and_eq_true] at hx hy
      rw [sameItems, Bool.and_eq_true, same_iff_eq hx.1 hy.1, sameItems_iff_eq hx.2 hy.2,
        List.cons.injEq]

end

/-- Plain values are told apart. -/
theorem beq_iff_eq_of_isPlain (ha : a.isPlain) (hb : b.isPlain) : (a == b) = true ↔ a = b :=
  same_iff_eq ha hb

mutual

/-- A value that ids have: an integer, a text, a UUID, or a tuple of such values. The truth values are
integers, too. -/
def isId : Value → Bool
  | bool _ | int _ | text _ | uuid _ => true
  | tuple items => areIds items
  | _ => false

def areIds : List Value → Bool
  | [] => true
  | x :: xs => isId x && areIds xs

end

mutual

theorem key_of_isId {v : Value} (h : v.isId) : v.unhashablePart? = none ∧ same v v = true := by
  cases v with
  | tuple items =>
    rw [unhashablePart?, same]
    exact keys_of_areIds h
  | bool b => exact ⟨rfl, by simp [same, sameNumber, number?]⟩
  | int n => exact ⟨rfl, by simp [same, sameNumber, number?]⟩
  | text s => exact ⟨rfl, by simp [same]⟩
  | uuid n => exact ⟨rfl, by simp [same]⟩
  | _ => cases h

theorem keys_of_areIds {vs : List Value} (h : areIds vs) :
    unhashablePart?.unhashableItem? vs = none ∧ sameItems vs vs = true := by
  cases vs with
  | nil => exact ⟨rfl, by rw [sameItems]⟩
  | cons x xs =>
    rw [areIds, Bool.and_eq_true] at h
    obtain ⟨hx, self⟩ := key_of_isId h.1
    obtain ⟨hxs, selves⟩ := keys_of_areIds h.2
    exact ⟨unhashableItem?_cons.mpr ⟨hx, hxs⟩, by rw [sameItems, self, selves]; rfl⟩

end

theorem hashable_of_isId (h : a.isId) : a.Hashable := hashable_iff.mpr (key_of_isId h).1

theorem beq_self_of_isId (h : a.isId) : (a == a) = true := (key_of_isId h).2

end IndexSync.Value
