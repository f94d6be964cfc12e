import IndexSync.Capture.Model

/-!
# The values of a selected row

Of the values that are selected of a row the first is the key, the last is the code, and those between them
form the id.
-/
namespace IndexSync

/-- A value that a column of codes holds: an integer, a text, or nothing. -/
def Value.IsCode : Value → Prop
  | .null | .int _ | .text _ => True
  | _ => False

namespace Value

/-- An infinite number. -/
def IsInfinite : Value → Prop
  | .float (.infinite _) => True
  | _ => False

theorem readInteger_ne_infinite (base : Nat) (chars : List Char) (shown : String) :
    readInteger base chars shown ≠ .error .infiniteNumber := by
  unfold readInteger
  split
  · nofun
  · nofun
  · simp [malformedInteger]

/-- No value but an infinite number is refused as one. -/
theorem toInteger_infinite_iff {v : Value} : v.toInteger = .error .infiniteNumber ↔ v.IsInfinite := by
  cases v with
  | float x => cases x <;> simp [toInteger, IsInfinite]
  | text s => exact iff_of_false (readInteger_ne_infinite 10 _ _) id
  | bytes bs => exact iff_of_false (readInteger_ne_infinite 10 _ _) id
  | _ => simp [toInteger, IsInfinite]

end Value

namespace EventKind

variable {v : Value}

/-- An infinite code is refused, and no other. -/
theorem ofCode_refused_iff {f : Failure} :
    ofCode v = .error f ↔ v.IsInfinite ∧ f = .conversion .infiniteNumber := by
  rw [← Value.toInteger_infinite_iff]
  unfold ofCode
  split
  · rename_i h
    simp [h]
  · rename_i h
    simp [h, eq_comm]
  · rename_i e infinite h
    simpa [h] using fun same => absurd same infinite

theorem ofCode_of_finite (finite : ¬ v.IsInfinite) : ∃ kind, ofCode v = .ok kind := by
  cases h : ofCode v with
  | ok kind => exact ⟨kind, rfl⟩
  | error f => exact absurd (ofCode_refused_iff.mp h).1 finite

theorem ofInteger_captured_iff {kind : EventKind} {code n : Int} (h : kind.code? = some code) :
    ofInteger n = kind ↔ n = code := by
  unfold ofInteger captured
  by_cases insert : n = -3
  · subst insert
    cases kind <;> cases h <;> decide
  · by_cases update : n = -2
    · subst update
      cases kind <;> cases h <;> decide
    · by_cases delete : n = -1
      · subst delete
        cases kind <;> cases h <;> decide
      · cases kind <;> cases h <;> simp [code?, insert, update, delete, eq_comm]

/-- A code stands for a captured kind exactly if it is cut to the integer of this kind. -/
theorem ofCode_captured_iff {kind : EventKind} {code : Int} (h : kind.code? = some code) :
    ofCode v = .ok kind ↔ v.toInteger = .ok code := by
  unfold ofCode
  split
  · rename_i n hn
    rw [hn, Except.ok.injEq, Except.ok.injEq, ofInteger_captured_iff h]
  · rename_i hv
    simp [hv]
  · rename_i e _ hv
    rw [hv]
    simp only [Except.ok.injEq, reduceCtorEq, iff_false]
    rintro rfl
    cases h

/-- All other codes that are not refused are unknown. -/
theorem ofCode_unknown_iff : ofCode v = .ok .unknown ↔
    ¬ v.IsInfinite ∧ ∀ (kind : EventKind) code, kind.code? = some code → v.toInteger ≠ .ok code := by
  constructor
  · intro h
    refine ⟨fun infinite => ?_, fun kind code hkind hv => ?_⟩
    · rw [ofCode_refused_iff.mpr ⟨infinite, rfl⟩] at h
      cases h
    · rw [(ofCode_captured_iff hkind).mpr hv] at h
      cases h
      cases hkind
  · rintro ⟨finite, other⟩
    obtain ⟨kind, hkind⟩ := ofCode_of_finite finite
    cases hcode : kind.code? with
    | none =>
      cases kind <;> cases hcode
      exact hkind
    | some code => exact absurd ((ofCode_captured_iff hcode).mp hkind) (other kind code hcode)

theorem ofCode_code {kind : EventKind} {code : Int} (h : kind.code? = some code) :
    ofCode (.int code) = .ok kind := by
  cases kind <;> cases h <;> rfl

/-- No integer, text or null is refused. What is no code of a trigger is unknown. -/
theorem ofCode_of_isCode (h : v.IsCode) : ∃ kind, ofCode v = .ok kind :=
  ofCode_of_finite (by cases v <;> first | exact id | cases h)

end EventKind

namespace CaptureModel

variable {m : CaptureModel}

/-- The id that several values form: the bare value if there is one, and a tuple otherwise. -/
def idOf : List Value → Value
  | [v] => v
  | values => .tuple values

theorem entityId_eq {values : List Value} (h : values.length = m.idColumns.length) (any : values ≠ []) :
    m.entityId values = .ok (idOf values) := by
  match values with
  | [v] => simp [entityId, hasCompositeId, ← h, idOf]
  | v :: w :: others => simp [entityId, hasCompositeId, ← h, idOf]

/-- The values between the first and the last are the id. What is wrong with the last, if anything, is all that
is wrong. -/
theorem eventOfSelection_map {ids : List Value} (h : ids.length = m.idColumns.length) (any : ids ≠ [])
    (code : Value) (key : Int) : m.eventOfSelection (.int key :: ids ++ [code]) =
      (EventKind.ofCode code).map fun kind => ⟨m.entityType, idOf ids, kind, key, m.captureTable⟩ := by
  have middle : (Value.int key :: ids ++ [code]).tail.dropLast = ids := by simp
  have last : (Value.int key :: ids ++ [code]).getLastD .null = code := by
    rw [List.getLastD_eq_getLast?, List.getLast?_concat]
    rfl
  rw [eventOfSelection, middle, last, entityId_eq h any]
  cases EventKind.ofCode code <;> rfl

theorem eventOfSelection_eq {ids : List Value} (h : ids.length = m.idColumns.length) (any : ids ≠ [])
    {kind : EventKind} {code : Value} (read : EventKind.ofCode code = .ok kind) (key : Int) :
    m.eventOfSelection (.int key :: ids ++ [code]) =
      .ok ⟨m.entityType, idOf ids, kind, key, m.captureTable⟩ := by
  rw [eventOfSelection_map h any, read]
  rfl

end CaptureModel
end IndexSync
