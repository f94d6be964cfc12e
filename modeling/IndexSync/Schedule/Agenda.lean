/-! Jobs in the order in which they come due. Of jobs that are due at the same time the one that was
added first comes first. -/
namespace IndexSync.Schedule

structure Entry (J : Type) where
  due : Rat
  job : J
  deriving Repr

abbrev Agenda (J : Type) := List (Entry J)

namespace Agenda

variable {J : Type}

def add (due : Rat) (job : J) : Agenda J → Agenda J
  | [] => [⟨due, job⟩]
  | e :: rest => if e.due ≤ due then e :: add due job rest else ⟨due, job⟩ :: e :: rest

/-- Later jobs are not due earlier. -/
def IsOrdered (agenda : Agenda J) : Prop := agenda.Pairwise fun d e => d.due ≤ e.due

theorem mem_add {due : Rat} {job : J} {agenda : Agenda J} {e : Entry J} :
    e ∈ add due job agenda ↔ e = ⟨due, job⟩ ∨ e ∈ agenda := by
  induction agenda with
  | nil => simp [add]
  | cons d rest ih =>
    by_cases h : d.due ≤ due
    · simp only [add, h, if_true, List.mem_cons, ih]
      exact ⟨fun h => by rcases h with h | h | h <;> simp [h],
        fun h => by rcases h with h | h | h <;> simp [h]⟩
    · simp [add, h]

theorem add_perm (due : Rat) (job : J) (agenda : Agenda J) :
    (add due job agenda).Perm (⟨due, job⟩ :: agenda) := by
  induction agenda with
  | nil => exact .refl _
  | cons e rest ih =>
    by_cases h : e.due ≤ due
    · simp only [add, h, if_true]
      exact (ih.cons _).trans (.swap ..)
    · simp only [add, h, if_false]
      exact .refl _

theorem IsOrdered.add {agenda : Agenda J} (h : agenda.IsOrdered) (due : Rat) (job : J) :
    (agenda.add due job).IsOrdered := by
  unfold IsOrdered at *
  induction agenda with
  | nil => simp [Agenda.add]
  | cons d rest ih =>
    obtain ⟨hd, hr⟩ := List.pairwise_cons.1 h
    by_cases hle : d.due ≤ due
    · simp only [Agenda.add, hle, if_true, List.pairwise_cons]
      refine ⟨fun e he => ?_, ih hr⟩
      rcases mem_add.1 he with rfl | he
      · exact hle
      · exact hd e he
    · simp only [Agenda.add, hle, if_false, List.pairwise_cons]
      have hlt : due ≤ d.due := Rat.le_of_lt (Rat.not_le.1 hle)
      refine ⟨fun e he => ?_, hd, hr⟩
      rcases List.mem_cons.1 he with rfl | he
      · exact hlt
      · exact Rat.le_trans hlt (hd e he)

end Agenda
end IndexSync.Schedule
