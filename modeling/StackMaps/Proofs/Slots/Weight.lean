import StackMaps.Proofs.Slots.Order

/-!
# The weight of slots

A slot weighs one, and two once it is `top`. No merge makes slots lighter, and a
widened merge that changes anything makes them heavier, over any hierarchy.
-/

namespace StackMaps

/-- The weight of a slot. -/
def slotWeight : Slot → Nat
  | some .top => 2
  | _ => 1

/-- The weight of some slots together. -/
def slotsWeight : List Slot → Nat
  | [] => 0
  | slot :: rest => slotWeight slot + slotsWeight rest

@[simp] theorem slotsWeight_nil : slotsWeight [] = 0 := rfl

@[simp] theorem slotsWeight_cons (slot : Slot) (rest : List Slot) :
    slotsWeight (slot :: rest) = slotWeight slot + slotsWeight rest := rfl

theorem slotsWeight_append (left right : List Slot) :
    slotsWeight (left ++ right) = slotsWeight left + slotsWeight right := by
  induction left with
  | nil => exact (Nat.zero_add _).symm
  | cons slot rest hypothesis =>
      rw [List.cons_append, slotsWeight_cons, slotsWeight_cons, hypothesis, Nat.add_assoc]

@[simp] theorem slotsWeight_reverse (slots : List Slot) :
    slotsWeight slots.reverse = slotsWeight slots := by
  induction slots with
  | nil => rfl
  | cons slot rest hypothesis =>
      rw [List.reverse_cons, slotsWeight_append, slotsWeight_cons, slotsWeight_nil, hypothesis,
        slotsWeight_cons, Nat.add_zero, Nat.add_comm]

theorem slotWeight_pos (slot : Slot) : 1 ≤ slotWeight slot := by
  unfold slotWeight
  split <;> decide

theorem slotWeight_le (slot : Slot) : slotWeight slot ≤ 2 := by
  unfold slotWeight
  split <;> decide

theorem slotWeight_of_ne_top {slot : Slot} (other : slot ≠ some .top) : slotWeight slot = 1 := by
  unfold slotWeight
  split
  · exact absurd rfl other
  · rfl

theorem slotsWeight_le (slots : List Slot) : slotsWeight slots ≤ 2 * slots.length := by
  induction slots with
  | nil => exact Nat.le_refl 0
  | cons slot rest hypothesis =>
      have := slotWeight_le slot
      rw [slotsWeight_cons, List.length_cons]
      omega

namespace Hierarchy

variable {hierarchy : Hierarchy} {widen : Bool}

/-- A widened slot that changes becomes `top`. -/
theorem mergeSlot_eq_top
    {existing incoming : Slot}
    (changed : hierarchy.mergeSlot true existing incoming ≠ existing) :
    hierarchy.mergeSlot true existing incoming = some .top ∧ existing ≠ some .top := by
  have adds : ¬hierarchy.join existing incoming = existing :=
    fun same => changed (mergeSlot_eq_self_iff.mpr same)
  refine ⟨?_, ?_⟩
  · simp only [mergeSlot, adds, if_false, if_true]
  · rintro rfl
    exact adds (slotLe_top incoming)

theorem slotWeight_mergeSlot_le (existing incoming : Slot) :
    slotWeight existing ≤ slotWeight (hierarchy.mergeSlot widen existing incoming) := by
  by_cases isTop : existing = some .top
  · subst isTop
    have kept : hierarchy.mergeSlot widen (some .top) incoming = some .top :=
      mergeSlot_eq_self_iff.mpr (slotLe_top incoming)
    exact Nat.le_of_eq (congrArg slotWeight kept.symm)
  · rw [slotWeight_of_ne_top isTop]
    exact slotWeight_pos _

theorem slotWeight_mergeSlot_lt
    {existing incoming : Slot}
    (changed : hierarchy.mergeSlot true existing incoming ≠ existing) :
    slotWeight existing < slotWeight (hierarchy.mergeSlot true existing incoming) := by
  obtain ⟨isTop, wasOther⟩ := mergeSlot_eq_top changed
  rw [isTop, slotWeight_of_ne_top wasOther]
  decide

theorem slotsWeight_mergeSlots_le (existing incoming : List Slot) :
    slotsWeight existing ≤ slotsWeight (hierarchy.mergeSlots widen existing incoming) := by
  induction incoming generalizing existing with
  | nil => simp
  | cons slot rest hypothesis =>
      cases existing with
      | nil => exact Nat.zero_le _
      | cons known existing =>
          rw [cons_mergeSlots_cons, slotsWeight_cons, slotsWeight_cons]
          exact Nat.add_le_add (slotWeight_mergeSlot_le known slot) (hypothesis existing)

theorem slotsWeight_mergeSlots_lt
    {existing incoming : List Slot}
    (changed : hierarchy.mergeSlots true existing incoming ≠ existing) :
    slotsWeight existing < slotsWeight (hierarchy.mergeSlots true existing incoming) := by
  induction incoming generalizing existing with
  | nil => exact absurd (mergeSlots_nil existing) changed
  | cons slot rest hypothesis =>
      cases existing with
      | nil =>
          rw [nil_mergeSlots, List.map_cons, slotsWeight_cons]
          exact Nat.lt_of_lt_of_le (slotWeight_pos _) (Nat.le_add_right _ _)
      | cons known existing =>
          rw [cons_mergeSlots_cons] at changed ⊢
          rw [slotsWeight_cons, slotsWeight_cons]
          by_cases same : hierarchy.mergeSlot true known slot = known
          · have later : hierarchy.mergeSlots true existing rest ≠ existing := by
              intro unchanged
              exact changed (by rw [same, unchanged])
            rw [same]
            exact Nat.add_lt_add_left (hypothesis later) _
          · exact Nat.add_lt_add_of_lt_of_le (slotWeight_mergeSlot_lt same)
              (slotsWeight_mergeSlots_le existing rest)

theorem slotsWeight_mergeStack_le (existing incoming : Stack) :
    slotsWeight existing.slots ≤
      slotsWeight (hierarchy.mergeStack widen existing incoming).slots := by
  rw [← slotsWeight_reverse, ← slotsWeight_reverse (hierarchy.mergeStack _ _ _).slots,
    slots_mergeStack]
  exact slotsWeight_mergeSlots_le _ _

theorem slotsWeight_mergeStack_lt
    {existing incoming : Stack}
    (changed : hierarchy.mergeStack true existing incoming ≠ existing) :
    slotsWeight existing.slots <
      slotsWeight (hierarchy.mergeStack true existing incoming).slots := by
  rw [← slotsWeight_reverse, ← slotsWeight_reverse (hierarchy.mergeStack _ _ _).slots,
    slots_mergeStack]
  refine slotsWeight_mergeSlots_lt fun same => changed ?_
  rw [mergeStack_eq_self_iff, StackLe, ← @mergeSlots_eq_self_iff hierarchy true]
  exact same

end Hierarchy

end StackMaps
