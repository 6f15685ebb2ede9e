import StackMaps.Proofs.Slots.Order
import StackMaps.Proofs.Slots.Renaming

/-!
# Joining renamed slots

Slots that are joined are compared, but nothing else depends on their origins. So a change
of origins that keeps all of them apart can be made before a join or after it.
-/

namespace StackMaps

section Injective

variable {onOrigin : Nat → Nat} (injective : Function.Injective onOrigin)

include injective

theorem renameSlot_injective : Function.Injective (renameSlot onOrigin) := by
  refine Option.map_injective fun type other same => ?_
  cases type <;> cases other <;> simp_all [VerificationType.map, injective.eq_iff]

/-- States with other origins are the same only if the states are. -/
theorem SlotState.rename_injective : Function.Injective (SlotState.rename onOrigin) := by
  intro state other same
  have slots := renameSlot_injective injective
  exact ext_slots
    ((List.map_inj_right fun _ _ equal => slots equal).mp (congrArg SlotState.locals same))
    ((List.map_inj_right fun _ _ equal => slots equal).mp (congrArg (·.stack.slots) same))

namespace Hierarchy

variable {hierarchy : Hierarchy}

theorem join_renameSlot (slot other : Slot) :
    hierarchy.join (renameSlot onOrigin slot) (renameSlot onOrigin other) =
      renameSlot onOrigin (hierarchy.join slot other) := by
  cases slot with
  | none => rfl
  | some first =>
      cases other with
      | none => rfl
      | some second =>
          by_cases same : first = second
          · subst same
            simp [join, joinType_self]
          · have apart : first.map id onOrigin ≠ second.map id onOrigin := fun equal =>
              same (Option.some.inj (renameSlot_injective injective (congrArg some equal)))
            simp only [join, joinType, renameSlot_some, if_neg same, if_neg apart]
            cases first <;> cases second <;> rfl

theorem mergeSlot_renameSlot (widen : Bool) (slot other : Slot) :
    hierarchy.mergeSlot widen (renameSlot onOrigin slot) (renameSlot onOrigin other) =
      renameSlot onOrigin (hierarchy.mergeSlot widen slot other) := by
  simp only [mergeSlot, join_renameSlot injective, (renameSlot_injective injective).eq_iff]
  split
  · rfl
  · split
    · rfl
    · rfl

theorem mergeSlots_map_renameSlot (widen : Bool) (existing incoming : List Slot) :
    hierarchy.mergeSlots widen (existing.map (renameSlot onOrigin))
        (incoming.map (renameSlot onOrigin)) =
      (hierarchy.mergeSlots widen existing incoming).map (renameSlot onOrigin) := by
  refine List.ext_getElem? fun index => ?_
  simp only [getElem?_mergeSlots, List.getElem?_map]
  cases incoming[index]? with
  | none => rfl
  | some slot =>
      cases existing[index]? with
      | none => exact congrArg some (mergeSlot_renameSlot injective widen none slot)
      | some known => exact congrArg some (mergeSlot_renameSlot injective widen known slot)

theorem mergeStack_map_renameSlot (widen : Bool) (existing incoming : Stack) :
    hierarchy.mergeStack widen (existing.map (renameSlot onOrigin))
        (incoming.map (renameSlot onOrigin)) =
      (hierarchy.mergeStack widen existing incoming).map (renameSlot onOrigin) := by
  refine Stack.ext (List.reverse_inj.mp ?_)
  rw [slots_mergeStack, Stack.slots_map, Stack.slots_map, Stack.slots_map, ← List.map_reverse,
    ← List.map_reverse, ← List.map_reverse, mergeSlots_map_renameSlot injective, slots_mergeStack]

end Hierarchy

end Injective

/-- Plain slots have no origins to change. -/
theorem lenient_renameSlot (onOrigin : Nat → Nat) :
    Lenient fun slot => renameSlot onOrigin slot = slot where
  unknown := rfl
  plain _ isPlain := congrArg some (VerificationType.map_of_isPlain onOrigin isPlain)

/-- What a handler catches has no origin. -/
theorem Hierarchy.renameSlot_caughtType
    (hierarchy : Hierarchy)
    (onOrigin : Nat → Nat)
    (classes : List BinaryName) :
    renameSlot onOrigin (hierarchy.caughtType classes) = hierarchy.caughtType classes :=
  (lenient_renameSlot onOrigin).holds_caughtType hierarchy classes

/-! ## Joining twice -/

namespace Hierarchy

variable {hierarchy : Hierarchy}

/-- Over any hierarchy a type adds nothing to its join with another one. -/
theorem joinType_joinType_right (first second : SlotType) :
    hierarchy.joinType (hierarchy.joinType first second) second =
      hierarchy.joinType first second := by
  by_cases same : first = second
  · subst same
    simp [joinType_self]
  · obtain ⟨joined, joined_eq⟩ : ∃ type, hierarchy.joinType first second = type := ⟨_, rfl⟩
    rw [joined_eq]
    unfold joinType at joined_eq
    rw [if_neg same] at joined_eq
    split at joined_eq
    next type =>
        subst joined_eq
        exact joinType_self _
    next type =>
        subst joined_eq
        simp [joinType]
    next firstType secondType =>
        subst joined_eq
        rcases @eq_or_isAssignable_commonSupertype hierarchy firstType secondType with equal | above
        · rw [equal, joinType_self]
        · unfold joinType
          split
          · rfl
          · exact congrArg VerificationType.object (if_pos above)
    next =>
        subst joined_eq
        exact joinType_top second

theorem slotLe_join_right (slot other : Slot) :
    hierarchy.SlotLe other (hierarchy.join slot other) := by
  cases other with
  | none => exact none_slotLe _
  | some second =>
      cases slot with
      | none => exact SlotLe.refl _
      | some first => exact some_slotLe_some_iff.mpr (joinType_joinType_right first second)

/-- Over any hierarchy slots add nothing to those into which they have been joined. -/
theorem slotsLe_mergeSlots_right (existing incoming : List Slot) :
    hierarchy.SlotsLe incoming (hierarchy.mergeSlots false existing incoming) := by
  have slotLe : ∀ slot other, hierarchy.SlotLe other (hierarchy.mergeSlot false slot other) := by
    intro slot other
    have merged : hierarchy.mergeSlot false slot other = hierarchy.join slot other := by
      unfold mergeSlot
      dsimp only
      split
      next same => exact same.symm
      next => rfl
    exact merged ▸ slotLe_join_right slot other
  induction incoming generalizing existing with
  | nil => exact nil_slotsLe _
  | cons slot rest hypothesis =>
      cases existing with
      | nil =>
          rw [nil_mergeSlots]
          have tail := hypothesis []
          rw [nil_mergeSlots] at tail
          exact ⟨slotLe none slot, tail⟩
      | cons known existing =>
          rw [cons_mergeSlots_cons]
          exact ⟨slotLe known slot, hypothesis existing⟩

end Hierarchy

end StackMaps
