import StackMaps.Proofs.Slots.Origins

/-!
# The order of states

One state is below another one if it has as many slots and every slot adds nothing to the
other one. The operations on the stack keep this, and so does a store, unless only one of the
stored slots is wide.
-/

namespace StackMaps

/-! ## Places -/

/-- A change that leaves unknown slots alone can be made before a missing slot is found to be
unknown. -/
theorem join_map_of_unknown
    {change : Slot → Slot}
    (unknown : change none = none)
    (found : Option Slot) :
    (found.map change).join = change found.join := by
  cases found with
  | none => exact unknown.symm
  | some slot => rfl

namespace SlotState

/-- A variable that is made to exist is unknown, as it was before. -/
theorem join_getElem?_extendTo (locals : List Slot) (index place : Nat) :
    ((extendTo locals index)[place]?).join = (locals[place]?).join := by
  rw [getElem?_extendTo]
  split
  next => rfl
  next outside =>
      rw [List.getElem?_eq_none (Nat.le_of_not_lt outside)]
      split <;> rfl

variable (state : SlotState)

theorem peek_eq_slotAt : state.peek = state.slotAt 0 := by
  unfold peek slotAt
  cases state.stack.slots <;> rfl

@[simp] theorem slotAt_pushSlot_zero (slot : Slot) : (state.pushSlot slot).slotAt 0 = slot := rfl

@[simp] theorem slotAt_pushSlot_succ (slot : Slot) (depth : Nat) :
    (state.pushSlot slot).slotAt (depth + 1) = state.slotAt depth := rfl

@[simp] theorem slotAt_drop (count depth : Nat) :
    (state.drop count).slotAt depth = state.slotAt (count + depth) := by
  simp [slotAt, drop]

@[simp] theorem localSlot_touch (index place : Nat) :
    (state.touch index).localSlot place = state.localSlot place :=
  join_getElem?_extendTo state.locals index place

theorem drop_push (type : SlotType) : (state.push type).drop type.width = state := by
  unfold push VerificationType.width
  split <;> rfl

/-- Put slots on top of the stack, the first of which comes to lie above the others. -/
theorem pushAll_cons (stack : Stack) (slot : Slot) (slots : List Slot) :
    stack.pushAll (slot :: slots) = (stack.pushAll slots).push slot :=
  Stack.ext rfl

theorem localSlot_replaceAll (old new : SlotType) (index : Nat) :
    (state.replaceAll old new).localSlot index =
      if state.localSlot index = some old then some new else state.localSlot index := by
  simp only [localSlot, replaceAll, List.getElem?_map]
  apply join_map_of_unknown
  simp

theorem slotAt_replaceAll (old new : SlotType) (depth : Nat) :
    (state.replaceAll old new).slotAt depth =
      if state.slotAt depth = some old then some new else state.slotAt depth := by
  simp only [slotAt, replaceAll, Stack.slots_map, List.getElem?_map]
  apply join_map_of_unknown
  simp

/-- What a variable holds after a store. -/
theorem localSlot_store (index place : Nat) (slot : Slot) :
    (state.store index slot).localSlot place =
      if place = index then slot
      else if place = index + 1 ∧ isWideSlot slot = true then some .top
      else if place + 1 = index ∧ isWideSlot (state.localSlot place) = true then some .top
      else state.localSlot place := by
  unfold localSlot
  rw [getElem?_store]
  split
  next => rfl
  next =>
      split
      next => rfl
      next =>
          rw [getElem?_breakWideBefore, join_map_of_unknown (by simp [isWideSlot]),
            join_getElem?_extendTo]

theorem localSlot_store_self (index : Nat) (slot : Slot) :
    (state.store index slot).localSlot index = slot := by
  rw [localSlot_store, if_pos rfl]

/-- A store of a wide value writes the variable behind its own, too. -/
theorem localSlot_store_succ (index : Nat) (slot : Slot) :
    (state.store index slot).localSlot (index + 1) =
      if isWideSlot slot = true then some .top else state.localSlot (index + 1) := by
  have notBefore : ¬index + 1 + 1 = index := by omega
  simp [localSlot_store, notBefore]

/-- A store leaves the other variables alone, except that it breaks a wide value in front. -/
theorem localSlot_store_of_ne
    {index place : Nat}
    (other : place ≠ index)
    (notBehind : place ≠ index + 1)
    (slot : Slot) :
    (state.store index slot).localSlot place =
      if place + 1 = index ∧ isWideSlot (state.localSlot place) = true then some .top
      else state.localSlot place := by
  simp [localSlot_store, other, notBehind]

end SlotState

variable {hierarchy : Hierarchy}

namespace Hierarchy

open SlotState

/-! ## States -/

/-- Two states have as many slots, and every slot of the first adds nothing to that of the
second. -/
structure StateLe (hierarchy : Hierarchy) (lower upper : SlotState) : Prop where
  length_locals : lower.locals.length = upper.locals.length
  localSlot : ∀ index, hierarchy.SlotLe (lower.localSlot index) (upper.localSlot index)
  depth : lower.stack.depth = upper.stack.depth
  slotAt : ∀ depth, hierarchy.SlotLe (lower.slotAt depth) (upper.slotAt depth)

instance (lower upper : Slot) : Decidable (hierarchy.SlotLe lower upper) :=
  inferInstanceAs (Decidable (hierarchy.join upper lower = upper))

variable {lower upper : SlotState}

/-- Only the slots that there are can be out of order. -/
theorem stateLe_iff_forall_lt :
    hierarchy.StateLe lower upper ↔
      lower.locals.length = upper.locals.length ∧
        (∀ index < lower.locals.length,
          hierarchy.SlotLe (lower.localSlot index) (upper.localSlot index)) ∧
        lower.stack.depth = upper.stack.depth ∧
        ∀ depth < lower.stack.depth,
          hierarchy.SlotLe (lower.slotAt depth) (upper.slotAt depth) := by
  constructor
  · exact fun le => ⟨le.length_locals, fun index _ => le.localSlot index, le.depth,
      fun depth _ => le.slotAt depth⟩
  · rintro ⟨length_locals, localSlot, depth_eq, slotAt⟩
    refine ⟨length_locals, fun index => ?_, depth_eq, fun depth => ?_⟩
    · by_cases inside : index < lower.locals.length
      · exact localSlot index inside
      · rw [SlotState.localSlot, List.getElem?_eq_none (Nat.le_of_not_lt inside)]
        exact none_slotLe _
    · by_cases inside : depth < lower.stack.depth
      · exact slotAt depth inside
      · rw [lower.stack.depth_eq] at inside
        rw [SlotState.slotAt, List.getElem?_eq_none (Nat.le_of_not_lt inside)]
        exact none_slotLe _

instance : Decidable (hierarchy.StateLe lower upper) :=
  decidable_of_iff _ stateLe_iff_forall_lt.symm

/-! ## Operations on the stack -/

/-- Pushed slots must be in order, too. -/
theorem StateLe.pushSlot_iff
    (le : hierarchy.StateLe lower upper)
    {slot other : Slot} :
    hierarchy.StateLe (lower.pushSlot slot) (upper.pushSlot other) ↔
      hierarchy.SlotLe slot other := by
  constructor
  · intro pushed
    simpa using pushed.slotAt 0
  · intro slotLe
    refine ⟨le.length_locals, le.localSlot, congrArg (· + 1) le.depth, fun depth => ?_⟩
    cases depth with
    | zero => simpa using slotLe
    | succ depth => simpa using le.slotAt depth

theorem StateLe.pushSlot (le : hierarchy.StateLe lower upper) (slot : Slot) :
    hierarchy.StateLe (lower.pushSlot slot) (upper.pushSlot slot) :=
  le.pushSlot_iff.mpr (SlotLe.refl slot)

theorem StateLe.push (le : hierarchy.StateLe lower upper) (type : SlotType) :
    hierarchy.StateLe (lower.push type) (upper.push type) := by
  unfold SlotState.push
  split
  · exact (le.pushSlot _).pushSlot _
  · exact le.pushSlot _

theorem StateLe.pushField (le : hierarchy.StateLe lower upper) (type : FieldType) :
    hierarchy.StateLe (lower.pushField type) (upper.pushField type) :=
  le.push _

theorem StateLe.drop (le : hierarchy.StateLe lower upper) (count : Nat) :
    hierarchy.StateLe (lower.drop count) (upper.drop count) where
  length_locals := le.length_locals
  localSlot := le.localSlot
  depth := congrArg (· - count) le.depth
  slotAt depth := by
    rw [slotAt_drop, slotAt_drop]
    apply le.slotAt

/-- A result that has been pushed does not matter for the slots below it. -/
theorem stateLe_pushResult_iff {descriptor : MethodDescriptor} :
    hierarchy.StateLe (lower.pushResult descriptor) (upper.pushResult descriptor) ↔
      hierarchy.StateLe lower upper := by
  unfold SlotState.pushResult
  cases descriptor.result with
  | some type =>
      refine ⟨fun pushed => ?_, fun le => le.push _⟩
      rw [← drop_push lower (.ofFieldType type), ← drop_push upper (.ofFieldType type)]
      exact pushed.drop _
  | none => exact Iff.rfl

/-- Slots that two ordered states have at the same depths can be put on top of other ordered
states. -/
theorem StateLe.pushAll
    {base otherBase : SlotState}
    (le : hierarchy.StateLe base otherBase)
    (source : hierarchy.StateLe lower upper)
    (depths : List Nat) :
    hierarchy.StateLe { base with stack := base.stack.pushAll (depths.map lower.slotAt) }
      { otherBase with stack := otherBase.stack.pushAll (depths.map upper.slotAt) } := by
  induction depths with
  | nil =>
      have pushed : ∀ stack : Stack, stack.pushAll [] = stack := fun _ => Stack.ext rfl
      simpa [pushed] using le
  | cons depth depths hypothesis =>
      rw [List.map_cons, List.map_cons, pushAll_cons, pushAll_cons]
      exact hypothesis.pushSlot_iff.mpr (source.slotAt depth)

/-! ## Local variables -/

/-- A wide value is below nothing but itself and `top`. -/
theorem SlotLe.eq_or_eq_top_of_isWideSlot
    {lower upper : Slot}
    (le : hierarchy.SlotLe lower upper)
    (wide : isWideSlot lower = true) :
    upper = lower ∨ upper = some .top := by
  rcases slotLe_iff.mp le with rfl | rfl | isTop | ⟨_, _, rfl | ⟨_, rfl, _⟩⟩
  · cases wide
  · exact Or.inl rfl
  · exact Or.inr isTop
  · cases wide
  · cases wide

/-- Breaking wide values keeps the order. -/
theorem SlotLe.break
    {lower upper : Slot}
    (le : hierarchy.SlotLe lower upper) :
    hierarchy.SlotLe (if isWideSlot lower = true then some .top else lower)
      (if isWideSlot upper = true then some .top else upper) := by
  by_cases wide : isWideSlot upper = true
  · rw [if_pos wide]
    exact slotLe_top _
  · rw [if_neg wide]
    split
    next isWide =>
        rcases le.eq_or_eq_top_of_isWideSlot isWide with rfl | rfl
        · exact absurd isWide wide
        · exact SlotLe.refl _
    next => exact le

/-- Only the number of the variables and the one behind the written one can come out of
order in a store of ordered slots. -/
theorem StateLe.store_iff_behind
    (le : hierarchy.StateLe lower upper)
    {written other : Slot}
    (writtenLe : hierarchy.SlotLe written other)
    (index : Nat) :
    hierarchy.StateLe (lower.store index written) (upper.store index other) ↔
      (lower.store index written).locals.length = (upper.store index other).locals.length ∧
        hierarchy.SlotLe ((lower.store index written).localSlot (index + 1))
          ((upper.store index other).localSlot (index + 1)) := by
  constructor
  · exact fun stored => ⟨stored.length_locals, stored.localSlot (index + 1)⟩
  · rintro ⟨length_eq, behindLe⟩
    refine ⟨length_eq, fun place => ?_, le.depth, le.slotAt⟩
    by_cases here : place = index
    · subst here
      rw [localSlot_store_self, localSlot_store_self]
      exact writtenLe
    · by_cases behind : place = index + 1
      · exact behind ▸ behindLe
      · rw [localSlot_store_of_ne _ here behind, localSlot_store_of_ne _ here behind]
        by_cases before : place + 1 = index
        · simpa [before] using (le.localSlot place).break
        · simpa [before] using le.localSlot place

/-- A store of ordered slots keeps the order exactly if both are wide or none is, or else there
is a variable behind the written one, which is `top` unless the upper state makes it so. -/
theorem StateLe.store_iff
    (le : hierarchy.StateLe lower upper)
    {written other : Slot}
    (writtenLe : hierarchy.SlotLe written other)
    (index : Nat) :
    hierarchy.StateLe (lower.store index written) (upper.store index other) ↔
      isWideSlot written = isWideSlot other ∨
        index + 1 < upper.locals.length ∧
          (isWideSlot written = true → upper.localSlot (index + 1) = some .top) := by
  rw [le.store_iff_behind writtenLe, length_locals_store, length_locals_store, le.length_locals,
    localSlot_store_succ, localSlot_store_succ]
  have behind := le.localSlot (index + 1)
  -- the wide one of two unlike slots asks for a variable more than the other one
  have fits : ∀ length, max length (index + 2) = max length (index + 1) ↔ index + 1 < length := by
    omega
  cases wide : isWideSlot written <;> cases otherWide : isWideSlot other
  · simp [storedWidth, wide, otherWide, behind]
  · simpa [storedWidth, wide, otherWide, slotLe_top] using
      eq_comm.trans (fits upper.locals.length)
  · simp [storedWidth, wide, otherWide, top_slotLe_iff, fits]
  · simp [storedWidth, wide, otherWide, slotLe_top]

end Hierarchy

end StackMaps
